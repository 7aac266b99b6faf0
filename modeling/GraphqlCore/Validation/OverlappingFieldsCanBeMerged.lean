import GraphqlCore.Data.Attempt
import GraphqlCore.Language.Printer
import GraphqlCore.Utilities.SortValueNode
import GraphqlCore.Validation.ValidationContext

/-!
# Overlapping fields can be merged

The rule of `validation/rules/overlapping_fields_can_be_merged.py`.  A field map is
identified by the selection set under which it is cached, as there is one for each.
The functions that call each other are parameters of each other here (`Comparers`), and
are followed to a given depth of calls.
-/

namespace GraphqlCore.Validation

open Language

/-! ## Conflicts -/

mutual

/-- Reason is a text, or a nested list of conflicts. -/
inductive ConflictReasonMessage
  | text (message : Text)
  | subfields (reasons : List ConflictReason)

/-- Field name and reason. -/
inductive ConflictReason
  | mk (responseName : Text) (message : ConflictReasonMessage)

end

mutual

def reasonMessage : ConflictReasonMessage → Text
  | .text message => message
  | .subfields reasons => (str " and ").intercalate (subfieldMessages reasons)

def subfieldMessages : List ConflictReason → List Text
  | [] => []
  | .mk responseName message :: rest =>
      (str "subfields '" ++ responseName ++ str "' conflict because " ++
        reasonMessage message) :: subfieldMessages rest

end

structure Conflict where
  reason : ConflictReason
  fields1 : List FieldNode
  fields2 : List FieldNode

/-- What the rule reports, with the nodes. -/
inductive MergeError
  | fields (conflict : Conflict)
  | spreads (key1 key2 : Text) (node1 node2 : FragmentSpreadNode)

def MergeError.message : MergeError → Text
  | .fields ⟨.mk responseName message, _, _⟩ =>
      str "Fields '" ++ responseName ++ str "' conflict because " ++
        reasonMessage message ++
        str (". Use different aliases on the fields to fetch both" ++
          " if this was intentional.")
  | .spreads key1 key2 node1 _ =>
      str "Spreads '" ++ node1.name.value ++ str "' conflict because " ++ key1 ++
        str " and " ++ key2 ++ str " have different fragment arguments."

/-! ## Fields and fragment spreads -/

/-- A mapping of fragment variable names to their value nodes. -/
abbrev VarMap := Option (Dict Text ValueNode)

/-- A fragment spread with its conflict key and fragment variable map. -/
structure FragmentSpread where
  key : Text
  node : FragmentSpreadNode
  varMap : VarMap

/-- A field node in a context. -/
structure NodeAndDef where
  parentType : Option Text
  node : FieldNode
  fieldDef : Option GraphQLField

/-- The fields of a selection set by their response names. -/
structure FieldMap where
  origin : SelectionSetNode
  fields : Dict Text (List NodeAndDef)

/-- The fields and fragment spreads that have been found in a selection set. -/
structure FieldsAndSpreads where
  fields : Dict Text (List NodeAndDef) := Dict.empty
  fragmentSpreads : Dict Text FragmentSpread := Dict.empty

namespace FieldsAndSpreads

def addField (found : FieldsAndSpreads) (responseName : Text) (field : NodeAndDef) :
    FieldsAndSpreads :=
  { found with
    fields := found.fields.set responseName
      ((found.fields.get responseName).getD [] ++ [field]) }

def addSpread (found : FieldsAndSpreads) (spread : FragmentSpread) : FieldsAndSpreads :=
  { found with fragmentSpreads := found.fragmentSpreads.set spread.key spread }

end FieldsAndSpreads

mutual

/-- Replace fragment variable references in a value node using the variable map. -/
def replaceFragmentVariables (varMap : Dict Text ValueNode) : ValueNode → ValueNode
  | .variable node => (varMap.get node.name.value).getD (.variable node)
  | .list values loc => .list (replaceInValues varMap values) loc
  | .object fields loc => .object (replaceInFields varMap fields) loc
  | value => value

def replaceInValues (varMap : Dict Text ValueNode) : List ValueNode → List ValueNode
  | [] => []
  | value :: rest =>
      replaceFragmentVariables varMap value :: replaceInValues varMap rest

def replaceInFields (varMap : Dict Text ValueNode) :
    List ObjectFieldNode → List ObjectFieldNode
  | [] => []
  | ⟨name, value, loc⟩ :: rest =>
      ⟨name, replaceFragmentVariables varMap value, loc⟩ :: replaceInFields varMap rest

end

/-- Replace references where there is a variable map. -/
def replaceUsing (varMap : VarMap) (value : ValueNode) : ValueNode :=
  match varMap with
  | none => value
  | some varMap => replaceFragmentVariables varMap value

def stringifyValue (value : ValueNode) : Text := printValue (sortValueNode value)

def fragmentArguments (node : FragmentSpreadNode) : List (Text × ValueNode) :=
  (node.arguments.getD []).map fun arg => (arg.name.value, arg.value)

/-- The part of the conflict key and the binding of a variable of the fragment. -/
def bindVariable (varMap : VarMap) (argMap : Dict Text ValueNode)
    (bound : Text × Dict Text ValueNode) (definition : Text × VariableDefinitionNode) :
    Text × Dict Text ValueNode :=
  match argMap.get definition.1 with
  | some value =>
      (bound.1 ++ definition.1 ++ str ": " ++ stringifyValue value,
        bound.2.set definition.1 (replaceUsing varMap value))
  | none =>
      match definition.2.defaultValue with
      | some defaultValue => (bound.1, bound.2.set definition.1 defaultValue)
      | none => bound

/-- Build a fragment spread with a conflict key and resolved fragment variables. -/
def getFragmentSpread (context : ValidationContext) (node : FragmentSpreadNode)
    (varMap : VarMap) : FragmentSpread :=
  match context.getFragmentSignature node.name.value with
  | none => { key := node.name.value, node := node, varMap := none }
  | some fragmentSignature =>
      let argMap := (fragmentArguments node).foldl
        (fun argMap arg => argMap.set arg.1 arg.2) Dict.empty
      let (key, newVarMap) := fragmentSignature.variableDefinitions.items.foldl
        (bindVariable varMap argMap) (node.name.value ++ str "(", Dict.empty)
      { key := key ++ str ")"
        node := node
        varMap := if newVarMap.items.isEmpty then none else some newVarMap }

def getResponseName (node : FieldNode) : Text :=
  match node.fieldAlias with
  | some name => name.value
  | none => node.name.value

/-- The field in the context of its parent type. -/
def nodeAndDef (context : ValidationContext) (parentType : Option Text)
    (node : FieldNode) : NodeAndDef where
  parentType := parentType
  node := node
  fieldDef := parentType.bind fun parentType =>
    (context.schema.fieldsOf parentType).get node.name.value

def inlineFragmentType (context : ValidationContext) (parentType : Option Text)
    (typeCondition : Option NamedTypeNode) : Option Text :=
  match typeCondition with
  | some typeCondition => typeFromAst context.schema typeCondition
  | none => parentType

mutual

def collectFieldsAndFragmentSpread (context : ValidationContext)
    (parentType : Option Text) (varMap : VarMap) :
    SelectionNode → FieldsAndSpreads → FieldsAndSpreads
  | .field node, found =>
      found.addField (getResponseName node) (nodeAndDef context parentType node)
  | .fragmentSpread node, found =>
      found.addSpread (getFragmentSpread context node varMap)
  | .inlineFragment ⟨typeCondition, _, ⟨selections, _⟩, _⟩, found =>
      collectFieldsAndFragmentSpreads context
        (inlineFragmentType context parentType typeCondition) varMap selections found

def collectFieldsAndFragmentSpreads (context : ValidationContext)
    (parentType : Option Text) (varMap : VarMap) :
    List SelectionNode → FieldsAndSpreads → FieldsAndSpreads
  | [], found => found
  | selection :: rest, found =>
      collectFieldsAndFragmentSpreads context parentType varMap rest
        (collectFieldsAndFragmentSpread context parentType varMap selection found)

end

/-! ## Pairs that have been compared -/

/-- Pairs that are weakly or strongly present. -/
abbrev OrderedPairSet (α : Type) := Dict (α × Text) Bool

namespace OrderedPairSet

variable {α : Type} [DecidableEq α]

def has (pairs : OrderedPairSet α) (a : α) (b : Text) (weaklyPresent : Bool) : Bool :=
  match pairs.get (a, b) with
  | none => false
  | some result => if weaklyPresent then true else weaklyPresent = result

def add (pairs : OrderedPairSet α) (a : α) (b : Text) (weaklyPresent : Bool) :
    OrderedPairSet α :=
  pairs.set (a, b) weaklyPresent

end OrderedPairSet

/-- Pairs of which the ordering does not matter. -/
abbrev PairSet := OrderedPairSet Text

namespace PairSet

/-- The first key is the smaller one. -/
def sorted (a b : Text) : Text × Text := if textLe b a then (b, a) else (a, b)

def has (pairs : PairSet) (a b : Text) (areMutuallyExclusive : Bool) : Bool :=
  OrderedPairSet.has pairs (sorted a b).1 (sorted a b).2 areMutuallyExclusive

def add (pairs : PairSet) (a b : Text) (areMutuallyExclusive : Bool) : PairSet :=
  OrderedPairSet.add pairs (sorted a b).1 (sorted a b).2 areMutuallyExclusive

end PairSet

/-! ## The state of the rule -/

structure MergeState where
  cachedFieldsAndFragmentSpreads :
    Dict SelectionSetNode (FieldMap × List FragmentSpread) := Dict.empty
  comparedFieldsAndFragmentPairs : OrderedPairSet SelectionSetNode := Dict.empty
  comparedFragmentPairs : PairSet := Dict.empty
  reported : List MergeError := []

/-- Calls are nested deeper than the model follows them. -/
inductive TooDeep
  | tooDeep

abbrev Run (α : Type) := Attempt MergeState TooDeep α

def reportError (error : MergeError) : Run Unit :=
  .modify fun s => { s with reported := s.reported ++ [error] }

/-- Given a selection set, return the collection of fields as well as a list of fragment
spreads, which are cached. -/
def getFieldsAndFragmentSpreads (context : ValidationContext)
    (parentType : Option Text) (selectionSet : SelectionSetNode) (varMap : VarMap) :
    Run (FieldMap × List FragmentSpread) :=
  .state fun s =>
    match s.cachedFieldsAndFragmentSpreads.get selectionSet with
    | some cached => (cached, s)
    | none =>
        let found := collectFieldsAndFragmentSpreads context parentType varMap
          selectionSet.selections {}
        let cached := (⟨selectionSet, found.fields⟩, found.fragmentSpreads.values)
        (cached,
          { s with
            cachedFieldsAndFragmentSpreads :=
              s.cachedFieldsAndFragmentSpreads.set selectionSet cached })

/-- Given a reference to a fragment, return the represented collection of fields as well
as a list of nested fragment spreads. -/
def getReferencedFieldsAndFragmentSpreads (context : ValidationContext)
    (fragment : FragmentDefinitionNode) (varMap : VarMap) :
    Run (FieldMap × List FragmentSpread) :=
  getFieldsAndFragmentSpreads context
    (typeFromAst context.schema fragment.typeCondition) fragment.selectionSet varMap

/-- Memoize the comparison, and return whether it was there before. -/
def memoizeFieldsAndFragment (fieldMap : FieldMap) (key : Text)
    (areMutuallyExclusive : Bool) : Run Bool :=
  .state fun s =>
    if s.comparedFieldsAndFragmentPairs.has fieldMap.origin key areMutuallyExclusive then
      (true, s)
    else (false,
      { s with
        comparedFieldsAndFragmentPairs := s.comparedFieldsAndFragmentPairs.add
          fieldMap.origin key areMutuallyExclusive })

def memoizeFragments (key1 key2 : Text) (areMutuallyExclusive : Bool) : Run Bool :=
  .state fun s =>
    if PairSet.has s.comparedFragmentPairs key1 key2 areMutuallyExclusive then (true, s)
    else (false,
      { s with
        comparedFragmentPairs :=
          PairSet.add s.comparedFragmentPairs key1 key2 areMutuallyExclusive })

/-! ## Comparing two fields -/

def sameArguments (args1 : List (Text × ValueNode)) (varMap1 : VarMap)
    (args2 : List (Text × ValueNode)) (varMap2 : VarMap) : Bool :=
  if args1.isEmpty then args2.isEmpty
  else if args2.isEmpty then false
  else if args1.length ≠ args2.length then false
  else
    let values2 := args2.foldl
      (fun values arg => values.set arg.1 (replaceUsing varMap2 arg.2)) Dict.empty
    args1.all fun arg1 =>
      match values2.get arg1.1 with
      | none => false
      | some value2 =>
          stringifyValue (replaceUsing varMap1 arg1.2) = stringifyValue value2

def argumentValues (arguments : Option (List ArgumentNode)) : List (Text × ValueNode) :=
  (arguments.getD []).map fun arg => (arg.name.value, arg.value)

def getStreamDirective (directives : Option (List DirectiveNode)) :
    Option DirectiveNode :=
  (directives.getD []).find? fun directive => directive.name.value = str "stream"

def sameStreams (directives1 directives2 : Option (List DirectiveNode)) : Bool :=
  match getStreamDirective directives1, getStreamDirective directives2 with
  | none, none => true
  | some stream1, some stream2 =>
      sameArguments (argumentValues stream1.arguments) none
        (argumentValues stream2.arguments) none
  | _, _ => false

/-- Check whether two types conflict.  Composite types are ignored as their individual
field types will be compared later recursively. -/
def doTypesConflict (schema : GraphQLSchema) : GraphQLType → GraphQLType → Bool
  | .list type1, .list type2 => doTypesConflict schema type1 type2
  | .list _, _ => true
  | _, .list _ => true
  | .nonNull type1, .nonNull type2 => doTypesConflict schema type1 type2
  | .nonNull _, _ => true
  | _, .nonNull _ => true
  | .named name1, .named name2 =>
      (schema.isLeafType name1 || schema.isLeafType name2) && name1 ≠ name2

/-- The parent types of the two fields are different object types. -/
def areParentsExclusive (schema : GraphQLSchema) (parentType1 parentType2 : Option Text) :
    Bool :=
  match parentType1, parentType2 with
  | some name1, some name2 =>
      name1 ≠ name2 && schema.isObjectType name1 && schema.isObjectType name2
  | _, _ => false

/-- The conflict of the two fields themselves, in the order of the checks. -/
def findFieldConflict (schema : GraphQLSchema) (areMutuallyExclusive : Bool)
    (field1 : NodeAndDef) (varMap1 : VarMap) (field2 : NodeAndDef) (varMap2 : VarMap) :
    Option Text :=
  let name1 := field1.node.name.value
  let name2 := field2.node.name.value
  if !areMutuallyExclusive && name1 ≠ name2 then
    some (str "'" ++ name1 ++ str "' and '" ++ name2 ++ str "' are different fields")
  else if !areMutuallyExclusive && !sameArguments (argumentValues field1.node.arguments)
      varMap1 (argumentValues field2.node.arguments) varMap2 then
    some (str "they have differing arguments")
  else if !sameStreams field1.node.directives field2.node.directives then
    some (str "they have differing stream directives")
  else match field1.fieldDef, field2.fieldDef with
    | some def1, some def2 =>
        if doTypesConflict schema def1.type def2.type then
          some (str "they return conflicting types '" ++ def1.type.print ++
            str "' and '" ++ def2.type.print ++ str "'")
        else none
    | _, _ => none

/-- Given a series of conflicts which occurred between two sub-fields, generate a single
conflict. -/
def subfieldConflicts (conflicts : List Conflict) (responseName : Text)
    (node1 node2 : FieldNode) : Option Conflict :=
  if conflicts.isEmpty then none
  else some
    { reason := .mk responseName (.subfields (conflicts.map Conflict.reason))
      fields1 := node1 :: conflicts.flatMap Conflict.fields1
      fields2 := node2 :: conflicts.flatMap Conflict.fields2 }

def NodeAndDef.namedType (field : NodeAndDef) : Option Text :=
  field.fieldDef.map fun fieldDef => fieldDef.type.getNamedType

/-! ## Comparing selection sets and fragments -/

/-- The functions that compare sets of fields and fragments. -/
structure Comparers where
  betweenFieldsAndFragment : Bool → FieldMap → FragmentSpread → Run (List Conflict)
  betweenFragments : Bool → FragmentSpread → FragmentSpread → Run (List Conflict)
  betweenSubSelectionSets : Bool → Option Text → SelectionSetNode → VarMap →
    Option Text → SelectionSetNode → VarMap → Run (List Conflict)

section Comparing

variable (context : ValidationContext) (compare : Comparers)

/-- Determines if there is a conflict between two particular fields, including comparing
their sub-fields. -/
def findConflict (parentFieldsAreMutuallyExclusive : Bool) (responseName : Text)
    (field1 : NodeAndDef) (varMap1 : VarMap) (field2 : NodeAndDef) (varMap2 : VarMap) :
    Run (Option Conflict) :=
  let areMutuallyExclusive := parentFieldsAreMutuallyExclusive ||
    areParentsExclusive context.schema field1.parentType field2.parentType
  match findFieldConflict context.schema areMutuallyExclusive field1 varMap1 field2
      varMap2 with
  | some message =>
      return some ⟨.mk responseName (.text message), [field1.node], [field2.node]⟩
  | none =>
      match field1.node.selectionSet, field2.node.selectionSet with
      | some selectionSet1, some selectionSet2 => do
          let conflicts ← compare.betweenSubSelectionSets areMutuallyExclusive
            field1.namedType selectionSet1 varMap1 field2.namedType selectionSet2 varMap2
          return subfieldConflicts conflicts responseName field1.node field2.node
      | _, _ => return none

/-- Collect all conflicts between two collections of fields. -/
def collectConflictsBetween (parentFieldsAreMutuallyExclusive : Bool)
    (fieldMap1 : FieldMap) (varMap1 : VarMap) (fieldMap2 : FieldMap) (varMap2 : VarMap) :
    Run (List Conflict) :=
  .flatMap (fun (responseName, fields1) =>
    .flatMap (fun field1 =>
      .flatMap (fun field2 => Option.toList <$>
        findConflict context compare parentFieldsAreMutuallyExclusive responseName
          field1 varMap1 field2 varMap2)
        ((fieldMap2.fields.get responseName).getD []))
      fields1)
    fieldMap1.fields.items

/-- The elements with those that come after them. -/
def pairs {α : Type} : List α → List (α × α)
  | [] => []
  | a :: rest => rest.map (a, ·) ++ pairs rest

/-- Collect all conflicts within one collection of fields. -/
def collectConflictsWithin (fieldMap : FieldMap) : Run (List Conflict) :=
  .flatMap (fun (responseName, fields) =>
    .flatMap (fun (field, otherField) => Option.toList <$>
      findConflict context compare false responseName field none otherField none)
      (pairs fields))
    fieldMap.fields.items

/-- Collect all conflicts between a set of fields and a fragment reference including via
spreading in any nested fragments. -/
def collectConflictsBetweenFieldsAndFragment (areMutuallyExclusive : Bool)
    (fieldMap : FieldMap) (fragmentSpread : FragmentSpread) : Run (List Conflict) := do
  if ← memoizeFieldsAndFragment fieldMap fragmentSpread.key areMutuallyExclusive then
    return []
  match context.getFragment fragmentSpread.node.name.value with
  | none => return []
  | some fragment => do
      let (fieldMap2, referencedFragmentSpreads) ←
        getReferencedFieldsAndFragmentSpreads context fragment fragmentSpread.varMap
      if fieldMap.origin = fieldMap2.origin then return []
      let conflicts ← collectConflictsBetween context compare areMutuallyExclusive
        fieldMap none fieldMap2 fragmentSpread.varMap
      let nested ← .flatMap
        (compare.betweenFieldsAndFragment areMutuallyExclusive fieldMap)
        referencedFragmentSpreads
      return conflicts ++ nested

/-- Collect all conflicts between two fragments, including via spreading in any nested
fragments. -/
def collectConflictsBetweenFragments (areMutuallyExclusive : Bool)
    (fragmentSpread1 fragmentSpread2 : FragmentSpread) : Run (List Conflict) := do
  if fragmentSpread1.key = fragmentSpread2.key then return []
  if fragmentSpread1.node.name.value = fragmentSpread2.node.name.value &&
      !sameArguments (fragmentArguments fragmentSpread1.node) fragmentSpread1.varMap
        (fragmentArguments fragmentSpread2.node) fragmentSpread2.varMap then
    reportError (.spreads fragmentSpread1.key fragmentSpread2.key fragmentSpread1.node
      fragmentSpread2.node)
    return []
  if ← memoizeFragments fragmentSpread1.key fragmentSpread2.key areMutuallyExclusive then
    return []
  match context.getFragment fragmentSpread1.node.name.value,
      context.getFragment fragmentSpread2.node.name.value with
  | some fragment1, some fragment2 => do
      let (fieldMap1, referencedFragmentSpreads1) ←
        getReferencedFieldsAndFragmentSpreads context fragment1 fragmentSpread1.varMap
      let (fieldMap2, referencedFragmentSpreads2) ←
        getReferencedFieldsAndFragmentSpreads context fragment2 fragmentSpread2.varMap
      let conflicts ← collectConflictsBetween context compare areMutuallyExclusive
        fieldMap1 fragmentSpread1.varMap fieldMap2 fragmentSpread2.varMap
      let nested2 ← .flatMap
        (compare.betweenFragments areMutuallyExclusive fragmentSpread1)
        referencedFragmentSpreads2
      let nested1 ← .flatMap
        (fun referencedFragmentSpread1 => compare.betweenFragments areMutuallyExclusive
          referencedFragmentSpread1 fragmentSpread2)
        referencedFragmentSpreads1
      return conflicts ++ nested2 ++ nested1
  | _, _ => return []

/-- Find all conflicts found between two selection sets, including those found via
spreading in fragments. -/
def findConflictsBetweenSubSelectionSets (areMutuallyExclusive : Bool)
    (parentType1 : Option Text) (selectionSet1 : SelectionSetNode) (varMap1 : VarMap)
    (parentType2 : Option Text) (selectionSet2 : SelectionSetNode) (varMap2 : VarMap) :
    Run (List Conflict) := do
  let (fieldMap1, fragmentSpreads1) ←
    getFieldsAndFragmentSpreads context parentType1 selectionSet1 varMap1
  let (fieldMap2, fragmentSpreads2) ←
    getFieldsAndFragmentSpreads context parentType2 selectionSet2 varMap2
  let conflicts ← collectConflictsBetween context compare areMutuallyExclusive
    fieldMap1 varMap1 fieldMap2 varMap2
  let conflicts1 ← .flatMap
    (compare.betweenFieldsAndFragment areMutuallyExclusive fieldMap1) fragmentSpreads2
  let conflicts2 ← .flatMap
    (compare.betweenFieldsAndFragment areMutuallyExclusive fieldMap2) fragmentSpreads1
  let conflicts12 ← .flatMap (fun fragmentSpread1 =>
    .flatMap (compare.betweenFragments areMutuallyExclusive fragmentSpread1)
      fragmentSpreads2) fragmentSpreads1
  return conflicts ++ conflicts1 ++ conflicts2 ++ conflicts12

/-- The comparisons of a fragment with the fields and with the fragments after it. -/
def compareFragmentSpreads (fieldMap : FieldMap) :
    List FragmentSpread → Run (List Conflict)
  | [] => return []
  | fragmentSpread :: rest => do
      let conflicts ← compare.betweenFieldsAndFragment false fieldMap fragmentSpread
      let conflicts' ← .flatMap (compare.betweenFragments false fragmentSpread) rest
      let conflicts'' ← compareFragmentSpreads fieldMap rest
      return conflicts ++ conflicts' ++ conflicts''

/-- Find all conflicts found "within" a selection set, including those found via
spreading in fragments. -/
def findConflictsWithinSelectionSet (parentType : Option Text)
    (selectionSet : SelectionSetNode) : Run (List Conflict) := do
  let (fieldMap, fragmentSpreads) ←
    getFieldsAndFragmentSpreads context parentType selectionSet none
  let conflicts ← collectConflictsWithin context compare fieldMap
  let conflicts' ← compareFragmentSpreads compare fieldMap fragmentSpreads
  return conflicts ++ conflicts'

end Comparing

/-- The functions that call each other, to the given depth of calls. -/
def comparers (context : ValidationContext) : ℕ → Comparers
  | 0 =>
      { betweenFieldsAndFragment := fun _ _ _ => .throw .tooDeep
        betweenFragments := fun _ _ _ => .throw .tooDeep
        betweenSubSelectionSets := fun _ _ _ _ _ _ _ => .throw .tooDeep }
  | depth + 1 =>
      { betweenFieldsAndFragment :=
          collectConflictsBetweenFieldsAndFragment context (comparers context depth)
        betweenFragments :=
          collectConflictsBetweenFragments context (comparers context depth)
        betweenSubSelectionSets :=
          findConflictsBetweenSubSelectionSets context (comparers context depth) }

/-! ## The rule -/

/-- A selection set is entered, and its conflicts are reported. -/
def enterSelectionSet (context : ValidationContext) (depth : ℕ)
    (entered : Option Text × SelectionSetNode) : Run (List Unit) := do
  let conflicts ← findConflictsWithinSelectionSet context (comparers context depth)
    entered.1 entered.2
  .flatMap (fun conflict => do
    reportError (.fields conflict)
    return []) conflicts

/-- The errors that the rule reports for the document, `none` where calls are nested
too deep. -/
def overlappingFieldsCanBeMerged (context : ValidationContext) (depth : ℕ) :
    Option (List MergeError) :=
  match Attempt.flatMap (enterSelectionSet context depth) context.enterDocument {} with
  | (.ok _, s) => some s.reported
  | (.error .tooDeep, _) => none

end GraphqlCore.Validation
