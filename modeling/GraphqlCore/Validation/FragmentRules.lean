import GraphqlCore.Execution.ArgumentValues
import GraphqlCore.Execution.CollectFields
import GraphqlCore.Language.Printer
import GraphqlCore.Type.Scalars
import GraphqlCore.Validation.ValidationContext

/-!
# Rules that follow fragments

The rules in `validation/rules` that walk from an operation or a fragment to the
fragments it spreads: `DeferStreamDirectiveOnRootField`,
`DeferStreamDirectiveOnValidOperationsRule`, `SingleFieldSubscriptionsRule`,
`NoFragmentCyclesRule` and `MaxIntrospectionDepthRule`.  What is handed to
`report_error` is collected; that validation stops after a number of errors is left out.

Each walk is given a depth to which it follows spreads.
-/

namespace GraphqlCore.Validation

open Language Execution

/-! ## Errors -/

/-- A node that an error refers to. -/
inductive ErrorNode
  | directive (node : DirectiveNode)
  | fragmentSpread (node : FragmentSpreadNode)
  | field (node : FieldNode)

/-- An error that is reported. -/
structure RuleError where
  message : Text
  nodes : List ErrorNode

/-- Why a rule ends without having visited all: an exception is raised, or the spreads
are nested deeper than they are followed. -/
inductive RuleFailure
  | graphQLError (error : Execution.GraphQLError)
  | keyError (name : Text)
  | indexError
  | tooDeep

def operationDefinitions (document : DocumentNode) : List OperationDefinitionNode :=
  document.definitions.filterMap fun
    | .operation node => some node
    | _ => none

/-- The errors reported where the operations of the document are entered. -/
def enterOperations (document : DocumentNode)
    (enter : OperationDefinitionNode → Except RuleFailure (List RuleError)) :
    Except RuleFailure (List RuleError) :=
  (operationDefinitions document).foldlM (fun errors operation => do
    let new ← enter operation
    return errors ++ new) []

/-- The fragments that a walk has visited, and the errors it has reported. -/
structure Walk where
  visitedFragments : List Text := []
  errors : List RuleError := []

namespace Walk

def visit (w : Walk) (name : Text) : Walk :=
  { w with visitedFragments := name :: w.visitedFragments }

def report (w : Walk) (errors : List RuleError) : Walk :=
  { w with errors := w.errors ++ errors }

end Walk

/-! ## Defer and stream on root fields -/

namespace DeferStreamDirectiveOnRootField

variable (context : ValidationContext) (operationType : OperationType) (rootType : Text)

/-- The error for the directive of that name, if it is there. -/
def forbidDirective (label : Text) (name : Text)
    (directives : Option (List DirectiveNode)) : List RuleError :=
  match findDirective directives name with
  | none => []
  | some directive =>
      [{ message := label ++ str " directive cannot be used on root " ++
          operationType.value ++ str " type '" ++ rootType ++ str "'."
         nodes := [.directive directive] }]

def forbidStream : Option (List DirectiveNode) → List RuleError :=
  forbidDirective operationType rootType (str "Stream") (str "stream")

def forbidDefer : Option (List DirectiveNode) → List RuleError :=
  forbidDirective operationType rootType (str "Defer") graphQLDeferDirective.name

mutual

/-- The body of the loop of `forbid_defer_stream`.  A fragment counts as visited when it
has been walked through. -/
def forbidSelection (follow : List SelectionNode → Walk → Except RuleFailure Walk) :
    SelectionNode → Walk → Except RuleFailure Walk
  | .field node, w => .ok (w.report (forbidStream operationType rootType node.directives))
  | .fragmentSpread node, w =>
      if node.name.value ∈ w.visitedFragments then .ok w
      else match context.getFragment node.name.value with
        | none => .ok (w.visit node.name.value)
        | some fragment => do
            let w ← follow fragment.selectionSet.selections
              (w.report (forbidDefer operationType rootType node.directives))
            return w.visit node.name.value
  | .inlineFragment ⟨_, directives, ⟨selections, _⟩, _⟩, w =>
      forbidSelections follow selections
        (w.report (forbidDefer operationType rootType directives))

def forbidSelections (follow : List SelectionNode → Walk → Except RuleFailure Walk) :
    List SelectionNode → Walk → Except RuleFailure Walk
  | [], w => .ok w
  | selection :: rest, w => do
      let w ← forbidSelection follow selection w
      forbidSelections follow rest w

end

def forbidDeferStream : ℕ → List SelectionNode → Walk → Except RuleFailure Walk
  | 0 => fun _ _ => .error .tooDeep
  | depth + 1 => forbidSelections context operationType rootType
      (forbidDeferStream depth)

def enterOperationDefinition (depth : ℕ) (node : OperationDefinitionNode) :
    Except RuleFailure (List RuleError) :=
  if node.operation = .query then .ok []
  else match context.schema.operationRootType node.operation with
    | none => .ok []
    | some rootType => do
        let w ← forbidDeferStream context node.operation rootType depth
          node.selectionSet.selections {}
        return w.errors

/-- Defer and stream directives are used on valid root field. -/
def rule (context : ValidationContext) (depth : ℕ) :
    Except RuleFailure (List RuleError) :=
  enterOperations context.document (enterOperationDefinition context depth)

end DeferStreamDirectiveOnRootField

/-! ## Defer and stream on valid operations -/

namespace DeferStreamDirectiveOnValidOperationsRule

def getIfArgument (node : DirectiveNode) : Option ArgumentNode :=
  (node.arguments.getD []).find? fun argument => argument.name.value = str "if"

def ifArgumentCanBeFalse (node : DirectiveNode) : Bool :=
  match getIfArgument node with
  | none => false
  | some ifArgument =>
      match ifArgument.value with
      | .boolean value _ => !value
      | .variable _ => true
      | _ => false

def canBeSkippedViaSkipDirective (node : DirectiveNode) : Bool :=
  match getIfArgument node with
  | none => true
  | some ifArgument =>
      match ifArgument.value with
      | .boolean value _ => value
      | _ => true

def canBeSkippedViaIncludeDirective (node : DirectiveNode) : Bool :=
  match getIfArgument node with
  | none => false
  | some ifArgument =>
      match ifArgument.value with
      | .boolean value _ => !value
      | _ => true

/-- Can the selection be left out? -/
def canBeSkipped (directives : Option (List DirectiveNode)) : Bool :=
  (findDirective directives graphQLSkipDirective.name).any
      canBeSkippedViaSkipDirective ||
    (findDirective directives graphQLIncludeDirective.name).any
      canBeSkippedViaIncludeDirective

/-- The error for a directive that defers or streams in any case. -/
def forbidDirective (parentNodes : List FragmentSpreadNode) (directive : DirectiveNode) :
    List RuleError :=
  let unsupported (label name : Text) : List RuleError :=
    if ifArgumentCanBeFalse directive then []
    else [{ message := label ++ str " directive not supported on subscription operations." ++
              str " Disable `@" ++ name ++ str "` by setting the `if` argument to `false`."
            nodes := .directive directive :: parentNodes.map .fragmentSpread }]
  if directive.name.value = graphQLDeferDirective.name then
    unsupported (str "Defer") (str "defer")
  else if directive.name.value = str "stream" then
    unsupported (str "Stream") (str "stream")
  else []

def forbidDirectives (parentNodes : List FragmentSpreadNode)
    (directives : Option (List DirectiveNode)) : List RuleError :=
  (directives.getD []).flatMap (forbidDirective parentNodes)

/-- How the selections of a fragment are walked through, after the spreads that lead
to it. -/
abbrev Follow := List FragmentSpreadNode → List SelectionNode → Walk →
  Except RuleFailure Walk

variable (context : ValidationContext)

mutual

/-- The body of the loop of `forbid_unconditional_defer_stream`.  A fragment counts as
visited from its first spread on. -/
def forbidSelection (follow : Follow) (parentNodes : List FragmentSpreadNode) :
    SelectionNode → Walk → Except RuleFailure Walk
  | .field ⟨_, _, _, directives, selectionSet, _⟩, w =>
      if canBeSkipped directives then .ok w
      else forbidSubselections follow parentNodes selectionSet
        (w.report (forbidDirectives parentNodes directives))
  | .fragmentSpread node, w =>
      if canBeSkipped node.directives then .ok w
      else
        let w := w.report (forbidDirectives parentNodes node.directives)
        if node.name.value ∈ w.visitedFragments then .ok w
        else match context.getFragment node.name.value with
          | none => .ok (w.visit node.name.value)
          | some fragment =>
              follow (node :: parentNodes) fragment.selectionSet.selections
                (w.visit node.name.value)
  | .inlineFragment ⟨_, directives, ⟨selections, _⟩, _⟩, w =>
      if canBeSkipped directives then .ok w
      else forbidSelections follow parentNodes selections
        (w.report (forbidDirectives parentNodes directives))

def forbidSubselections (follow : Follow) (parentNodes : List FragmentSpreadNode) :
    Option SelectionSetNode → Walk → Except RuleFailure Walk
  | none, w => .ok w
  | some ⟨selections, _⟩, w => forbidSelections follow parentNodes selections w

def forbidSelections (follow : Follow) (parentNodes : List FragmentSpreadNode) :
    List SelectionNode → Walk → Except RuleFailure Walk
  | [], w => .ok w
  | selection :: rest, w => do
      let w ← forbidSelection follow parentNodes selection w
      forbidSelections follow parentNodes rest w

end

def forbidUnconditionalDeferStream : ℕ → Follow
  | 0 => fun _ _ _ => .error .tooDeep
  | depth + 1 => forbidSelections context (forbidUnconditionalDeferStream depth)

def enterOperationDefinition (depth : ℕ) (operation : OperationDefinitionNode) :
    Except RuleFailure (List RuleError) :=
  if operation.operation ≠ .subscription then .ok []
  else do
    let w ← forbidUnconditionalDeferStream context depth []
      operation.selectionSet.selections {}
    return w.errors

/-- Defer and stream directives are used on valid operations. -/
def rule (context : ValidationContext) (depth : ℕ) :
    Except RuleFailure (List RuleError) :=
  enterOperations context.document (enterOperationDefinition context depth)

end DeferStreamDirectiveOnValidOperationsRule

/-! ## Single field subscriptions -/

namespace SingleFieldSubscriptionsRule

def toNodes (fieldDetailsList : List FieldDetails) : List FieldNode :=
  fieldDetailsList.map FieldDetails.node

/-- The fragments of the document, without signatures of their variables. -/
def fragments (document : DocumentNode) : Dict Text FragmentDetails :=
  (fragmentDefinitions document).foldl
    (fun fragments definition => fragments.set definition.name.value
      { definition := definition }) Dict.empty

/-- The fields of a subscription are collected without any variables. -/
def collectContext (context : ValidationContext) (subscriptionType : Text) :
    CollectFieldsContext where
  schema := context.schema
  fragments := fragments context.document
  variableValues := { sources := [], coerced := Dict.empty }
  runtimeType := subscriptionType
  forbidSkipAndInclude := true
  coercion := coercionOf directiveArgumentTypes 0

def subscriptionName (node : OperationDefinitionNode) : Text :=
  match node.name with
  | none => str "Anonymous Subscription"
  | some name => str "Subscription '" ++ name.value ++ str "'"

def forbiddenDirectives (node : OperationDefinitionNode) (c : Collection) : RuleError where
  message := subscriptionName node ++
    str " must not use `@skip` or `@include` directives in the top level selection."
  nodes := c.forbiddenDirectiveInstances.map .directive

/-- The errors for more than one field, and for introspection fields. -/
def fieldErrors (node : OperationDefinitionNode) (c : Collection) : List RuleError :=
  let fieldDetailsLists := c.groupedFieldSet.values
  let extraFieldSelection := (fieldDetailsLists.drop 1).flatMap toNodes
  let single := if fieldDetailsLists.length > 1 then
      [{ message := subscriptionName node ++ str " must select only one top level field."
         nodes := extraFieldSelection.map .field }]
    else []
  let introspection (fieldDetailsList : List FieldDetails) : List RuleError :=
    match toNodes fieldDetailsList with
    | [] => []
    | first :: _ =>
        if (str "__").isPrefixOf first.name.value then
          [{ message := subscriptionName node ++
              str " must not select an introspection top level field."
             nodes := (toNodes fieldDetailsList).map .field }]
        else []
  single ++ fieldDetailsLists.flatMap introspection

def enterOperationDefinition (context : ValidationContext)
    (node : OperationDefinitionNode) : Except RuleFailure (List RuleError) :=
  if node.operation ≠ .subscription then .ok []
  else match context.schema.subscriptionType with
    | none => .ok []
    | some subscriptionType =>
        match collectFields (collectContext context subscriptionType) node.selectionSet with
        | .error (.raised error) => .error (.graphQLError error)
        | .error .tooDeep => .error .tooDeep
        | .ok c =>
            if c.forbiddenDirectiveInstances.isEmpty then .ok (fieldErrors node c)
            else .ok [forbiddenDirectives node c]

/-- Subscriptions must only include a single non-introspection field. -/
def rule (context : ValidationContext) : Except RuleFailure (List RuleError) :=
  enterOperations context.document (enterOperationDefinition context)

end SingleFieldSubscriptionsRule

/-! ## No fragment cycles -/

namespace NoFragmentCyclesRule

/-- The attributes of the rule, and the errors it has reported. -/
structure State where
  visitedFrags : List Text := []
  spreadPath : List FragmentSpreadNode := []
  spreadPathIndexByName : Dict Text ℕ := Dict.empty
  errors : List RuleError := []

namespace State

def push (s : State) (spreadNode : FragmentSpreadNode) : State :=
  { s with spreadPath := s.spreadPath ++ [spreadNode] }

def pop (s : State) : Except RuleFailure State :=
  if s.spreadPath.isEmpty then .error .indexError
  else .ok { s with spreadPath := s.spreadPath.dropLast }

/-- The fragment is visited, with the spreads on the path before it. -/
def enter (s : State) (name : Text) : State :=
  { s with
    spreadPathIndexByName := s.spreadPathIndexByName.set name s.spreadPath.length }

def leave (s : State) (name : Text) : Except RuleFailure State :=
  match s.spreadPathIndexByName.get name with
  | none => .error (.keyError name)
  | some _ => .ok { s with spreadPathIndexByName := s.spreadPathIndexByName.pop name }

/-- The error for a cycle of the path that begins at the index. -/
def reportCycle (s : State) (spreadName : Text) (cycleIndex : ℕ) : State :=
  let cyclePath := s.spreadPath.drop cycleIndex
  let viaPath := (str ", ").intercalate
    (cyclePath.dropLast.map fun spread => str "'" ++ spread.name.value ++ str "'")
  { s with
    errors := s.errors ++
      [{ message := str "Cannot spread fragment '" ++ spreadName ++
          str "' within itself" ++
          (if viaPath.isEmpty then str "." else str " via " ++ viaPath ++ str ".")
         nodes := cyclePath.map .fragmentSpread }] }

end State

/-- The spreads among the selections themselves. -/
def ownSpreads (selections : List SelectionNode) : List FragmentSpreadNode :=
  selections.filterMap fun
    | .fragmentSpread node => some node
    | _ => none

/-- The selection sets of the selections themselves. -/
def ownSelectionSets (selections : List SelectionNode) : List SelectionSetNode :=
  selections.filterMap fun
    | .field node => node.selectionSet
    | .fragmentSpread _ => none
    | .inlineFragment node => some node.selectionSet

theorem sizeOf_ownSelectionSets_lt (selections : List SelectionNode) :
    ((ownSelectionSets selections).map sizeOf).sum < sizeOf selections := by
  induction selections with
  | nil => simp [ownSelectionSets]
  | cons selection rest ih =>
      unfold ownSelectionSets at ih ⊢
      cases selection with
      | field node =>
          obtain ⟨_, _, _, _, selectionSet, _⟩ := node
          cases selectionSet <;> simp <;> omega
      | fragmentSpread node => simp; omega
      | inlineFragment node =>
          obtain ⟨_, _, _, _⟩ := node
          simp
          omega

/-- The loop of `get_fragment_spreads`: the selection sets to visit are a stack. -/
def visitSets (setsToVisit : List SelectionSetNode) : List FragmentSpreadNode :=
  match setsToVisit with
  | [] => []
  | ⟨selections, _⟩ :: rest =>
      have := sizeOf_ownSelectionSets_lt selections
      ownSpreads selections ++ visitSets ((ownSelectionSets selections).reverse ++ rest)
termination_by (setsToVisit.map sizeOf).sum
decreasing_by
  simp
  omega

def getFragmentSpreads (node : SelectionSetNode) : List FragmentSpreadNode :=
  visitSets [node]

variable (context : ValidationContext)

/-- A spread that is on the path leads to its fragment, or closes a cycle. -/
def enterSpread (detect : FragmentDefinitionNode → State → Except RuleFailure State)
    (s : State) (spreadNode : FragmentSpreadNode) : Except RuleFailure State :=
  let spreadName := spreadNode.name.value
  match s.spreadPathIndexByName.get spreadName with
  | none =>
      match context.getFragment spreadName with
      | none => .ok (s.push spreadNode)
      | some spreadFragment => detect spreadFragment (s.push spreadNode)
  | some cycleIndex => .ok ((s.push spreadNode).reportCycle spreadName cycleIndex)

/-- The body of the loop over the spreads of a fragment. -/
def followSpread (detect : FragmentDefinitionNode → State → Except RuleFailure State)
    (s : State) (spreadNode : FragmentSpreadNode) : Except RuleFailure State := do
  let s ← enterSpread context detect s spreadNode
  s.pop

/-- A straight-forward depth-first search for cycles. -/
def detectCycleRecursive :
    ℕ → FragmentDefinitionNode → State → Except RuleFailure State
  | 0, _, _ => .error .tooDeep
  | depth + 1, fragment, s =>
      let fragmentName := fragment.name.value
      if fragmentName ∈ s.visitedFrags then .ok s
      else
        let s := { s with visitedFrags := fragmentName :: s.visitedFrags }
        let spreadNodes := getFragmentSpreads fragment.selectionSet
        if spreadNodes.isEmpty then .ok s
        else do
          let s ← spreadNodes.foldlM (followSpread context (detectCycleRecursive depth))
            (s.enter fragmentName)
          s.leave fragmentName

/-- The graph of fragment spreads must not form any cycles. -/
def rule (context : ValidationContext) (depth : ℕ) :
    Except RuleFailure (List RuleError) := do
  let s ← (fragmentDefinitions context.document).foldlM
    (fun s fragment => detectCycleRecursive context depth fragment s) {}
  return s.errors

end NoFragmentCyclesRule

/-! ## Introspection depth -/

namespace MaxIntrospectionDepthRule

def maxListDepth : ℕ := 3

/-- The lists of introspection. -/
def isIntrospectionList (name : Text) : Bool :=
  name = str "fields" || name = str "interfaces" || name = str "possibleTypes" ||
    name = str "inputFields"

/-- The fragments that are being visited, and the errors that have been reported. -/
structure State where
  visitedFragments : List Text := []
  errors : List RuleError := []

/-- How deep the lists of a fragment are checked to be, with the fragments that are
being visited. -/
abbrev Follow := ℕ → List SelectionNode → List Text →
  Except RuleFailure (Bool × List Text)

variable (context : ValidationContext)

mutual

/-- Check whether the maximum introspection depth has been reached.  A fragment is
visited only while it is walked through. -/
def checkSelection (follow : Follow) (depth : ℕ) :
    SelectionNode → List Text → Except RuleFailure (Bool × List Text)
  | .fragmentSpread node, visitedFragments =>
      let fragmentName := node.name.value
      if fragmentName ∈ visitedFragments then .ok (false, visitedFragments)
      else match context.getFragment fragmentName with
        | none => .ok (false, visitedFragments)
        | some fragment => do
            let (reached, visitedFragments) ← follow depth
              fragment.selectionSet.selections (visitedFragments ++ [fragmentName])
            if fragmentName ∈ visitedFragments then
              return (reached, visitedFragments.erase fragmentName)
            else .error (.keyError fragmentName)
  | .field ⟨_, name, _, _, selectionSet, _⟩, visitedFragments =>
      if isIntrospectionList name.value then
        if depth + 1 ≥ maxListDepth then .ok (true, visitedFragments)
        else checkSubselections follow (depth + 1) selectionSet visitedFragments
      else checkSubselections follow depth selectionSet visitedFragments
  | .inlineFragment ⟨_, _, ⟨selections, _⟩, _⟩, visitedFragments =>
      checkSelections follow depth selections visitedFragments

def checkSubselections (follow : Follow) (depth : ℕ) :
    Option SelectionSetNode → List Text → Except RuleFailure (Bool × List Text)
  | none, visitedFragments => .ok (false, visitedFragments)
  | some ⟨selections, _⟩, visitedFragments =>
      checkSelections follow depth selections visitedFragments

def checkSelections (follow : Follow) (depth : ℕ) :
    List SelectionNode → List Text → Except RuleFailure (Bool × List Text)
  | [], visitedFragments => .ok (false, visitedFragments)
  | selection :: rest, visitedFragments => do
      let (reached, visitedFragments) ←
        checkSelection follow depth selection visitedFragments
      if reached then return (true, visitedFragments)
      else checkSelections follow depth rest visitedFragments

end

/-- Follow spreads to a limit, while lists are counted from the depth. -/
def checkDepth : ℕ → Follow
  | 0 => fun _ _ _ => .error .tooDeep
  | limit + 1 => checkSelections context (checkDepth limit)

/-- Is the subtree of the field skipped? -/
def enterField (limit : ℕ) (node : FieldNode) (s : State) :
    Except RuleFailure (Bool × State) :=
  if node.name.value = str "__schema" ∨ node.name.value = str "__type" then do
    let (reached, visitedFragments) ← checkSelection context (checkDepth context limit) 0
      (.field node) s.visitedFragments
    if reached then
      return (true, {
        visitedFragments := visitedFragments
        errors := s.errors ++ [{ message := str "Maximum introspection depth exceeded"
                                 nodes := [.field node] }] })
    else return (false, { s with visitedFragments := visitedFragments })
  else .ok (false, s)

mutual

/-- Visit the fields in a selection. -/
def visitSelection (limit : ℕ) : SelectionNode → State → Except RuleFailure State
  | .field ⟨fieldAlias, name, arguments, directives, selectionSet, loc⟩, s => do
      let (skipped, s) ← enterField context limit
        ⟨fieldAlias, name, arguments, directives, selectionSet, loc⟩ s
      if skipped then return s else visitSubselections limit selectionSet s
  | .fragmentSpread _, s => .ok s
  | .inlineFragment ⟨_, _, ⟨selections, _⟩, _⟩, s => visitSelections limit selections s

def visitSubselections (limit : ℕ) :
    Option SelectionSetNode → State → Except RuleFailure State
  | none, s => .ok s
  | some ⟨selections, _⟩, s => visitSelections limit selections s

def visitSelections (limit : ℕ) : List SelectionNode → State → Except RuleFailure State
  | [], s => .ok s
  | selection :: rest, s => do
      let s ← visitSelection limit selection s
      visitSelections limit rest s

end

/-- The fields of executable definitions are visited. -/
def visitDefinition (limit : ℕ) (s : State) : DefinitionNode → Except RuleFailure State
  | .operation node => visitSelections context limit node.selectionSet.selections s
  | .fragment node => visitSelections context limit node.selectionSet.selections s
  | _ => .ok s

/-- Checks maximum introspection depth. -/
def rule (context : ValidationContext) (limit : ℕ) :
    Except RuleFailure (List RuleError) := do
  let s ← context.document.definitions.foldlM (visitDefinition context limit) {}
  return s.errors

end MaxIntrospectionDepthRule

end GraphqlCore.Validation
