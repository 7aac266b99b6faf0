import GraphqlCore.Data.DictMerge
import GraphqlCore.Type.Hierarchy
import GraphqlCore.Validation.EnteredTypes
import GraphqlCore.Validation.MergeSoundness
import Mathlib.Data.List.TakeWhile

/-!
# The decision of the merge check

For the documents that are parsed from one source, the rule reports nothing exactly if the
plain check succeeds for every selection set.
-/

namespace GraphqlCore.Validation

open Language

/-! ## Conflicts of two fields -/

/-- The arguments are as many, and have the same values by their names. -/
def ArgumentsAgree (args1 args2 : List (Text × ValueNode)) : Prop :=
  args1.length = args2.length ∧ ∀ arg1 ∈ args1, ∃ arg2 ∈ args2,
    arg2.1 = arg1.1 ∧ stringifyValue arg1.2 = stringifyValue arg2.2

theorem sameArguments_iff {args1 args2 : List (Text × ValueNode)}
    (hnodup : (args2.map Prod.fst).Nodup) :
    sameArguments args1 none args2 none ↔ ArgumentsAgree args1 args2 := by
  have hget (name : Text) : (args2.foldl (fun values arg =>
      values.set arg.1 (replaceUsing none arg.2)) Dict.empty).get name = Dict.find name args2 :=
    (Dict.get_foldl_set hnodup Dict.empty name).trans (Option.or_none)
  unfold sameArguments ArgumentsAgree
  cases args1 with
  | nil => cases args2 <;> simp
  | cons arg1 rest1 =>
      cases args2 with
      | nil => simp
      | cons arg2 rest2 =>
          rw [if_neg (by simp), if_neg (by simp)]
          split
          · next hlength => exact ⟨(fun h => by cases h), fun h => absurd h.1 hlength⟩
          · next hlength =>
            rw [List.all_eq_true, and_iff_right (not_not.mp hlength)]
            refine forall₂_congr fun arg1 _ => ?_
            rw [hget]
            cases hfind : Dict.find arg1.1 (arg2 :: rest2) with
            | none =>
                refine ⟨(fun h => by cases h), ?_⟩
                rintro ⟨⟨name, value2⟩, hmem, rfl, -⟩
                rw [(Dict.mem_iff_find hnodup).mp hmem] at hfind
                cases hfind
            | some value2 =>
                have hmem := Dict.mem_of_find hfind
                constructor
                · exact fun h => ⟨_, hmem, rfl, of_decide_eq_true h⟩
                · rintro ⟨⟨name, value2'⟩, hmem', rfl, hsame⟩
                  rw [(Dict.mem_iff_find hnodup).mp hmem'] at hfind
                  rw [← Option.some.inj hfind]
                  exact decide_eq_true hsame

theorem ArgumentsAgree.refl (args : List (Text × ValueNode)) : ArgumentsAgree args args :=
  ⟨rfl, fun arg hmem => ⟨arg, hmem, rfl, rfl⟩⟩

/-- Where the names are unique on both sides, none of them is missing on either side. -/
theorem ArgumentsAgree.symm {args1 args2 : List (Text × ValueNode)}
    (h1 : (args1.map Prod.fst).Nodup) (h2 : (args2.map Prod.fst).Nodup)
    (h : ArgumentsAgree args1 args2) : ArgumentsAgree args2 args1 := by
  obtain ⟨hlength, hvalues⟩ := h
  have hnames : args1.map Prod.fst ⊆ args2.map Prod.fst := by
    intro name hname
    obtain ⟨arg1, hmem1, rfl⟩ := List.mem_map.mp hname
    obtain ⟨arg2, hmem2, hname2, -⟩ := hvalues arg1 hmem1
    exact List.mem_map.mpr ⟨arg2, hmem2, hname2⟩
  have hperm : (args1.map Prod.fst).Perm (args2.map Prod.fst) :=
    (List.subperm_of_subset h1 hnames).perm_of_length_le (by simp [hlength])
  refine ⟨hlength.symm, fun arg2 hmem2 => ?_⟩
  obtain ⟨arg1, hmem1, hname⟩ :=
    List.mem_map.mp (hperm.mem_iff.mpr (List.mem_map_of_mem hmem2))
  obtain ⟨arg2', hmem2', hname', hvalue⟩ := hvalues arg1 hmem1
  obtain rfl := List.inj_on_of_nodup_map h2 hmem2' hmem2 (hname'.trans hname)
  exact ⟨arg1, hmem1, hname, hvalue.symm⟩

theorem doTypesConflict_self (schema : GraphQLSchema) : ∀ type : GraphQLType,
    doTypesConflict schema type type = false
  | .named name => by simp [doTypesConflict]
  | .list type => by
      rw [doTypesConflict]
      exact doTypesConflict_self schema type
  | .nonNull type => by
      rw [doTypesConflict]
      exact doTypesConflict_self schema type

theorem doTypesConflict_comm (schema : GraphQLSchema) : ∀ type1 type2 : GraphQLType,
    doTypesConflict schema type1 type2 = doTypesConflict schema type2 type1
  | .list type1, .list type2 => by
      rw [doTypesConflict, doTypesConflict]
      exact doTypesConflict_comm schema type1 type2
  | .nonNull type1, .nonNull type2 => by
      rw [doTypesConflict, doTypesConflict]
      exact doTypesConflict_comm schema type1 type2
  | .named name1, .named name2 => by
      rw [doTypesConflict, doTypesConflict, Bool.or_comm]
      exact congrArg _ (decide_eq_decide.mpr ne_comm)
  | .list _, .named _ | .named _, .list _ | .nonNull _, .named _ | .named _, .nonNull _
  | .list _, .nonNull _ | .nonNull _, .list _ => by simp [doTypesConflict]

/-- The types of the fields do not conflict, where both are known. -/
def TypesAgree (schema : GraphQLSchema) (field1 field2 : NodeAndDef) : Prop :=
  ∀ def1 def2, field1.fieldDef = some def1 → field2.fieldDef = some def2 →
    doTypesConflict schema def1.type def2.type = false

theorem findFieldConflict_eq_none_iff {schema : GraphQLSchema} {exclusive : Bool}
    {field1 field2 : NodeAndDef} {varMap1 varMap2 : VarMap} :
    findFieldConflict schema exclusive field1 varMap1 field2 varMap2 = none ↔
      (exclusive = false → field1.node.name.value = field2.node.name.value ∧
        sameArguments (argumentValues field1.node.arguments) varMap1
          (argumentValues field2.node.arguments) varMap2) ∧
      sameStreams field1.node.directives field2.node.directives ∧
      TypesAgree schema field1 field2 := by
  unfold findFieldConflict TypesAgree
  dsimp only
  split
  · next hname => simp_all
  · next hname =>
    split
    · next harguments => simp_all
    · next harguments =>
      split
      · next hstreams => simp_all
      · next hstreams =>
        cases field1.fieldDef <;> cases field2.fieldDef <;> cases exclusive <;> simp_all

/-! ## Names that are reserved -/

/-- Valid schemas do not declare the names of the meta fields. -/
theorem ReservesTypename.of_valid {schema : GraphQLSchema} (hvalid : validateSchema schema = [])
    (hstring : schema.isCompositeType (str "String") = false) : ReservesTypename schema where
  noField name := by
    cases hget : (schema.fieldsOf name).get (str "__typename") with
    | none => rfl
    | some field =>
        exfalso
        rw [GraphQLSchema.fieldsOf] at hget
        cases htype : schema.getType name with
        | none =>
            rw [htype] at hget
            cases hget
        | some type =>
            rw [htype] at hget
            have hchecks := validateType_eq_nil hvalid htype
            have hfields : validateFields schema name type.fields = [] := by
              cases type with
              | object => exact (List.append_eq_nil_iff.mp hchecks).1
              | interface => exact (List.append_eq_nil_iff.mp hchecks).1
              | scalar | union | enum | inputObject => cases hget
            have hitems := (List.append_eq_nil_iff.mp hfields).2
            have hitem := List.flatMap_eq_nil_iff.mp hitems (str "__typename", field)
              (Dict.mem_items_iff.mpr hget)
            have hname := (List.append_eq_nil_iff.mp (List.append_eq_nil_iff.mp hitem).1).1
            exact absurd (reportUnless_eq_nil.mp hname) (by decide)
  notComposite := hstring

/-! ## Conflict keys -/

variable {context : ValidationContext}

theorem foldl_bindVariable_append (varMap : VarMap) (argMap : Dict Text ValueNode) :
    ∀ (definitions : List (Text × VariableDefinitionNode)) (bound : Text × Dict Text ValueNode),
    ∃ rest, (definitions.foldl (bindVariable varMap argMap) bound).1 = bound.1 ++ rest
  | [], bound => ⟨[], (List.append_nil _).symm⟩
  | definition :: definitions, bound => by
      have hstep : ∃ rest, (bindVariable varMap argMap bound definition).1 = bound.1 ++ rest := by
        unfold bindVariable
        split
        · next value _ =>
          exact ⟨definition.1 ++ str ": " ++ stringifyValue value, by simp only [List.append_assoc]⟩
        · split <;> exact ⟨[], (List.append_nil _).symm⟩
      obtain ⟨rest, hrest⟩ := hstep
      obtain ⟨rest', hrest'⟩ := foldl_bindVariable_append varMap argMap definitions
        (bindVariable varMap argMap bound definition)
      exact ⟨rest ++ rest', by rw [List.foldl_cons, hrest', hrest, List.append_assoc]⟩

/-- A conflict key is the name of the fragment, or starts with it and a parenthesis. -/
theorem conflictKey_cases (context : ValidationContext) (node : FragmentSpreadNode) :
    conflictKey context node = node.name.value ∨
      ∃ rest, conflictKey context node = node.name.value ++ str "(" ++ rest := by
  unfold conflictKey getFragmentSpread
  cases context.getFragmentSignature node.name.value with
  | none => exact .inl rfl
  | some fragmentSignature =>
      right
      dsimp only
      obtain ⟨rest, hrest⟩ := foldl_bindVariable_append none
        ((fragmentArguments node).foldl (fun argMap arg => argMap.set arg.1 arg.2) Dict.empty)
        fragmentSignature.variableDefinitions.items (node.name.value ++ str "(", Dict.empty)
      exact ⟨rest ++ str ")", by rw [hrest, List.append_assoc, List.append_assoc]⟩

/-- As it is with names, no parenthesis occurs in it. -/
def WithoutParenthesis (name : Text) : Prop := ∀ c ∈ str "(", c ∉ name

theorem takeWhile_conflictKey (context : ValidationContext) {node : FragmentSpreadNode}
    (h : WithoutParenthesis node.name.value) :
    (conflictKey context node).takeWhile (· ∉ str "(") = node.name.value := by
  have hall : ∀ c ∈ node.name.value, decide (c ∉ str "(") := fun c hc =>
    decide_eq_true fun hmem => h c hmem hc
  rcases conflictKey_cases context node with hkey | ⟨rest, hkey⟩
  · rw [hkey]
    exact List.takeWhile_eq_self_iff.mpr hall
  · rw [hkey, List.append_assoc, List.takeWhile_append_of_pos hall]
    simp [str]

/-! ## The documents -/

/-- As in a document that is parsed from one source without fragment arguments and without
the meta fields of the query root: with their locations, no two selection sets are equal. -/
structure MergeDomain (context : ValidationContext) : Prop where
  schema : ReservesTypename context.schema
  located : (documentSets context.document).Nodup
  metaFields : ∀ set ∈ documentSets context.document, ∀ node ∈ allDirectFields set.selections,
    NotRootMetaField node
  uniqueArgumentNames : ∀ set ∈ documentSets context.document,
    ∀ node ∈ allDirectFields set.selections, ((argumentValues node.arguments).map Prod.fst).Nodup
  names : ∀ set ∈ documentSets context.document, ∀ node ∈ allDirectSpreads set.selections,
    WithoutParenthesis node.name.value
  spreads : ∀ set ∈ documentSets context.document, ∀ node ∈ allDirectSpreads set.selections,
    fragmentArguments node = []
  definitions : ∀ definition ∈ fragmentDefinitions context.document,
    definition.variableDefinitions.getD [] = []

/-- The argument names are unique in each stream directive that is compared. -/
def UniqueStreamArguments (context : ValidationContext) : Prop :=
  ∀ set ∈ documentSets context.document, ∀ node ∈ allDirectFields set.selections,
    ∀ stream, getStreamDirective node.directives = some stream →
      ((argumentValues stream.arguments).map Prod.fst).Nodup

theorem getFragmentSignature_variableDefinitions
    (h : ∀ definition ∈ fragmentDefinitions context.document,
      definition.variableDefinitions.getD [] = [])
    {name : Text} {fragmentSignature : FragmentSignature}
    (hget : context.getFragmentSignature name = some fragmentSignature) :
    fragmentSignature.variableDefinitions = Dict.empty := by
  have hfold : ∀ (definitions : List FragmentDefinitionNode)
      (signatures : Dict Text FragmentSignature),
      (∀ definition ∈ definitions, definition.variableDefinitions.getD [] = []) →
      (∀ name signature, signatures.get name = some signature →
        signature.variableDefinitions = Dict.empty) →
      ∀ name signature, (definitions.foldl (fun fragmentSignatures definition =>
        fragmentSignatures.set definition.name.value
          ⟨definition, getVariableDefinitions definition⟩) signatures).get name = some signature →
        signature.variableDefinitions = Dict.empty := by
    intro definitions
    induction definitions with
    | nil => exact fun _ _ hsignatures => hsignatures
    | cons definition rest ih =>
        intro signatures hdefinitions hsignatures
        refine ih _ (fun definition' hmem => hdefinitions _ (List.mem_cons_of_mem _ hmem)) ?_
        intro name signature hget
        rw [Dict.get_set] at hget
        split at hget
        · rw [← Option.some.inj hget, getVariableDefinitions,
            hdefinitions definition List.mem_cons_self, List.foldl_nil]
        · exact hsignatures name signature hget
  refine hfold _ Dict.empty h (fun name signature hnone => ?_) name fragmentSignature hget
  rw [Dict.get_empty] at hnone
  cases hnone

namespace MergeDomain

variable (hdomain : MergeDomain context)
include hdomain

theorem varMap_eq_none (node : FragmentSpreadNode) (varMap : VarMap) :
    (getFragmentSpread context node varMap).varMap = none := by
  unfold getFragmentSpread
  cases hget : context.getFragmentSignature node.name.value with
  | none => rfl
  | some fragmentSignature =>
      dsimp only
      rw [getFragmentSignature_variableDefinitions hdomain.definitions hget]
      rfl

theorem keysDistinguish : KeysDistinguish context (· = none) where
  none := rfl
  closed _ _ node _ varMap _ := hdomain.varMap_eq_none node varMap
  name_eq set1 hset1 node1 hnode1 set2 hset2 node2 hnode2 hkey := by
    rw [← takeWhile_conflictKey context (hdomain.names set1 hset1 node1 hnode1), hkey]
    exact takeWhile_conflictKey context (hdomain.names set2 hset2 node2 hnode2)

theorem withoutFragmentArguments : WithoutFragmentArguments context where
  noVarMap _ _ node _ := hdomain.varMap_eq_none node none
  noArguments := hdomain.spreads

omit hdomain

/-- The parent types of the selection sets. -/
def types (hdomain : MergeDomain context) : ParentTypes context :=
  .ofLocated hdomain.schema hdomain.located hdomain.metaFields

variable (hstreams : UniqueStreamArguments context)
include hstreams

theorem sameStreams_refl {set : SelectionSetNode} (hset : set ∈ documentSets context.document)
    {node : FieldNode} (hnode : node ∈ allDirectFields set.selections) :
    sameStreams node.directives node.directives := by
  unfold sameStreams
  cases hstream : getStreamDirective node.directives with
  | none => rfl
  | some stream =>
      exact (sameArguments_iff (hstreams set hset node hnode stream hstream)).mpr (.refl _)

theorem sameStreams_symm {set1 set2 : SelectionSetNode}
    (hset1 : set1 ∈ documentSets context.document) (hset2 : set2 ∈ documentSets context.document)
    {node1 node2 : FieldNode} (hnode1 : node1 ∈ allDirectFields set1.selections)
    (hnode2 : node2 ∈ allDirectFields set2.selections)
    (h : sameStreams node1.directives node2.directives) :
    sameStreams node2.directives node1.directives := by
  unfold sameStreams at h ⊢
  cases hstream1 : getStreamDirective node1.directives with
  | none =>
      rw [hstream1] at h
      cases hstream2 : getStreamDirective node2.directives with
      | none => rfl
      | some stream2 =>
          rw [hstream2] at h
          cases h
  | some stream1 =>
      rw [hstream1] at h
      cases hstream2 : getStreamDirective node2.directives with
      | none =>
          rw [hstream2] at h
          cases h
      | some stream2 =>
          rw [hstream2] at h
          have hnodup1 := hstreams set1 hset1 node1 hnode1 stream1 hstream1
          have hnodup2 := hstreams set2 hset2 node2 hnode2 stream2 hstream2
          exact (sameArguments_iff hnodup1).mpr
            (((sameArguments_iff hnodup2).mp h).symm hnodup1 hnodup2)

/-- What is asked of a pair of fields is that they do not conflict themselves. -/
def ownCheck (hdomain : MergeDomain context) (hstreams : UniqueStreamArguments context) :
    OwnCheck hdomain.types (· = none) where
  holds exclusive field1 field2 :=
    findFieldConflict context.schema exclusive field1 none field2 none = none
  of_none exclusive field1 varMap1 field2 varMap2 hV1 hV2 h := by
    subst hV1 hV2
    exact h
  weaken exclusive field1 field2 h := by
    rw [findFieldConflict_eq_none_iff] at h ⊢
    exact ⟨fun _ => h.1 rfl, h.2⟩
  refl set hset field hfield exclusive := by
    have hnode := node_mem_of_allPlainFields _ _ hfield
    rw [findFieldConflict_eq_none_iff]
    refine ⟨fun _ => ⟨rfl, ?_⟩, sameStreams_refl hstreams hset hnode, ?_⟩
    · exact (sameArguments_iff (hdomain.uniqueArgumentNames set hset _ hnode)).mpr (.refl _)
    · intro def1 def2 h1 h2
      obtain rfl := Option.some.inj (h1.symm.trans h2)
      exact doTypesConflict_self _ _
  symm set1 hset1 field1 hfield1 set2 hset2 field2 hfield2 exclusive h := by
    have hnode1 := node_mem_of_allPlainFields _ _ hfield1
    have hnode2 := node_mem_of_allPlainFields _ _ hfield2
    rw [findFieldConflict_eq_none_iff] at h ⊢
    obtain ⟨hown, hsame, htypes⟩ := h
    refine ⟨fun hexclusive => ⟨(hown hexclusive).1.symm, ?_⟩,
      sameStreams_symm hstreams hset1 hset2 hnode1 hnode2 hsame, fun def2 def1 h2 h1 => ?_⟩
    · have hnodup1 := hdomain.uniqueArgumentNames set1 hset1 _ hnode1
      have hnodup2 := hdomain.uniqueArgumentNames set2 hset2 _ hnode2
      exact (sameArguments_iff hnodup1).mpr
        (((sameArguments_iff hnodup2).mp (hown hexclusive).2).symm hnodup1 hnodup2)
    · rw [doTypesConflict_comm]
      exact htypes def1 def2 h1 h2

end MergeDomain

/-! ## The decision -/

theorem Compared.symm {parentType : Option Text} {set : SelectionSetNode} {exclusive : Bool}
    {field1 field2 : NodeAndDef} (h : Compared context parentType set exclusive field1 field2) :
    Compared context parentType set exclusive field2 field1 := by
  cases h with
  | within h1 h2 hname => exact .within h2 h1 hname.symm
  | subfields h h1 h2 hname => exact .subfields h h2 h1 hname.symm

/-- The pairs of a plain check that succeeds are allowed. -/
def AllowedPairs.ofCanMerge (h : ∀ parentType set, (parentType, set) ∈ context.enterDocument →
    FieldsInSetCanMerge context parentType set) : AllowedPairs context where
  allowed exclusive field1 field2 := ∃ parentType set, (parentType, set) ∈ context.enterDocument ∧
    Compared context parentType set exclusive field1 field2
  own := by
    rintro exclusive field1 field2 ⟨parentType, set, hentered, hcompared⟩
    exact h parentType set hentered _ _ _ hcompared
  symm := by
    rintro exclusive field1 field2 ⟨parentType, set, hentered, hcompared⟩
    exact ⟨parentType, set, hentered, hcompared.symm⟩
  subfields := by
    rintro exclusive field1 field2 subfield1 subfield2 ⟨parentType, set, hentered, hcompared⟩ h1 h2
      hname
    exact ⟨parentType, set, hentered, .subfields hcompared (.inl h1) (.inr h2) hname⟩

/-- **The merge check is decided.**  The rule ends with errors that do not depend on how deep
its calls are followed, and with none exactly if the plain check succeeds for every selection
set of the document. -/
theorem overlappingFieldsCanBeMerged_iff (context : ValidationContext)
    (hdomain : MergeDomain context) (hstreams : UniqueStreamArguments context) :
    ∃ depth reported,
      (∀ depth' ≥ depth, overlappingFieldsCanBeMerged context depth' = some reported) ∧
      (reported = [] ↔ ∀ parentType set, (parentType, set) ∈ context.enterDocument →
        FieldsInSetCanMerge context parentType set) := by
  obtain ⟨depth, reported, hreported⟩ := overlappingFieldsCanBeMerged_terminates context
  refine ⟨depth, reported, hreported, ?_, ?_⟩
  · rintro rfl parentType set hentered exclusive field1 field2 hcompared
    exact holds_of_reportsNothing (hdomain.ownCheck hstreams) hdomain.keysDistinguish
      (hreported depth le_rfl) hentered hcompared
  · intro h
    refine reportsNothing_of_allowed hdomain.types (.ofCanMerge h) hdomain.keysDistinguish
      hdomain.withoutFragmentArguments (fun set hset field1 field2 h1 h2 hname => ?_)
      (hreported depth le_rfl)
    rw [← map_enterDocument, List.mem_map] at hset
    obtain ⟨⟨parentType, set'⟩, hentered, hset'⟩ := hset
    obtain rfl : set' = set := hset'
    have hplaced : hdomain.types.Placed parentType set' := placed_of_entered hentered
    exact ⟨parentType, set', hentered,
      .within ((hplaced.collects_iff _).mp h1) ((hplaced.collects_iff _).mp h2) hname⟩

/-! ## Arguments of streams that are not unique -/

/-- The root type `Query` with a field `f` of type `[Int]`. -/
def listSchema : GraphQLSchema where
  typeMap := .ofList [(str "String", .scalar), (str "Int", .scalar), (str "Query",
    .object (Dict.empty.set (str "f") { type := .list (.named (str "Int")) }) [])]
  queryType := some (str "Query")

theorem listSchema_reservesTypename : ReservesTypename listSchema :=
  .of_valid (by decide +kernel) (by decide +kernel)

/-- `f @stream(initialCount: ..., initialCount: ...)`, with these values. -/
def streamedField (counts : List Text) : FieldNode where
  fieldAlias := none
  name := { value := str "f" }
  arguments := none
  directives := some [{
    name := { value := str "stream" }
    arguments := some (counts.map fun count =>
      { name := { value := str "initialCount" }, value := .int count none }) }]
  selectionSet := none
  loc := none

def spreadOfF : FragmentSpreadNode := { name := { value := str "F" } }

def spreadSet (counts : List Text) : SelectionSetNode where
  selections := [.fragmentSpread spreadOfF, .field (streamedField counts)]
  loc := some ⟨0, 60⟩

def fragmentSet (counts : List Text) : SelectionSetNode where
  selections := [.field (streamedField counts)]
  loc := some ⟨80, 140⟩

/-- `{ ...F f @stream(...) } fragment F on Query { f @stream(...) }`, with these counts. -/
def streamContext (counts fragmentCounts : List Text) : ValidationContext where
  schema := listSchema
  document := { definitions := [
    .operation { operation := .query, selectionSet := spreadSet counts },
    .fragment { name := { value := str "F" }, typeCondition := { name := { value := str "Query" } },
                selectionSet := fragmentSet fragmentCounts }] }

section StreamContext

variable {counts fragmentCounts : List Text}

theorem documentSets_streamContext :
    documentSets (streamContext counts fragmentCounts).document =
      [spreadSet counts, fragmentSet fragmentCounts] := rfl

theorem fields_streamContext {set : SelectionSetNode}
    (hset : set ∈ documentSets (streamContext counts fragmentCounts).document) {node : FieldNode}
    (hnode : node ∈ allDirectFields set.selections) : ∃ counts, node = streamedField counts := by
  rw [documentSets_streamContext] at hset
  rcases List.mem_pair.mp hset with rfl | rfl
  · exact ⟨counts, List.mem_singleton.mp hnode⟩
  · exact ⟨fragmentCounts, List.mem_singleton.mp hnode⟩

theorem spreads_streamContext {set : SelectionSetNode}
    (hset : set ∈ documentSets (streamContext counts fragmentCounts).document)
    {node : FragmentSpreadNode} (hnode : node ∈ allDirectSpreads set.selections) :
    node = spreadOfF := by
  rw [documentSets_streamContext] at hset
  rcases List.mem_pair.mp hset with rfl | rfl
  · exact List.mem_singleton.mp hnode
  · cases hnode

theorem streamContext_domain : MergeDomain (streamContext counts fragmentCounts) where
  schema := listSchema_reservesTypename
  located := by
    rw [documentSets_streamContext]
    simp [spreadSet, fragmentSet]
  metaFields set hset node hnode := by
    obtain ⟨counts, rfl⟩ := fields_streamContext hset hnode
    exact ⟨(by decide : str "f" ≠ str "__schema"), (by decide : str "f" ≠ str "__type")⟩
  uniqueArgumentNames set hset node hnode := by
    obtain ⟨counts, rfl⟩ := fields_streamContext hset hnode
    exact List.nodup_nil
  names set hset node hnode := by
    obtain rfl := spreads_streamContext hset hnode
    unfold WithoutParenthesis
    decide
  spreads set hset node hnode := by
    obtain rfl := spreads_streamContext hset hnode
    rfl
  definitions definition hdefinition := by
    obtain rfl := List.mem_singleton.mp hdefinition
    rfl

end StreamContext

/-- One stream has the count 1 and the other one the count 2. -/
def singleStreams : ValidationContext := streamContext [str "1"] [str "2"]

theorem uniqueStreamArguments_singleStreams : UniqueStreamArguments singleStreams := by
  intro set hset node hnode stream hstream
  have hset' : set ∈ [spreadSet [str "1"], fragmentSet [str "2"]] := hset
  rcases List.mem_pair.mp hset' with rfl | rfl <;> obtain rfl := List.mem_singleton.mp hnode <;>
    obtain rfl := Option.some.inj hstream <;> decide

theorem overlappingFieldsCanBeMerged_singleStreams :
    ∃ depth reported,
      (∀ depth' ≥ depth, overlappingFieldsCanBeMerged singleStreams depth' = some reported) ∧
      (reported = [] ↔ ∀ parentType set, (parentType, set) ∈ singleStreams.enterDocument →
        FieldsInSetCanMerge singleStreams parentType set) :=
  overlappingFieldsCanBeMerged_iff singleStreams streamContext_domain
    uniqueStreamArguments_singleStreams

theorem overlappingFieldsCanBeMerged_le {depth depth' : ℕ} {reported : List MergeError}
    (h : overlappingFieldsCanBeMerged context depth = some reported) (hle : depth ≤ depth') :
    overlappingFieldsCanBeMerged context depth' = some reported := by
  induction hle with
  | refl => exact h
  | step _ ih => exact overlappingFieldsCanBeMerged_succ ih

/-- One stream has the counts 2 and 2, the other one, in the fragment, the counts 1 and 2. -/
def repeatedStreams : ValidationContext :=
  streamContext [str "2", str "2"] [str "1", str "2"]

/-- The rule compares the two streams in one order only, in which each argument of the first
is also the last one of the second. -/
theorem not_overlappingFieldsCanBeMerged_iff :
    MergeDomain repeatedStreams ∧
      (∀ definition ∈ fragmentDefinitions repeatedStreams.document,
        allDirectSpreads definition.selectionSet.selections = []) ∧
      ¬ ∃ depth reported,
        (∀ depth' ≥ depth, overlappingFieldsCanBeMerged repeatedStreams depth' = some reported) ∧
        (reported = [] ↔ ∀ parentType set, (parentType, set) ∈ repeatedStreams.enterDocument →
          FieldsInSetCanMerge repeatedStreams parentType set) := by
  refine ⟨streamContext_domain, fun definition hdefinition => ?_, ?_⟩
  · obtain rfl := List.mem_singleton.mp hdefinition
    rfl
  rintro ⟨depth, reported, hreported, hiff⟩
  have hsilent : (overlappingFieldsCanBeMerged repeatedStreams 3).map List.isEmpty = some true := by
    decide +kernel
  obtain ⟨reported', hrun, hempty⟩ := Option.map_eq_some_iff.mp hsilent
  have hsame : reported' = reported := Option.some.inj
    ((overlappingFieldsCanBeMerged_le hrun (le_max_right depth 3)).symm.trans
      (hreported _ (le_max_left depth 3)))
  have hplain := hiff.mp (hsame ▸ List.isEmpty_iff.mp hempty)
  have hentered : (some (str "Query"), spreadSet [str "2", str "2"]) ∈
      repeatedStreams.enterDocument := by
    decide +kernel
  have hfragment : Collected repeatedStreams (some (str "Query"))
      (spreadSet [str "2", str "2"]).selections
      (nodeAndDef repeatedStreams (fieldParent repeatedStreams (some (str "Query")))
        (streamedField [str "1", str "2"])) :=
    .fragmentSpread List.mem_cons_self rfl (.field List.mem_cons_self)
  have hown : Collected repeatedStreams (some (str "Query"))
      (spreadSet [str "2", str "2"]).selections
      (nodeAndDef repeatedStreams (fieldParent repeatedStreams (some (str "Query")))
        (streamedField [str "2", str "2"])) :=
    .field (List.mem_cons_of_mem _ List.mem_cons_self)
  have hnone := hplain _ _ hentered false _ _ (.within hfragment hown rfl)
  exact absurd hnone (by decide +kernel)

end GraphqlCore.Validation
