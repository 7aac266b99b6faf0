import GraphqlCore.Validation.FieldsInSetCanMerge

/-!
# Field maps

What the rule caches for a selection set.  It does not depend on who asks for it first, as
long as all parent types with which the selection set is met have the same fields.
-/

namespace GraphqlCore.Validation

open Language Attempt

variable {context : ValidationContext}

/-! ## Fields by their response names -/

/-- The field with what its parent type tells about it. -/
def NodeAndDef.plain (context : ValidationContext) (field : NodeAndDef) : NodeAndDef :=
  { field with parentType := fieldParent context field.parentType }

theorem plain_nodeAndDef (parentType : Option Text) (node : FieldNode) :
    (nodeAndDef context parentType node).plain context =
      nodeAndDef context (fieldParent context parentType) node := by
  have hdef := @nodeAndDef_fieldParent context parentType node
  rw [NodeAndDef.plain]
  rw [← hdef]
  rfl

/-- The fields with the response name. -/
def FieldMap.named (fieldMap : FieldMap) (name : Text) : List NodeAndDef :=
  (fieldMap.fields.get name).getD []

def FieldsAndSpreads.named (found : FieldsAndSpreads) (name : Text) : List NodeAndDef :=
  (found.fields.get name).getD []

def withName (name : Text) (fields : List NodeAndDef) : List NodeAndDef :=
  fields.filter fun field => getResponseName field.node = name

theorem named_addField (found : FieldsAndSpreads) (name name' : Text) (field : NodeAndDef) :
    (found.addField name field).named name' =
      found.named name' ++ if name' = name then [field] else [] := by
  rw [FieldsAndSpreads.named, FieldsAndSpreads.addField, Dict.get_set]
  by_cases hname : name' = name
  · rw [if_pos hname, if_pos hname, hname]
    rfl
  · rw [if_neg hname, if_neg hname, List.append_nil]
    rfl

mutual

theorem named_collect (varMap : VarMap) (name : Text) : ∀ (selection : SelectionNode)
    (parentType : Option Text) (found : FieldsAndSpreads),
    ((collectFieldsAndFragmentSpread context parentType varMap selection found).named name).map
        (NodeAndDef.plain context) =
      (found.named name).map (NodeAndDef.plain context) ++
        withName name (plainFields context parentType selection)
  | .field node, parentType, found => by
      rw [collectFieldsAndFragmentSpread, plainFields, named_addField, List.map_append, withName]
      by_cases hname : name = getResponseName node
      · rw [if_pos hname, List.map_singleton, plain_nodeAndDef, List.filter_singleton]
        simp [nodeAndDef, hname]
      · have hname' := Ne.symm hname
        rw [if_neg hname, List.filter_singleton]
        simp [nodeAndDef, hname']
  | .fragmentSpread node, parentType, found => by
      rw [collectFieldsAndFragmentSpread, plainFields, withName, List.filter_nil, List.append_nil]
      rfl
  | .inlineFragment ⟨typeCondition, _, ⟨selections, _⟩, _⟩, parentType, found => by
      rw [collectFieldsAndFragmentSpread, plainFields]
      exact named_collectAll varMap name selections _ found

theorem named_collectAll (varMap : VarMap) (name : Text) : ∀ (selections : List SelectionNode)
    (parentType : Option Text) (found : FieldsAndSpreads),
    ((collectFieldsAndFragmentSpreads context parentType varMap selections found).named name).map
        (NodeAndDef.plain context) =
      (found.named name).map (NodeAndDef.plain context) ++
        withName name (allPlainFields context parentType selections)
  | [], parentType, found => by
      rw [collectFieldsAndFragmentSpreads, allPlainFields, withName, List.filter_nil,
        List.append_nil]
  | selection :: rest, parentType, found => by
      rw [collectFieldsAndFragmentSpreads, allPlainFields, named_collectAll varMap name rest,
        named_collect varMap name selection, List.append_assoc, withName, withName, withName,
        List.filter_append]

end

/-! ## Spreads by their conflict keys -/

/-- The spreads that have been found are those of the nodes. -/
structure HasSpreads (context : ValidationContext) (varMap : VarMap)
    (nodes : List FragmentSpreadNode) (found : FieldsAndSpreads) : Prop where
  complete : ∀ node ∈ nodes, (found.fragmentSpreads.get (conflictKey context node)).isSome
  sound : ∀ key spread, found.fragmentSpreads.get key = some spread →
    ∃ node ∈ nodes, spread = getFragmentSpread context node varMap ∧
      key = conflictKey context node

theorem HasSpreads.addSpread {varMap : VarMap} {nodes : List FragmentSpreadNode}
    {found : FieldsAndSpreads} (h : HasSpreads context varMap nodes found)
    (node : FragmentSpreadNode) :
    HasSpreads context varMap (nodes ++ [node])
      (found.addSpread (getFragmentSpread context node varMap)) where
  complete node' hnode' := by
    simp only [FieldsAndSpreads.addSpread, getFragmentSpread_key, Dict.get_set]
    split
    · rfl
    · next hkey =>
      rcases List.mem_append.mp hnode' with hmem | hmem
      · exact h.complete node' hmem
      · rw [List.mem_singleton.mp hmem] at hkey
        exact absurd rfl hkey
  sound key spread hget := by
    simp only [FieldsAndSpreads.addSpread, getFragmentSpread_key, Dict.get_set] at hget
    split at hget
    · next hkey =>
      exact ⟨node, List.mem_append_right _ (List.mem_singleton_self _),
        (Option.some.inj hget).symm, hkey⟩
    · obtain ⟨node', hnode', hspread⟩ := h.sound key spread hget
      exact ⟨node', List.mem_append_left _ hnode', hspread⟩

mutual

theorem hasSpreads_collect (varMap : VarMap) : ∀ (selection : SelectionNode)
    (parentType : Option Text) {nodes : List FragmentSpreadNode} {found : FieldsAndSpreads},
    HasSpreads context varMap nodes found →
    HasSpreads context varMap (nodes ++ directSpreads selection)
      (collectFieldsAndFragmentSpread context parentType varMap selection found)
  | .field _, _, nodes, found, h => by
      rw [collectFieldsAndFragmentSpread, directSpreads, List.append_nil]
      exact ⟨h.complete, h.sound⟩
  | .fragmentSpread node, _, nodes, found, h => by
      rw [collectFieldsAndFragmentSpread, directSpreads]
      exact h.addSpread node
  | .inlineFragment ⟨_, _, ⟨selections, _⟩, _⟩, _, nodes, found, h => by
      rw [collectFieldsAndFragmentSpread, directSpreads]
      exact hasSpreads_collectAll varMap selections _ h

theorem hasSpreads_collectAll (varMap : VarMap) : ∀ (selections : List SelectionNode)
    (parentType : Option Text) {nodes : List FragmentSpreadNode} {found : FieldsAndSpreads},
    HasSpreads context varMap nodes found →
    HasSpreads context varMap (nodes ++ allDirectSpreads selections)
      (collectFieldsAndFragmentSpreads context parentType varMap selections found)
  | [], _, nodes, found, h => by
      rw [collectFieldsAndFragmentSpreads, allDirectSpreads, List.append_nil]
      exact h
  | selection :: rest, parentType, nodes, found, h => by
      rw [collectFieldsAndFragmentSpreads, allDirectSpreads, ← List.append_assoc]
      exact hasSpreads_collectAll varMap rest parentType
        (hasSpreads_collect varMap selection parentType h)

end

/-! ## The parent types of selection sets -/

/-- What is told of the fields of a selection set by all parent types it is met with. -/
structure ParentTypes (context : ValidationContext) where
  parentOf : SelectionSetNode → Option Text
  entered : ∀ parentType set, (parentType, set) ∈ context.enterDocument →
    fieldParent context parentType = parentOf set
  subfields : ∀ set ∈ documentSets context.document,
    ∀ field ∈ allPlainFields context (parentOf set) set.selections,
    ∀ subset, field.node.selectionSet = some subset →
      fieldParent context field.namedType = parentOf subset
  fragments : ∀ name fragment, context.getFragment name = some fragment →
    fieldParent context (typeFromAst context.schema fragment.typeCondition) =
      parentOf fragment.selectionSet

namespace ParentTypes

variable (types : ParentTypes context)

/-- The fields of the selection set itself. -/
def fields (set : SelectionSetNode) : List NodeAndDef :=
  allPlainFields context (types.parentOf set) set.selections

/-- The selection set is one of the document, met with a parent type that it is known by. -/
structure Placed (parentType : Option Text) (set : SelectionSetNode) : Prop where
  mem : set ∈ documentSets context.document
  parent : fieldParent context parentType = types.parentOf set

theorem subset_mem {set subset : SelectionSetNode} (hset : set ∈ documentSets context.document)
    {field : NodeAndDef} (hfield : field ∈ types.fields set)
    (hsubset : field.node.selectionSet = some subset) :
    types.Placed field.namedType subset where
  mem := (documentUniverse context).fields_mem set hset field.node
    (node_mem_of_allPlainFields _ _ hfield) subset hsubset
  parent := types.subfields set hset field hfield subset hsubset

theorem fragment_mem {name : Text} {fragment : FragmentDefinitionNode}
    (h : context.getFragment name = some fragment) :
    types.Placed (typeFromAst context.schema fragment.typeCondition) fragment.selectionSet where
  mem := (documentUniverse context).fragments_mem name fragment h
  parent := types.fragments name fragment h

/-- The fields and spreads that belong to the selection set. -/
structure Represents (V : VarMap → Prop) (set : SelectionSetNode)
    (cached : FieldMap × List FragmentSpread) : Prop where
  origin : cached.1.origin = set
  named : ∀ name, (cached.1.named name).map (NodeAndDef.plain context) =
    withName name (types.fields set)
  found : ∀ node ∈ allDirectSpreads set.selections,
    ∃ spread ∈ cached.2, spread.key = conflictKey context node
  sound : ∀ spread ∈ cached.2, ∃ node ∈ allDirectSpreads set.selections,
    ∃ varMap, V varMap ∧ spread = getFragmentSpread context node varMap

variable {types} {V : VarMap → Prop}

theorem represents_collect {parentType : Option Text} {set : SelectionSetNode}
    (hparent : fieldParent context parentType = types.parentOf set) {varMap : VarMap}
    (hV : V varMap) :
    types.Represents V set
      (⟨set, (collectFieldsAndFragmentSpreads context parentType varMap set.selections {}).fields⟩,
        (collectFieldsAndFragmentSpreads context parentType varMap set.selections
          {}).fragmentSpreads.values) := by
  have hempty : HasSpreads context varMap [] {} :=
    ⟨fun _ h => (nomatch h), fun _ _ h => nomatch h⟩
  have hspreads := hasSpreads_collectAll varMap set.selections parentType hempty
  rw [List.nil_append] at hspreads
  refine ⟨rfl, fun name => ?_, fun node hnode => ?_, fun spread hspread => ?_⟩
  · have hnamed := @named_collectAll context varMap name set.selections parentType {}
    have hfields : allPlainFields context parentType set.selections = types.fields set := by
      refine allPlainFields_congr ?_ set.selections
      rw [hparent, ← hparent, fieldParent_idem]
    rw [hfields] at hnamed
    exact hnamed
  · obtain ⟨spread, hget⟩ := Option.isSome_iff_exists.mp (hspreads.complete node hnode)
    obtain ⟨node', -, hspread, hkey⟩ := hspreads.sound _ spread hget
    refine ⟨spread, List.mem_map_of_mem (Dict.mem_items_iff.mpr hget), ?_⟩
    rw [hspread, getFragmentSpread_key, hkey]
  · obtain ⟨⟨key, _⟩, hmem, rfl⟩ := List.mem_map.mp hspread
    obtain ⟨node, hnode, hspread, -⟩ := hspreads.sound key _ (Dict.mem_items_iff.mp hmem)
    exact ⟨node, hnode, varMap, hV, hspread⟩

/-- What is cached belongs to the selection set it is cached under. -/
def CacheSound (types : ParentTypes context) (V : VarMap → Prop) (s : MergeState) : Prop :=
  ∀ set cached, s.cachedFieldsAndFragmentSpreads.get set = some cached →
    types.Represents V set cached

/-- The states differ in their caches only. -/
structure SamePairs (s s' : MergeState) : Prop where
  fieldsAndFragments : s'.comparedFieldsAndFragmentPairs = s.comparedFieldsAndFragmentPairs
  fragments : s'.comparedFragmentPairs = s.comparedFragmentPairs
  reported : s'.reported = s.reported

theorem getFieldsAndFragmentSpreads_represents {s : MergeState} (hcache : types.CacheSound V s)
    {parentType : Option Text} {set : SelectionSetNode} (hplaced : types.Placed parentType set)
    {varMap : VarMap} (hV : V varMap) :
    Ends (getFieldsAndFragmentSpreads context parentType set varMap) s
      (fun cached s' => types.Represents V set cached ∧ types.CacheSound V s' ∧ SamePairs s s')
      fun _ _ => True := by
  rw [getFieldsAndFragmentSpreads, ends_state]
  cases hcached : s.cachedFieldsAndFragmentSpreads.get set with
  | some cached => exact ⟨hcache set cached hcached, hcache, rfl, rfl, rfl⟩
  | none =>
      have hnew := @represents_collect _ types V _ _ hplaced.parent _ hV
      refine ⟨hnew, fun set' cached hget => ?_, rfl, rfl, rfl⟩
      dsimp only at hget
      rw [Dict.get_set] at hget
      split at hget
      · next heq =>
        subst heq
        obtain rfl := Option.some.inj hget
        exact hnew
      · exact hcache set' cached hget

/-- The fields with a response name, and the plain fields that they are. -/
theorem Represents.mem_named {set : SelectionSetNode} {cached : FieldMap × List FragmentSpread}
    (h : types.Represents V set cached) {name : Text} {field : NodeAndDef}
    (hfield : field ∈ cached.1.named name) :
    field.plain context ∈ types.fields set ∧ getResponseName field.node = name := by
  have hmem : field.plain context ∈ withName name (types.fields set) := by
    rw [← h.named name]
    exact List.mem_map_of_mem hfield
  rw [withName, List.mem_filter, decide_eq_true_eq] at hmem
  exact hmem

theorem Represents.exists_named {set : SelectionSetNode} {cached : FieldMap × List FragmentSpread}
    (h : types.Represents V set cached) {field : NodeAndDef} (hfield : field ∈ types.fields set) :
    ∃ field' ∈ cached.1.named (getResponseName field.node), field'.plain context = field := by
  have hmem : field ∈ withName (getResponseName field.node) (types.fields set) := by
    rw [withName, List.mem_filter]
    exact ⟨hfield, decide_eq_true rfl⟩
  rw [← h.named] at hmem
  obtain ⟨field', hfield', rfl⟩ := List.mem_map.mp hmem
  exact ⟨field', hfield', rfl⟩

end ParentTypes

/-! ## Conflicts of plain fields -/

theorem areParentsExclusive_iff {schema : GraphQLSchema} {parentType1 parentType2 : Option Text} :
    areParentsExclusive schema parentType1 parentType2 ↔
      ∃ name1 name2, parentType1 = some name1 ∧ parentType2 = some name2 ∧ name1 ≠ name2 ∧
        schema.isObjectType name1 ∧ schema.isObjectType name2 := by
  unfold areParentsExclusive
  split
  · simp [and_assoc]
  · next hnone =>
    simp only [Bool.false_eq_true, false_iff]
    rintro ⟨name1, name2, rfl, rfl, -⟩
    exact hnone name1 name2 rfl rfl

theorem areParentsExclusive_fieldParent (parentType1 parentType2 : Option Text) :
    areParentsExclusive context.schema (fieldParent context parentType1)
        (fieldParent context parentType2) =
      areParentsExclusive context.schema parentType1 parentType2 := by
  have hobject (name : Text) (h : context.schema.isObjectType name) :
      fieldParent context (some name) = some name := by
    simp [fieldParent, Option.filter, h]
  rw [Bool.eq_iff_iff, areParentsExclusive_iff, areParentsExclusive_iff]
  constructor
  · rintro ⟨name1, name2, h1, h2, hexclusive⟩
    exact ⟨name1, name2, Option.eq_some_of_filter_eq_some h1, Option.eq_some_of_filter_eq_some h2,
      hexclusive⟩
  · rintro ⟨name1, name2, rfl, rfl, hne, h1, h2⟩
    exact ⟨name1, name2, hobject name1 h1, hobject name2 h2, hne, h1, h2⟩

theorem exclusiveWith_plain (exclusive : Bool) (field1 field2 : NodeAndDef) :
    exclusiveWith context exclusive (field1.plain context) (field2.plain context) =
      exclusiveWith context exclusive field1 field2 :=
  congrArg (exclusive || ·) (areParentsExclusive_fieldParent _ _)

theorem exclusiveWith_comm (exclusive : Bool) (field1 field2 : NodeAndDef) :
    exclusiveWith context exclusive field1 field2 =
      exclusiveWith context exclusive field2 field1 := by
  rw [exclusiveWith, exclusiveWith]
  congr 1
  rw [Bool.eq_iff_iff, areParentsExclusive_iff, areParentsExclusive_iff]
  constructor <;>
  · rintro ⟨name1, name2, h1, h2, hne, hobject1, hobject2⟩
    exact ⟨name2, name1, h2, h1, hne.symm, hobject2, hobject1⟩

end GraphqlCore.Validation
