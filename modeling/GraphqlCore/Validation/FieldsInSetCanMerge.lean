import GraphqlCore.Validation.MergeTermination

/-!
# Fields in set can merge

The merge check as the specification states it: fragments are expanded every time, all
pairs of fields with the same response name are compared, and their selection sets are
merged and compared in the same way.  Nothing is cached and no pair is left out.
-/

namespace GraphqlCore.Validation

open Language

/-! ## The check -/

section Check

variable (context : ValidationContext)

/-- Only the object and interface types tell something about the fields of a parent type. -/
def fieldParent (parentType : Option Text) : Option Text :=
  parentType.filter fun name =>
    context.schema.isObjectType name || context.schema.isInterfaceType name

/-- The fields that the selections collect in the parent type, with fragments expanded. -/
inductive Collected : Option Text → List SelectionNode → NodeAndDef → Prop
  | field {parentType : Option Text} {selections : List SelectionNode} {node : FieldNode}
      (hnode : .field node ∈ selections) :
      Collected parentType selections (nodeAndDef context (fieldParent context parentType) node)
  | inlineFragment {parentType : Option Text} {selections : List SelectionNode}
      {node : InlineFragmentNode} {field : NodeAndDef}
      (hnode : .inlineFragment node ∈ selections)
      (h : Collected (inlineFragmentType context parentType node.typeCondition)
        node.selectionSet.selections field) : Collected parentType selections field
  | fragmentSpread {parentType : Option Text} {selections : List SelectionNode}
      {node : FragmentSpreadNode} {fragment : FragmentDefinitionNode} {field : NodeAndDef}
      (hnode : .fragmentSpread node ∈ selections)
      (hfragment : context.getFragment node.name.value = some fragment)
      (h : Collected (typeFromAst context.schema fragment.typeCondition)
        fragment.selectionSet.selections field) : Collected parentType selections field

/-- The subfields of a field. -/
def SubfieldOf (field subfield : NodeAndDef) : Prop :=
  ∃ set, field.node.selectionSet = some set ∧
    Collected context field.namedType set.selections subfield

def SameResponseName (field1 field2 : NodeAndDef) : Prop :=
  getResponseName field1.node = getResponseName field2.node

/-- Are the two fields mutually exclusive, where their parent fields are or are not? -/
def exclusiveWith (exclusive : Bool) (field1 field2 : NodeAndDef) : Bool :=
  exclusive || areParentsExclusive context.schema field1.parentType field2.parentType

/-- The pairs of fields that are compared, and whether their parent fields are mutually
exclusive: those of the selection set, and those of the merged selection sets of two fields
that are compared. -/
inductive Compared (parentType : Option Text) (set : SelectionSetNode) :
    Bool → NodeAndDef → NodeAndDef → Prop
  | within {field1 field2 : NodeAndDef} (h1 : Collected context parentType set.selections field1)
      (h2 : Collected context parentType set.selections field2)
      (hname : SameResponseName field1 field2) : Compared parentType set false field1 field2
  | subfields {exclusive : Bool} {field1 field2 subfield1 subfield2 : NodeAndDef}
      (h : Compared parentType set exclusive field1 field2)
      (h1 : SubfieldOf context field1 subfield1 ∨ SubfieldOf context field2 subfield1)
      (h2 : SubfieldOf context field1 subfield2 ∨ SubfieldOf context field2 subfield2)
      (hname : SameResponseName subfield1 subfield2) :
      Compared parentType set (exclusiveWith context exclusive field1 field2) subfield1 subfield2

/-- The check succeeds: no pair that is compared conflicts.  Of two fields that are mutually
exclusive, only the streams and the shapes are compared. -/
def FieldsInSetCanMerge (parentType : Option Text) (set : SelectionSetNode) : Prop :=
  ∀ exclusive field1 field2, Compared context parentType set exclusive field1 field2 →
    findFieldConflict context.schema (exclusiveWith context exclusive field1 field2)
      field1 none field2 none = none

end Check

/-! ## Fields and spreads of selections -/

variable {context : ValidationContext}

theorem fieldParent_idem (parentType : Option Text) :
    fieldParent context (fieldParent context parentType) = fieldParent context parentType := by
  simp [fieldParent, Option.filter_filter]

theorem fieldsOf_of_not {schema : GraphQLSchema} {name : Text}
    (h : (schema.isObjectType name || schema.isInterfaceType name) = false) :
    schema.fieldsOf name = Dict.empty := by
  rw [GraphQLSchema.fieldsOf]
  simp only [GraphQLSchema.isObjectType, GraphQLSchema.isInterfaceType, GraphQLSchema.named,
    GraphQLType.getNamedType, Bool.or_eq_false_iff] at h
  cases htype : schema.getType name with
  | none => rfl
  | some type =>
      rw [htype] at h
      cases type with
      | object => exact absurd h.1 (by simp [GraphQLNamedType.isObjectType])
      | interface => exact absurd h.2 (by simp [GraphQLNamedType.isInterfaceType])
      | scalar | union | enum | inputObject => rfl

/-- The definition of a field is that in the object or interface type. -/
theorem nodeAndDef_fieldParent (parentType : Option Text) (node : FieldNode) :
    (nodeAndDef context (fieldParent context parentType) node).fieldDef =
      (nodeAndDef context parentType node).fieldDef := by
  cases parentType with
  | none => rfl
  | some name =>
      cases hname : context.schema.isObjectType name || context.schema.isInterfaceType name with
      | true =>
          have hparent : fieldParent context (some name) = some name := by
            simp [fieldParent, Option.filter, hname]
          rw [hparent]
      | false =>
          have hparent : fieldParent context (some name) = none := by
            simp [fieldParent, Option.filter, hname]
          rw [hparent]
          simp [nodeAndDef, fieldsOf_of_not hname]

theorem fieldParent_inlineFragmentType {parentType parentType' : Option Text}
    (h : fieldParent context parentType = fieldParent context parentType')
    (typeCondition : Option NamedTypeNode) :
    fieldParent context (inlineFragmentType context parentType typeCondition) =
      fieldParent context (inlineFragmentType context parentType' typeCondition) := by
  cases typeCondition with
  | none => exact h
  | some typeCondition => rfl

theorem Collected.congr {parentType parentType' : Option Text} {selections : List SelectionNode}
    {field : NodeAndDef} (h : Collected context parentType selections field)
    (hparent : fieldParent context parentType = fieldParent context parentType') :
    Collected context parentType' selections field := by
  induction h generalizing parentType' with
  | field hnode =>
      rw [hparent]
      exact .field hnode
  | inlineFragment hnode _ ih =>
      exact .inlineFragment hnode (ih (fieldParent_inlineFragmentType hparent _))
  | fragmentSpread hnode hfragment h _ => exact .fragmentSpread hnode hfragment h

mutual

/-- The fields of a selection that are found without expanding fragment spreads. -/
def plainFields (context : ValidationContext) (parentType : Option Text) :
    SelectionNode → List NodeAndDef
  | .field node => [nodeAndDef context (fieldParent context parentType) node]
  | .fragmentSpread _ => []
  | .inlineFragment ⟨typeCondition, _, ⟨selections, _⟩, _⟩ =>
      allPlainFields context (inlineFragmentType context parentType typeCondition) selections

def allPlainFields (context : ValidationContext) (parentType : Option Text) :
    List SelectionNode → List NodeAndDef
  | [] => []
  | selection :: rest =>
      plainFields context parentType selection ++ allPlainFields context parentType rest

end

mutual

theorem plainFields_congr {parentType parentType' : Option Text}
    (h : fieldParent context parentType = fieldParent context parentType') :
    ∀ selection, plainFields context parentType selection =
      plainFields context parentType' selection
  | .field node => by rw [plainFields, plainFields, h]
  | .fragmentSpread _ => rfl
  | .inlineFragment ⟨typeCondition, _, ⟨selections, _⟩, _⟩ => by
      rw [plainFields, plainFields]
      exact allPlainFields_congr (fieldParent_inlineFragmentType h typeCondition) selections

theorem allPlainFields_congr {parentType parentType' : Option Text}
    (h : fieldParent context parentType = fieldParent context parentType') :
    ∀ selections, allPlainFields context parentType selections =
      allPlainFields context parentType' selections
  | [] => rfl
  | selection :: rest => by
      rw [allPlainFields, allPlainFields, plainFields_congr h selection,
        allPlainFields_congr h rest]

end

mutual

theorem node_mem_of_plainFields {field : NodeAndDef} : ∀ (selection : SelectionNode)
    (parentType : Option Text), field ∈ plainFields context parentType selection →
    field.node ∈ directFields selection
  | .field node, parentType, h => by
      rw [plainFields, List.mem_singleton] at h
      rw [h, directFields]
      exact List.mem_singleton_self _
  | .fragmentSpread _, _, h => by
      rw [plainFields] at h
      cases h
  | .inlineFragment ⟨_, _, ⟨selections, _⟩, _⟩, _, h => by
      rw [plainFields] at h
      rw [directFields]
      exact node_mem_of_allPlainFields selections _ h

theorem node_mem_of_allPlainFields {field : NodeAndDef} : ∀ (selections : List SelectionNode)
    (parentType : Option Text), field ∈ allPlainFields context parentType selections →
    field.node ∈ allDirectFields selections
  | [], _, h => by
      rw [allPlainFields] at h
      cases h
  | selection :: rest, parentType, h => by
      rw [allPlainFields, List.mem_append] at h
      rw [allDirectFields, List.mem_append]
      exact h.imp (node_mem_of_plainFields selection parentType)
        (node_mem_of_allPlainFields rest parentType)

end

theorem subset_allPlainFields (context : ValidationContext) (parentType : Option Text)
    {selection : SelectionNode} {selections : List SelectionNode} (h : selection ∈ selections) :
    plainFields context parentType selection ⊆ allPlainFields context parentType selections ∧
      directSpreads selection ⊆ allDirectSpreads selections := by
  induction selections with
  | nil => cases h
  | cons first rest ih =>
      rw [allPlainFields, allDirectSpreads]
      rcases List.mem_cons.mp h with rfl | hmem
      · exact ⟨List.subset_append_left _ _, List.subset_append_left _ _⟩
      · obtain ⟨hfields, hspreads⟩ := ih hmem
        exact ⟨List.subset_append_of_subset_right _ hfields,
          List.subset_append_of_subset_right _ hspreads⟩

mutual

theorem collected_of_plainFields {field : NodeAndDef} : ∀ (selection : SelectionNode)
    (parentType : Option Text) {selections : List SelectionNode}, selection ∈ selections →
    field ∈ plainFields context parentType selection →
    Collected context parentType selections field
  | .field node, parentType, selections, hmem, h => by
      rw [plainFields, List.mem_singleton] at h
      rw [h]
      exact .field hmem
  | .fragmentSpread _, _, _, _, h => by
      rw [plainFields] at h
      cases h
  | .inlineFragment ⟨_, _, ⟨inner, _⟩, _⟩, parentType, selections, hmem, h => by
      rw [plainFields] at h
      exact .inlineFragment hmem (collected_of_allPlainFields inner _ (fun _ h => h) h)

theorem collected_of_allPlainFields {field : NodeAndDef} : ∀ (part : List SelectionNode)
    (parentType : Option Text) {selections : List SelectionNode}, part ⊆ selections →
    field ∈ allPlainFields context parentType part →
    Collected context parentType selections field
  | [], _, _, _, h => by
      rw [allPlainFields] at h
      cases h
  | selection :: rest, parentType, selections, hsub, h => by
      rw [allPlainFields, List.mem_append] at h
      rcases h with h | h
      · exact collected_of_plainFields selection parentType (hsub List.mem_cons_self) h
      · exact collected_of_allPlainFields rest parentType
          (fun _ hmem => hsub (List.mem_cons_of_mem _ hmem)) h

end

mutual

theorem collected_behind_spread {field : NodeAndDef} {node : FragmentSpreadNode}
    {fragment : FragmentDefinitionNode}
    (hfragment : context.getFragment node.name.value = some fragment)
    (h : Collected context (typeFromAst context.schema fragment.typeCondition)
      fragment.selectionSet.selections field) : ∀ (selection : SelectionNode)
    (parentType : Option Text) {selections : List SelectionNode}, selection ∈ selections →
    node ∈ directSpreads selection → Collected context parentType selections field
  | .field _, _, _, _, hnode => by
      rw [directSpreads] at hnode
      cases hnode
  | .fragmentSpread _, parentType, selections, hmem, hnode => by
      rw [directSpreads, List.mem_singleton] at hnode
      subst hnode
      exact .fragmentSpread hmem hfragment h
  | .inlineFragment ⟨_, _, ⟨inner, _⟩, _⟩, parentType, selections, hmem, hnode => by
      rw [directSpreads] at hnode
      exact .inlineFragment hmem
        (collected_behind_spreads hfragment h inner _ (fun _ h => h) hnode)

theorem collected_behind_spreads {field : NodeAndDef} {node : FragmentSpreadNode}
    {fragment : FragmentDefinitionNode}
    (hfragment : context.getFragment node.name.value = some fragment)
    (h : Collected context (typeFromAst context.schema fragment.typeCondition)
      fragment.selectionSet.selections field) : ∀ (part : List SelectionNode)
    (parentType : Option Text) {selections : List SelectionNode}, part ⊆ selections →
    node ∈ allDirectSpreads part → Collected context parentType selections field
  | [], _, _, _, hnode => by
      rw [allDirectSpreads] at hnode
      cases hnode
  | selection :: rest, parentType, selections, hsub, hnode => by
      rw [allDirectSpreads, List.mem_append] at hnode
      rcases hnode with hnode | hnode
      · exact collected_behind_spread hfragment h selection parentType
          (hsub List.mem_cons_self) hnode
      · exact collected_behind_spreads hfragment h rest parentType
          (fun _ hmem => hsub (List.mem_cons_of_mem _ hmem)) hnode

end

end GraphqlCore.Validation
