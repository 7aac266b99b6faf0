import GraphqlCore.Validation.FieldMaps

/-!
# Entered types

The parent types with which the visitor enters the selection sets tell the same about their
fields as those that the rule passes on, for the fields that it looks up itself.
-/

namespace GraphqlCore.Validation

open Language

/-- The name `__typename` is only that of the meta field, and `String` has no fields. -/
structure ReservesTypename (schema : GraphQLSchema) : Prop where
  noField : ∀ name, (schema.fieldsOf name).get (str "__typename") = none
  notComposite : schema.isCompositeType (str "String") = false

/-- The field is not one of the meta fields of the query root. -/
def NotRootMetaField (node : FieldNode) : Prop :=
  node.name.value ≠ str "__schema" ∧ node.name.value ≠ str "__type"

variable {context : ValidationContext}

/-! ## Types that tell something about fields -/

theorem fieldParent_filter (parentType : Option Text) {property : Text → Bool}
    (h : ∀ name, context.schema.isObjectType name || context.schema.isInterfaceType name →
      property name) :
    fieldParent context (parentType.filter property) = fieldParent context parentType := by
  cases parentType with
  | none => rfl
  | some name =>
      rw [fieldParent, fieldParent, Option.filter_filter]
      congr 1
      funext name
      rw [Bool.eq_iff_iff, Bool.and_eq_true]
      exact ⟨And.right, fun hname => ⟨h name hname, hname⟩⟩

theorem isCompositeType_of {schema : GraphQLSchema} {name : Text}
    (h : schema.isObjectType name || schema.isInterfaceType name) :
    schema.isCompositeType name := by
  unfold GraphQLSchema.isObjectType GraphQLSchema.isInterfaceType GraphQLSchema.named at h
  unfold GraphQLSchema.isCompositeType GraphQLSchema.named
  cases htype : schema.getType (GraphQLType.named name).getNamedType with
  | none =>
      rw [htype] at h
      cases h
  | some type =>
      rw [htype] at h
      cases type <;> first | rfl | cases h

theorem isOutputType_of {schema : GraphQLSchema} {name : Text}
    (h : schema.isObjectType name || schema.isInterfaceType name) :
    schema.isOutputType (.named name) := by
  unfold GraphQLSchema.isObjectType GraphQLSchema.isInterfaceType GraphQLSchema.named at h
  unfold GraphQLSchema.isOutputType GraphQLSchema.named
  cases htype : schema.getType (GraphQLType.named name).getNamedType with
  | none =>
      rw [htype] at h
      cases h
  | some type =>
      rw [htype] at h
      cases type <;> first | rfl | cases h

/-- A type is entered with the same fields whether or not it is checked to be composite. -/
theorem fieldParent_parentTypeOf (type : Option GraphQLType) :
    fieldParent context (context.parentTypeOf type) =
      fieldParent context (type.map GraphQLType.getNamedType) :=
  fieldParent_filter _ fun _ => isCompositeType_of

theorem fieldParent_filter_isOutputType (type : Option GraphQLType) :
    fieldParent context ((type.filter context.schema.isOutputType).map GraphQLType.getNamedType) =
      fieldParent context (type.map GraphQLType.getNamedType) := by
  have hfilter : (type.filter context.schema.isOutputType).map GraphQLType.getNamedType =
      (type.map GraphQLType.getNamedType).filter
        fun name => context.schema.isOutputType (.named name) := by
    cases type with
    | none => rfl
    | some type =>
        have hnamed : context.schema.isOutputType (.named type.getNamedType) =
            context.schema.isOutputType type := rfl
        simp only [Option.filter, Option.map_some, hnamed]
        split <;> rfl
  rw [hfilter]
  exact fieldParent_filter _ fun _ => isOutputType_of

theorem fieldParent_conditionTypeOf (typeCondition : NamedTypeNode) :
    fieldParent context (context.parentTypeOf (context.conditionTypeOf typeCondition)) =
      fieldParent context (typeFromAst context.schema typeCondition) := by
  rw [fieldParent_parentTypeOf, ValidationContext.conditionTypeOf, fieldParent_filter_isOutputType,
    Option.map_map]
  exact congrArg (fieldParent context) Option.map_id'

theorem fieldParent_inlineFragmentTypeOf (type : Option GraphQLType)
    (typeCondition : Option NamedTypeNode) :
    fieldParent context (context.parentTypeOf (context.inlineFragmentTypeOf type typeCondition)) =
      fieldParent context (inlineFragmentType context (context.parentTypeOf type)
        typeCondition) := by
  cases typeCondition with
  | some typeCondition => exact fieldParent_conditionTypeOf typeCondition
  | none =>
      change fieldParent context (context.parentTypeOf ((type.map fun type =>
        GraphQLType.named type.getNamedType).filter context.schema.isOutputType)) =
          fieldParent context (context.parentTypeOf type)
      rw [fieldParent_parentTypeOf, fieldParent_filter_isOutputType, fieldParent_parentTypeOf,
        Option.map_map]
      rfl

/-- The fields of the type of a field, as it is looked up by the visitor and by the rule. -/
theorem fieldParent_fieldTypeOf (hschema : ReservesTypename context.schema)
    (parentType : Option Text) {node : FieldNode} (hnode : NotRootMetaField node) :
    fieldParent context (context.parentTypeOf (context.fieldTypeOf parentType node)) =
      fieldParent context
        (nodeAndDef context (fieldParent context parentType) node).namedType := by
  rw [fieldParent_parentTypeOf, ValidationContext.fieldTypeOf, fieldParent_filter_isOutputType,
    NodeAndDef.namedType, nodeAndDef_fieldParent]
  cases parentType with
  | none => rfl
  | some parentType =>
      simp only [Option.bind_some, nodeAndDef, GraphQLSchema.getField, if_neg hnode.1,
        if_neg hnode.2]
      split
      · next htypename =>
        have hstring : fieldParent context (some (str "String")) = none := by
          rw [← fieldParent_filter (some (str "String")) fun _ => isCompositeType_of]
          simp [Option.filter, hschema.notComposite, fieldParent]
        rw [htypename, hschema.noField]
        exact hstring
      · rw [Option.map_map]
        rfl

/-! ## The selection sets that are entered -/

mutual

/-- The subfields of a field are entered with the type of the field. -/
theorem entered_of_plainFields (hschema : ReservesTypename context.schema) {field : NodeAndDef}
    {subset : SelectionSetNode} (hsubset : field.node.selectionSet = some subset)
    (hnode : NotRootMetaField field.node) :
    ∀ (selection : SelectionNode) (type : Option GraphQLType),
    field ∈ plainFields context (context.parentTypeOf type) selection →
    ∃ parentType, (parentType, subset) ∈ context.enterSelection type selection ∧
      fieldParent context parentType = fieldParent context field.namedType
  | .field ⟨fieldAlias, name, arguments, directives, selectionSet, loc⟩, type, h => by
      rw [plainFields, List.mem_singleton] at h
      subst h
      obtain rfl : selectionSet = some subset := hsubset
      obtain ⟨selections, loc'⟩ := subset
      refine ⟨context.parentTypeOf (context.fieldTypeOf (context.parentTypeOf type) _), ?_,
        fieldParent_fieldTypeOf hschema _ hnode⟩
      rw [ValidationContext.enterSelection, ValidationContext.enterSubselections,
        ValidationContext.enterSelectionSet]
      exact List.mem_cons_self
  | .fragmentSpread _, _, h => by
      rw [plainFields] at h
      cases h
  | .inlineFragment ⟨typeCondition, _, ⟨selections, _⟩, _⟩, type, h => by
      rw [plainFields, ← allPlainFields_congr (fieldParent_inlineFragmentTypeOf type
        typeCondition) selections] at h
      obtain ⟨parentType, hmem, hparent⟩ :=
        entered_of_allPlainFields hschema hsubset hnode selections _ h
      rw [ValidationContext.enterSelection, ValidationContext.enterSelectionSet]
      exact ⟨parentType, List.mem_cons_of_mem _ hmem, hparent⟩

theorem entered_of_allPlainFields (hschema : ReservesTypename context.schema) {field : NodeAndDef}
    {subset : SelectionSetNode} (hsubset : field.node.selectionSet = some subset)
    (hnode : NotRootMetaField field.node) :
    ∀ (selections : List SelectionNode) (type : Option GraphQLType),
    field ∈ allPlainFields context (context.parentTypeOf type) selections →
    ∃ parentType, (parentType, subset) ∈ context.enterSelections type selections ∧
      fieldParent context parentType = fieldParent context field.namedType
  | [], _, h => by
      rw [allPlainFields] at h
      cases h
  | selection :: rest, type, h => by
      rw [allPlainFields, List.mem_append] at h
      rw [ValidationContext.enterSelections]
      rcases h with h | h
      · obtain ⟨parentType, hmem, hparent⟩ :=
          entered_of_plainFields hschema hsubset hnode selection type h
        exact ⟨parentType, List.mem_append_left _ hmem, hparent⟩
      · obtain ⟨parentType, hmem, hparent⟩ :=
          entered_of_allPlainFields hschema hsubset hnode rest type h
        exact ⟨parentType, List.mem_append_right _ hmem, hparent⟩

end

/-- The selection set is entered as one of a type, and so are those in it. -/
def EnteredWith (context : ValidationContext) (parentType : Option Text) (set : SelectionSetNode)
    (entered : List (Option Text × SelectionSetNode)) : Prop :=
  ∃ type, parentType = context.parentTypeOf type ∧
    context.enterSelections type set.selections ⊆ entered

theorem EnteredWith.mono {parentType : Option Text} {set : SelectionSetNode}
    {entered entered' : List (Option Text × SelectionSetNode)}
    (h : EnteredWith context parentType set entered) (hsub : entered ⊆ entered') :
    EnteredWith context parentType set entered' := by
  obtain ⟨type, htype, hselections⟩ := h
  exact ⟨type, htype, fun _ hmem => hsub (hselections hmem)⟩

mutual

theorem enteredWith_of_enterSelectionSet {parentType : Option Text} {set : SelectionSetNode} :
    ∀ (outer : SelectionSetNode) (type : Option GraphQLType),
    (parentType, set) ∈ context.enterSelectionSet type outer →
    EnteredWith context parentType set (context.enterSelectionSet type outer)
  | ⟨selections, loc⟩, type, h => by
      rw [ValidationContext.enterSelectionSet] at h ⊢
      rcases List.mem_cons.mp h with heq | hmem
      · obtain ⟨rfl, rfl⟩ := Prod.mk.inj heq
        exact ⟨type, rfl, List.subset_cons_self _ _⟩
      · exact (enteredWith_of_enterSelections selections type hmem).mono
          (List.subset_cons_self _ _)

theorem enteredWith_of_enterSelections {parentType : Option Text} {set : SelectionSetNode} :
    ∀ (selections : List SelectionNode) (type : Option GraphQLType),
    (parentType, set) ∈ context.enterSelections type selections →
    EnteredWith context parentType set (context.enterSelections type selections)
  | [], type, h => by
      rw [ValidationContext.enterSelections] at h
      cases h
  | selection :: rest, type, h => by
      rw [ValidationContext.enterSelections] at h ⊢
      rcases List.mem_append.mp h with h | h
      · exact (enteredWith_of_enterSelection selection type h).mono (List.subset_append_left _ _)
      · exact (enteredWith_of_enterSelections rest type h).mono (List.subset_append_right _ _)

theorem enteredWith_of_enterSelection {parentType : Option Text} {set : SelectionSetNode} :
    ∀ (selection : SelectionNode) (type : Option GraphQLType),
    (parentType, set) ∈ context.enterSelection type selection →
    EnteredWith context parentType set (context.enterSelection type selection)
  | .field ⟨_, _, _, _, selectionSet, _⟩, type, h => by
      rw [ValidationContext.enterSelection] at h ⊢
      exact enteredWith_of_enterSubselections selectionSet _ h
  | .fragmentSpread _, type, h => by
      rw [ValidationContext.enterSelection] at h
      cases h
  | .inlineFragment ⟨_, _, selectionSet, _⟩, type, h => by
      rw [ValidationContext.enterSelection] at h ⊢
      exact enteredWith_of_enterSelectionSet selectionSet _ h

theorem enteredWith_of_enterSubselections {parentType : Option Text} {set : SelectionSetNode} :
    ∀ (selectionSet : Option SelectionSetNode) (type : Option GraphQLType),
    (parentType, set) ∈ context.enterSubselections type selectionSet →
    EnteredWith context parentType set (context.enterSubselections type selectionSet)
  | none, type, h => by
      rw [ValidationContext.enterSubselections] at h
      cases h
  | some selectionSet, type, h => by
      rw [ValidationContext.enterSubselections] at h ⊢
      exact enteredWith_of_enterSelectionSet selectionSet type h

end

theorem enteredWith_of_enterDocument {parentType : Option Text} {set : SelectionSetNode}
    (h : (parentType, set) ∈ context.enterDocument) :
    EnteredWith context parentType set context.enterDocument := by
  obtain ⟨definition, hdefinition, hmem⟩ := List.mem_flatMap.mp h
  have hsub : context.enterDefinition definition ⊆ context.enterDocument :=
    fun _ hentered => List.mem_flatMap.mpr ⟨definition, hdefinition, hentered⟩
  cases definition with
  | operation node => exact (enteredWith_of_enterSelectionSet _ _ hmem).mono hsub
  | fragment node => exact (enteredWith_of_enterSelectionSet _ _ hmem).mono hsub
  | _ => cases hmem

/-! ## One parent type for each selection set -/

/-- The parent type with which the selection set is entered first. -/
def enteredParent (context : ValidationContext) (set : SelectionSetNode) : Option Text :=
  (context.enterDocument.find? fun entered => entered.2 = set).bind
    fun entered => fieldParent context entered.1

theorem enteredParent_eq (hlocated : (documentSets context.document).Nodup)
    {parentType : Option Text} {set : SelectionSetNode}
    (h : (parentType, set) ∈ context.enterDocument) :
    fieldParent context parentType = enteredParent context set := by
  rw [← map_enterDocument] at hlocated
  have hfound : (context.enterDocument.find? fun entered => entered.2 = set).isSome :=
    List.find?_isSome.mpr ⟨(parentType, set), h, decide_eq_true rfl⟩
  obtain ⟨entered, hfind⟩ := Option.isSome_iff_exists.mp hfound
  have hset : entered.2 = set := by
    have hdecide := List.find?_some hfind
    exact of_decide_eq_true hdecide
  have heq : entered = (parentType, set) :=
    List.inj_on_of_nodup_map hlocated (List.mem_of_find?_eq_some hfind) h hset
  rw [enteredParent, hfind, heq]
  rfl

/-- In a document of which no two selection sets are equal, each is known by one parent type. -/
def ParentTypes.ofLocated (hschema : ReservesTypename context.schema)
    (hlocated : (documentSets context.document).Nodup)
    (hfields : ∀ set ∈ documentSets context.document, ∀ node ∈ allDirectFields set.selections,
      NotRootMetaField node) : ParentTypes context where
  parentOf := enteredParent context
  entered _ _ h := enteredParent_eq hlocated h
  subfields set hset field hfield subset hsubset := by
    have hnode := hfields set hset _ (node_mem_of_allPlainFields _ _ hfield)
    rw [← map_enterDocument, List.mem_map] at hset
    obtain ⟨⟨parentType, set'⟩, hentered, hset'⟩ := hset
    obtain rfl : set' = set := hset'
    obtain ⟨type, rfl, hsub⟩ := enteredWith_of_enterDocument hentered
    have hparent := enteredParent_eq hlocated hentered
    have heq : fieldParent context (enteredParent context set') =
        fieldParent context (context.parentTypeOf type) := by
      rw [← hparent, fieldParent_idem]
    rw [allPlainFields_congr heq] at hfield
    obtain ⟨parentType, hmem, heq⟩ :=
      entered_of_allPlainFields hschema hsubset hnode _ type hfield
    rw [← heq]
    exact enteredParent_eq hlocated (hsub hmem)
  fragments name fragment h := by
    rw [← fieldParent_conditionTypeOf]
    refine enteredParent_eq hlocated (List.mem_flatMap.mpr ⟨_, mem_of_getFragment h, ?_⟩)
    rw [ValidationContext.enterDefinition]
    cases fragment.selectionSet
    rw [ValidationContext.enterSelectionSet]
    exact List.mem_cons_self

end GraphqlCore.Validation
