import GraphqlCore.Execution.CollectFields
import GraphqlCore.Type.Hierarchy
import GraphqlCore.Validation.ValidationContext

/-!
# Possible fragment spreads

The rule of `validation/rules/possible_fragment_spreads.py` and the condition under
which the executor enters a fragment.  Both are compared with the object types below
a composite type.
-/

namespace GraphqlCore

open Execution Language

/-! ## The rule -/

namespace PossibleFragmentSpreadsRule

variable (context : ValidationContext)

/-- The type that a visited node has, where it is a composite type. -/
def compositeType (type : Option GraphQLType) : Option Text :=
  match type with
  | some (.named name) => if context.schema.isCompositeType name then some name else none
  | _ => none

def enterInlineFragment (type : Option GraphQLType) (parentType : Option Text) :
    List Text :=
  match compositeType context type, parentType.filter context.schema.isCompositeType with
  | some fragType, some parentType =>
      if doTypesOverlap context.schema fragType parentType then []
      else
        [str "Fragment cannot be spread here as objects of type '" ++ parentType ++
          str "' can never be of type '" ++ fragType ++ str "'."]
  | _, _ => []

def getFragmentType (name : Text) : Option Text :=
  match context.getFragment name with
  | some frag =>
      (typeFromAst context.schema frag.typeCondition).filter
        context.schema.isCompositeType
  | none => none

def enterFragmentSpread (node : FragmentSpreadNode) (parentType : Option Text) :
    List Text :=
  match getFragmentType context node.name.value, parentType with
  | some fragType, some parentType =>
      if doTypesOverlap context.schema fragType parentType then []
      else
        [str "Fragment '" ++ node.name.value ++ str "' cannot be spread here as objects " ++
          str "of type '" ++ parentType ++ str "' can never be of type '" ++ fragType ++
          str "'."]
  | _, _ => []

end PossibleFragmentSpreadsRule

/-! ## Object types below a composite type -/

section Objects

variable {schema : GraphQLSchema} {name object : Text}

/-- The object types that a value of the composite type can have. -/
def IsPossibleObject (schema : GraphQLSchema) (name object : Text) : Prop :=
  schema.isObjectType object ∧ (object = name ∨ object ∈ schema.getPossibleTypes name)

theorem isAbstractType_iff :
    schema.isAbstractType name ↔
      ∃ type, schema.getType name = some type ∧ type.isAbstractType := by
  unfold GraphQLSchema.isAbstractType GraphQLSchema.named
  rw [GraphQLType.getNamedType]
  cases schema.getType name <;> simp

theorem not_isAbstractType_of_isObjectType (h : schema.isObjectType name) :
    schema.isAbstractType name = false := by
  obtain ⟨type, htype, hkind⟩ := isObjectType_iff.mp h
  rw [Bool.eq_false_iff, ne_eq, isAbstractType_iff]
  rintro ⟨type', htype', hkind'⟩
  rw [htype] at htype'
  cases htype'
  cases type <;> simp_all [GraphQLNamedType.isObjectType, GraphQLNamedType.isAbstractType]

theorem isObjectType_of_isCompositeType (h : schema.isCompositeType name)
    (habstract : schema.isAbstractType name = false) : schema.isObjectType name := by
  unfold GraphQLSchema.isCompositeType GraphQLSchema.named at h
  unfold GraphQLSchema.isAbstractType GraphQLSchema.named at habstract
  unfold GraphQLSchema.isObjectType GraphQLSchema.named
  rw [GraphQLType.getNamedType] at h habstract ⊢
  cases htype : schema.getType name with
  | none => simp [htype] at h
  | some type => simp_all

/-- Below an abstract type, the subtypes that are objects are the possible types. -/
theorem isSubType_iff_mem_getPossibleTypes (hobject : schema.isObjectType object) :
    schema.isSubType name object ↔ object ∈ schema.getPossibleTypes name := by
  have hkind : ((schema.getType object).map GraphQLNamedType.isObjectType).getD false :=
    hobject
  unfold GraphQLSchema.isSubType GraphQLSchema.getPossibleTypes
  split
  · rw [decide_eq_true_iff]
  · rw [decide_eq_true_iff, List.mem_filter]
    exact ⟨fun h => ⟨h, hkind⟩, And.left⟩

namespace ClosedHierarchy

/-- Possible types are objects: interfaces are left out, and unions have none. -/
theorem isObjectType_of_mem (hclosed : ClosedHierarchy schema)
    (h : object ∈ schema.getPossibleTypes name) : schema.isObjectType object := by
  unfold GraphQLSchema.getPossibleTypes at h
  split at h
  · rename_i types description htype
    exact hclosed.isObject htype h
  · exact (List.mem_filter.mp h).2

/-- Only abstract types have possible types other than themselves. -/
theorem isAbstractType_of_mem (hclosed : ClosedHierarchy schema)
    (h : object ∈ schema.getPossibleTypes name) : schema.isAbstractType name := by
  unfold GraphQLSchema.getPossibleTypes at h
  split at h
  · rename_i types description htype
    exact isAbstractType_iff.mpr ⟨_, htype, rfl⟩
  · obtain ⟨type, htype, hiface⟩ := mem_getImplementations.mp (List.mem_filter.mp h).1
    obtain ⟨iface, hget, hkind⟩ := isInterfaceType_iff.mp (hclosed.isInterface htype hiface)
    refine isAbstractType_iff.mpr ⟨iface, hget, ?_⟩
    cases iface <;>
      simp_all [GraphQLNamedType.isInterfaceType, GraphQLNamedType.isAbstractType]

/-- An object type has no other object type below it. -/
theorem isPossibleObject_object_iff (hclosed : ClosedHierarchy schema)
    (hname : schema.isObjectType name) :
    IsPossibleObject schema name object ↔ object = name := by
  constructor
  · rintro ⟨-, rfl | hmem⟩
    · rfl
    · have habstract := hclosed.isAbstractType_of_mem hmem
      rw [not_isAbstractType_of_isObjectType hname] at habstract
      cases habstract
  · rintro rfl
    exact ⟨hname, .inl rfl⟩

theorem isPossibleObject_abstract_iff (hclosed : ClosedHierarchy schema)
    (hname : schema.isAbstractType name) :
    IsPossibleObject schema name object ↔ object ∈ schema.getPossibleTypes name := by
  constructor
  · rintro ⟨hobject, rfl | hmem⟩
    · rw [not_isAbstractType_of_isObjectType hobject] at hname
      cases hname
    · exact hmem
  · intro hmem
    exact ⟨hclosed.isObjectType_of_mem hmem, .inr hmem⟩

end ClosedHierarchy

end Objects

/-! ## Overlaps -/

section Overlaps

variable {schema : GraphQLSchema} {a b : Text}

/-- Different composite types overlap where they have an object type in common. -/
theorem ClosedHierarchy.doTypesOverlap_iff (hclosed : ClosedHierarchy schema)
    (ha : schema.isCompositeType a) (hb : schema.isCompositeType b) (hne : a ≠ b) :
    doTypesOverlap schema a b ↔
      ∃ object, IsPossibleObject schema a object ∧ IsPossibleObject schema b object := by
  unfold doTypesOverlap
  rw [if_neg hne]
  cases habstract : schema.isAbstractType a with
  | true =>
      simp only [hclosed.isPossibleObject_abstract_iff habstract, if_true]
      cases hbstract : schema.isAbstractType b with
      | true =>
          simp only [hclosed.isPossibleObject_abstract_iff hbstract, if_true,
            List.any_eq_true]
          refine exists_congr fun object => and_congr_right fun hobject => ?_
          exact isSubType_iff_mem_getPossibleTypes (hclosed.isObjectType_of_mem hobject)
      | false =>
          have hobject := isObjectType_of_isCompositeType hb hbstract
          simp only [hclosed.isPossibleObject_object_iff hobject, exists_eq_right]
          exact isSubType_iff_mem_getPossibleTypes hobject
  | false =>
      have hobject := isObjectType_of_isCompositeType ha habstract
      simp only [hclosed.isPossibleObject_object_iff hobject, exists_eq_left]
      cases hbstract : schema.isAbstractType b with
      | true =>
          rw [hclosed.isPossibleObject_abstract_iff hbstract]
          exact isSubType_iff_mem_getPossibleTypes hobject
      | false =>
          rw [hclosed.isPossibleObject_object_iff
            (isObjectType_of_isCompositeType hb hbstract)]
          simpa using hne

theorem ClosedHierarchy.doTypesOverlap_comm (hclosed : ClosedHierarchy schema)
    (ha : schema.isCompositeType a) (hb : schema.isCompositeType b) :
    doTypesOverlap schema a b = doTypesOverlap schema b a := by
  by_cases hne : a = b
  · rw [hne]
  · rw [Bool.eq_iff_iff, hclosed.doTypesOverlap_iff ha hb hne,
      hclosed.doTypesOverlap_iff hb ha (Ne.symm hne)]
    exact exists_congr fun _ => and_comm

/-- An inline fragment is accepted if its type and the parent type have an object type
in common. -/
theorem ClosedHierarchy.enterInlineFragment_eq_nil_iff {context : ValidationContext}
    (hclosed : ClosedHierarchy context.schema) (ha : context.schema.isCompositeType a)
    (hb : context.schema.isCompositeType b) (hne : a ≠ b) :
    PossibleFragmentSpreadsRule.enterInlineFragment context (some (.named a)) (some b) = [] ↔
      ∃ object, IsPossibleObject context.schema a object ∧
        IsPossibleObject context.schema b object := by
  rw [← hclosed.doTypesOverlap_iff ha hb hne]
  simp [PossibleFragmentSpreadsRule.enterInlineFragment,
    PossibleFragmentSpreadsRule.compositeType, ha, hb, Option.filter]

theorem ClosedHierarchy.enterFragmentSpread_eq_nil_iff {context : ValidationContext}
    {node : FragmentSpreadNode} (hclosed : ClosedHierarchy context.schema)
    (ha : PossibleFragmentSpreadsRule.getFragmentType context node.name.value = some a)
    (hb : context.schema.isCompositeType b) (hne : a ≠ b) :
    PossibleFragmentSpreadsRule.enterFragmentSpread context node (some b) = [] ↔
      ∃ object, IsPossibleObject context.schema a object ∧
        IsPossibleObject context.schema b object := by
  have hcomposite : context.schema.isCompositeType a := by
    unfold PossibleFragmentSpreadsRule.getFragmentType at ha
    cases hfrag : context.getFragment node.name.value with
    | none => simp [hfrag] at ha
    | some frag =>
        simp only [hfrag] at ha
        exact (Option.filter_eq_some_iff.mp ha).2
  rw [← hclosed.doTypesOverlap_iff hcomposite hb hne]
  simp [PossibleFragmentSpreadsRule.enterFragmentSpread, ha]

end Overlaps

/-! ## Fragments at execution -/

/-- On an object type, a fragment condition matches the composite types above it. -/
theorem doesFragmentConditionMatch_iff {context : CollectFieldsContext}
    {condition : NamedTypeNode} (hclosed : ClosedHierarchy context.schema)
    (hcondition : context.schema.isCompositeType condition.name.value)
    (hobject : context.schema.isObjectType context.runtimeType) :
    context.doesFragmentConditionMatch (some condition) ↔
      IsPossibleObject context.schema condition.name.value context.runtimeType := by
  unfold CollectFieldsContext.doesFragmentConditionMatch
  cases htype : context.schema.getType condition.name.value with
  | none =>
      simp [GraphQLSchema.isCompositeType, GraphQLSchema.named, GraphQLType.getNamedType,
        htype] at hcondition
  | some conditionalType =>
      have habstract : context.schema.isAbstractType condition.name.value =
          conditionalType.isAbstractType := by
        simp [GraphQLSchema.isAbstractType, GraphQLSchema.named,
          GraphQLType.getNamedType, htype]
      simp only [htype]
      rw [Bool.or_eq_true, Bool.and_eq_true, ← habstract, decide_eq_true_iff,
        isSubType_iff_mem_getPossibleTypes hobject]
      constructor
      · rintro (heq | ⟨-, hmem⟩)
        · exact ⟨hobject, .inl heq.symm⟩
        · exact ⟨hobject, .inr hmem⟩
      · rintro ⟨-, heq | hmem⟩
        · exact .inl heq.symm
        · exact .inr ⟨hclosed.isAbstractType_of_mem hmem, hmem⟩

/-- Fragment spreads are rejected where they can never apply: the check of overlapping
types is symmetric, and for different types it fails exactly if no object type of the
parent type passes the type condition at execution. -/
theorem overlapsWhereFragmentsApply (context : CollectFieldsContext) (parentType : Text)
    (condition : NamedTypeNode) (hvalid : validateSchema context.schema = [])
    (hparent : context.schema.isCompositeType parentType)
    (hcondition : context.schema.isCompositeType condition.name.value) :
    doTypesOverlap context.schema parentType condition.name.value =
        doTypesOverlap context.schema condition.name.value parentType ∧
      (parentType ≠ condition.name.value →
        (doTypesOverlap context.schema parentType condition.name.value = false ↔
          ∀ object, context.schema.isObjectType object →
            (object = parentType ∨
              object ∈ context.schema.getPossibleTypes parentType) →
            { context with runtimeType := object }.doesFragmentConditionMatch
              (some condition) = false)) := by
  have hclosed := closedHierarchy hvalid
  refine ⟨hclosed.doTypesOverlap_comm hparent hcondition, fun hne => ?_⟩
  rw [← Bool.not_eq_true, hclosed.doTypesOverlap_iff hparent hcondition hne, not_exists]
  refine forall_congr' fun object => ?_
  have hmatch (hobject : context.schema.isObjectType object) :
      { context with runtimeType := object }.doesFragmentConditionMatch (some condition) ↔
        IsPossibleObject context.schema condition.name.value object :=
    doesFragmentConditionMatch_iff hclosed hcondition hobject
  constructor
  · intro hnone hobject hpossible
    rw [← Bool.not_eq_true]
    exact fun hmatches => hnone ⟨⟨hobject, hpossible⟩, (hmatch hobject).mp hmatches⟩
  · rintro hfails ⟨⟨hobject, hpossible⟩, hbelow⟩
    have hfalse := hfails hobject hpossible
    rw [(hmatch hobject).mpr hbelow] at hfalse
    cases hfalse

/-- Of the interface `Pet`, only `Cat` is a possible type, and of the union `Guard`, only
`Dog`. -/
def petContext : CollectFieldsContext :=
  let fields := Dict.empty.set (str "name") { type := .named (str "String") }
  { schema :=
      { typeMap := ((((Dict.empty.set (str "String") .scalar).set (str "Pet")
          (.interface fields [])).set (str "Cat")
          (.object fields [str "Pet"])).set (str "Dog") (.object fields [])).set
          (str "Guard") (.union [str "Dog"])
        queryType := some (str "Cat") }
    fragments := Dict.empty
    variableValues := { sources := [], coerced := Dict.empty }
    runtimeType := str "Cat"
    coercion :=
      { coerceInputLiteral := fun _ _ _ _ => none, coerceInputValue := fun _ _ => none } }

theorem overlapsWhereFragmentsApply_pets :
    { petContext with runtimeType := str "Cat" }.doesFragmentConditionMatch
      (some { name := { value := str "Guard" } }) = false := by
  have hvalid : validateSchema petContext.schema = [] := by decide +kernel
  have hoverlap : doTypesOverlap petContext.schema (str "Pet") (str "Guard") = false := by
    decide +kernel
  exact ((overlapsWhereFragmentsApply petContext (str "Pet")
    { name := { value := str "Guard" } } hvalid (by decide +kernel) (by decide +kernel)).2
    (by decide +kernel)).mp hoverlap (str "Cat") (by decide +kernel) (by decide +kernel)

end GraphqlCore
