import GraphqlCore.Utilities.FindSchemaChanges
import Mathlib.Logic.Relation

/-!
# Safe changes of types

The type of an output field may become less nullable and that of an input more so.
Both recursions over pairs of types decide this at every level of wrapping.
-/

namespace GraphqlCore

open Relation

/-! ## Adding and removing Non-Null -/

/-- One Non-Null is put around a type, at the top or below its wrappers. -/
inductive AddsNonNull : GraphQLType → GraphQLType → Prop
  | here (type : GraphQLType) : AddsNonNull type (.nonNull type)
  | list {old new : GraphQLType} (h : AddsNonNull old new) :
      AddsNonNull (.list old) (.list new)
  | nonNull {old new : GraphQLType} (h : AddsNonNull old new) :
      AddsNonNull (.nonNull old) (.nonNull new)

/-- One Non-Null is taken away, at the top or below the wrappers. -/
def RemovesNonNull (old new : GraphQLType) : Prop := AddsNonNull new old

theorem addsNonNull_list {old new : GraphQLType} (h : ReflTransGen AddsNonNull old new) :
    ReflTransGen AddsNonNull (.list old) (.list new) :=
  h.lift _ fun _ _ => .list

theorem addsNonNull_nonNull {old new : GraphQLType}
    (h : ReflTransGen AddsNonNull old new) :
    ReflTransGen AddsNonNull (.nonNull old) (.nonNull new) :=
  h.lift _ fun _ _ => .nonNull

theorem removesNonNull_iff {old new : GraphQLType} :
    ReflTransGen RemovesNonNull old new ↔ ReflTransGen AddsNonNull new old :=
  reflTransGen_swap

/-! ## Fields of objects and interfaces -/

section Outputs

variable {old new type : GraphQLType}

@[simp]
theorem isChangeSafeForObjectOrInterfaceField_refl (type : GraphQLType) :
    isChangeSafeForObjectOrInterfaceField type type = true := by
  induction type with
  | named name => simp [isChangeSafeForObjectOrInterfaceField]
  | list _ ih => simpa [isChangeSafeForObjectOrInterfaceField] using ih
  | nonNull _ ih => simpa [isChangeSafeForObjectOrInterfaceField] using ih

/-- A type that is not nullable is changed to such a type only. -/
theorem eq_nonNull_of_safe
    (h : isChangeSafeForObjectOrInterfaceField (.nonNull old) new = true) :
    ∃ ofType, new = .nonNull ofType ∧
      isChangeSafeForObjectOrInterfaceField old ofType = true := by
  cases new with
  | nonNull ofType =>
      rw [isChangeSafeForObjectOrInterfaceField] at h
      exact ⟨ofType, rfl, h⟩
  | named | list =>
      rw [isChangeSafeForObjectOrInterfaceField] at h
      · cases h
      all_goals simp

/-- To a nullable type, Non-Null may be added at the top. -/
theorem isChangeSafe_nonNull_of_nullable (hold : isNonNullType old = false) :
    isChangeSafeForObjectOrInterfaceField old (.nonNull new) =
      isChangeSafeForObjectOrInterfaceField old new := by
  cases old with
  | named | list => rw [isChangeSafeForObjectOrInterfaceField]
  | nonNull => cases hold

theorem isChangeSafe_list_iff :
    isChangeSafeForObjectOrInterfaceField old (.list new) = true ↔
      ∃ item, old = .list item ∧
        isChangeSafeForObjectOrInterfaceField item new = true := by
  constructor
  · intro h
    cases old with
    | list item =>
        rw [isChangeSafeForObjectOrInterfaceField] at h
        exact ⟨item, rfl, h⟩
    | named | nonNull =>
        rw [isChangeSafeForObjectOrInterfaceField] at h
        · cases h
        all_goals simp
  · rintro ⟨item, rfl, h⟩
    rwa [isChangeSafeForObjectOrInterfaceField]

/-- The new type may always get a further Non-Null. -/
theorem isChangeSafe_nonNull
    (h : isChangeSafeForObjectOrInterfaceField old new = true) :
    isChangeSafeForObjectOrInterfaceField old (.nonNull new) = true := by
  induction old generalizing new with
  | named | list => rwa [isChangeSafe_nonNull_of_nullable rfl]
  | nonNull old ih =>
      obtain ⟨ofType, rfl, hofType⟩ := eq_nonNull_of_safe h
      rw [isChangeSafeForObjectOrInterfaceField]
      exact ih hofType

theorem AddsNonNull.isChangeSafe {mid : GraphQLType} (hstep : AddsNonNull mid new)
    (h : isChangeSafeForObjectOrInterfaceField old mid = true) :
    isChangeSafeForObjectOrInterfaceField old new = true := by
  induction hstep generalizing old with
  | here => exact isChangeSafe_nonNull h
  | list _ ih =>
      obtain ⟨item, rfl, hitem⟩ := isChangeSafe_list_iff.mp h
      exact isChangeSafe_list_iff.mpr ⟨item, rfl, ih hitem⟩
  | nonNull _ ih =>
      cases old with
      | named | list =>
          rw [isChangeSafe_nonNull_of_nullable rfl] at h ⊢
          exact ih h
      | nonNull old =>
          rw [isChangeSafeForObjectOrInterfaceField] at h ⊢
          exact ih h

/-- A safe change of an output adds Non-Null at some levels, and nothing else. -/
theorem isChangeSafeForObjectOrInterfaceField_iff :
    isChangeSafeForObjectOrInterfaceField old new = true ↔
      ReflTransGen AddsNonNull old new := by
  constructor
  · intro h
    fun_induction isChangeSafeForObjectOrInterfaceField old new with
    | case1 _ _ ih => exact addsNonNull_list (ih h)
    | case2 _ newType ih => exact (ih h).tail (.here newType)
    | case3 _ _ ih => exact addsNonNull_nonNull (ih h)
    | case4 oldName newName =>
        obtain rfl := of_decide_eq_true h
        exact .refl
    | case5 _ newType ih => exact (ih h).tail (.here newType)
    | case6 => cases h
  · intro h
    induction h with
    | refl => exact isChangeSafeForObjectOrInterfaceField_refl old
    | tail _ hstep ih => exact hstep.isChangeSafe ih

end Outputs

/-! ## Input fields and arguments -/

/-- What is safe for an input is safe for an output the other way round. -/
theorem isChangeSafeForInputObjectFieldOrFieldArg_eq (old new : GraphQLType) :
    isChangeSafeForInputObjectFieldOrFieldArg old new =
      isChangeSafeForObjectOrInterfaceField new old := by
  fun_induction isChangeSafeForInputObjectFieldOrFieldArg old new with
  | case1 _ _ ih => rw [ih, isChangeSafeForObjectOrInterfaceField]
  | case2 _ _ ih => rw [ih, isChangeSafeForObjectOrInterfaceField]
  | case3 old new hnew ih =>
      rw [ih]
      cases new with
      | named | list => rw [isChangeSafe_nonNull_of_nullable rfl]
      | nonNull new => exact (hnew new rfl).elim
  | case4 oldName newName =>
      rw [isChangeSafeForObjectOrInterfaceField]
      exact decide_eq_decide.mpr eq_comm
  | case5 old new hlist hnonNull hnullable hnamed =>
      symm
      cases old <;> cases new <;> simp_all [isChangeSafeForObjectOrInterfaceField]

/-- A safe change of an input removes Non-Null at some levels, and nothing else. -/
theorem isChangeSafeForInputObjectFieldOrFieldArg_iff {old new : GraphQLType} :
    isChangeSafeForInputObjectFieldOrFieldArg old new = true ↔
      ReflTransGen RemovesNonNull old new := by
  rw [isChangeSafeForInputObjectFieldOrFieldArg_eq, removesNonNull_iff]
  exact isChangeSafeForObjectOrInterfaceField_iff

/-! ## The relations of safe changes -/

/-- Safe changes are structural: they add Non-Null to outputs and remove it from inputs,
at any levels.  Both are reflexive and transitive, and each is the converse of the
other. -/
theorem safeChanges_structural :
    (∀ old new, isChangeSafeForObjectOrInterfaceField old new = true ↔
      ReflTransGen AddsNonNull old new) ∧
    (∀ old new, isChangeSafeForInputObjectFieldOrFieldArg old new = true ↔
      ReflTransGen RemovesNonNull old new) ∧
    (∀ type, isChangeSafeForObjectOrInterfaceField type type = true ∧
      isChangeSafeForInputObjectFieldOrFieldArg type type = true) ∧
    (∀ a b c, isChangeSafeForObjectOrInterfaceField a b = true →
      isChangeSafeForObjectOrInterfaceField b c = true →
      isChangeSafeForObjectOrInterfaceField a c = true) ∧
    (∀ a b c, isChangeSafeForInputObjectFieldOrFieldArg a b = true →
      isChangeSafeForInputObjectFieldOrFieldArg b c = true →
      isChangeSafeForInputObjectFieldOrFieldArg a c = true) ∧
    ∀ old new, isChangeSafeForInputObjectFieldOrFieldArg old new =
      isChangeSafeForObjectOrInterfaceField new old := by
  have houtput : ∀ old new, isChangeSafeForObjectOrInterfaceField old new = true ↔
      ReflTransGen AddsNonNull old new :=
    fun _ _ => isChangeSafeForObjectOrInterfaceField_iff
  have hinput : ∀ old new, isChangeSafeForInputObjectFieldOrFieldArg old new = true ↔
      ReflTransGen RemovesNonNull old new :=
    fun _ _ => isChangeSafeForInputObjectFieldOrFieldArg_iff
  refine ⟨houtput, hinput, fun type => ⟨?_, ?_⟩, ?_, ?_,
    isChangeSafeForInputObjectFieldOrFieldArg_eq⟩
  · exact (houtput type type).mpr .refl
  · exact (hinput type type).mpr .refl
  · intro a b c hab hbc
    exact (houtput a c).mpr (((houtput a b).mp hab).trans ((houtput b c).mp hbc))
  · intro a b c hab hbc
    exact (hinput a c).mpr (((hinput a b).mp hab).trans ((hinput b c).mp hbc))

/-- An argument of type `[ID!]!` may become one of type `[ID]`. -/
theorem safeChanges_structural_list :
    isChangeSafeForInputObjectFieldOrFieldArg
      (.nonNull (.list (.nonNull (.named (str "ID"))))) (.list (.named (str "ID"))) =
        true := by
  have hid : AddsNonNull (.list (.named (str "ID")))
      (.list (.nonNull (.named (str "ID")))) := .list (.here _)
  exact (safeChanges_structural.2.1 _ _).mpr
    ((ReflTransGen.single (.here _)).trans (.single hid))

end GraphqlCore
