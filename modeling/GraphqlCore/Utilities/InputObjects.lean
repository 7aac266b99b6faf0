import GraphqlCore.Data.Settles
import GraphqlCore.Utilities.CoerceInputValue

/-!
# The fields of input objects

External values and literals are coerced to an input object by the same loop over
the fields of its type: what is left to be told is how one field is coerced.  The
section on schemas states what schema validation ensures of input objects.
-/

namespace GraphqlCore

/-! ## Storing the coerced fields -/

section StoreFields

variable {coerceField : Text → GraphQLInputField → Except Stop (Option Value)}

/-- The entries with that of a field, if there is a value for it. -/
def storeField (fieldName : Text) (field : GraphQLInputField)
    (coercedField : Option Value) (coercedDict : List (Text × Value)) :
    List (Text × Value) :=
  match coercedField with
  | none => coercedDict
  | some value => Dict.store (field.outNameOr fieldName) value coercedDict

/-- The coerced fields of an input object, after those that are already there. -/
def storeFields (coerceField : Text → GraphQLInputField → Except Stop (Option Value)) :
    List (Text × GraphQLInputField) → List (Text × Value) →
      Except Stop (List (Text × Value))
  | [], coercedDict => .ok coercedDict
  | (fieldName, field) :: rest, coercedDict => do
      let coercedField ← coerceField fieldName field
      storeFields coerceField rest
        (storeField fieldName field coercedField coercedDict)

theorem settles_storeFields {accepted : Text → GraphQLInputField → Prop}
    {fields : List (Text × GraphQLInputField)}
    (h : ∀ entry ∈ fields, Settles Stop.undefined (coerceField entry.1 entry.2)
      (accepted entry.1 entry.2)) (coercedDict : List (Text × Value)) :
    Settles Stop.undefined (storeFields coerceField fields coercedDict)
      (∀ entry ∈ fields, accepted entry.1 entry.2) := by
  induction fields generalizing coercedDict with
  | nil => exact .ok (by simp)
  | cons entry rest ih =>
      rw [storeFields, List.forall_mem_cons]
      apply (h entry List.mem_cons_self).bind
      intro coercedField _
      exact ih (fun entry hmem => h entry (List.mem_cons_of_mem _ hmem)) _

/-- Fields without a value add no entry. -/
theorem storeFields_eq_self {fields : List (Text × GraphQLInputField)}
    (h : ∀ entry ∈ fields, coerceField entry.1 entry.2 = .ok none)
    (coercedDict : List (Text × Value)) :
    storeFields coerceField fields coercedDict = .ok coercedDict := by
  induction fields with
  | nil => rfl
  | cons entry rest ih =>
      rw [storeFields, h entry List.mem_cons_self]
      exact ih fun entry hmem => h entry (List.mem_cons_of_mem _ hmem)

/-- The only field with a value makes the only entry. -/
theorem storeFields_eq_single {fields : Dict Text GraphQLInputField} {fieldName : Text}
    {field : GraphQLInputField} {value : Value}
    (hfield : fields.get fieldName = some field)
    (hvalue : coerceField fieldName field = .ok (some value))
    (hothers : ∀ entry ∈ fields.items, entry.1 ≠ fieldName →
      coerceField entry.1 entry.2 = .ok none) :
    storeFields coerceField fields.items [] =
      .ok [(field.outNameOr fieldName, value)] := by
  obtain ⟨items, hnodup⟩ := fields
  rw [Dict.get] at hfield
  simp only at hfield hothers ⊢
  induction items with
  | nil => cases hfield
  | cons entry rest ih =>
      obtain ⟨fieldName', field'⟩ := entry
      rw [List.map_cons, List.nodup_cons] at hnodup
      rw [Dict.find] at hfield
      split at hfield
      · rename_i heq
        cases heq
        cases hfield
        rw [storeFields, hvalue]
        apply storeFields_eq_self
        intro entry hmem
        apply hothers entry (List.mem_cons_of_mem _ hmem)
        intro heq
        exact hnodup.1 (List.mem_map.mpr ⟨entry, hmem, heq⟩)
      · rename_i hne
        rw [storeFields, hothers _ List.mem_cons_self hne]
        exact ih hnodup.2 hfield fun entry hmem =>
          hothers entry (List.mem_cons_of_mem _ hmem)

end StoreFields

/-! ## What schema validation ensures -/

/-- The fields of input objects have input types. -/
def HasInputFields (types : InputTypes) : Prop :=
  ∀ name fields isOneOf description fieldName field,
    types.schema.getType name = some (.inputObject fields isOneOf description) →
    (fieldName, field) ∈ fields.items → types.schema.isInputType field.type

/-- The fields of input objects have input types, those of OneOf objects have no
default values, and default values that are nested to the given depth are valid. -/
structure ValidInputTypes (types : InputTypes) (depth : ℕ) : Prop where
  hasInputFields : HasInputFields types
  oneOf : ∀ name fields description fieldName field,
    types.schema.getType name = some (.inputObject fields true description) →
    (fieldName, field) ∈ fields.items → field.default = none ∧ field.defaultValue = none
  defaults : ∀ name fields isOneOf description fieldName field,
    types.schema.getType name = some (.inputObject fields isOneOf description) →
    (fieldName, field) ∈ fields.items →
    ∃ value, coerceDefaultValue types depth field.toInputDefinition = .ok value

theorem coerceDefaultValue_eq_ok {types : InputTypes} {depth : ℕ}
    {inputValue : InputDefinition} {value : Option Value}
    (hdefault : inputValue.default = none)
    (h : coerceDefaultValue types depth inputValue = .ok value) :
    value = inputValue.defaultValue := by
  cases depth with
  | zero => cases h
  | succ depth =>
      rw [coerceDefaultValue, hdefault] at h
      cases h
      rfl

/-- The conditions on a field of an input object, to be computed. -/
def checkInputField (types : InputTypes) (depth : ℕ) (isOneOf : Bool)
    (field : GraphQLInputField) : Bool :=
  types.schema.isInputType field.type &&
  (!isOneOf || field.default.isNone && field.defaultValue.isNone) &&
  (coerceDefaultValue types depth field.toInputDefinition).isOk

def checkInputType (types : InputTypes) (depth : ℕ) : GraphQLNamedType → Bool
  | .inputObject fields isOneOf _ =>
      fields.values.all (checkInputField types depth isOneOf)
  | _ => true

theorem validInputTypes_of_check {types : InputTypes} {depth : ℕ}
    (h : types.schema.typeMap.values.all (checkInputType types depth) = true) :
    ValidInputTypes types depth := by
  have hfield : ∀ name fields isOneOf description fieldName field,
      types.schema.getType name = some (.inputObject fields isOneOf description) →
      (fieldName, field) ∈ fields.items →
      checkInputField types depth isOneOf field = true := by
    intro name fields isOneOf description fieldName field htype hmem
    have hcheck := List.all_eq_true.mp h _
      (List.mem_map_of_mem (Dict.mem_items_iff.mpr htype))
    exact List.all_eq_true.mp hcheck _ (List.mem_map_of_mem hmem)
  simp only [checkInputField, Bool.and_eq_true, Bool.or_eq_true] at hfield
  constructor
  · intro name fields isOneOf description fieldName field htype hmem
    exact (hfield _ _ _ _ _ _ htype hmem).1.1
  · intro name fields description fieldName field htype hmem
    have hnone := (hfield _ _ _ _ _ _ htype hmem).1.2
    simpa using hnone
  · intro name fields isOneOf description fieldName field htype hmem
    have hok := (hfield _ _ _ _ _ _ htype hmem).2
    cases hvalue : coerceDefaultValue types depth field.toInputDefinition with
    | ok value => exact ⟨value, rfl⟩
    | error stop =>
        rw [hvalue] at hok
        cases hok

end GraphqlCore
