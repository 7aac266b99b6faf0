import GraphqlCore.Data.Settles
import GraphqlCore.Utilities.ValueToLiteral

/-!
# Values that have a literal

`value_to_literal` checks a value by rules of its own.  The values that it accepts are
described by `Fits`; where the coercion rejects one of them, the value has a part that is
described by `Slips`: an object that is no `dict`, an integer that a float cannot represent, a
OneOf object without exactly one entry that is not null, or an enum value without an internal
value.
-/

namespace GraphqlCore.ValueLiterals

open Language

variable {floats : FloatFormat} {Custom : Type}

/-! ## Values of a type -/

section Positions

variable (types : InputTypes floats Custom)

/-- A property that follows for a value of a type from the positions next to it holds
everywhere. -/
theorem position_induction {motive : HostValue floats → GraphQLType → Prop}
    (missing : ∀ value type, value.isMissing = true → motive value type)
    (nonNull : ∀ value ofType, value.isMissing = false → motive value ofType →
      motive value (.nonNull ofType))
    (list : ∀ items itemType, (∀ item ∈ items, motive item itemType) →
      motive (.iterable items) (.list itemType))
    (single : ∀ value itemType, value.isMissing = false → (∀ items, value ≠ .iterable items) →
      motive value itemType → motive value (.list itemType))
    (object : ∀ name fields isOneOf isDict entries,
      types.named name = .inputObject fields isOneOf →
      (∀ fieldName field value, (fieldName, field) ∈ fields.items →
        given entries fieldName = some value → motive value field.type) →
      motive (.mapping isDict entries) (.named name))
    (other : ∀ value name, value.isMissing = false →
      (∀ isDict entries, value = .mapping isDict entries → ∀ fields isOneOf,
        types.named name ≠ .inputObject fields isOneOf) → motive value (.named name)) :
    ∀ value type, motive value type
  | value, .nonNull ofType => by
      cases hmissing : value.isMissing with
      | true => exact missing value _ hmissing
      | false =>
          exact nonNull value ofType hmissing (position_induction missing nonNull list single
            object other value ofType)
  | value, .list itemType => by
      cases hmissing : value.isMissing with
      | true => exact missing value _ hmissing
      | false =>
          by_cases hlist : ∃ items, value = .iterable items
          · obtain ⟨items, rfl⟩ := hlist
            refine list items itemType fun item hmem => ?_
            have hlt := List.sizeOf_lt_of_mem hmem
            exact position_induction missing nonNull list single object other item itemType
          · exact single value itemType hmissing (not_exists.mp hlist)
              (position_induction missing nonNull list single object other value itemType)
  | value, .named name => by
      cases hmissing : value.isMissing with
      | true => exact missing value _ hmissing
      | false =>
          by_cases hobject : ∃ fields isOneOf isDict entries,
              types.named name = .inputObject fields isOneOf ∧ value = .mapping isDict entries
          · obtain ⟨fields, isOneOf, isDict, entries, hnamed, rfl⟩ := hobject
            refine object name fields isOneOf isDict entries hnamed ?_
            intro fieldName field fieldValue _ hgiven
            have hlt : sizeOf fieldValue < sizeOf (HostValue.mapping isDict entries) := by
              have hgiven := sizeOf_given_lt hgiven
              simp only [HostValue.mapping.sizeOf_spec]
              omega
            exact position_induction missing nonNull list single object other fieldValue field.type
          · refine other value name hmissing fun isDict entries hvalue fields isOneOf hnamed => ?_
            exact hobject ⟨fields, isOneOf, isDict, entries, hnamed, hvalue⟩
termination_by value type => (sizeOf value, sizeOf type)

end Positions

/-! ## What has a literal -/

/-- The values that a scalar makes a literal of. -/
def accepts : SpecifiedScalar → HostValue floats → Bool
  | .string, .str _ => true
  | .int, value => (integerOf value).any isIntInRange
  | .float, .float value => floats.isFinite value
  | .float, .int _ => true
  | .boolean, .bool _ => true
  | .id, .str _ => true
  | .id, value => (integerOf value).isSome
  | _, _ => false

/-- The values that are valid for a type by the rules of `value_to_literal`. -/
inductive Fits (types : InputTypes floats Custom) : HostValue floats → GraphQLType → Prop
  | null {value : HostValue floats} {type : GraphQLType} (hmissing : value.isMissing = true)
      (hnull : isNonNullType type = false) : Fits types value type
  | nonNull {value : HostValue floats} {type : GraphQLType} (hmissing : value.isMissing = false)
      (h : Fits types value type) : Fits types value (.nonNull type)
  | list {items : List (HostValue floats)} {type : GraphQLType}
      (h : ∀ item ∈ items, Fits types item type) : Fits types (.iterable items) (.list type)
  | single {value : HostValue floats} {type : GraphQLType} (hmissing : value.isMissing = false)
      (hlist : ∀ items, value ≠ .iterable items) (h : Fits types value type) :
      Fits types value (.list type)
  | object {name : Text} {fields : Dict Text (InputField floats)} {isOneOf isDict : Bool}
      {entries : List (Text × HostValue floats)}
      (hnamed : types.named name = .inputObject fields isOneOf)
      (hknown : hasUnknown fields entries = false)
      (hrequired : ∀ fieldName field, (fieldName, field) ∈ fields.items →
        given entries fieldName = none → field.isRequired = false)
      (hfields : ∀ fieldName field value, (fieldName, field) ∈ fields.items →
        given entries fieldName = some value → Fits types value field.type) :
      Fits types (.mapping isDict entries) (.named name)
  | scalar {name : Text} {scalar : SpecifiedScalar} {value : HostValue floats}
      (hnamed : types.named name = .scalar scalar) (hmissing : value.isMissing = false)
      (h : accepts scalar value = true) : Fits types value (.named name)
  | custom {name : Text} {custom : Custom} {value : HostValue floats}
      (hnamed : types.named name = .customScalar custom) (hmissing : value.isMissing = false)
      (h : (defaultScalarValueToLiteral value).isSome) : Fits types value (.named name)
  | enum {name : Text} {values : Dict Text (HostValue floats)} {value : Text}
      (hnamed : types.named name = .enum values) (h : (values.get value).isSome) :
      Fits types (.str value) (.named name)

section Literals

variable {types : InputTypes floats Custom} {value : HostValue floats} {type : GraphQLType}
  {name : Text}

/-- The literal of an iterable or a mapping is none of a scalar. -/
theorem defaultLiteral_iterable (items : List (HostValue floats)) :
    defaultScalarValueToLiteral (.iterable items) = none ∨
      ∃ values, defaultScalarValueToLiteral (.iterable items) = some (.list values none) := by
  rw [defaultScalarValueToLiteral]
  cases defaultItemsToLiterals items with
  | none => exact Or.inl rfl
  | some values => exact Or.inr ⟨values, rfl⟩

theorem defaultLiteral_mapping (isDict : Bool) (entries : List (Text × HostValue floats)) :
    defaultScalarValueToLiteral (.mapping isDict entries) = none ∨
      ∃ fields, defaultScalarValueToLiteral (.mapping isDict entries) =
        some (.object fields none) := by
  rw [defaultScalarValueToLiteral]
  cases defaultEntriesToLiterals entries with
  | none => exact Or.inl rfl
  | some fields => exact Or.inr ⟨fields, rfl⟩

theorem isSome_intLiteral (value : HostValue floats) :
    (SpecifiedScalar.intValueToLiteral value).isSome = accepts .int value := by
  rw [SpecifiedScalar.intValueToLiteral, accepts]
  cases integerOf value with
  | none => rfl
  | some number => cases h : isIntInRange number <;> simp [h]

open SpecifiedScalar in
theorem isSome_scalarLiteral (scalar : SpecifiedScalar) (value : HostValue floats) :
    (scalar.valueToLiteral value).isSome = accepts scalar value := by
  by_cases hint : scalar = .int
  · exact hint ▸ isSome_intLiteral value
  cases value with
  | iterable items =>
      rcases defaultLiteral_iterable items with h | ⟨values, h⟩ <;> cases scalar <;>
        simp_all [SpecifiedScalar.valueToLiteral, stringValueToLiteral,
          floatValueToLiteral, booleanValueToLiteral, idValueToLiteral, coerceIdFromNumber,
          accepts, integerOf]
  | mapping isDict entries =>
      rcases defaultLiteral_mapping isDict entries with h | ⟨fields, h⟩ <;> cases scalar <;>
        simp_all [SpecifiedScalar.valueToLiteral, stringValueToLiteral,
          floatValueToLiteral, booleanValueToLiteral, idValueToLiteral, coerceIdFromNumber,
          accepts, integerOf]
  | float value =>
      cases hfinite : floats.isFinite value <;> cases scalar <;>
        cases hinteger : isIntegerString (floats.text value) <;>
        simp_all [SpecifiedScalar.valueToLiteral, stringValueToLiteral,
          floatValueToLiteral, booleanValueToLiteral, idValueToLiteral, coerceIdFromNumber,
          accepts, defaultScalarValueToLiteral]
  | _ => cases scalar <;> first | rfl | exact absurd rfl hint

theorem isSome_itemsToLiterals (items : List (HostValue floats)) :
    (itemsToLiterals types items type).isSome ↔
      ∀ item ∈ items, (valueToLiteral types item type).isSome := by
  induction items with
  | nil => simp [itemsToLiterals]
  | cons item rest ih =>
      rw [itemsToLiterals, List.forall_mem_cons, ← ih]
      cases valueToLiteral types item type <;> cases itemsToLiterals types rest type <;> simp

theorem isSome_entriesToLiterals (entries : List (Text × HostValue floats))
    (fieldDefs : List (Text × InputField floats)) :
    (entriesToLiterals types entries fieldDefs).isSome ↔ ∀ fieldDef ∈ fieldDefs,
      (given entries fieldDef.1 = none → fieldDef.2.isRequired = false) ∧
      ∀ value, given entries fieldDef.1 = some value →
        (valueToLiteral types value fieldDef.2.type).isSome := by
  induction fieldDefs with
  | nil => simp [entriesToLiterals]
  | cons fieldDef rest ih =>
      obtain ⟨fieldName, field⟩ := fieldDef
      rw [entriesToLiterals, List.forall_mem_cons, ← ih]
      split
      · rename_i hgiven
        cases field.isRequired <;> simp [hgiven]
      · rename_i fieldValue hgiven
        cases hvalue : valueToLiteral types fieldValue field.type <;>
          cases entriesToLiterals types entries rest <;> simp [hgiven, hvalue]

theorem fits_missing_iff (hmissing : value.isMissing = true) :
    Fits types value type ↔ isNonNullType type = false := by
  refine ⟨fun h => ?_, .null hmissing⟩
  cases h with
  | null _ hnull => exact hnull
  | nonNull hpresent => exact absurd hmissing (by simp [hpresent])
  | _ => rfl

theorem fits_nonNull_iff (hmissing : value.isMissing = false) :
    Fits types value (.nonNull type) ↔ Fits types value type := by
  refine ⟨fun h => ?_, .nonNull hmissing⟩
  cases h with
  | null hnone => exact absurd hnone (by simp [hmissing])
  | nonNull _ h => exact h

theorem fits_list_iff {items : List (HostValue floats)} :
    Fits types (.iterable items) (.list type) ↔ ∀ item ∈ items, Fits types item type := by
  refine ⟨fun h => ?_, .list⟩
  cases h with
  | null hnone => exact absurd hnone (by simp)
  | list h => exact h
  | single _ hlist => exact absurd rfl (hlist items)

theorem fits_single_iff (hmissing : value.isMissing = false)
    (hlist : ∀ items, value ≠ .iterable items) :
    Fits types value (.list type) ↔ Fits types value type := by
  refine ⟨fun h => ?_, .single hmissing hlist⟩
  cases h with
  | null hnone => exact absurd hnone (by simp [hmissing])
  | list h => exact absurd rfl (hlist _)
  | single _ _ h => exact h

theorem fits_object_iff {fields : Dict Text (InputField floats)} {isOneOf isDict : Bool}
    {entries : List (Text × HostValue floats)}
    (hnamed : types.named name = .inputObject fields isOneOf) :
    Fits types (.mapping isDict entries) (.named name) ↔ hasUnknown fields entries = false ∧
      ∀ fieldDef ∈ fields.items,
        (given entries fieldDef.1 = none → fieldDef.2.isRequired = false) ∧
        ∀ value, given entries fieldDef.1 = some value → Fits types value fieldDef.2.type := by
  constructor
  · intro h
    cases h with
    | null hnone => exact absurd hnone (by simp)
    | object hnamed' hknown hrequired hfields =>
        obtain ⟨rfl, rfl⟩ := NamedInputType.inputObject.inj (hnamed.symm.trans hnamed')
        exact ⟨hknown, fun fieldDef hmem =>
          ⟨hrequired _ _ hmem, fun value => hfields _ _ value hmem⟩⟩
    | scalar hnamed' => nomatch hnamed.symm.trans hnamed'
    | custom hnamed' => nomatch hnamed.symm.trans hnamed'
  · rintro ⟨hknown, hfields⟩
    exact .object hnamed hknown (fun fieldName field hmem => (hfields _ hmem).1)
      fun fieldName field value hmem => (hfields _ hmem).2 value

theorem isSome_enumLiteral (values : Dict Text (HostValue floats)) (value : HostValue floats) :
    (enumValueToLiteral values value).isSome ↔
      ∃ text, value = .str text ∧ (values.get text).isSome := by
  cases value with
  | str text =>
      rw [enumValueToLiteral]
      cases h : values.get text <;> simp [h]
  | _ => simp [enumValueToLiteral]

theorem fits_named_iff (hmissing : value.isMissing = false) :
    Fits types value (.named name) ↔ match types.named name with
      | .scalar scalar => accepts scalar value = true
      | .customScalar _ => (defaultScalarValueToLiteral value).isSome
      | .enum values => ∃ text, value = .str text ∧ (values.get text).isSome
      | .inputObject _ _ => ∃ isDict entries, value = .mapping isDict entries ∧
          Fits types (.mapping isDict entries) (.named name) := by
  constructor
  · intro h
    cases h with
    | null hnone => exact absurd hnone (by simp [hmissing])
    | object hnamed hknown hrequired hfields =>
        rw [hnamed]
        exact ⟨_, _, rfl, .object hnamed hknown hrequired hfields⟩
    | scalar hnamed _ h => rwa [hnamed]
    | custom hnamed _ h => rwa [hnamed]
    | «enum» hnamed h =>
        rw [hnamed]
        exact ⟨_, rfl, h⟩
  · intro h
    cases hnamed : types.named name with
    | scalar scalar =>
        rw [hnamed] at h
        exact .scalar hnamed hmissing h
    | customScalar custom =>
        rw [hnamed] at h
        exact .custom hnamed hmissing h
    | «enum» values =>
        rw [hnamed] at h
        obtain ⟨text, rfl, h⟩ := h
        exact .enum hnamed h
    | inputObject fields isOneOf =>
        rw [hnamed] at h
        obtain ⟨isDict, entries, rfl, h⟩ := h
        exact h

/-- The values that fit a type have a literal. -/
theorem fits_iff (value : HostValue floats) (type : GraphQLType) :
    Fits types value type ↔ (valueToLiteral types value type).isSome := by
  induction value, type using position_induction types with
  | missing value type hmissing =>
      rw [fits_missing_iff hmissing, valueToLiteral_missing hmissing]
      cases isNonNullType type <;> simp
  | nonNull value ofType hmissing ih =>
      rw [fits_nonNull_iff hmissing, valueToLiteral_nonNull hmissing, ih]
  | list items itemType ih =>
      rw [fits_list_iff, valueToLiteral_list, Option.isSome_map, isSome_itemsToLiterals]
      exact forall₂_congr ih
  | single value itemType hmissing hlist ih =>
      rw [fits_single_iff hmissing hlist, valueToLiteral_single hmissing hlist, ih]
  | object name fields isOneOf isDict entries hnamed ih =>
      rw [fits_object_iff hnamed, valueToLiteral_object hnamed]
      cases hasUnknown fields entries with
      | true => simp
      | false =>
          rw [if_neg Bool.noConfusion, Option.isSome_map, isSome_entriesToLiterals]
          refine (and_iff_right rfl).trans (forall₂_congr fun fieldDef hmem => ?_)
          exact and_congr_right fun _ => forall₂_congr (ih _ _ · hmem)
  | other value name hmissing hobject =>
      rw [fits_named_iff hmissing]
      cases hnamed : types.named name with
      | scalar scalar => rw [valueToLiteral_scalar hnamed hmissing, isSome_scalarLiteral]
      | customScalar custom => rw [valueToLiteral_customScalar hnamed hmissing]
      | «enum» values => rw [valueToLiteral_enum hnamed hmissing, isSome_enumLiteral]
      | inputObject fields isOneOf =>
          have hno : ∀ isDict entries, value ≠ .mapping isDict entries :=
            fun isDict entries hvalue => hobject isDict entries hvalue fields isOneOf hnamed
          rw [valueToLiteral_noObject hnamed hmissing hno]
          refine iff_of_false ?_ Bool.noConfusion
          rintro ⟨isDict, entries, hvalue, -⟩
          exact hno isDict entries hvalue

end Literals

/-! ## What the coercion rejects -/

section Slips

variable (types : InputTypes floats Custom) (coerceDefault : DefaultCoercion floats)

/-- Is it an enum value whose internal value is `None`? -/
def isNullEnumValue : NamedInputType floats Custom → HostValue floats → Bool
  | .enum values, .str text => (values.get text).any HostValue.isNone
  | _, _ => false

/-- Is a value coerced to `None`? -/
def isNullAt (value : HostValue floats) : GraphQLType → Bool
  | .nonNull ofType => isNullAt value ofType
  | .list _ => value.isMissing
  | .named name => value.isMissing || isNullEnumValue (types.named name) value

/-- Is the entry null that a field adds to the coerced object?  `none` if it adds none. -/
def nullOf (entries : List (Text × HostValue floats)) (fieldDef : Text × InputField floats) :
    Option Bool :=
  match given entries fieldDef.1 with
  | some value => some (isNullAt types value fieldDef.2.type)
  | none =>
      match coerceDefault fieldDef.2 with
      | .ok value => value.map HostValue.isNone
      | .error _ => none

/-- The names of the entries of the coerced object, with which of them are null. -/
def nullsOf (entries : List (Text × HostValue floats))
    (fields : List (Text × InputField floats)) (nulls : List (Text × Bool)) :
    List (Text × Bool) :=
  fields.foldl (fun nulls fieldDef =>
    match nullOf types coerceDefault entries fieldDef with
    | none => nulls
    | some null => Dict.store (fieldDef.2.outNameOr fieldDef.1) null nulls) nulls

/-- Exactly one field is given, and with the default values there is exactly one entry, which
is not null. -/
def hasOneEntry (entries : List (Text × HostValue floats))
    (fields : List (Text × InputField floats)) : Prop :=
  (definedEntries entries).length = 1 ∧
    ∃ outName, nullsOf types coerceDefault entries fields [] = [(outName, false)]

/-- The parts of a value that the coercion rejects though they have a literal. -/
inductive Slips : HostValue floats → GraphQLType → Prop
  | nonNull {value : HostValue floats} {type : GraphQLType} (h : Slips value type) :
      Slips value (.nonNull type)
  | item {items : List (HostValue floats)} {item : HostValue floats} {type : GraphQLType}
      (hmem : item ∈ items) (h : Slips item type) : Slips (.iterable items) (.list type)
  | single {value : HostValue floats} {type : GraphQLType}
      (hlist : ∀ items, value ≠ .iterable items) (h : Slips value type) : Slips value (.list type)
  | noDict {name : Text} {fields : Dict Text (InputField floats)} {isOneOf : Bool}
      {entries : List (Text × HostValue floats)}
      (hnamed : types.named name = .inputObject fields isOneOf) :
      Slips (.mapping false entries) (.named name)
  | field {name fieldName : Text} {fields : Dict Text (InputField floats)} {isOneOf : Bool}
      {entries : List (Text × HostValue floats)} {field : InputField floats}
      {value : HostValue floats} (hnamed : types.named name = .inputObject fields isOneOf)
      (hmem : (fieldName, field) ∈ fields.items) (hgiven : given entries fieldName = some value)
      (h : Slips value field.type) : Slips (.mapping true entries) (.named name)
  | oneOf {name : Text} {fields : Dict Text (InputField floats)}
      {entries : List (Text × HostValue floats)}
      (hnamed : types.named name = .inputObject fields true)
      (h : ¬hasOneEntry types coerceDefault entries fields.items) :
      Slips (.mapping true entries) (.named name)
  | precision {name : Text} {value : ℤ} (hnamed : types.named name = .scalar .float)
      (h : ∀ number, floats.ofInt value = some number → floats.toInt number ≠ some value) :
      Slips (.int value) (.named name)
  | noInternalValue {name text : Text} {values : Dict Text (HostValue floats)}
      (hnamed : types.named name = .enum values) (h : values.get text = some .undefined) :
      Slips (.str text) (.named name)

end Slips

section Rejection

variable {types : InputTypes floats Custom} {coerceDefault : DefaultCoercion floats}
  {value : HostValue floats} {type : GraphQLType} {name : Text}

theorem finishLeaf_eq_ok {result : Option (HostValue floats)} {coerced : HostValue floats}
    (h : finishLeaf result = .ok coerced) :
    result = some coerced ∧ coerced.isUndefined = false := by
  cases result with
  | none => nomatch h
  | some value => cases value <;> cases h <;> exact ⟨rfl, rfl⟩

theorem finishLeaf_cases (result : Option (HostValue floats)) :
    (∃ coerced, finishLeaf result = .ok coerced) ∨ finishLeaf result = .error .undefined := by
  cases result with
  | none => exact Or.inr rfl
  | some value => cases value <;> first | exact Or.inr rfl | exact Or.inl ⟨_, rfl⟩

theorem finishLeaf_eq_error {result : Option (HostValue floats)}
    (h : finishLeaf result = .error .undefined) : result = none ∨ result = some .undefined := by
  cases result with
  | none => exact Or.inl rfl
  | some value => cases value <;> first | exact Or.inr rfl | nomatch h

/-- A scalar never coerces to `None`. -/
theorem isNone_scalarValue {scalar : SpecifiedScalar} {coerced : HostValue floats}
    (h : scalar.coerceInputValue value = some coerced) : coerced.isMissing = false := by
  cases scalar with
  | string =>
      cases value <;> cases h
      rfl
  | int =>
      obtain ⟨number, -, rfl⟩ := Option.map_eq_some_iff.mp h
      rfl
  | float =>
      cases value with
      | float value =>
          simp only [SpecifiedScalar.coerceInputValue, SpecifiedScalar.coerceFloat,
            Option.ite_none_right_eq_some] at h
          rw [← Option.some.inj h.2]
          rfl
      | int value =>
          obtain ⟨number, -, rfl⟩ := Option.map_eq_some_iff.mp h
          rfl
      | _ => nomatch h
  | boolean =>
      cases value <;> cases h
      rfl
  | id =>
      cases value with
      | str text =>
          cases h
          rfl
      | _ =>
          simp only [SpecifiedScalar.coerceInputValue, SpecifiedScalar.coerceId,
            Option.map_eq_some_iff] at h
          obtain ⟨text, -, rfl⟩ := h
          rfl

theorem isMissing_or (value : HostValue floats) :
    value.isMissing = (value.isNone || value.isUndefined) := rfl

theorem isNone_of_isMissing {value : HostValue floats} (h : value.isMissing = false) :
    value.isNone = false := by
  cases value <;> first | rfl | nomatch h

/-- A value that is coerced is coerced to `None` where `isNullAt` says so. -/
theorem isNone_coerced (value : HostValue floats) (type : GraphQLType) {coerced : HostValue floats}
    (h : coerceInputValue types coerceDefault value type = .ok coerced) :
    coerced.isNone = isNullAt types value type := by
  induction type with
  | nonNull ofType ih =>
      cases hmissing : value.isMissing with
      | true =>
          rw [coerceInputValue_missing hmissing] at h
          nomatch h
      | false =>
          rw [coerceInputValue_nonNull hmissing] at h
          exact ih h
  | list itemType ih =>
      cases hmissing : value.isMissing with
      | true =>
          rw [coerceInputValue_missing hmissing] at h
          rw [← Except.ok.inj h, isNullAt, hmissing]
          rfl
      | false =>
          rw [isNullAt, hmissing]
          by_cases hlist : ∃ items, value = .iterable items
          · obtain ⟨items, rfl⟩ := hlist
            rw [coerceInputValue_list] at h
            cases hitems : coerceItems types coerceDefault items itemType with
            | error stop => rw [hitems] at h; nomatch h
            | ok list => rw [hitems] at h; cases h; rfl
          · rw [coerceInputValue_single hmissing (not_exists.mp hlist)] at h
            cases hitem : coerceInputValue types coerceDefault value itemType with
            | error stop => rw [hitem] at h; nomatch h
            | ok item => rw [hitem] at h; cases h; rfl
  | named name =>
      cases hmissing : value.isMissing with
      | true =>
          rw [coerceInputValue_missing hmissing] at h
          rw [← Except.ok.inj h, isNullAt, hmissing]
          rfl
      | false =>
          rw [isNullAt, hmissing, Bool.false_or]
          cases hnamed : types.named name with
          | scalar scalar =>
              rw [coerceInputValue_scalar hnamed hmissing] at h
              exact isNone_of_isMissing (isNone_scalarValue (finishLeaf_eq_ok h).1)
          | customScalar custom =>
              rw [coerceInputValue_customScalar hnamed hmissing] at h
              rw [← Option.some.inj (finishLeaf_eq_ok h).1]
              exact isNone_of_isMissing hmissing
          | «enum» values =>
              rw [coerceInputValue_enum hnamed hmissing] at h
              have hvalue := (finishLeaf_eq_ok h).1
              cases value with
              | str text =>
                  rw [enumCoerceInputValue] at hvalue
                  simp [isNullEnumValue, hvalue]
              | _ => nomatch hvalue
          | inputObject fields isOneOf =>
              by_cases hobject : ∃ entries, value = .mapping true entries
              · obtain ⟨entries, rfl⟩ := hobject
                rw [coerceInputValue_object hnamed] at h
                split at h
                · nomatch h
                · obtain ⟨coercedDict, -, h⟩ := bind_eq_ok.mp h
                  split at h
                  · nomatch h
                  · rw [← Except.ok.inj h]
                    exact isNone_of_isMissing (types.outType_isMissing name coercedDict)
              · rw [coerceInputValue_noDict hnamed hmissing (not_exists.mp hobject)] at h
                nomatch h

/-! ### Fields of an object -/

/-- The entries with which of them are null. -/
def nullsIn (coercedDict : List (Text × HostValue floats)) : List (Text × Bool) :=
  coercedDict.map fun entry => (entry.1, entry.2.isNone)

theorem nullsIn_store (key : Text) (value : HostValue floats)
    (coercedDict : List (Text × HostValue floats)) :
    nullsIn (Dict.store key value coercedDict) =
      Dict.store key value.isNone (nullsIn coercedDict) := by
  induction coercedDict with
  | nil => rfl
  | cons entry rest ih =>
      obtain ⟨key', value'⟩ := entry
      simp only [nullsIn, Dict.store, List.map_cons] at ih ⊢
      split
      · rfl
      · rw [List.map_cons, ih]

/-- The coerced object has the entries that are expected. -/
theorem nullsIn_coerceFields (entries : List (Text × HostValue floats))
    (fields : List (Text × InputField floats)) (coercedDict result : List (Text × HostValue floats))
    (h : coerceFields types coerceDefault entries fields coercedDict = .ok result) :
    nullsIn result = nullsOf types coerceDefault entries fields (nullsIn coercedDict) := by
  induction fields generalizing coercedDict with
  | nil =>
      rw [coerceFields] at h
      rw [← Except.ok.inj h]
      rfl
  | cons fieldDef rest ih =>
      obtain ⟨fieldName, field⟩ := fieldDef
      rw [coerceFields] at h
      obtain ⟨coercedField, hfield, hrest⟩ := bind_eq_ok.mp h
      have hnull : nullOf types coerceDefault entries (fieldName, field) =
          coercedField.map HostValue.isNone := by
        rw [nullOf]
        split at hfield
        · rename_i hgiven
          split at hfield
          · cases hfield
          · rw [hgiven, hfield]
        · rename_i value hgiven
          obtain ⟨coerced, hcoerced, rfl⟩ := map_eq_ok.mp hfield
          rw [hgiven, Option.map_some, isNone_coerced _ _ hcoerced]
      rw [ih _ hrest, nullsOf, nullsOf, List.foldl_cons, hnull]
      cases coercedField with
      | none => rfl
      | some value => rw [addField, nullsIn_store, Option.map_some]

theorem isOneOfValue_iff {entries coercedDict : List (Text × HostValue floats)}
    {fields : List (Text × InputField floats)}
    (h : coerceFields types coerceDefault entries fields [] = .ok coercedDict) :
    isOneOfValue (definedEntries entries).length coercedDict = true ↔
      hasOneEntry types coerceDefault entries fields := by
  have hnulls : nullsIn coercedDict = nullsOf types coerceDefault entries fields [] :=
    nullsIn_coerceFields entries fields [] coercedDict h
  rw [hasOneEntry, ← hnulls]
  match coercedDict with
  | [] => simp [isOneOfValue, nullsIn]
  | [(_, value)] => simp [isOneOfValue, nullsIn]
  | _ :: _ :: _ => simp [isOneOfValue, nullsIn]

/-! ### Who is to blame -/

/-- The computation ends with `Undefined` only where `p` holds, and returns a value only where
it does not. -/
def Blames {α : Type} (x : Except Stop α) (p : Prop) : Prop :=
  match x with
  | .ok _ => ¬p
  | .error .undefined => p
  | .error _ => True

namespace Blames

variable {α β : Type} {x : Except Stop α} {f : α → Except Stop β} {p q : Prop}

theorem congr (h : Blames x p) (hpq : p ↔ q) : Blames x q := propext hpq ▸ h

theorem map {g : α → β} (h : Blames x p) : Blames (g <$> x) p := by
  cases x with
  | ok a => exact h
  | error stop => cases stop <;> exact h

theorem bind (hx : Blames x p) (hf : ∀ a, x = .ok a → Blames (f a) q) :
    Blames (x >>= f) (p ∨ q) := by
  cases x with
  | ok a => exact (hf a rfl).congr (or_iff_right hx).symm
  | error stop =>
      cases stop with
      | undefined => exact Or.inl hx
      | _ => trivial

end Blames

theorem blames_coerceItems (items : List (HostValue floats)) (itemType : GraphQLType)
    (h : ∀ item ∈ items, Blames (coerceInputValue types coerceDefault item itemType)
      (Slips types coerceDefault item itemType)) :
    Blames (coerceItems types coerceDefault items itemType)
      (∃ item ∈ items, Slips types coerceDefault item itemType) := by
  induction items with
  | nil =>
      rw [coerceItems]
      rintro ⟨item, hmem, -⟩
      cases hmem
  | cons item rest ih =>
      obtain ⟨hitem, hrest⟩ := List.forall_mem_cons.mp h
      rw [coerceItems]
      refine Blames.congr (hitem.bind fun _ _ => (ih hrest).map) ?_
      rw [List.exists_mem_cons_iff]

/-- The fields that are given, as long as no other is required. -/
theorem blames_coerceFields (hdefault : ∀ field, coerceDefault field ≠ .error .undefined)
    (entries : List (Text × HostValue floats)) (fields : List (Text × InputField floats))
    (coercedDict : List (Text × HostValue floats))
    (hrequired : ∀ fieldDef ∈ fields, given entries fieldDef.1 = none →
      fieldDef.2.isRequired = false)
    (h : ∀ fieldDef ∈ fields, ∀ value, given entries fieldDef.1 = some value →
      Blames (coerceInputValue types coerceDefault value fieldDef.2.type)
        (Slips types coerceDefault value fieldDef.2.type)) :
    Blames (coerceFields types coerceDefault entries fields coercedDict)
      (∃ fieldDef ∈ fields, ∃ value, given entries fieldDef.1 = some value ∧
        Slips types coerceDefault value fieldDef.2.type) := by
  induction fields generalizing coercedDict with
  | nil =>
      rw [coerceFields]
      rintro ⟨fieldDef, hmem, -⟩
      cases hmem
  | cons fieldDef rest ih =>
      obtain ⟨fieldName, field⟩ := fieldDef
      obtain ⟨hrequiredFirst, hrequiredRest⟩ := List.forall_mem_cons.mp hrequired
      obtain ⟨hfirst, hrest⟩ := List.forall_mem_cons.mp h
      rw [coerceFields]
      refine Blames.congr (Blames.bind (p := ∃ value, given entries fieldName = some value ∧
        Slips types coerceDefault value field.type) ?_ fun _ _ =>
          ih _ hrequiredRest hrest) ?_
      · split
        · rename_i hgiven
          rw [hrequiredFirst hgiven, if_neg Bool.noConfusion]
          have hnone : ¬∃ value, given entries fieldName = some value ∧
              Slips types coerceDefault value field.type := by
            rintro ⟨value, hvalue, -⟩
            rw [hgiven] at hvalue
            cases hvalue
          cases hresult : coerceDefault field with
          | ok value => exact hnone
          | error stop =>
              cases stop with
              | undefined => exact absurd hresult (hdefault field)
              | _ => trivial
        · rename_i value hgiven
          refine (hfirst value hgiven).map.congr ?_
          simp [hgiven]
      · rw [List.exists_mem_cons_iff]

theorem Slips.isMissing (h : Slips types coerceDefault value type) : value.isMissing = false := by
  induction h with
  | nonNull _ ih => exact ih
  | single _ _ ih => exact ih
  | _ => rfl

theorem slips_scalar_iff {scalar : SpecifiedScalar} (hnamed : types.named name = .scalar scalar) :
    Slips types coerceDefault value (.named name) ↔
      scalar = .float ∧ ∃ number, value = .int number ∧
      ∀ float, floats.ofInt number = some float → floats.toInt float ≠ some number := by
  constructor
  · intro h
    cases h with
    | noDict hnamed' => nomatch hnamed.symm.trans hnamed'
    | field hnamed' => nomatch hnamed.symm.trans hnamed'
    | oneOf hnamed' => nomatch hnamed.symm.trans hnamed'
    | precision hnamed' h =>
        exact ⟨NamedInputType.scalar.inj (hnamed.symm.trans hnamed'), _, rfl, h⟩
    | noInternalValue hnamed' => nomatch hnamed.symm.trans hnamed'
  · rintro ⟨rfl, number, rfl, h⟩
    exact .precision hnamed h

/-- A value that a scalar accepts is coerced, if it is no integer for a float. -/
theorem isSome_scalarValue {scalar : SpecifiedScalar} (hfits : accepts scalar value = true)
    (hfloat : ¬(scalar = .float ∧ ∃ number, value = .int number)) :
    (scalar.coerceInputValue value).isSome := by
  cases scalar with
  | string => cases value <;> first | rfl | nomatch hfits
  | int =>
      simp only [SpecifiedScalar.coerceInputValue, SpecifiedScalar.coerceInt, coerceIntFromNumber,
        Option.isSome_map]
      rw [accepts] at hfits
      cases hnumber : integerOf value with
      | none =>
          rw [hnumber] at hfits
          nomatch hfits
      | some number =>
          rw [hnumber, Option.any_some] at hfits
          rw [Option.filter_some, hfits]
          rfl
  | float =>
      cases value with
      | int number => exact absurd ⟨rfl, number, rfl⟩ hfloat
      | float value =>
          rw [accepts] at hfits
          simp [SpecifiedScalar.coerceInputValue, SpecifiedScalar.coerceFloat, hfits]
      | _ => nomatch hfits
  | boolean => cases value <;> first | rfl | nomatch hfits
  | id =>
      cases value with
      | str text => rfl
      | int number => rfl
      | float value =>
          rw [accepts] at hfits
          · simpa [SpecifiedScalar.coerceInputValue, SpecifiedScalar.coerceId,
              coerceIdFromNumber] using hfits
          · exact fun _ h => nomatch h
      | _ => nomatch hfits

theorem blames_scalar {scalar : SpecifiedScalar} (hnamed : types.named name = .scalar scalar)
    (hfits : accepts scalar value = true) :
    Blames (finishLeaf (scalar.coerceInputValue value))
      (Slips types coerceDefault value (.named name)) := by
  rw [slips_scalar_iff hnamed]
  by_cases hfloat : scalar = .float ∧ ∃ number, value = .int number
  · obtain ⟨rfl, number, rfl⟩ := hfloat
    have hexact : (floats.ofInt number).filter
        (fun float => floats.toInt float = some number) = none ↔
          ∀ float, floats.ofInt number = some float → floats.toInt float ≠ some number := by
      cases floats.ofInt number <;> simp [Option.filter]
    simp only [SpecifiedScalar.coerceInputValue, SpecifiedScalar.coerceFloat, coerceFloatFromInt]
    cases hresult : (floats.ofInt number).filter
        fun float => floats.toInt float = some number with
    | none => exact ⟨trivial, number, rfl, hexact.mp hresult⟩
    | some float =>
        rintro ⟨-, number', hnumber, h⟩
        obtain rfl := HostValue.int.inj hnumber
        rw [hexact.mpr h] at hresult
        nomatch hresult
  · obtain ⟨coerced, hcoerced⟩ := Option.isSome_iff_exists.mp (isSome_scalarValue hfits hfloat)
    have hdefined : coerced.isUndefined = false :=
      (Bool.or_eq_false_iff.mp (isNone_scalarValue hcoerced)).2
    rw [hcoerced]
    cases coerced with
    | undefined => nomatch hdefined
    | _ => exact fun h => hfloat ⟨h.1, h.2.imp fun _ h => h.1⟩

/-- Where a value has a literal, the coercion rejects it exactly for what slips through. -/
theorem blames_coerceInputValue (hdefault : ∀ field, coerceDefault field ≠ .error .undefined)
    (value : HostValue floats) (type : GraphQLType) (hfits : Fits types value type) :
    Blames (coerceInputValue types coerceDefault value type)
      (Slips types coerceDefault value type) := by
  induction value, type using position_induction types with
  | missing value type hmissing =>
      rw [coerceInputValue_missing hmissing, (fits_missing_iff hmissing).mp hfits]
      exact fun h => Bool.noConfusion (h.isMissing.symm.trans hmissing)
  | nonNull value ofType hmissing ih =>
      rw [coerceInputValue_nonNull hmissing]
      refine (ih ((fits_nonNull_iff hmissing).mp hfits)).congr ⟨.nonNull, fun h => ?_⟩
      cases h with
      | nonNull h => exact h
  | list items itemType ih =>
      rw [coerceInputValue_list]
      refine (blames_coerceItems items itemType fun item hmem =>
        ih item hmem (fits_list_iff.mp hfits item hmem)).map.congr ⟨?_, fun h => ?_⟩
      · rintro ⟨item, hmem, h⟩
        exact .item hmem h
      · cases h with
        | item hmem h => exact ⟨_, hmem, h⟩
        | single hlist => exact absurd rfl (hlist items)
  | single value itemType hmissing hlist ih =>
      rw [coerceInputValue_single hmissing hlist]
      refine (ih ((fits_single_iff hmissing hlist).mp hfits)).map.congr ⟨.single hlist, fun h => ?_⟩
      cases h with
      | item => exact absurd rfl (hlist _)
      | single _ h => exact h
  | object name fields isOneOf isDict entries hnamed ih =>
      obtain ⟨hknown, hfields⟩ := (fits_object_iff hnamed).mp hfits
      cases isDict with
      | false =>
          rw [coerceInputValue_noDict hnamed rfl fun _ => by simp]
          exact .noDict hnamed
      | true =>
          rw [coerceInputValue_object hnamed, hknown, if_neg Bool.noConfusion]
          have hcoerce := blames_coerceFields hdefault entries fields.items []
            (fun fieldDef hmem => (hfields fieldDef hmem).1)
            fun fieldDef hmem value hgiven =>
              ih _ _ value hmem hgiven ((hfields fieldDef hmem).2 value hgiven)
          refine (hcoerce.bind (q := isOneOf = true ∧
            ¬hasOneEntry types coerceDefault entries fields.items) ?_).congr ⟨?_, fun h => ?_⟩
          · intro coercedDict hdict
            rw [← isOneOfValue_iff hdict]
            cases isOneOf <;> cases isOneOfValue (definedEntries entries).length coercedDict <;>
              simp [Blames, pure, Except.pure]
          · rintro (⟨fieldDef, hmem, value, hgiven, h⟩ | ⟨rfl, h⟩)
            · exact .field hnamed hmem hgiven h
            · exact .oneOf hnamed h
          · cases h with
            | field hnamed' hmem hgiven h =>
                obtain ⟨rfl, rfl⟩ := NamedInputType.inputObject.inj (hnamed.symm.trans hnamed')
                exact Or.inl ⟨_, hmem, _, hgiven, h⟩
            | oneOf hnamed' h =>
                obtain ⟨rfl, rfl⟩ := NamedInputType.inputObject.inj (hnamed.symm.trans hnamed')
                exact Or.inr ⟨rfl, h⟩
  | other value name hmissing hobject =>
      have hfits' := (fits_named_iff hmissing).mp hfits
      cases hnamed : types.named name with
      | scalar scalar =>
          rw [hnamed] at hfits'
          rw [coerceInputValue_scalar hnamed hmissing]
          exact blames_scalar hnamed hfits'
      | customScalar custom =>
          rw [coerceInputValue_customScalar hnamed hmissing]
          have hno : ¬Slips types coerceDefault value (.named name) := by
            intro h
            cases h <;> rename_i hnamed' <;> nomatch hnamed.symm.trans hnamed'
          cases value <;> first | exact hno | nomatch hmissing
      | «enum» values =>
          rw [hnamed] at hfits'
          obtain ⟨text, rfl, hsome⟩ := hfits'
          rw [coerceInputValue_enum hnamed hmissing, enumCoerceInputValue]
          have hslips : Slips types coerceDefault (.str text) (.named name) ↔
              values.get text = some .undefined := by
            refine ⟨fun h => ?_, .noInternalValue hnamed⟩
            cases h with
            | noInternalValue hnamed' h =>
                rwa [NamedInputType.enum.inj (hnamed.symm.trans hnamed')]
          rw [hslips]
          obtain ⟨internal, hinternal⟩ := Option.isSome_iff_exists.mp hsome
          rw [hinternal]
          cases internal <;> simp [finishLeaf, Blames]
      | inputObject fields isOneOf =>
          rw [hnamed] at hfits'
          obtain ⟨isDict, entries, hvalue, -⟩ := hfits'
          exact absurd hnamed (hobject isDict entries hvalue fields isOneOf)

theorem coerceDefaultValue_ne_undefined (depth : ℕ) (field : InputField floats) :
    coerceDefaultValue types depth field ≠ .error .undefined := by
  cases depth with
  | zero => exact fun h => nomatch h
  | succ depth =>
      rw [coerceDefaultValue]
      intro h
      split at h
      · nomatch h
      · nomatch h
      · rename_i stop hne _
        exact hne (Except.error.inj h)
      · nomatch h

/-- Every default value of an input field can be coerced. -/
def ValidDefaults (types : InputTypes floats Custom) (coerceDefault : DefaultCoercion floats) :
    Prop :=
  ∀ name fields isOneOf, types.named name = .inputObject fields isOneOf →
    ∀ fieldDef ∈ fields.items, ∃ value, coerceDefault fieldDef.2 = .ok value

section Stops

variable (hvalid : ValidDefaults types coerceDefault)

/-- No error is raised. -/
def NeverRaises {α : Type} (x : Except Stop α) : Prop := ∀ stop, x = .error stop → stop = .undefined

theorem NeverRaises.ok {α : Type} (a : α) : NeverRaises (.ok a : Except Stop α) :=
  fun _ h => nomatch h

theorem NeverRaises.undefined {α : Type} : NeverRaises (.error .undefined : Except Stop α) :=
  fun _ h => (Except.error.inj h).symm

theorem NeverRaises.map {α β : Type} {x : Except Stop α} {g : α → β} (h : NeverRaises x) :
    NeverRaises (g <$> x) := by
  cases x with
  | ok a => exact .ok _
  | error stop => exact fun stop' heq => h stop' (congrArg _ (Except.error.inj heq))

theorem NeverRaises.bind {α β : Type} {x : Except Stop α} {f : α → Except Stop β}
    (h : NeverRaises x) (hf : ∀ a, NeverRaises (f a)) : NeverRaises (x >>= f) := by
  cases x with
  | ok a => exact hf a
  | error stop => exact fun stop' heq => h stop' (congrArg _ (Except.error.inj heq))

theorem neverRaises_coerceItems (items : List (HostValue floats)) (itemType : GraphQLType)
    (h : ∀ item ∈ items, NeverRaises (coerceInputValue types coerceDefault item itemType)) :
    NeverRaises (coerceItems types coerceDefault items itemType) := by
  induction items with
  | nil =>
      rw [coerceItems]
      exact .ok _
  | cons item rest ih =>
      obtain ⟨hitem, hrest⟩ := List.forall_mem_cons.mp h
      rw [coerceItems]
      exact hitem.bind fun _ => (ih hrest).map

theorem neverRaises_coerceFields (entries : List (Text × HostValue floats))
    (fields : List (Text × InputField floats)) (coercedDict : List (Text × HostValue floats))
    (hdefaults : ∀ fieldDef ∈ fields, ∃ value, coerceDefault fieldDef.2 = .ok value)
    (h : ∀ fieldDef ∈ fields, ∀ value, given entries fieldDef.1 = some value →
      NeverRaises (coerceInputValue types coerceDefault value fieldDef.2.type)) :
    NeverRaises (coerceFields types coerceDefault entries fields coercedDict) := by
  induction fields generalizing coercedDict with
  | nil =>
      rw [coerceFields]
      exact .ok _
  | cons fieldDef rest ih =>
      obtain ⟨fieldName, field⟩ := fieldDef
      obtain ⟨⟨default, hdefault⟩, hdefaultsRest⟩ := List.forall_mem_cons.mp hdefaults
      obtain ⟨hfirst, hrest⟩ := List.forall_mem_cons.mp h
      rw [coerceFields]
      refine NeverRaises.bind ?_ fun _ => ih _ hdefaultsRest hrest
      split
      · split
        · exact .undefined
        · rw [hdefault]
          exact .ok _
      · rename_i value hgiven
        exact (hfirst value hgiven).map

theorem neverRaises_finishLeaf (result : Option (HostValue floats)) :
    NeverRaises (finishLeaf result) := by
  rcases finishLeaf_cases result with ⟨coerced, h⟩ | h
  · rw [h]
    exact .ok _
  · rw [h]
    exact .undefined

include hvalid in
/-- The coercion raises no error where the default values are valid. -/
theorem neverRaises_coerceInputValue (value : HostValue floats) (type : GraphQLType) :
    NeverRaises (coerceInputValue types coerceDefault value type) := by
  induction value, type using position_induction types with
  | missing value type hmissing =>
      rw [coerceInputValue_missing hmissing]
      cases isNonNullType type with
      | true => exact .undefined
      | false => exact .ok _
  | nonNull value ofType hmissing ih =>
      rw [coerceInputValue_nonNull hmissing]
      exact ih
  | list items itemType ih =>
      rw [coerceInputValue_list]
      exact (neverRaises_coerceItems items itemType ih).map
  | single value itemType hmissing hlist ih =>
      rw [coerceInputValue_single hmissing hlist]
      exact ih.map
  | object name fields isOneOf isDict entries hnamed ih =>
      cases isDict with
      | false =>
          rw [coerceInputValue_noDict hnamed rfl fun _ => by simp]
          exact .undefined
      | true =>
          rw [coerceInputValue_object hnamed]
          split
          · exact .undefined
          · refine (neverRaises_coerceFields entries fields.items [] (hvalid _ _ _ hnamed)
              fun fieldDef hmem value => ih _ _ value hmem).bind fun coercedDict => ?_
            split
            · exact .undefined
            · exact .ok _
  | other value name hmissing hobject =>
      cases hnamed : types.named name with
      | scalar scalar =>
          rw [coerceInputValue_scalar hnamed hmissing]
          exact neverRaises_finishLeaf _
      | customScalar custom =>
          rw [coerceInputValue_customScalar hnamed hmissing]
          exact neverRaises_finishLeaf _
      | «enum» values =>
          rw [coerceInputValue_enum hnamed hmissing]
          exact neverRaises_finishLeaf _
      | inputObject fields isOneOf =>
          rw [coerceInputValue_noDict hnamed hmissing fun entries hvalue =>
            hobject true entries hvalue fields isOneOf hnamed]
          exact .undefined

end Stops

/-- What slips into a literal is rejected, where the default values are valid. -/
theorem rejected_of_slips (hdefault : ∀ field, coerceDefault field ≠ .error .undefined)
    (hvalid : ValidDefaults types coerceDefault) (hfits : Fits types value type)
    (hslips : Slips types coerceDefault value type) :
    coerceInputValue types coerceDefault value type = .error .undefined := by
  have hblame := blames_coerceInputValue hdefault value type hfits
  have hraises := neverRaises_coerceInputValue hvalid value type
  cases hresult : coerceInputValue types coerceDefault value type with
  | ok coerced =>
      rw [hresult] at hblame
      exact absurd hslips hblame
  | error stop => rw [hraises stop hresult]

end Rejection

/-- What the coercion rejects has no literal, unless it is a value that fits with a part that
slips through. -/
theorem rejects_iff (types : InputTypes floats Custom) (depth : ℕ) (value : HostValue floats)
    (type : GraphQLType) :
    let coerceDefault := coerceDefaultValue types depth
    let rejects := coerceInputValue types coerceDefault value type = .error .undefined →
      valueToLiteral types value type = none
    let slips := Fits types value type ∧ Slips types coerceDefault value type
    (¬slips → rejects) ∧ (ValidDefaults types coerceDefault → rejects → ¬slips) := by
  intro coerceDefault rejects slips
  have hdefault : ∀ field, coerceDefault field ≠ .error .undefined :=
    coerceDefaultValue_ne_undefined depth
  constructor
  · intro hslips hundefined
    by_contra hliteral
    have hfits : Fits types value type :=
      (fits_iff value type).mpr (Option.isSome_iff_ne_none.mpr hliteral)
    have hblame := blames_coerceInputValue hdefault value type hfits
    rw [hundefined] at hblame
    exact hslips ⟨hfits, hblame⟩
  · rintro hvalid hrejects ⟨hfits, hslips⟩
    have hsome := (fits_iff value type).mp hfits
    rw [hrejects (rejected_of_slips hdefault hvalid hfits hslips)] at hsome
    nomatch hsome

/-- `input Pet @oneOf { cat: Int, dog: Int }` -/
def petFields : Dict Text (InputField integralFloats) :=
  (Dict.empty.set (str "cat") { type := .named (str "Int") }).set (str "dog")
    { type := .named (str "Int") }

def petTypes : InputTypes integralFloats Empty where
  named name := if name = str "Pet" then .inputObject petFields true else .scalar .int

/-- `{ cat: 1, dog: 2 }` -/
def twoPets : HostValue integralFloats := .mapping true [(str "cat", .int 1), (str "dog", .int 2)]

/-- Two fields of a OneOf object have a literal. -/
theorem twoPets_not_rejected :
    ¬∀ (floats : FloatFormat) (Custom : Type) (types : InputTypes floats Custom) (depth : ℕ)
      (value : HostValue floats) (type : GraphQLType),
      coerceInputValue types (coerceDefaultValue types depth) value type = .error .undefined →
        valueToLiteral types value type = none := by
  intro h
  have hnamed : petTypes.named (str "Pet") = .inputObject petFields true := rfl
  have hitems : petFields.items =
    [(str "cat", { type := .named (str "Int") }),
      (str "dog", { type := .named (str "Int") })] := rfl
  have hfits : Fits petTypes twoPets (.named (str "Pet")) := by
    refine (fits_object_iff hnamed).mpr ⟨rfl, ?_⟩
    rw [hitems, List.forall_mem_cons, List.forall_mem_singleton]
    refine ⟨⟨fun _ => rfl, fun value hvalue => ?_⟩, ⟨fun _ => rfl, fun value hvalue => ?_⟩⟩
    · rw [← Option.some.inj hvalue]
      exact .scalar rfl rfl rfl
    · rw [← Option.some.inj hvalue]
      exact .scalar rfl rfl rfl
  have hvalid : ValidDefaults petTypes (coerceDefaultValue petTypes 1) := by
    intro name fields isOneOf hobject
    simp only [petTypes] at hobject
    split at hobject
    · rw [← (NamedInputType.inputObject.inj hobject).1, hitems, List.forall_mem_cons,
        List.forall_mem_singleton]
      exact ⟨⟨_, rfl⟩, ⟨_, rfl⟩⟩
    · nomatch hobject
  have hslips : Slips petTypes (coerceDefaultValue petTypes 1) twoPets (.named (str "Pet")) :=
    .oneOf hnamed fun hone => absurd hone.1 (by decide)
  have hnone := h integralFloats Empty petTypes 1 twoPets (.named (str "Pet"))
    (rejected_of_slips (coerceDefaultValue_ne_undefined 1) hvalid hfits hslips)
  have hsome := (fits_iff twoPets (.named (str "Pet"))).mp hfits
  rw [hnone] at hsome
  nomatch hsome

end GraphqlCore.ValueLiterals
