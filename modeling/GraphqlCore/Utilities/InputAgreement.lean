import GraphqlCore.Utilities.InputObjects
import GraphqlCore.Utilities.ValidateInputValue

/-!
# Coercing and validating external values

The values that `validate_input_value` accepts are described by `Conforms`.  The
coercion of a value that conforms can still fail: the entry of a OneOf object may
be coerced to `None`, or the object may get further entries from default values.
Apart from that, coercion and validation agree.
-/

namespace GraphqlCore

/-! ## Values of a type -/

/-- A property that follows for a value of a type from the positions next to it
holds everywhere. -/
theorem inputValue_induction (types : InputTypes)
    {motive : Value → GraphQLType → Prop}
    (nonNullNone : ∀ ofType, motive .none (.nonNull ofType))
    (nonNull : ∀ value ofType, value ≠ .none → motive value ofType →
      motive value (.nonNull ofType))
    (listNone : ∀ itemType, motive .none (.list itemType))
    (list : ∀ items itemType, (∀ item ∈ items, motive item itemType) →
      motive (.list items) (.list itemType))
    (single : ∀ value itemType, value ≠ .none → (∀ items, value ≠ .list items) →
      motive value itemType → motive value (.list itemType))
    (namedNone : ∀ name, motive .none (.named name))
    (object : ∀ name fields isOneOf description entries,
      types.schema.getType name = some (.inputObject fields isOneOf description) →
      (∀ fieldName field value, (fieldName, field) ∈ fields.items →
        Dict.find fieldName entries = some value → motive value field.type) →
      motive (.dict entries) (.named name))
    (notObject : ∀ name fields isOneOf description value, value ≠ .none →
      types.schema.getType name = some (.inputObject fields isOneOf description) →
      (∀ entries, value ≠ .dict entries) → motive value (.named name))
    (leaf : ∀ name value, value ≠ .none →
      (∀ fields isOneOf description, types.schema.getType name ≠
        some (.inputObject fields isOneOf description)) → motive value (.named name))
    (value : Value) (type : GraphQLType) : motive value type := by
  refine validateInputValue.induct types (fun value type _ => motive value type)
    (fun _ entries fields _ => ∀ fieldName field value,
      (fieldName, field) ∈ fields → Dict.find fieldName entries = some value →
      motive value field.type)
    (fun items itemType _ _ => ∀ item ∈ items, motive item itemType)
    ?_ ?_ ?_ ?_ ?_ ?_ ?_ ?_ ?_ ?_ ?_ ?_ ?_ value type []
  · intro _ ofType
    exact nonNullNone ofType
  · intro _ ofType value hnone ih
    exact nonNull value ofType hnone ih
  · intro _ itemType
    exact listNone itemType
  · intro _ itemType items ih
    exact list items itemType ih
  · intro _ itemType value hnone hlist ih
    exact single value itemType hnone hlist ih
  · intro _ name
    exact namedNone name
  · intro _ name fields isOneOf description htype entries _ ih
    exact object name fields isOneOf description entries htype ih
  · intro _ name value hnone fields isOneOf description htype hdict
    exact notObject name fields isOneOf description value hnone htype hdict
  · intro _ name value hnone hleaf
    exact leaf name value hnone hleaf
  · simp
  · intro _ entries _ fieldName field rest ih hrest fieldName' field' value hmem hfind
    rcases List.mem_cons.mp hmem with heq | hmem
    · cases heq
      exact ih value hfind
    · exact hrest fieldName' field' value hmem hfind
  · simp
  · intro itemType _ _ item rest ih hrest item' hmem
    rcases List.mem_cons.mp hmem with rfl | hmem
    · exact ih
    · exact hrest item' hmem

/-! ## What validation accepts -/

/-- The values that are valid for a type. -/
inductive Conforms (types : InputTypes) : Value → GraphQLType → Prop
  | nonNull {value : Value} {type : GraphQLType} (hnone : value ≠ .none)
      (h : Conforms types value type) : Conforms types value (.nonNull type)
  | noList {type : GraphQLType} : Conforms types .none (.list type)
  | list {items : List Value} {type : GraphQLType}
      (h : ∀ item ∈ items, Conforms types item type) :
      Conforms types (.list items) (.list type)
  | single {value : Value} {type : GraphQLType} (hnone : value ≠ .none)
      (hlist : ∀ items, value ≠ .list items) (h : Conforms types value type) :
      Conforms types value (.list type)
  | noValue {name : Text} : Conforms types .none (.named name)
  | object {name : Text} {fields : Dict Text GraphQLInputField} {isOneOf : Bool}
      {description : Option Text} {entries : List (Text × Value)}
      (htype : types.schema.getType name =
        some (.inputObject fields isOneOf description))
      (hdefined : ∀ entry ∈ entries, (fields.get entry.1).isSome)
      (hrequired : ∀ fieldName field, (fieldName, field) ∈ fields.items →
        Dict.find fieldName entries = none →
        isRequiredArgument field.toInputDefinition = false)
      (hfields : ∀ fieldName field value, (fieldName, field) ∈ fields.items →
        Dict.find fieldName entries = some value → Conforms types value field.type)
      (honeOf : isOneOf → ∃ fieldName value, entries = [(fieldName, value)] ∧
        value ≠ .none) : Conforms types (.dict entries) (.named name)
  | leaf {name : Text} {value value' : Value} (hnone : value ≠ .none)
      (hleaf : leafInputValue types name value = some (.value value')) :
      Conforms types value (.named name)

section Conforms

variable {types : InputTypes} {value : Value} {type : GraphQLType} {name : Text}

theorem not_conforms_nonNull_none : ¬ Conforms types .none (.nonNull type) := by
  intro h
  cases h with
  | nonNull hnone => exact hnone rfl

theorem conforms_nonNull_iff (hnone : value ≠ .none) :
    Conforms types value (.nonNull type) ↔ Conforms types value type := by
  constructor
  · intro h
    cases h with
    | nonNull _ h => exact h
  · exact .nonNull hnone

theorem conforms_list_iff {items : List Value} :
    Conforms types (.list items) (.list type) ↔
      ∀ item ∈ items, Conforms types item type := by
  constructor
  · intro h
    cases h with
    | list h => exact h
    | single _ hlist => exact absurd rfl (hlist items)
  · exact .list

theorem conforms_single_iff (hnone : value ≠ .none)
    (hlist : ∀ items, value ≠ .list items) :
    Conforms types value (.list type) ↔ Conforms types value type := by
  constructor
  · intro h
    cases h with
    | noList => exact absurd rfl hnone
    | list => exact absurd rfl (hlist _)
    | single _ _ h => exact h
  · exact .single hnone hlist

/-- What a OneOf object has to consist of. -/
def IsOneOfEntry (entries : List (Text × Value)) : Prop :=
  ∃ fieldName value, entries = [(fieldName, value)] ∧ value ≠ .none

/-- What is asked of a field of an input object. -/
def FieldConforms (types : InputTypes) (entries : List (Text × Value))
    (fieldName : Text) (field : GraphQLInputField) : Prop :=
  (Dict.find fieldName entries = none →
    isRequiredArgument field.toInputDefinition = false) ∧
  ∀ value, Dict.find fieldName entries = some value →
    Conforms types value field.type

theorem conforms_object_iff {fields : Dict Text GraphQLInputField} {isOneOf : Bool}
    {description : Option Text} {entries : List (Text × Value)}
    (htype : types.schema.getType name =
      some (.inputObject fields isOneOf description)) :
    Conforms types (.dict entries) (.named name) ↔
      (∀ entry ∈ entries, (fields.get entry.1).isSome) ∧
      (∀ entry ∈ fields.items, FieldConforms types entries entry.1 entry.2) ∧
      (isOneOf → IsOneOfEntry entries) := by
  constructor
  · intro h
    cases h with
    | object htype' hdefined hrequired hfields honeOf =>
        rw [htype] at htype'
        cases htype'
        exact ⟨hdefined, fun entry hmem => ⟨hrequired entry.1 entry.2 hmem,
          fun value => hfields entry.1 entry.2 value hmem⟩, honeOf⟩
    | leaf _ hleaf =>
        rw [leafInputValue, htype] at hleaf
        cases hleaf
  · rintro ⟨hdefined, hfields, honeOf⟩
    exact .object htype hdefined (fun fieldName field hmem => (hfields _ hmem).1)
      (fun fieldName field value hmem => (hfields _ hmem).2 value) honeOf

theorem not_conforms_notObject {fields : Dict Text GraphQLInputField} {isOneOf : Bool}
    {description : Option Text} (hnone : value ≠ .none)
    (htype : types.schema.getType name =
      some (.inputObject fields isOneOf description))
    (hdict : ∀ entries, value ≠ .dict entries) :
    ¬ Conforms types value (.named name) := by
  intro h
  cases h with
  | noValue => exact hnone rfl
  | object => exact hdict _ rfl
  | leaf _ hleaf =>
      rw [leafInputValue, htype] at hleaf
      cases hleaf

theorem conforms_leaf_iff (hnone : value ≠ .none)
    (hleaf : ∀ fields isOneOf description, types.schema.getType name ≠
      some (.inputObject fields isOneOf description)) :
    Conforms types value (.named name) ↔
      ∃ value', leafInputValue types name value = some (.value value') := by
  constructor
  · intro h
    cases h with
    | noValue => exact absurd rfl hnone
    | object htype => exact absurd htype (hleaf _ _ _)
    | leaf _ h => exact ⟨_, h⟩
  · rintro ⟨value', h⟩
    exact .leaf hnone h

end Conforms

section Leaves

variable {types : InputTypes} {name : Text}

/-- An input type other than an input object is a leaf type. -/
theorem exists_leafInputValue (value : Value)
    (hinput : types.schema.isInputType (.named name))
    (hleaf : ∀ fields isOneOf description, types.schema.getType name ≠
      some (.inputObject fields isOneOf description)) :
    ∃ outcome, leafInputValue types name value = some outcome := by
  unfold GraphQLSchema.isInputType GraphQLSchema.named at hinput
  rw [GraphQLType.getNamedType] at hinput
  unfold leafInputValue
  cases htype : types.schema.getType name with
  | none => simp [htype] at hinput
  | some type =>
      cases type with
      | scalar => exact ⟨_, rfl⟩
      | enum values => exact ⟨_, rfl⟩
      | inputObject fields isOneOf description =>
          exact absurd htype (hleaf fields isOneOf description)
      | object fields interfaces => simp [htype, GraphQLNamedType.isInputType,
          GraphQLNamedType.isLeafType] at hinput
      | interface fields interfaces => simp [htype, GraphQLNamedType.isInputType,
          GraphQLNamedType.isLeafType] at hinput
      | union members => simp [htype, GraphQLNamedType.isInputType,
          GraphQLNamedType.isLeafType] at hinput

theorem leafErrors_eq_nil_iff {path : List PathKey} {outcome : Outcome} :
    leafErrors name path (some outcome) = [] ↔ ∃ value, outcome = .value value := by
  cases outcome <;> simp [leafErrors]

end Leaves

/-! ## Validation decides conformance -/

section Validation

variable {types : InputTypes}

theorem validateItems_eq_nil_iff {items : List Value} {itemType : GraphQLType}
    (h : ∀ item ∈ items, ∀ path, validateInputValue types item itemType path = [] ↔
      Conforms types item itemType) (index : ℕ) (path : List PathKey) :
    validateItems types items itemType index path = [] ↔
      ∀ item ∈ items, Conforms types item itemType := by
  induction items generalizing index with
  | nil => simp [validateItems]
  | cons item rest ih =>
      rw [validateItems, List.append_eq_nil_iff, h item List.mem_cons_self,
        ih (fun item hitem => h item (List.mem_cons_of_mem _ hitem)),
        List.forall_mem_cons]

/-- The errors of a defined field. -/
def fieldValueErrors (types : InputTypes) (name : Text)
    (entries : List (Text × Value)) (fieldName : Text) (field : GraphQLInputField)
    (path : List PathKey) : List InputError :=
  match Dict.find fieldName entries with
  | none =>
      if isRequiredArgument field.toInputDefinition then
        [⟨.missingRequiredField name fieldName, path⟩]
      else []
  | some value => validateInputValue types value field.type (.field fieldName :: path)

theorem validateInputFieldValues_cons (name : Text) (entries : List (Text × Value))
    (fieldName : Text) (field : GraphQLInputField)
    (rest : List (Text × GraphQLInputField)) (path : List PathKey) :
    validateInputFieldValues types name entries ((fieldName, field) :: rest) path =
      fieldValueErrors types name entries fieldName field path ++
        validateInputFieldValues types name entries rest path := by
  rw [validateInputFieldValues, fieldValueErrors]
  congr 1
  split <;> simp [*]

theorem validateInputFieldValues_eq_nil_iff {name : Text}
    {entries : List (Text × Value)} {fields : List (Text × GraphQLInputField)}
    (h : ∀ fieldName field value, (fieldName, field) ∈ fields →
      Dict.find fieldName entries = some value → ∀ path,
      validateInputValue types value field.type path = [] ↔
        Conforms types value field.type) (path : List PathKey) :
    validateInputFieldValues types name entries fields path = [] ↔
      ∀ entry ∈ fields, FieldConforms types entries entry.1 entry.2 := by
  induction fields with
  | nil => simp [validateInputFieldValues]
  | cons entry rest ih =>
      obtain ⟨fieldName, field⟩ := entry
      have hhead : fieldValueErrors types name entries fieldName field path = [] ↔
          FieldConforms types entries fieldName field := by
        unfold fieldValueErrors FieldConforms
        cases hfind : Dict.find fieldName entries with
        | none => simp
        | some value =>
            simp [h fieldName field value List.mem_cons_self hfind]
      rw [validateInputFieldValues_cons, List.append_eq_nil_iff, hhead,
        ih (fun fieldName field value hmem => h fieldName field value
          (List.mem_cons_of_mem _ hmem)), List.forall_mem_cons]

theorem unknownFieldErrors_eq_nil_iff {name : Text}
    {fields : Dict Text GraphQLInputField} {names : List Text} {path : List PathKey} :
    unknownFieldErrors name fields names path = [] ↔
      ∀ fieldName ∈ names, (fields.get fieldName).isSome := by
  simp [unknownFieldErrors, Option.isSome_iff_ne_none]

theorem knownEntries_eq_self {fields : Dict Text GraphQLInputField}
    {entries : List (Text × Value)}
    (h : ∀ entry ∈ entries, (fields.get entry.1).isSome) :
    knownEntries fields entries = entries := List.filter_eq_self.mpr h

theorem oneOfErrors_eq_nil_iff {name : Text} {entries : List (Text × Value)}
    {path : List PathKey} :
    oneOfErrors name entries path = [] ↔ IsOneOfEntry entries := by
  unfold oneOfErrors IsOneOfEntry
  rcases entries with _ | ⟨⟨fieldName, value⟩, _ | ⟨entry, rest⟩⟩
  · simp
  · cases value <;> simp
  · simp

theorem validateInputValue_eq_nil_iff (hfields : HasInputFields types) (value : Value)
    (type : GraphQLType) (hinput : types.schema.isInputType type)
    (path : List PathKey) :
    validateInputValue types value type path = [] ↔ Conforms types value type := by
  induction value, type using inputValue_induction types generalizing path with
  | nonNullNone ofType =>
      rw [validateInputValue]
      simp [not_conforms_nonNull_none]
  | nonNull value ofType hnone ih =>
      rw [validateInputValue, conforms_nonNull_iff hnone]
      · exact ih hinput path
      · exact hnone
  | listNone itemType =>
      rw [validateInputValue]
      simp [Conforms.noList]
  | list items itemType ih =>
      rw [validateInputValue, conforms_list_iff]
      exact validateItems_eq_nil_iff (fun item hitem => ih item hitem hinput) 0 path
  | single value itemType hnone hlist ih =>
      rw [validateInputValue, conforms_single_iff hnone hlist]
      · exact ih hinput path
      · exact hnone
      · exact hlist
  | namedNone name =>
      rw [validateInputValue]
      simp [Conforms.noValue]
  | object name fields isOneOf description entries htype ih =>
      have hvalues := @validateInputFieldValues_eq_nil_iff types name entries
        fields.items (fun fieldName field value hmem hfind =>
          ih fieldName field value hmem hfind
            (hfields name fields isOneOf description fieldName field htype hmem)) path
      rw [validateInputValue, conforms_object_iff htype]
      · simp only [htype]
        rw [List.append_eq_nil_iff, List.append_eq_nil_iff, hvalues,
          unknownFieldErrors_eq_nil_iff, List.forall_mem_map, and_assoc, and_left_comm]
        apply and_congr_right
        intro hdefined
        apply and_congr_right
        intro _
        rw [knownEntries_eq_self hdefined]
        cases isOneOf <;> simp [oneOfErrors_eq_nil_iff]
      · simp
  | notObject name fields isOneOf description value hnone htype hdict =>
      rw [validateInputValue]
      · simp only [htype]
        simp [not_conforms_notObject hnone htype hdict]
      · exact hnone
  | leaf name value hnone hleaf =>
      obtain ⟨outcome, houtcome⟩ := exists_leafInputValue value hinput hleaf
      rw [validateInputValue, conforms_leaf_iff hnone hleaf, houtcome]
      · split
        · rename_i htype
          exact absurd htype (hleaf _ _ _)
        · simp [leafErrors_eq_nil_iff]
      · exact hnone

end Validation

/-! ## What coercion accepts -/

/-- Does the leaf type of a value that is not `None` coerce it to `None`? -/
def coercesToNone (types : InputTypes) (value : Value) : GraphQLType → Bool
  | .nonNull ofType => coercesToNone types value ofType
  | .list _ => false
  | .named name =>
      match leafInputValue types name value with
      | some (.value .none) => true
      | _ => false

/-- The value contains a OneOf object whose entry is coerced to `None`. -/
inductive LosesEntry (types : InputTypes) : Value → GraphQLType → Prop
  | oneOf {name fieldName : Text} {fields : Dict Text GraphQLInputField}
      {description : Option Text} {field : GraphQLInputField} {value : Value}
      (htype : types.schema.getType name = some (.inputObject fields true description))
      (hfield : fields.get fieldName = some field) (hnone : value ≠ .none)
      (h : coercesToNone types value field.type) :
      LosesEntry types (.dict [(fieldName, value)]) (.named name)
  | nonNull {value : Value} {type : GraphQLType} (h : LosesEntry types value type) :
      LosesEntry types value (.nonNull type)
  | item {item : Value} {items : List Value} {type : GraphQLType} (hitem : item ∈ items)
      (h : LosesEntry types item type) : LosesEntry types (.list items) (.list type)
  | single {value : Value} {type : GraphQLType} (hlist : ∀ items, value ≠ .list items)
      (h : LosesEntry types value type) : LosesEntry types value (.list type)
  | field {name fieldName : Text} {fields : Dict Text GraphQLInputField}
      {isOneOf : Bool} {description : Option Text} {field : GraphQLInputField}
      {entries : List (Text × Value)} {value : Value}
      (htype : types.schema.getType name =
        some (.inputObject fields isOneOf description))
      (hfield : (fieldName, field) ∈ fields.items)
      (hentry : Dict.find fieldName entries = some value)
      (h : LosesEntry types value field.type) :
      LosesEntry types (.dict entries) (.named name)

/-- The values that are coerced. -/
def Coercible (types : InputTypes) (value : Value) (type : GraphQLType) : Prop :=
  Conforms types value type ∧ ¬ LosesEntry types value type

section Coercible

variable {types : InputTypes} {value : Value} {type : GraphQLType} {name : Text}

theorem not_losesEntry_none : ¬ LosesEntry types .none type := by
  intro h
  generalize hvalue : Value.none = value at h
  induction h with
  | nonNull _ ih => exact ih hvalue
  | single _ _ ih => exact ih hvalue
  | oneOf | item | field => cases hvalue

theorem coercible_nonNull_iff (hnone : value ≠ .none) :
    Coercible types value (.nonNull type) ↔ Coercible types value type := by
  unfold Coercible
  rw [conforms_nonNull_iff hnone]
  apply and_congr_right
  intro _
  apply not_congr
  constructor
  · intro h
    cases h with
    | nonNull h => exact h
  · exact .nonNull

theorem coercible_list_iff {items : List Value} :
    Coercible types (.list items) (.list type) ↔
      ∀ item ∈ items, Coercible types item type := by
  unfold Coercible
  rw [conforms_list_iff]
  constructor
  · rintro ⟨hconforms, hloses⟩ item hitem
    exact ⟨hconforms item hitem, fun h => hloses (.item hitem h)⟩
  · intro h
    refine ⟨fun item hitem => (h item hitem).1, fun hloses => ?_⟩
    cases hloses with
    | item hitem hloses => exact (h _ hitem).2 hloses
    | single hlist => exact hlist items rfl

theorem coercible_single_iff (hnone : value ≠ .none)
    (hlist : ∀ items, value ≠ .list items) :
    Coercible types value (.list type) ↔ Coercible types value type := by
  unfold Coercible
  rw [conforms_single_iff hnone hlist]
  apply and_congr_right
  intro _
  apply not_congr
  constructor
  · intro h
    cases h with
    | item => exact absurd rfl (hlist _)
    | single _ h => exact h
  · exact .single hlist

/-- What is asked of a field of an input object in order to coerce it. -/
def FieldCoercible (types : InputTypes) (entries : List (Text × Value))
    (fieldName : Text) (field : GraphQLInputField) : Prop :=
  (Dict.find fieldName entries = none →
    isRequiredArgument field.toInputDefinition = false) ∧
  ∀ value, Dict.find fieldName entries = some value →
    Coercible types value field.type

/-- What a OneOf object has to consist of in order to be coerced. -/
def IsCoercibleEntry (types : InputTypes) (fields : Dict Text GraphQLInputField)
    (entries : List (Text × Value)) : Prop :=
  ∃ fieldName value, entries = [(fieldName, value)] ∧ value ≠ .none ∧
    ∀ field, fields.get fieldName = some field →
      coercesToNone types value field.type = false

theorem coercible_object_iff {fields : Dict Text GraphQLInputField} {isOneOf : Bool}
    {description : Option Text} {entries : List (Text × Value)}
    (htype : types.schema.getType name =
      some (.inputObject fields isOneOf description)) :
    Coercible types (.dict entries) (.named name) ↔
      (∀ entry ∈ entries, (fields.get entry.1).isSome) ∧
      (∀ entry ∈ fields.items, FieldCoercible types entries entry.1 entry.2) ∧
      (isOneOf → IsCoercibleEntry types fields entries) := by
  unfold Coercible
  rw [conforms_object_iff htype]
  constructor
  · rintro ⟨⟨hdefined, hfields, honeOf⟩, hloses⟩
    refine ⟨hdefined, fun entry hmem => ⟨(hfields entry hmem).1, ?_⟩, ?_⟩
    · intro value hfind
      exact ⟨(hfields entry hmem).2 value hfind,
        fun h => hloses (.field htype hmem hfind h)⟩
    · intro hisOneOf
      obtain ⟨fieldName, value, rfl, hnone⟩ := honeOf hisOneOf
      subst hisOneOf
      refine ⟨fieldName, value, rfl, hnone, fun field hfield => ?_⟩
      by_contra h
      exact hloses (.oneOf htype hfield hnone (by simpa using h))
  · rintro ⟨hdefined, hfields, honeOf⟩
    refine ⟨⟨hdefined, fun entry hmem => ⟨(hfields entry hmem).1, ?_⟩, ?_⟩, ?_⟩
    · exact fun value hfind => ((hfields entry hmem).2 value hfind).1
    · intro hisOneOf
      obtain ⟨fieldName, value, hentries, hnone, _⟩ := honeOf hisOneOf
      exact ⟨fieldName, value, hentries, hnone⟩
    · intro hloses
      cases hloses with
      | oneOf htype' hfield hnone h =>
          rw [htype] at htype'
          cases htype'
          obtain ⟨fieldName', value', hentries, _, hcoerces⟩ := honeOf rfl
          cases hentries
          rw [hcoerces _ hfield] at h
          cases h
      | field htype' hmem hfind h =>
          rw [htype] at htype'
          cases htype'
          exact ((hfields _ hmem).2 _ hfind).2 h

theorem coercible_leaf_iff (hnone : value ≠ .none)
    (hleaf : ∀ fields isOneOf description, types.schema.getType name ≠
      some (.inputObject fields isOneOf description)) :
    Coercible types value (.named name) ↔
      ∃ value', leafInputValue types name value = some (.value value') := by
  unfold Coercible
  rw [conforms_leaf_iff hnone hleaf]
  apply and_iff_left
  intro h
  cases h with
  | oneOf htype => exact hleaf _ _ _ htype
  | field htype => exact hleaf _ _ _ htype

end Coercible

/-! ## Coercion decides what is coercible -/

section Coercion

variable {types : InputTypes} {coerceDefault : DefaultCoercion}

/-- The coercion of one field of an input object. -/
def coerceField (types : InputTypes) (coerceDefault : DefaultCoercion)
    (entries : List (Text × Value)) (fieldName : Text) (field : GraphQLInputField) :
    Except Stop (Option Value) :=
  match Dict.find fieldName entries with
  | none =>
      if isRequiredArgument field.toInputDefinition then .error .undefined
      else coerceDefault field.toInputDefinition
  | some fieldValue =>
      some <$> coerceInputValue types coerceDefault fieldValue field.type

theorem coerceField_some {entries : List (Text × Value)} {fieldName : Text}
    {field : GraphQLInputField} {value : Value}
    (hfind : Dict.find fieldName entries = some value) :
    coerceField types coerceDefault entries fieldName field =
      some <$> coerceInputValue types coerceDefault value field.type := by
  rw [coerceField, hfind]

theorem coerceField_none {entries : List (Text × Value)} {fieldName : Text}
    {field : GraphQLInputField} (hfind : Dict.find fieldName entries = none)
    (hrequired : isRequiredArgument field.toInputDefinition = false) :
    coerceField types coerceDefault entries fieldName field =
      coerceDefault field.toInputDefinition := by
  rw [coerceField, hfind]
  simp only [hrequired]
  rfl

theorem coerceFields_eq (entries : List (Text × Value))
    (fields : List (Text × GraphQLInputField)) (coercedDict : List (Text × Value)) :
    coerceFields types coerceDefault entries fields coercedDict =
      storeFields (coerceField types coerceDefault entries) fields coercedDict := by
  induction fields generalizing coercedDict with
  | nil => rw [coerceFields, storeFields]
  | cons entry rest ih =>
      rw [coerceFields, storeFields, coerceField]
      congr 1
      · split <;> simp [*]
      · funext coercedField
        exact ih _

section Named

variable {name : Text} {fields : Dict Text GraphQLInputField} {isOneOf : Bool}
variable {description : Option Text}

theorem coerceInputValue_object (htype : types.schema.getType name =
      some (.inputObject fields isOneOf description)) (entries : List (Text × Value)) :
    coerceInputValue types coerceDefault (.dict entries) (.named name) =
      if entries.any fun entry => (fields.get entry.1).isNone then .error .undefined
      else (do
        let coercedDict ← storeFields (coerceField types coerceDefault entries)
          fields.items []
        if isOneOf && !isOneOfValue entries.length coercedDict then .error .undefined
        else .ok (types.outType name coercedDict)) := by
  rw [coerceInputValue]
  · simp only [htype, coerceFields_eq]
    rfl
  · simp

theorem coerceInputValue_notObject {value : Value} (hnone : value ≠ .none)
    (htype : types.schema.getType name =
      some (.inputObject fields isOneOf description))
    (hdict : ∀ entries, value ≠ .dict entries) :
    coerceInputValue types coerceDefault value (.named name) = .error .undefined := by
  rw [coerceInputValue]
  · simp only [htype]
  · exact hnone

theorem coerceInputValue_leaf {value : Value} (hnone : value ≠ .none)
    (hleaf : ∀ fields isOneOf description, types.schema.getType name ≠
      some (.inputObject fields isOneOf description)) :
    coerceInputValue types coerceDefault value (.named name) =
      finishLeaf name (leafInputValue types name value) := by
  rw [coerceInputValue]
  · split
    · rename_i htype
      exact absurd htype (hleaf _ _ _)
    · rfl
  · exact hnone

end Named

/-- What the coercion of a value that is not `None` returns is `None` only if the
leaf type returns it. -/
theorem coerceInputValue_eq_none_iff {value value' : Value} {type : GraphQLType}
    (hnone : value ≠ .none)
    (h : coerceInputValue types coerceDefault value type = .ok value') :
    value' = .none ↔ coercesToNone types value type := by
  induction type with
  | nonNull ofType ih =>
      rw [coerceInputValue] at h
      · exact ih h
      · exact hnone
  | list itemType _ =>
      have hlist : ∃ items, value' = .list items := by
        by_cases hitems : ∃ items, value = .list items
        · obtain ⟨items, rfl⟩ := hitems
          rw [coerceInputValue] at h
          obtain ⟨coercedList, _, h⟩ := bind_eq_ok.mp h
          cases h
          exact ⟨coercedList, rfl⟩
        · rw [coerceInputValue] at h
          · obtain ⟨coercedItem, _, h⟩ := bind_eq_ok.mp h
            cases h
            exact ⟨[coercedItem], rfl⟩
          · exact hnone
          · exact fun items hvalue => hitems ⟨items, hvalue⟩
      obtain ⟨items, rfl⟩ := hlist
      simp [coercesToNone]
  | named name =>
      by_cases hobject : ∃ fields isOneOf description, types.schema.getType name =
          some (.inputObject fields isOneOf description)
      · obtain ⟨fields, isOneOf, description, htype⟩ := hobject
        have hcoerces : coercesToNone types value (.named name) = false := by
          simp [coercesToNone, leafInputValue, htype]
        rw [hcoerces]
        by_cases hdict : ∃ entries, value = .dict entries
        · obtain ⟨entries, rfl⟩ := hdict
          rw [coerceInputValue_object htype] at h
          split at h
          · cases h
          · obtain ⟨coercedDict, _, h⟩ := bind_eq_ok.mp h
            split at h
            · cases h
            · cases h
              simp [types.outType_ne_none]
        · rw [coerceInputValue_notObject hnone htype
            fun entries hvalue => hdict ⟨entries, hvalue⟩] at h
          cases h
      · rw [coerceInputValue_leaf hnone fun fields isOneOf description htype =>
          hobject ⟨fields, isOneOf, description, htype⟩] at h
        rw [coercesToNone]
        cases hleaf : leafInputValue types name value with
        | none =>
            rw [hleaf] at h
            cases h
        | some outcome =>
            rw [hleaf] at h
            cases outcome with
            | value coercedValue =>
                cases h
                cases value' <;> simp
            | undefined | graphQLError | exception => cases h

theorem coerceItems_settles {items : List Value} {itemType : GraphQLType}
    (h : ∀ item ∈ items, Settles Stop.undefined
      (coerceInputValue types coerceDefault item itemType)
      (Coercible types item itemType)) :
    Settles Stop.undefined (coerceItems types coerceDefault items itemType)
      (∀ item ∈ items, Coercible types item itemType) := by
  induction items with
  | nil =>
      rw [coerceItems]
      exact .ok (by simp)
  | cons item rest ih =>
      rw [coerceItems, List.forall_mem_cons]
      apply (h item List.mem_cons_self).bind
      intro _ _
      exact (ih fun item hitem => h item (List.mem_cons_of_mem _ hitem)).bind_ok

end Coercion

section ValidTypes

variable {types : InputTypes} {depth : ℕ}

theorem coerceInputValue_none_or {value value' : Value} {type : GraphQLType}
    {coerceDefault : DefaultCoercion}
    (h : coerceInputValue types coerceDefault value type = .ok value') :
    value' = .none ↔ value = .none ∨ coercesToNone types value type := by
  by_cases hnone : value = .none
  · subst hnone
    cases type with
    | nonNull =>
        rw [coerceInputValue] at h
        cases h
    | list | named =>
        rw [coerceInputValue] at h
        cases h
        simp
  · rw [coerceInputValue_eq_none_iff hnone h, or_iff_right hnone]

/-- An input field without a default value has no coerced default value. -/
theorem ValidInputTypes.coerceDefault_oneOf (hvalid : ValidInputTypes types depth)
    {name fieldName : Text} {fields : Dict Text GraphQLInputField}
    {description : Option Text} {field : GraphQLInputField}
    (htype : types.schema.getType name = some (.inputObject fields true description))
    (hmem : (fieldName, field) ∈ fields.items) :
    coerceDefaultValue types depth field.toInputDefinition = .ok none := by
  obtain ⟨hdefault, hdefaultValue⟩ :=
    hvalid.oneOf name fields description fieldName field htype hmem
  obtain ⟨value, hvalue⟩ :=
    hvalid.defaults name fields true description fieldName field htype hmem
  rw [hvalue, coerceDefaultValue_eq_ok hdefault hvalue, hdefaultValue]

theorem isOneOfValue_iff (hvalid : ValidInputTypes types depth) {name : Text}
    {fields : Dict Text GraphQLInputField} {description : Option Text}
    {entries coercedDict : List (Text × Value)}
    (htype : types.schema.getType name = some (.inputObject fields true description))
    (hdefined : ∀ entry ∈ entries, (fields.get entry.1).isSome)
    (hfields : ∀ entry ∈ fields.items,
      Settles Stop.undefined
        (coerceField types (coerceDefaultValue types depth) entries entry.1 entry.2)
        (FieldCoercible types entries entry.1 entry.2))
    (hstore : storeFields (coerceField types (coerceDefaultValue types depth) entries)
      fields.items [] = .ok coercedDict) :
    isOneOfValue entries.length coercedDict = true ↔
      IsCoercibleEntry types fields entries := by
  by_cases hentries : ∃ fieldName value, entries = [(fieldName, value)]
  · obtain ⟨fieldName, value, rfl⟩ := hentries
    obtain ⟨field, hfield⟩ :=
      Option.isSome_iff_exists.mp (hdefined _ List.mem_cons_self)
    have haccepted := (settles_storeFields hfields []).of_ok hstore
    have hmem : (fieldName, field) ∈ fields.items := Dict.mem_items_iff.mpr hfield
    have hfind : Dict.find fieldName [(fieldName, value)] = some value := by
      simp [Dict.find]
    obtain ⟨coercedField, hcoerced⟩ := (hfields _ hmem).exists_ok (haccepted _ hmem)
    rw [coerceField_some hfind] at hcoerced
    obtain ⟨value', hvalue, _⟩ := map_eq_ok.mp hcoerced
    have hsingle : storeFields
        (coerceField types (coerceDefaultValue types depth) [(fieldName, value)])
        fields.items [] = .ok [(field.outNameOr fieldName, value')] := by
      apply storeFields_eq_single hfield
      · rw [coerceField_some hfind, hvalue]
        rfl
      · intro entry hentry hne
        have hother : Dict.find entry.1 [(fieldName, value)] = none := by
          simp [Dict.find, hne.symm]
        rw [coerceField_none hother ((haccepted _ hentry).1 hother)]
        exact hvalid.coerceDefault_oneOf htype hentry
    rw [hsingle] at hstore
    cases hstore
    have hiff : isOneOfValue 1 [(field.outNameOr fieldName, value')] = true ↔
        value' ≠ .none := by
      cases value' <;> simp [isOneOfValue]
    rw [List.length_singleton, hiff, ne_eq, coerceInputValue_none_or hvalue]
    unfold IsCoercibleEntry
    constructor
    · intro h
      refine ⟨fieldName, value, rfl, fun hnone => h (.inl hnone), ?_⟩
      intro field' hfield'
      rw [hfield] at hfield'
      cases hfield'
      simpa using fun hcoerces => h (.inr hcoerces)
    · rintro ⟨fieldName', value', heq, hnone, hcoerces⟩
      cases heq
      simp [hnone, hcoerces field hfield]
  · constructor
    · intro h
      unfold isOneOfValue at h
      split at h
      · cases h
      · rw [decide_eq_true_eq, List.length_eq_one_iff] at h
        obtain ⟨entry, rfl⟩ := h
        exact absurd ⟨entry.1, entry.2, rfl⟩ hentries
      · cases h
    · rintro ⟨fieldName, value, heq, _⟩
      exact absurd ⟨fieldName, value, heq⟩ hentries

/-- Coercion returns a value for what is coercible, and else `Undefined`. -/
theorem coerceInputValue_settles (hvalid : ValidInputTypes types depth)
    (value : Value) (type : GraphQLType) (hinput : types.schema.isInputType type) :
    Settles Stop.undefined
      (coerceInputValue types (coerceDefaultValue types depth) value type)
      (Coercible types value type) := by
  induction value, type using inputValue_induction types with
  | nonNullNone ofType =>
      rw [coerceInputValue]
      exact .error fun h => not_conforms_nonNull_none h.1
  | nonNull value ofType hnone ih =>
      rw [coerceInputValue]
      · exact (ih hinput).congr (coercible_nonNull_iff hnone).symm
      · exact hnone
  | listNone itemType =>
      rw [coerceInputValue]
      exact .ok ⟨.noList, not_losesEntry_none⟩
  | list items itemType ih =>
      rw [coerceInputValue]
      have hitems := coerceItems_settles fun item hitem => ih item hitem hinput
      exact hitems.bind_ok.congr coercible_list_iff.symm
  | single value itemType hnone hlist ih =>
      rw [coerceInputValue]
      · exact (ih hinput).bind_ok.congr (coercible_single_iff hnone hlist).symm
      · exact hnone
      · exact hlist
  | namedNone name =>
      rw [coerceInputValue]
      exact .ok ⟨.noValue, not_losesEntry_none⟩
  | object name fields isOneOf description entries htype ih =>
      have hfields : ∀ entry ∈ fields.items, Settles Stop.undefined
          (coerceField types (coerceDefaultValue types depth) entries entry.1 entry.2)
          (FieldCoercible types entries entry.1 entry.2) := by
        rintro ⟨fieldName, field⟩ hmem
        rw [coerceField, FieldCoercible]
        cases hfind : Dict.find fieldName entries with
        | none =>
            obtain ⟨value, hvalue⟩ := hvalid.defaults _ _ _ _ _ _ htype hmem
            simp only [hvalue]
            split
            · exact .error (by simp [*])
            · exact .ok (by simp [*])
        | some value =>
            have hvalue := ih fieldName field value hmem hfind
              (hvalid.hasInputFields _ _ _ _ _ _ htype hmem)
            exact hvalue.map.congr (by simp)
      rw [coerceInputValue_object htype]
      split
      · rename_i hundefined
        apply Settles.error
        rw [coercible_object_iff htype]
        intro h
        obtain ⟨entry, hmem, hentry⟩ := List.any_eq_true.mp hundefined
        simp [Option.isSome_iff_ne_none.mp (h.1 entry hmem)] at hentry
      · rename_i hdefined
        have hdefined : ∀ entry ∈ entries, (fields.get entry.1).isSome := by
          simpa [Option.isSome_iff_ne_none] using hdefined
        apply Settles.congr (q := Coercible types (.dict entries) (.named name))
          ((settles_storeFields hfields []).bind (q := isOneOf →
            IsCoercibleEntry types fields entries) fun coercedDict hstore => ?_)
        · rw [coercible_object_iff htype]
          exact (and_iff_right hdefined).symm
        · cases isOneOf with
          | false => exact .ok (by simp)
          | true =>
              have hiff := isOneOfValue_iff hvalid htype hdefined hfields hstore
              split
              · rename_i h
                exact .error (by simpa [← hiff] using h)
              · rename_i h
                exact .ok (by simpa [← hiff] using h)
  | notObject name fields isOneOf description value hnone htype hdict =>
      rw [coerceInputValue_notObject hnone htype hdict]
      exact .error fun h => not_conforms_notObject hnone htype hdict h.1
  | leaf name value hnone hleaf =>
      obtain ⟨outcome, houtcome⟩ := exists_leafInputValue value hinput hleaf
      rw [coerceInputValue_leaf hnone hleaf]
      apply Settles.congr _ (coercible_leaf_iff hnone hleaf).symm
      rw [houtcome]
      cases outcome with
      | value => exact .ok ⟨_, rfl⟩
      | undefined | graphQLError | exception => exact .error (by simp)

end ValidTypes

end GraphqlCore
