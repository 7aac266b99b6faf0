import GraphqlCore.Type.HostValues
import GraphqlCore.Utilities.CoerceInputValue

/-!
# Values and literals

`value_to_literal` of `utilities/value_to_literal.py` beside the two coercions of
`utilities/coerce_input_value.py`, for all values of the host language.  The input types are
built from the specified scalars, enums and input objects; custom scalars have the functions
that are the default ones, as in a schema that is built from its definition.
-/

namespace GraphqlCore.ValueLiterals

open Language

variable {floats : FloatFormat} {Custom : Type}

/-! ## Input types -/

/-- A default value, as a literal or as an external value. -/
inductive DefaultInput (floats : FloatFormat)
  | literal (literal : ValueNode)
  | value (value : HostValue floats)

structure InputField (floats : FloatFormat) where
  type : GraphQLType
  default : Option (DefaultInput floats) := none
  /-- The deprecated internal default value. -/
  defaultValue : HostValue floats := .undefined
  outName : Option Text := none

namespace InputField

/-- The name of the coerced value, `out_name or name`. -/
def outNameOr (field : InputField floats) (name : Text) : Text :=
  match field.outName with
  | some (c :: rest) => c :: rest
  | _ => name

def isRequired (field : InputField floats) : Bool :=
  isNonNullType field.type && field.default.isNone && field.defaultValue.isUndefined

end InputField

/-- The named input types.  There are no custom scalars where `Custom` is empty. -/
inductive NamedInputType (floats : FloatFormat) (Custom : Type)
  | scalar (scalar : SpecifiedScalar)
  | customScalar (custom : Custom)
  /-- The names of the values with their internal values. -/
  | enum (values : Dict Text (HostValue floats))
  | inputObject (fields : Dict Text (InputField floats)) (isOneOf : Bool)

theorem mapping_isMissing (_name : Text) (entries : List (Text × HostValue floats)) :
    (HostValue.mapping true entries).isMissing = false := rfl

structure InputTypes (floats : FloatFormat) (Custom : Type) where
  named : Text → NamedInputType floats Custom
  outType : Text → List (Text × HostValue floats) → HostValue floats := fun _ => .mapping true
  /-- The conversion `out_type` of an input object makes a value that is not `None`. -/
  outType_isMissing : ∀ name entries, (outType name entries).isMissing = false := by
    exact mapping_isMissing

/-- The coercion of the default value of an input field, `none` if it has none. -/
abbrev DefaultCoercion (floats : FloatFormat) :=
  InputField floats → Except Stop (Option (HostValue floats))

abbrev Variables (floats : FloatFormat) := Option (Dict Text (HostValue floats))

/-- The entries that are not `Undefined`. -/
def definedEntries (entries : List (Text × HostValue floats)) : List (Text × HostValue floats) :=
  entries.filter fun entry => !entry.2.isUndefined

/-- The entry of that name, if it is not `Undefined`. -/
def given (entries : List (Text × HostValue floats)) (name : Text) : Option (HostValue floats) :=
  Dict.find name (definedEntries entries)

theorem sizeOf_given_lt {entries : List (Text × HostValue floats)} {name : Text}
    {value : HostValue floats} (h : given entries name = some value) :
    sizeOf value < sizeOf entries := by
  have hmem : (name, value) ∈ entries := (List.mem_filter.mp (Dict.mem_of_find h)).1
  have hlt := List.sizeOf_lt_of_mem hmem
  simp only [Prod.mk.sizeOf_spec] at hlt
  omega

/-- Is an entry given that is not defined? -/
def hasUnknown (fields : Dict Text (InputField floats))
    (entries : List (Text × HostValue floats)) : Bool :=
  (definedEntries entries).any fun entry => (fields.get entry.1).isNone

/-- What a leaf type returns; its errors are caught. -/
def finishLeaf : Option (HostValue floats) → Except Stop (HostValue floats)
  | some .undefined => .error .undefined
  | some value => .ok value
  | none => .error .undefined

/-! ## Values to literals -/

variable (types : InputTypes floats Custom)

def enumValueToLiteral (values : Dict Text (HostValue floats)) :
    HostValue floats → Option ValueNode
  | .str value => if (values.get value).isSome then some (.enum value none) else none
  | _ => none

mutual

/-- Produce a GraphQL Value AST given a Python value and a GraphQL type. -/
def valueToLiteral (value : HostValue floats) (type : GraphQLType) : Option ValueNode :=
  match type with
  | .nonNull ofType => if value.isMissing then none else valueToLiteral value ofType
  | .list itemType =>
      -- Like JSON, a null literal is produced for both null and undefined.
      if value.isMissing then some (.null none)
      else match value with
        | .iterable items => (itemsToLiterals items itemType).map fun values => .list values none
        | value => valueToLiteral value itemType
  | .named name =>
      if value.isMissing then some (.null none)
      else match types.named name with
        | .inputObject fieldDefs _ =>
            match value with
            | .mapping _ entries =>
                if hasUnknown fieldDefs entries then none
                else (entriesToLiterals entries fieldDefs.items).map fun fields =>
                  .object fields none
            | _ => none
        | .scalar scalar => scalar.valueToLiteral value
        | .enum values => enumValueToLiteral values value
        | .customScalar _ => defaultScalarValueToLiteral value
termination_by (sizeOf value, sizeOf type)

def itemsToLiterals (items : List (HostValue floats)) (itemType : GraphQLType) :
    Option (List ValueNode) :=
  match items with
  | [] => some []
  | itemValue :: rest => do
      let itemNode ← valueToLiteral itemValue itemType
      let values ← itemsToLiterals rest itemType
      return itemNode :: values
termination_by (sizeOf items, sizeOf itemType)

def entriesToLiterals (entries : List (Text × HostValue floats))
    (fieldDefs : List (Text × InputField floats)) : Option (List ObjectFieldNode) :=
  match fieldDefs with
  | [] => some []
  | (fieldName, field) :: rest =>
      match _h : given entries fieldName with
      | none => if field.isRequired then none else entriesToLiterals entries rest
      | some fieldValue => do
          have := sizeOf_given_lt _h
          let fieldNode ← valueToLiteral fieldValue field.type
          let fields ← entriesToLiterals entries rest
          return ⟨{ value := fieldName }, fieldNode, none⟩ :: fields
termination_by (sizeOf entries, sizeOf fieldDefs)

end

/-! ## External values -/

def enumCoerceInputValue (values : Dict Text (HostValue floats)) :
    HostValue floats → Option (HostValue floats)
  | .str inputValue => values.get inputValue
  | _ => none

/-- A OneOf object has exactly one entry, which is not `None`. -/
def isOneOfValue (definedFieldCount : ℕ) (coercedDict : List (Text × HostValue floats)) : Bool :=
  match coercedDict with
  | [(_, value)] => definedFieldCount = 1 && !value.isNone
  | _ => false

/-- The dictionary with the coerced field, if there is one. -/
def addField (field : InputField floats) (fieldName : Text)
    (coercedDict : List (Text × HostValue floats)) :
    Option (HostValue floats) → List (Text × HostValue floats)
  | none => coercedDict
  | some value => Dict.store (field.outNameOr fieldName) value coercedDict

mutual

/-- Coerce a Python value given a GraphQL Input Type. -/
def coerceInputValue (coerceDefault : DefaultCoercion floats) (inputValue : HostValue floats)
    (type : GraphQLType) : Except Stop (HostValue floats) :=
  match type with
  | .nonNull ofType =>
      if inputValue.isMissing then .error .undefined
      else coerceInputValue coerceDefault inputValue ofType
  | .list itemType =>
      if inputValue.isMissing then .ok .none
      else match inputValue with
        | .iterable items => do
            let coercedList ← coerceItems coerceDefault items itemType
            return .iterable coercedList
        -- Lists accept a non-list value as a list of one.
        | inputValue => do
            let coercedItem ← coerceInputValue coerceDefault inputValue itemType
            return .iterable [coercedItem]
  | .named name =>
      if inputValue.isMissing then .ok .none
      else match types.named name with
        | .inputObject fields isOneOf =>
            match inputValue with
            | .mapping true entries =>
                if hasUnknown fields entries then .error .undefined
                else do
                  let coercedDict ← coerceFields coerceDefault entries fields.items []
                  if isOneOf && !isOneOfValue (definedEntries entries).length coercedDict then
                    .error .undefined
                  else return types.outType name coercedDict
            | _ => .error .undefined
        | .scalar scalar => finishLeaf (scalar.coerceInputValue inputValue)
        | .enum values => finishLeaf (enumCoerceInputValue values inputValue)
        | .customScalar _ => finishLeaf (some inputValue)
termination_by (sizeOf inputValue, sizeOf type)

def coerceItems (coerceDefault : DefaultCoercion floats) (items : List (HostValue floats))
    (itemType : GraphQLType) : Except Stop (List (HostValue floats)) :=
  match items with
  | [] => .ok []
  | itemValue :: rest => do
      let coercedItem ← coerceInputValue coerceDefault itemValue itemType
      let coercedList ← coerceItems coerceDefault rest itemType
      return coercedItem :: coercedList
termination_by (sizeOf items, sizeOf itemType)

/-- The coerced fields of an input object, after those that are already there. -/
def coerceFields (coerceDefault : DefaultCoercion floats)
    (entries : List (Text × HostValue floats)) (fields : List (Text × InputField floats))
    (coercedDict : List (Text × HostValue floats)) :
    Except Stop (List (Text × HostValue floats)) :=
  match fields with
  | [] => .ok coercedDict
  | (fieldName, field) :: rest => do
      let coercedField ← (match _h : given entries fieldName with
        | none => if field.isRequired then .error .undefined else coerceDefault field
        | some fieldValue =>
            have := sizeOf_given_lt _h
            some <$> coerceInputValue coerceDefault fieldValue field.type)
      coerceFields coerceDefault entries rest (addField field fieldName coercedDict coercedField)
termination_by (sizeOf entries, sizeOf fields)

end

/-! ## Literals -/

section Untyped

variable (variableValues : Variables floats)

/-- The value of a variable, `Undefined` if it has none. -/
def variableValue (node : VariableNode) : HostValue floats :=
  (variableValues.bind fun values => values.get node.name.value).getD .undefined

mutual

/-- Produce a Python value given a GraphQL Value AST. -/
def valueFromAstUntyped : ValueNode → HostValue floats
  | .null _ => .none
  | .int value _ =>
      match readInt value with
      | some value => .int value
      | none => .float floats.nan
  | .float value _ => .float ((floats.read value).getD floats.nan)
  | .string node => .str node.value
  | .enum value _ => .str value
  | .boolean value _ => .bool value
  | .list values _ => .iterable (valuesFromAstUntyped values)
  | .object fields _ => .mapping true (fieldsFromAstUntyped [] fields)
  | .variable node => variableValue variableValues node

def valuesFromAstUntyped : List ValueNode → List (HostValue floats)
  | [] => []
  | value :: rest => valueFromAstUntyped value :: valuesFromAstUntyped rest

/-- The entries of the fields, after those that are already there. -/
def fieldsFromAstUntyped (entries : List (Text × HostValue floats)) :
    List ObjectFieldNode → List (Text × HostValue floats)
  | [] => entries
  | ⟨name, value, _⟩ :: rest =>
      fieldsFromAstUntyped (Dict.store name.value (valueFromAstUntyped value) entries) rest

end

/-- Is the literal a variable that does not provide a value? -/
def isMissingVariable : ValueNode → Bool
  | .variable node => (variableValue variableValues node).isUndefined
  | _ => false

def enumCoerceInputLiteral (values : Dict Text (HostValue floats)) :
    ValueNode → Option (HostValue floats)
  | .enum value _ => values.get value
  | _ => none

/-- A OneOf literal has exactly one field, which is not null, and gives one entry,
which is not `None`. -/
def isOneOfLiteral (fieldDefs : Dict Text (InputField floats)) (nodes : List (Text × ValueNode))
    (coercedDict : List (Text × HostValue floats)) : Bool :=
  match nodes, coercedDict with
  | [(_, .null _)], _ => false
  | [(fieldName, _)], [(outName, value)] =>
      match fieldDefs.get fieldName with
      | none => true
      | some field => !(field.outNameOr fieldName = outName && value.isNone)
  | _, _ => false

mutual

/-- Produce a coerced Python value given a GraphQL Value AST, without fragment variables. -/
def coerceInputLiteral (coerceDefault : DefaultCoercion floats) (valueNode : ValueNode)
    (type : GraphQLType) : Except Stop (HostValue floats) :=
  match type, valueNode with
  | type, .variable node =>
      let value := variableValue variableValues node
      if value.isUndefined || value.isNone && isNonNullType type then .error .undefined
      else .ok value
  | .nonNull _, .null _ => .error .undefined
  | .nonNull ofType, valueNode => coerceInputLiteral coerceDefault valueNode ofType
  | .list _, .null _ => .ok .none
  | .list itemType, .list values _ => do
      let coercedList ← coerceItemNodes coerceDefault values itemType
      return .iterable coercedList
  -- Lists accept a non-list value as a list of one.
  | .list itemType, valueNode => do
      let itemValue ← coerceInputLiteral coerceDefault valueNode itemType
      return .iterable [itemValue]
  | .named _, .null _ => .ok .none
  | .named name, valueNode =>
      match types.named name with
      | .inputObject fieldDefs isOneOf =>
          match valueNode with
          | .object fields _ =>
              have := sizeOf_fieldNodes_lt fields
              let nodes := fieldNodes fields
              if nodes.any fun node => (fieldDefs.get node.1).isNone then .error .undefined
              else do
                let coercedDict ← coerceFieldNodes coerceDefault nodes fieldDefs.items []
                if isOneOf && !isOneOfLiteral fieldDefs nodes coercedDict then
                  .error .undefined
                else return types.outType name coercedDict
          | _ => .error .undefined
      | .scalar scalar => finishLeaf (scalar.coerceInputLiteral valueNode)
      | .enum values => finishLeaf (enumCoerceInputLiteral values valueNode)
      | .customScalar _ => finishLeaf (some (valueFromAstUntyped variableValues valueNode))
termination_by (sizeOf valueNode, sizeOf type)

def coerceItemNodes (coerceDefault : DefaultCoercion floats) (values : List ValueNode)
    (itemType : GraphQLType) : Except Stop (List (HostValue floats)) :=
  match values with
  | [] => .ok []
  | itemNode :: rest => do
      -- A missing variable within a list is coerced to null.
      let itemValue ←
        (if !isNonNullType itemType && isMissingVariable variableValues itemNode then .ok .none
        else coerceInputLiteral coerceDefault itemNode itemType)
      let coercedList ← coerceItemNodes coerceDefault rest itemType
      return itemValue :: coercedList
termination_by (sizeOf values, sizeOf itemType)

/-- The coerced fields of an input object, after those that are already there. -/
def coerceFieldNodes (coerceDefault : DefaultCoercion floats) (nodes : List (Text × ValueNode))
    (fields : List (Text × InputField floats)) (coercedDict : List (Text × HostValue floats)) :
    Except Stop (List (Text × HostValue floats)) :=
  match fields with
  | [] => .ok coercedDict
  | (fieldName, field) :: rest => do
      let useDefault := if field.isRequired then Except.error Stop.undefined
        else coerceDefault field
      let fieldValue ← (match _h : Dict.find fieldName nodes with
        | none => useDefault
        | some valueNode =>
            have := sizeOf_find_lt _h
            if isMissingVariable variableValues valueNode then useDefault
            else some <$> coerceInputLiteral coerceDefault valueNode field.type)
      coerceFieldNodes coerceDefault nodes rest (addField field fieldName coercedDict fieldValue)
termination_by (sizeOf nodes, sizeOf fields)

end

end Untyped

/-! ## Default values -/

/-- Coerce the default value of an input field to a Python value, with the defaults that it
needs itself down to a given depth. -/
def coerceDefaultValue : ℕ → DefaultCoercion floats
  | 0, _ => .error .tooDeep
  | depth + 1, inputValue =>
      let coerceDefault := coerceDefaultValue depth
      let coercedValue := match inputValue.default with
        | none => none
        | some (.literal literal) =>
            some (coerceInputLiteral types none coerceDefault literal inputValue.type)
        | some (.value value) =>
            some (coerceInputValue types coerceDefault value inputValue.type)
      match coercedValue with
      | none => .ok (if inputValue.defaultValue.isUndefined then none
          else some inputValue.defaultValue)
      | some (.error .undefined) => .error (.invalidDefault inputValue.type)
      | some (.error stop) => .error stop
      | some (.ok value) => .ok (some value)

/-! ## Each position -/

section Positions

variable {types} {value : HostValue floats} {type : GraphQLType} {name : Text}
  {fields : Dict Text (InputField floats)} {isOneOf : Bool} {coerceDefault : DefaultCoercion floats}

@[simp] theorem isMissing_iterable (items : List (HostValue floats)) :
    (HostValue.iterable items).isMissing = false := rfl

@[simp] theorem isMissing_mapping (isDict : Bool) (entries : List (Text × HostValue floats)) :
    (HostValue.mapping isDict entries).isMissing = false := rfl

@[simp] theorem isMissing_str (text : Text) :
    (HostValue.str text : HostValue floats).isMissing = false := rfl

theorem valueToLiteral_missing (hmissing : value.isMissing = true) :
    valueToLiteral types value type = if isNonNullType type then none else some (.null none) := by
  rw [valueToLiteral.eq_def]
  cases type <;> simp [hmissing, isNonNullType]

theorem valueToLiteral_nonNull (hmissing : value.isMissing = false) :
    valueToLiteral types value (.nonNull type) = valueToLiteral types value type := by
  rw [valueToLiteral.eq_def]
  simp [hmissing]

theorem valueToLiteral_list (items : List (HostValue floats)) :
    valueToLiteral types (.iterable items) (.list type) =
      (itemsToLiterals types items type).map fun values => .list values none := by
  rw [valueToLiteral.eq_def]
  simp

theorem valueToLiteral_single (hmissing : value.isMissing = false)
    (hlist : ∀ items, value ≠ .iterable items) :
    valueToLiteral types value (.list type) = valueToLiteral types value type := by
  rw [valueToLiteral.eq_def]
  cases value <;> simp_all

theorem valueToLiteral_object (hnamed : types.named name = .inputObject fields isOneOf)
    (isDict : Bool) (entries : List (Text × HostValue floats)) :
    valueToLiteral types (.mapping isDict entries) (.named name) =
      if hasUnknown fields entries then none
      else (entriesToLiterals types entries fields.items).map fun nodes => .object nodes none := by
  rw [valueToLiteral.eq_def]
  simp [hnamed]

theorem valueToLiteral_noObject (hnamed : types.named name = .inputObject fields isOneOf)
    (hmissing : value.isMissing = false)
    (hobject : ∀ isDict entries, value ≠ .mapping isDict entries) :
    valueToLiteral types value (.named name) = none := by
  rw [valueToLiteral.eq_def]
  cases value <;> simp_all

theorem valueToLiteral_scalar {scalar : SpecifiedScalar}
    (hnamed : types.named name = .scalar scalar)
    (hmissing : value.isMissing = false) :
    valueToLiteral types value (.named name) = scalar.valueToLiteral value := by
  rw [valueToLiteral.eq_def]
  simp [hnamed, hmissing]

theorem valueToLiteral_customScalar {custom : Custom}
    (hnamed : types.named name = .customScalar custom) (hmissing : value.isMissing = false) :
    valueToLiteral types value (.named name) = defaultScalarValueToLiteral value := by
  rw [valueToLiteral.eq_def]
  simp [hnamed, hmissing]

theorem valueToLiteral_enum {values : Dict Text (HostValue floats)}
    (hnamed : types.named name = .enum values) (hmissing : value.isMissing = false) :
    valueToLiteral types value (.named name) = enumValueToLiteral values value := by
  rw [valueToLiteral.eq_def]
  simp [hnamed, hmissing]

theorem coerceInputValue_missing (hmissing : value.isMissing = true) :
    coerceInputValue types coerceDefault value type =
      if isNonNullType type then .error .undefined else .ok .none := by
  rw [coerceInputValue.eq_def]
  cases type <;> simp [hmissing, isNonNullType]

theorem coerceInputValue_nonNull (hmissing : value.isMissing = false) :
    coerceInputValue types coerceDefault value (.nonNull type) =
      coerceInputValue types coerceDefault value type := by
  rw [coerceInputValue.eq_def]
  simp [hmissing]

theorem coerceInputValue_list (items : List (HostValue floats)) :
    coerceInputValue types coerceDefault (.iterable items) (.list type) =
      .iterable <$> coerceItems types coerceDefault items type := by
  rw [coerceInputValue.eq_def]
  simp

theorem coerceInputValue_single (hmissing : value.isMissing = false)
    (hlist : ∀ items, value ≠ .iterable items) :
    coerceInputValue types coerceDefault value (.list type) =
      (fun item => .iterable [item]) <$> coerceInputValue types coerceDefault value type := by
  rw [coerceInputValue.eq_def]
  cases value <;> simp_all

theorem coerceInputValue_object (hnamed : types.named name = .inputObject fields isOneOf)
    (entries : List (Text × HostValue floats)) :
    coerceInputValue types coerceDefault (.mapping true entries) (.named name) =
      if hasUnknown fields entries then .error .undefined
      else do
        let coercedDict ← coerceFields types coerceDefault entries fields.items []
        if isOneOf && !isOneOfValue (definedEntries entries).length coercedDict then
          .error .undefined
        else return types.outType name coercedDict := by
  rw [coerceInputValue.eq_def]
  simp [hnamed]

theorem coerceInputValue_noDict (hnamed : types.named name = .inputObject fields isOneOf)
    (hmissing : value.isMissing = false) (hobject : ∀ entries, value ≠ .mapping true entries) :
    coerceInputValue types coerceDefault value (.named name) = .error .undefined := by
  rw [coerceInputValue.eq_def]
  cases value <;> simp_all

theorem coerceInputValue_scalar {scalar : SpecifiedScalar}
    (hnamed : types.named name = .scalar scalar) (hmissing : value.isMissing = false) :
    coerceInputValue types coerceDefault value (.named name) =
      finishLeaf (scalar.coerceInputValue value) := by
  rw [coerceInputValue.eq_def]
  simp [hnamed, hmissing]

theorem coerceInputValue_customScalar {custom : Custom}
    (hnamed : types.named name = .customScalar custom) (hmissing : value.isMissing = false) :
    coerceInputValue types coerceDefault value (.named name) = finishLeaf (some value) := by
  rw [coerceInputValue.eq_def]
  simp [hnamed, hmissing]

theorem coerceInputValue_enum {values : Dict Text (HostValue floats)}
    (hnamed : types.named name = .enum values) (hmissing : value.isMissing = false) :
    coerceInputValue types coerceDefault value (.named name) =
      finishLeaf (enumCoerceInputValue values value) := by
  rw [coerceInputValue.eq_def]
  simp [hnamed, hmissing]

section Fields

variable {entries coercedDict : List (Text × HostValue floats)} {fieldName : Text}
  {field : InputField floats} {rest : List (Text × InputField floats)}

theorem coerceFields_given (hgiven : given entries fieldName = some value) :
    coerceFields types coerceDefault entries ((fieldName, field) :: rest) coercedDict =
      coerceInputValue types coerceDefault value field.type >>= fun coerced =>
        coerceFields types coerceDefault entries rest
          (addField field fieldName coercedDict (some coerced)) := by
  rw [coerceFields]
  split
  · rename_i hnone
    nomatch hgiven.symm.trans hnone
  · rename_i value' hvalue
    obtain rfl := Option.some.inj (hgiven.symm.trans hvalue)
    cases coerceInputValue types coerceDefault value field.type <;> rfl

theorem coerceFields_absent (hgiven : given entries fieldName = none) :
    coerceFields types coerceDefault entries ((fieldName, field) :: rest) coercedDict =
      (if field.isRequired then .error .undefined else coerceDefault field) >>= fun fallback =>
        coerceFields types coerceDefault entries rest
          (addField field fieldName coercedDict fallback) := by
  rw [coerceFields]
  split
  · rfl
  · rename_i value' hvalue
    nomatch hgiven.symm.trans hvalue

theorem entriesToLiterals_given (hgiven : given entries fieldName = some value) :
    entriesToLiterals types entries ((fieldName, field) :: rest) =
      (valueToLiteral types value field.type).bind fun fieldNode =>
        (entriesToLiterals types entries rest).map fun fields =>
          ⟨{ value := fieldName }, fieldNode, none⟩ :: fields := by
  rw [entriesToLiterals]
  split
  · rename_i hnone
    nomatch hgiven.symm.trans hnone
  · rename_i value' hvalue
    obtain rfl := Option.some.inj (hgiven.symm.trans hvalue)
    cases valueToLiteral types value field.type <;>
      cases entriesToLiterals types entries rest <;> rfl

theorem entriesToLiterals_absent (hgiven : given entries fieldName = none) :
    entriesToLiterals types entries ((fieldName, field) :: rest) =
      if field.isRequired then none else entriesToLiterals types entries rest := by
  rw [entriesToLiterals]
  split
  · rfl
  · rename_i value' hvalue
    nomatch hgiven.symm.trans hvalue

variable {variableValues : Variables floats} {nodes : List (Text × ValueNode)}
  {valueNode : ValueNode}

theorem coerceFieldNodes_given (hfind : Dict.find fieldName nodes = some valueNode)
    (hmissing : isMissingVariable variableValues valueNode = false) :
    coerceFieldNodes types variableValues coerceDefault nodes ((fieldName, field) :: rest)
        coercedDict =
      coerceInputLiteral types variableValues coerceDefault valueNode field.type >>=
        fun coerced => coerceFieldNodes types variableValues coerceDefault nodes rest
          (addField field fieldName coercedDict (some coerced)) := by
  rw [coerceFieldNodes]
  split
  · rename_i hnone
    nomatch hfind.symm.trans hnone
  · rename_i valueNode' hvalue
    obtain rfl := Option.some.inj (hfind.symm.trans hvalue)
    rw [hmissing, if_neg Bool.noConfusion]
    cases coerceInputLiteral types variableValues coerceDefault valueNode field.type <;> rfl

theorem coerceFieldNodes_absent
    (hfind : ∀ valueNode, Dict.find fieldName nodes = some valueNode →
      isMissingVariable variableValues valueNode = true) :
    coerceFieldNodes types variableValues coerceDefault nodes ((fieldName, field) :: rest)
        coercedDict =
      (if field.isRequired then .error .undefined else coerceDefault field) >>= fun fallback =>
        coerceFieldNodes types variableValues coerceDefault nodes rest
          (addField field fieldName coercedDict fallback) := by
  rw [coerceFieldNodes]
  split
  · rfl
  · rename_i valueNode hvalue
    rw [hfind valueNode hvalue, if_pos rfl]

end Fields

end Positions

end GraphqlCore.ValueLiterals
