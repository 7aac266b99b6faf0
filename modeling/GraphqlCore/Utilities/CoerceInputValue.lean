import GraphqlCore.Utilities.ReplaceVariables

/-!
# Input value coercion

The functions of `utilities/coerce_input_value.py`.  They return `Undefined` for
what is not valid, which is then returned by their callers too, and raise only
where a default value is invalid or a type is no input type.  The default values of
input fields are coerced by the same functions: these take that coercion as an argument,
and `coerceDefaultValue` gives it to them down to a given depth.
-/

namespace GraphqlCore

open Language Execution

/-- What coercion ends with other than a value: `Undefined`, an error that is
raised, or default values that are nested deeper than allowed. -/
inductive Stop
  | undefined
  | invalidDefault (type : GraphQLType)
  | notLeafType (name : Text)
  | tooDeep
  deriving DecidableEq

/-- The coercion of the default value of an input field, `none` if it has none. -/
abbrev DefaultCoercion := InputDefinition → Except Stop (Option Value)

/-! ## Leaf types -/

/-- The internal value of an enum value. -/
def enumOutcome (enumValue : GraphQLEnumValue) : Outcome :=
  match enumValue.value with
  | some value => .value value
  | none => .undefined

def enumCoerceInputValue (name : Text) (values : Dict Text GraphQLEnumValue) :
    Value → Outcome
  | .str inputValue =>
      match values.get inputValue with
      | some enumValue => enumOutcome enumValue
      | none => .graphQLError (str "Value '" ++ inputValue ++
          str "' does not exist in '" ++ name ++ str "' enum.")
  | _ => .graphQLError (str "Enum '" ++ name ++
      str "' cannot represent non-string value.")

def enumCoerceInputLiteral (name : Text) (values : Dict Text GraphQLEnumValue) :
    ValueNode → Outcome
  | .enum value _ =>
      match values.get value with
      | some enumValue => enumOutcome enumValue
      | none => .graphQLError (str "Value '" ++ value ++
          str "' does not exist in '" ++ name ++ str "' enum.")
  | _ => .graphQLError (str "Enum '" ++ name ++
      str "' cannot represent non-enum value.")

/-- The coercion of an external value by a leaf type, `none` for other types. -/
def leafInputValue (types : InputTypes) (name : Text) (value : Value) :
    Option Outcome :=
  match types.schema.getType name with
  | some (.scalar ..) => some ((types.scalars name).coerceInputValue value)
  | some (.enum values _) => some (enumCoerceInputValue name values value)
  | _ => none

/-- The coercion of a literal by a leaf type, `none` for other types. -/
def leafInputLiteral (types : InputTypes) (name : Text) (valueNode : ValueNode)
    (variableValues : Option VariableValues)
    (fragmentVariableValues : Option FragmentVariableValues) : Option Outcome :=
  let replaced (coerce : ValueNode → Outcome) :=
    match replaceVariables types valueNode variableValues fragmentVariableValues with
    | .ok constant => coerce constant
    | .error message => .exception message
  match types.schema.getType name with
  | some (.scalar ..) =>
      some (match (types.scalars name).coerceInputLiteral with
        | some coerceInputLiteral => replaced coerceInputLiteral
        | none => (types.scalars name).parseLiteral valueNode
            (variableValues.map VariableValues.coerced))
  | some (.enum values _) => some (replaced (enumCoerceInputLiteral name values))
  | _ => none

/-! ## External values -/

/-- A OneOf object has exactly one entry, which is not `None`. -/
def isOneOfValue (definedFieldCount : ℕ) (coercedDict : List (Text × Value)) : Bool :=
  match coercedDict with
  | [(_, .none)] => false
  | [_] => definedFieldCount = 1
  | _ => false

/-- The outcome of a leaf type. -/
def finishLeaf (name : Text) : Option Outcome → Except Stop Value
  | some (.value value) => .ok value
  | some _ => .error .undefined
  | none => .error (.notLeafType name)

mutual

/-- Coerce a Python value given a GraphQL Input Type. -/
def coerceInputValue (types : InputTypes) (coerceDefault : DefaultCoercion)
    (inputValue : Value) (type : GraphQLType) : Except Stop Value :=
  match type, inputValue with
  | .nonNull _, .none => .error .undefined
  | .nonNull ofType, inputValue =>
      coerceInputValue types coerceDefault inputValue ofType
  | .list _, .none => .ok .none
  | .list itemType, .list items => do
      let coercedList ← coerceItems types coerceDefault items itemType
      return .list coercedList
  -- Lists accept a non-list value as a list of one.
  | .list itemType, inputValue => do
      let coercedItem ← coerceInputValue types coerceDefault inputValue itemType
      return .list [coercedItem]
  | .named _, .none => .ok .none
  | .named name, inputValue =>
      match types.schema.getType name with
      | some (.inputObject fields isOneOf _) =>
          match inputValue with
          | .dict entries =>
              if entries.any fun entry => (fields.get entry.1).isNone then
                .error .undefined
              else do
                let coercedDict ← coerceFields types coerceDefault entries
                  fields.items []
                if isOneOf && !isOneOfValue entries.length coercedDict then
                  .error .undefined
                else return types.outType name coercedDict
          | _ => .error .undefined
      | _ => finishLeaf name (leafInputValue types name inputValue)
termination_by (sizeOf inputValue, sizeOf type)

def coerceItems (types : InputTypes) (coerceDefault : DefaultCoercion)
    (items : List Value) (itemType : GraphQLType) : Except Stop (List Value) :=
  match items with
  | [] => .ok []
  | itemValue :: rest => do
      let coercedItem ← coerceInputValue types coerceDefault itemValue itemType
      let coercedList ← coerceItems types coerceDefault rest itemType
      return coercedItem :: coercedList
termination_by (sizeOf items, sizeOf itemType)

/-- The coerced fields of an input object, after those that are already there. -/
def coerceFields (types : InputTypes) (coerceDefault : DefaultCoercion)
    (entries : List (Text × Value)) (fields : List (Text × GraphQLInputField))
    (coercedDict : List (Text × Value)) : Except Stop (List (Text × Value)) :=
  match fields with
  | [] => .ok coercedDict
  | (fieldName, field) :: rest => do
      let coercedField ← (match _h : Dict.find fieldName entries with
        | none =>
            if isRequiredArgument field.toInputDefinition then .error .undefined
            else coerceDefault field.toInputDefinition
        | some fieldValue =>
            have := sizeOf_find_lt _h
            some <$> coerceInputValue types coerceDefault fieldValue field.type)
      let coercedDict := match coercedField with
        | none => coercedDict
        | some value => Dict.store (field.outNameOr fieldName) value coercedDict
      coerceFields types coerceDefault entries rest coercedDict
termination_by (sizeOf entries, sizeOf fields)

end

/-! ## Literals -/

/-- Is the literal a variable that does not provide a value? -/
def isMissingVariable (valueNode : ValueNode) (variableValues : Option VariableValues)
    (fragmentVariableValues : Option FragmentVariableValues) : Bool :=
  match valueNode with
  | .variable node =>
      (getCoercedVariableValue node.name.value variableValues
        fragmentVariableValues).isNone
  | _ => false

def addFieldNode (nodes : List (Text × ValueNode)) (field : ObjectFieldNode) :
    List (Text × ValueNode) :=
  Dict.store field.name.value field.value nodes

/-- The dictionary of the field nodes: the last one counts. -/
def fieldNodes (fields : List ObjectFieldNode) : List (Text × ValueNode) :=
  fields.foldl addFieldNode []

/-- A OneOf literal has exactly one field, which is not null, and gives one entry,
which is not `None`. -/
def isOneOfLiteral (fieldDefs : Dict Text GraphQLInputField)
    (nodes : List (Text × ValueNode)) (coercedDict : List (Text × Value)) : Bool :=
  match nodes, coercedDict with
  | [(_, .null _)], _ => false
  | [(fieldName, _)], [(outName, value)] =>
      match fieldDefs.get fieldName with
      | none => true
      | some field => !(field.outNameOr fieldName = outName && value matches .none)
  | _, _ => false

theorem sizeOf_store_le (name : Text) (value : ValueNode)
    (nodes : List (Text × ValueNode)) :
    sizeOf (Dict.store name value nodes) ≤
      sizeOf nodes + (2 + sizeOf name + sizeOf value) := by
  induction nodes with
  | nil =>
      simp only [Dict.store, List.cons.sizeOf_spec, List.nil.sizeOf_spec,
        Prod.mk.sizeOf_spec]
      omega
  | cons entry rest ih =>
      obtain ⟨name', value'⟩ := entry
      rw [Dict.store]
      split
      · rename_i heq
        subst heq
        simp
        omega
      · simp at ih ⊢
        omega

theorem sizeOf_fieldNodes_lt (fields : List ObjectFieldNode) :
    sizeOf (fieldNodes fields) < 1 + sizeOf fields := by
  have hfold : ∀ nodes, sizeOf (fields.foldl addFieldNode nodes) <
      sizeOf nodes + sizeOf fields := by
    induction fields with
    | nil => simp
    | cons field rest ih =>
        intro nodes
        obtain ⟨⟨name, loc⟩, value, loc'⟩ := field
        have hstore := sizeOf_store_le name value nodes
        have hrest := ih (Dict.store name value nodes)
        simp [addFieldNode] at hrest ⊢
        omega
  exact hfold []

mutual

/-- Produce a coerced Python value given a GraphQL Value AST. -/
def coerceInputLiteral (types : InputTypes) (coerceDefault : DefaultCoercion)
    (variableValues : Option VariableValues)
    (fragmentVariableValues : Option FragmentVariableValues)
    (valueNode : ValueNode) (type : GraphQLType) : Except Stop Value :=
  match type, valueNode with
  | type, .variable node =>
      match getCoercedVariableValue node.name.value variableValues
          fragmentVariableValues with
      | none => .error .undefined
      | some .none => if isNonNullType type then .error .undefined else .ok .none
      | some value => .ok value
  | .nonNull _, .null _ => .error .undefined
  | .nonNull ofType, valueNode =>
      coerceInputLiteral types coerceDefault variableValues fragmentVariableValues
        valueNode ofType
  | .list _, .null _ => .ok .none
  | .list itemType, .list values _ => do
      let coercedList ← coerceItemNodes types coerceDefault variableValues
        fragmentVariableValues values itemType
      return .list coercedList
  -- Lists accept a non-list value as a list of one.
  | .list itemType, valueNode => do
      let itemValue ← coerceInputLiteral types coerceDefault variableValues
        fragmentVariableValues valueNode itemType
      return .list [itemValue]
  | .named _, .null _ => .ok .none
  | .named name, valueNode =>
      match types.schema.getType name with
      | some (.inputObject fieldDefs isOneOf _) =>
          match valueNode with
          | .object fields _ =>
              have := sizeOf_fieldNodes_lt fields
              let nodes := fieldNodes fields
              if nodes.any fun node => (fieldDefs.get node.1).isNone then
                .error .undefined
              else do
                let coercedDict ← coerceFieldNodes types coerceDefault variableValues
                  fragmentVariableValues nodes fieldDefs.items []
                if isOneOf && !isOneOfLiteral fieldDefs nodes coercedDict then
                  .error .undefined
                else return types.outType name coercedDict
          | _ => .error .undefined
      | _ => finishLeaf name (leafInputLiteral types name valueNode variableValues
          fragmentVariableValues)
termination_by (sizeOf valueNode, sizeOf type)

def coerceItemNodes (types : InputTypes) (coerceDefault : DefaultCoercion)
    (variableValues : Option VariableValues)
    (fragmentVariableValues : Option FragmentVariableValues)
    (values : List ValueNode) (itemType : GraphQLType) :
    Except Stop (List Value) :=
  match values with
  | [] => .ok []
  | itemNode :: rest => do
      -- A missing variable within a list is coerced to null.
      let itemValue ←
        (if !isNonNullType itemType && isMissingVariable itemNode variableValues
            fragmentVariableValues then .ok .none
        else coerceInputLiteral types coerceDefault variableValues
          fragmentVariableValues itemNode itemType)
      let coercedList ← coerceItemNodes types coerceDefault variableValues
        fragmentVariableValues rest itemType
      return itemValue :: coercedList
termination_by (sizeOf values, sizeOf itemType)

/-- The coerced fields of an input object, after those that are already there. -/
def coerceFieldNodes (types : InputTypes) (coerceDefault : DefaultCoercion)
    (variableValues : Option VariableValues)
    (fragmentVariableValues : Option FragmentVariableValues)
    (nodes : List (Text × ValueNode)) (fields : List (Text × GraphQLInputField))
    (coercedDict : List (Text × Value)) : Except Stop (List (Text × Value)) :=
  match fields with
  | [] => .ok coercedDict
  | (fieldName, field) :: rest => do
      let useDefault :=
        if isRequiredArgument field.toInputDefinition then Except.error Stop.undefined
        else coerceDefault field.toInputDefinition
      let fieldValue ← (match _h : Dict.find fieldName nodes with
        | none => useDefault
        | some valueNode =>
            have := sizeOf_find_lt _h
            if isMissingVariable valueNode variableValues fragmentVariableValues then
              useDefault
            else some <$> coerceInputLiteral types coerceDefault variableValues
              fragmentVariableValues valueNode field.type)
      let coercedDict := match fieldValue with
        | none => coercedDict
        | some value => Dict.store (field.outNameOr fieldName) value coercedDict
      coerceFieldNodes types coerceDefault variableValues fragmentVariableValues
        nodes rest coercedDict
termination_by (sizeOf nodes, sizeOf fields)

end

/-! ## Default values -/

/-- Coerce the default value of an argument or input field to a Python value. -/
def coerceDefaultValue (types : InputTypes) : ℕ → DefaultCoercion
  | 0, _ => .error .tooDeep
  | depth + 1, inputValue =>
      let coerceDefault := coerceDefaultValue types depth
      let coercedValue := match inputValue.default with
        | none => none
        | some (.literal literal) =>
            some (coerceInputLiteral types coerceDefault none none literal
              inputValue.type)
        | some (.value value) =>
            some (coerceInputValue types coerceDefault value inputValue.type)
      match coercedValue with
      | none => .ok inputValue.defaultValue
      | some (.error .undefined) => .error (.invalidDefault inputValue.type)
      | some (.error stop) => .error stop
      | some (.ok value) => .ok (some value)

end GraphqlCore
