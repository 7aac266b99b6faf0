import GraphqlCore.Type.HostValues
import GraphqlCore.Type.Schema
import GraphqlCore.Utilities.ReplaceVariables

/-!
# Literals of default values

The functions `get_default_value_ast`, `value_to_literal` and `ast_from_value` of the modules
of these names, for types that are given by name.  What scalar types and values of other classes do
themselves is given.  A value that the message of an error shows is left out.
-/

namespace GraphqlCore

open Language

/-! ## What is given -/

/-- The functions of scalar types and of values. -/
structure ValueFunctions where
  /-- The function `value_to_literal` of a scalar type, `none` where it is invalid. -/
  scalarValueToLiteral : Text → Value → Option ValueNode
  /-- The function `coerce_output_value` of a scalar type. -/
  coerceOutputValue : Text → Value → Except Text Value
  /-- The text of an object that is a finite floating-point number. -/
  floatText : ℕ → Option Text
  isHashable : Value → Bool
  equal : Value → Value → Bool

section Literals

variable (typeMap : Dict Text GraphQLNamedType) (functions : ValueFunctions)

/-! ## External values -/

/-- Convert an external value to an enum literal (AST). -/
def enumValueToLiteral (values : Dict Text GraphQLEnumValue) : Value → Option ValueNode
  | .str value => if (values.get value).isSome then some (.enum value none) else none
  | _ => none

mutual

/-- Produce a GraphQL Value AST given a Python value and a GraphQL type. -/
def valueToLiteral (value : Value) (type : GraphQLType) : Option ValueNode :=
  match type, value with
  | .nonNull _, .none => none
  | .nonNull ofType, value => valueToLiteral value ofType
  -- Like JSON, a null literal is produced.
  | .list _, .none => some (.null none)
  | .list itemType, .list items =>
      (itemsToLiterals items itemType).map fun values => .list values none
  | .list itemType, value => valueToLiteral value itemType
  | .named _, .none => some (.null none)
  | .named name, value =>
      match typeMap.get name with
      | some (.inputObject fieldDefs _ _) =>
          match value with
          | .dict entries =>
              if entries.any fun entry => (fieldDefs.get entry.1).isNone then none
              else (fieldsToLiterals entries fieldDefs.items).map fun fields =>
                .object fields none
          | _ => none
      | some (.scalar ..) => functions.scalarValueToLiteral name value
      | some (.enum values _) => enumValueToLiteral values value
      | _ => none
termination_by (sizeOf value, sizeOf type)

def itemsToLiterals (items : List Value) (itemType : GraphQLType) : Option (List ValueNode) :=
  match items with
  | [] => some []
  | itemValue :: rest => do
      let itemNode ← valueToLiteral itemValue itemType
      let values ← itemsToLiterals rest itemType
      return itemNode :: values
termination_by (sizeOf items, sizeOf itemType)

def fieldsToLiterals (entries : List (Text × Value))
    (fieldDefs : List (Text × GraphQLInputField)) : Option (List ObjectFieldNode) :=
  match fieldDefs with
  | [] => some []
  | (fieldName, field) :: rest =>
      match _h : Dict.find fieldName entries with
      | none =>
          if isRequiredArgument field.toInputDefinition then none
          else fieldsToLiterals entries rest
      | some fieldValue => do
          have := sizeOf_find_lt _h
          let fieldNode ← valueToLiteral fieldValue field.type
          let fields ← fieldsToLiterals entries rest
          return ⟨{ value := fieldName }, fieldNode, none⟩ :: fields
termination_by (sizeOf entries, sizeOf fieldDefs)

end

/-! ## Internal values -/

/-- The first value or name is used as lookup. -/
def enumLookupKey (name : Text) (enumValue : GraphQLEnumValue) : Value :=
  match enumValue.value with
  | none | some .none => .str name
  | some value => value

def enumCoerceOutputValue (enumName : Text) (values : Dict Text GraphQLEnumValue)
    (outputValue : Value) : Except Text Text :=
  let found := values.items.find? fun entry =>
    if functions.isHashable outputValue then
      let key := enumLookupKey entry.1 entry.2
      functions.isHashable key && functions.equal key outputValue
    -- A value that is not hashable is looked for among all values.
    else entry.2.value.any fun value => functions.equal value outputValue
  match found with
  | some entry => .ok entry.1
  | none => .error (str "Enum '" ++ enumName ++ str "' cannot represent value: ")

/-- The literal of what a scalar type has coerced a value to. -/
def coercedToLiteral (name : Text) : Value → Except Text (Option ValueNode)
  | .none => .ok none
  | .bool value => .ok (some (.boolean value none))
  | .int value => .ok (some (.int (intText value) none))
  | .str value =>
      -- ID types can use Int literals.
      if name = str "ID" && isIntegerString value then .ok (some (.int value none))
      else .ok (some (.string { value := value }))
  | .object identity _ =>
      match functions.floatText identity with
      | some text =>
          let text := if (str ".0").isSuffixOf text then text.dropLast.dropLast else text
          .ok (some (.float text none))
      | none => .error (str "Cannot convert value to AST: ")
  | .list _ => .error (str "Cannot convert value to AST: ")
  | .dict _ => .error (str "Cannot convert value to AST: ")

mutual

/-- Produce a GraphQL Value AST given a Python object. -/
def astFromValue (value : Value) (type : GraphQLType) : Except Text (Option ValueNode) :=
  match type, value with
  | .nonNull ofType, value => do
      match ← astFromValue value ofType with
      | some (.null _) => return none
      | astValue => return astValue
  | .list _, .none => .ok (some (.null none))
  | .list itemType, .list items => do
      let valueNodes ← itemsToAst items itemType
      return some (.list valueNodes none)
  | .list itemType, value => astFromValue value itemType
  | .named _, .none => .ok (some (.null none))
  | .named name, value =>
      match typeMap.get name with
      | some (.inputObject fieldDefs _ _) =>
          match value with
          | .dict entries => do
              let fieldNodes ← fieldsToAst entries fieldDefs.items
              return some (.object fieldNodes none)
          | _ => .ok none
      | some (.scalar ..) => do
          let coerced ← functions.coerceOutputValue name value
          coercedToLiteral functions name coerced
      | some (.enum values _) => do
          let coerced ← enumCoerceOutputValue functions name values value
          return some (.enum coerced none)
      | _ => .error (str "Unexpected input type: " ++ name ++ str ".")
termination_by (sizeOf value, sizeOf type)

def itemsToAst (items : List Value) (itemType : GraphQLType) : Except Text (List ValueNode) :=
  match items with
  | [] => .ok []
  | item :: rest => do
      let node ← astFromValue item itemType
      let nodes ← itemsToAst rest itemType
      return node.toList ++ nodes
termination_by (sizeOf items, sizeOf itemType)

def fieldsToAst (entries : List (Text × Value)) (fieldDefs : List (Text × GraphQLInputField)) :
    Except Text (List ObjectFieldNode) :=
  match fieldDefs with
  | [] => .ok []
  | (fieldName, field) :: rest =>
      match _h : Dict.find fieldName entries with
      | none => fieldsToAst entries rest
      | some fieldValue => do
          have := sizeOf_find_lt _h
          let node ← astFromValue fieldValue field.type
          let nodes ← fieldsToAst entries rest
          return (node.toList.map fun node => ⟨{ value := fieldName }, node, none⟩) ++ nodes
termination_by (sizeOf entries, sizeOf fieldDefs)

end

/-! ## Default values -/

def invalidDefaultValue : Text := str "Invalid default value"

/-- Get the AST of the default value of an argument or input field. -/
def getDefaultValueAst (argOrInputField : InputDefinition) : Except Text (Option ValueNode) :=
  match argOrInputField.default, argOrInputField.defaultValue with
  | some (.literal literal), _ => .ok (some literal)
  | some (.value value), _ =>
      match valueToLiteral typeMap functions value argOrInputField.type with
      | some literal => .ok (some literal)
      | none => .error invalidDefaultValue
  | none, some defaultValue => do
      match ← astFromValue typeMap functions defaultValue argOrInputField.type with
      | some valueAst => return some valueAst
      | none => .error invalidDefaultValue
  | none, none => .ok none

end Literals

end GraphqlCore
