import GraphqlCore.Utilities.CoerceInputValue

/-!
# Input value validation

The functions of `utilities/validate_input_value.py`.  The errors that they pass
to `on_error` are listed, each with its path; the texts of the messages, which
also show the value, are represented by what they complain about.
-/

namespace GraphqlCore

open Language Execution

/-- A key of a path, the name of a field or an index. -/
inductive PathKey
  | field (name : Text)
  | index (index : ℕ)
  deriving DecidableEq

inductive InputProblem
  | noneForNonNull (type : GraphQLType)
  | notAnObject (type : Text)
  | missingRequiredField (type fieldName : Text)
  | unknownField (type fieldName : Text)
  | oneOf (type : Text)
  /-- An error that the leaf type raised as such, with its own message. -/
  | leafError (message : Text)
  | invalidLeaf (type : Text) (caughtError : Option Text)
  | variableNotProvided (name : Text) (type : GraphQLType)
  | variableIsNone (name : Text) (type : GraphQLType)
  | oneOfVariableNotProvided (name fieldName type : Text)
  | oneOfVariableIsNone (name fieldName type : Text)
  deriving DecidableEq

structure InputError where
  problem : InputProblem
  /-- The keys on the way to the value, innermost first. -/
  path : List PathKey
  deriving DecidableEq

/-- The error of a leaf value, if there is one. -/
def leafErrors (name : Text) (path : List PathKey) : Option Outcome → List InputError
  | some (.value _) => []
  | some .undefined => [⟨.invalidLeaf name none, path⟩]
  | some (.graphQLError message) => [⟨.leafError message, path⟩]
  | some (.exception message) => [⟨.invalidLeaf name (some message), path⟩]
  | none => []

/-! ## External values -/

/-- The errors for entries that are not defined. -/
def unknownFieldErrors (name : Text) (fieldDefs : Dict Text GraphQLInputField)
    (names : List Text) (path : List PathKey) : List InputError :=
  (names.filter fun fieldName => (fieldDefs.get fieldName).isNone).map
    fun fieldName => ⟨.unknownField name fieldName, path⟩

def knownEntries (fieldDefs : Dict Text GraphQLInputField)
    (entries : List (Text × Value)) : List (Text × Value) :=
  entries.filter fun entry => (fieldDefs.get entry.1).isSome

/-- The errors of the entries of a OneOf object. -/
def oneOfErrors (name : Text) (fields : List (Text × Value)) (path : List PathKey) :
    List InputError :=
  (if fields.length ≠ 1 then [⟨.oneOf name, path⟩] else []) ++
    match fields with
    | (fieldName, .none) :: _ => [⟨.oneOf name, .field fieldName :: path⟩]
    | _ => []

mutual

/-- Validate that the provided input value is allowed for this type. -/
def validateInputValue (types : InputTypes) (inputValue : Value) (type : GraphQLType)
    (path : List PathKey) : List InputError :=
  match type, inputValue with
  | .nonNull ofType, .none => [⟨.noneForNonNull (.nonNull ofType), path⟩]
  | .nonNull ofType, inputValue => validateInputValue types inputValue ofType path
  | .list _, .none => []
  | .list itemType, .list items => validateItems types items itemType 0 path
  -- Lists accept a non-list value as a list of one.
  | .list itemType, inputValue => validateInputValue types inputValue itemType path
  | .named _, .none => []
  | .named name, inputValue =>
      match types.schema.getType name with
      | some (.inputObject fieldDefs isOneOf _) =>
          match inputValue with
          | .dict entries =>
              validateInputFieldValues types name entries fieldDefs.items path ++
                unknownFieldErrors name fieldDefs (entries.map Prod.fst) path ++
                if isOneOf then oneOfErrors name (knownEntries fieldDefs entries) path
                else []
          | _ => [⟨.notAnObject name, path⟩]
      | _ => leafErrors name path (leafInputValue types name inputValue)
termination_by (sizeOf inputValue, sizeOf type)

def validateItems (types : InputTypes) (items : List Value) (itemType : GraphQLType)
    (index : ℕ) (path : List PathKey) : List InputError :=
  match items with
  | [] => []
  | itemValue :: rest =>
      validateInputValue types itemValue itemType (.index index :: path) ++
        validateItems types rest itemType (index + 1) path
termination_by (sizeOf items, sizeOf itemType)

/-- The errors of the defined fields of an input object. -/
def validateInputFieldValues (types : InputTypes) (name : Text)
    (entries : List (Text × Value)) (fields : List (Text × GraphQLInputField))
    (path : List PathKey) : List InputError :=
  match fields with
  | [] => []
  | (fieldName, field) :: rest =>
      (match _h : Dict.find fieldName entries with
        | none =>
            if isRequiredArgument field.toInputDefinition then
              [⟨.missingRequiredField name fieldName, path⟩]
            else []
        | some fieldValue =>
            have := sizeOf_find_lt _h
            validateInputValue types fieldValue field.type
              (.field fieldName :: path)) ++
        validateInputFieldValues types name entries rest path
termination_by (sizeOf entries, sizeOf fields)

end

/-! ## Literals -/

/-- The error of a variable that is used at the given type. -/
def variableErrors (name : Text) (value : Option Value) (type : GraphQLType)
    (path : List PathKey) : List InputError :=
  if isNonNullType type then
    match value with
    | none => [⟨.variableNotProvided name type, path⟩]
    | some .none => [⟨.variableIsNone name type, path⟩]
    | some _ => []
  else []

/-- The error of a variable that is the value of a field of a OneOf object. -/
def oneOfVariableErrors (name fieldName type : Text) (value : Option Value)
    (path : List PathKey) : List InputError :=
  match value with
  | none => [⟨.oneOfVariableNotProvided name fieldName type, path⟩]
  | some .none => [⟨.oneOfVariableIsNone name fieldName type, path⟩]
  | some _ => []

def knownFields (fieldDefs : Dict Text GraphQLInputField)
    (fields : List ObjectFieldNode) : List ObjectFieldNode :=
  fields.filter fun field => (fieldDefs.get field.name.value).isSome

/-- The errors of the fields of a OneOf literal. -/
def oneOfLiteralErrors (name : Text) (knownFields : List ObjectFieldNode)
    (path : List PathKey) : List InputError :=
  match knownFields with
  | [⟨fieldName, .null _, _⟩] => [⟨.oneOf name, .field fieldName.value :: path⟩]
  | [_] => []
  | _ => [⟨.oneOf name, path⟩]

/-- The variables of a literal are validated only if their values are given. -/
def isStatic (variableValues : Option VariableValues)
    (fragmentVariableValues : Option FragmentVariableValues) : Bool :=
  variableValues.isNone && fragmentVariableValues.isNone

mutual

/-- Validate that the provided input literal is allowed for this type. -/
def validateInputLiteral (types : InputTypes) (variableValues : Option VariableValues)
    (fragmentVariableValues : Option FragmentVariableValues) (valueNode : ValueNode)
    (type : GraphQLType) (path : List PathKey) : List InputError :=
  match type, valueNode with
  | type, .variable node =>
      if isStatic variableValues fragmentVariableValues then []
      else variableErrors node.name.value (getCoercedVariableValue node.name.value
        variableValues fragmentVariableValues) type path
  | .nonNull ofType, .null _ => [⟨.noneForNonNull (.nonNull ofType), path⟩]
  | .nonNull ofType, valueNode =>
      validateInputLiteral types variableValues fragmentVariableValues valueNode ofType path
  | .list _, .null _ => []
  | .list itemType, .list values _ =>
      validateItemNodes types variableValues fragmentVariableValues values itemType 0 path
  -- Lists accept a non-list value as a list of one.
  | .list itemType, valueNode =>
      validateInputLiteral types variableValues fragmentVariableValues valueNode itemType
        path
  | .named _, .null _ => []
  | .named name, valueNode =>
      match types.schema.getType name with
      | some (.inputObject fieldDefs isOneOf _) =>
          match valueNode with
          | .object fields _ =>
              have := sizeOf_fieldNodes_lt fields
              validateFieldNodes types variableValues fragmentVariableValues name isOneOf
                  (fieldNodes fields) fieldDefs.items path ++
                unknownFieldErrors name fieldDefs
                  (fields.map fun field => field.name.value) path ++
                if isOneOf then
                  oneOfLiteralErrors name (knownFields fieldDefs fields) path
                else []
          | _ => [⟨.notAnObject name, path⟩]
      | _ => leafErrors name path (leafInputLiteral types name valueNode variableValues
          fragmentVariableValues)
termination_by (sizeOf valueNode, sizeOf type)

def validateItemNodes (types : InputTypes) (variableValues : Option VariableValues)
    (fragmentVariableValues : Option FragmentVariableValues)
    (values : List ValueNode) (itemType : GraphQLType) (index : ℕ)
    (path : List PathKey) : List InputError :=
  match values with
  | [] => []
  | itemNode :: rest =>
      validateInputLiteral types variableValues fragmentVariableValues itemNode itemType
          (.index index :: path) ++
        validateItemNodes types variableValues fragmentVariableValues rest itemType
          (index + 1) path
termination_by (sizeOf values, sizeOf itemType)

/-- The errors of the defined fields of an input object literal. -/
def validateFieldNodes (types : InputTypes) (variableValues : Option VariableValues)
    (fragmentVariableValues : Option FragmentVariableValues) (name : Text)
    (isOneOf : Bool) (nodes : List (Text × ValueNode))
    (fields : List (Text × GraphQLInputField)) (path : List PathKey) :
    List InputError :=
  match fields with
  | [] => []
  | (fieldName, field) :: rest =>
      (match _h : Dict.find fieldName nodes with
        | none =>
            if isRequiredArgument field.toInputDefinition then
              [⟨.missingRequiredField name fieldName, path⟩]
            else []
        | some valueNode =>
            have := sizeOf_find_lt _h
            let errors := validateInputLiteral types variableValues fragmentVariableValues
              valueNode field.type (.field fieldName :: path)
            match valueNode with
            | .variable node =>
                if isStatic variableValues fragmentVariableValues then errors
                else
                  let value := getCoercedVariableValue node.name.value variableValues
                    fragmentVariableValues
                  if isOneOf then
                    oneOfVariableErrors node.name.value fieldName name value path ++
                      errors
                  else if value.isNone && !isRequiredArgument field.toInputDefinition
                  then []
                  else errors
            | _ => errors) ++
        validateFieldNodes types variableValues fragmentVariableValues name isOneOf nodes
          rest path
termination_by (sizeOf nodes, sizeOf fields)

end

end GraphqlCore
