import GraphqlCore.Type.Introspection
import GraphqlCore.Utilities.TypeComparators

/-!
# Schema validation

The class `SchemaValidationContext` of `type/validate.py`: each method is a
function that gives the messages of the errors it reports.  The checks of default
values and of circular references between input objects are left out, so that more
schemas pass than in the source, and those of directives stand on their own.
-/

namespace GraphqlCore

/-! ## Messages -/

/-- The value of an operation type. -/
inductive RootOperation
  | query
  | mutation
  | subscription
  deriving DecidableEq

namespace RootOperation

def all : List RootOperation := [query, mutation, subscription]

def value : RootOperation → Text
  | query => str "query"
  | mutation => str "mutation"
  | subscription => str "subscription"

def capitalized : RootOperation → Text
  | query => str "Query"
  | mutation => str "Mutation"
  | subscription => str "Subscription"

end RootOperation

/-- Given [A, B, C] return "A, B, and C". -/
def andList : List Text → Text
  | [] => []
  | [a] => a
  | [a, b] => a ++ str " and " ++ b
  | [a, b, c] => a ++ str ", " ++ b ++ str ", and " ++ c
  | a :: rest => a ++ str ", " ++ andList rest

namespace GraphQLSchema

variable (schema : GraphQLSchema)

def getRootType : RootOperation → Option Text
  | .query => schema.queryType
  | .mutation => schema.mutationType
  | .subscription => schema.subscriptionType

end GraphQLSchema

section Validation

variable (schema : GraphQLSchema)

/-- Report a message unless the check succeeds. -/
def reportUnless (check : Bool) (message : Text) : List Text :=
  if check then [] else [message]

def validateName (name : Text) : List Text :=
  reportUnless (!(str "__").isPrefixOf name)
    (str "Name '" ++ name ++ str "' must not begin with '__', which is reserved by " ++
      str "GraphQL introspection.")

def validateRootTypes : List Text :=
  reportUnless schema.queryType.isSome (str "Query root type must be provided.") ++
    (RootOperation.all.flatMap fun operation =>
      match schema.getRootType operation with
      | none => []
      | some rootType =>
          reportUnless (schema.isObjectType rootType)
            (operation.capitalized ++ str " root type must be Object type" ++
              (if operation = .query then [] else str " if provided") ++
              str ", it cannot be " ++ rootType ++ str ".")) ++
    ((RootOperation.all.filterMap schema.getRootType).dedup.flatMap fun rootType =>
      let operations := RootOperation.all.filter fun operation =>
        schema.getRootType operation = some rootType ∧ schema.isObjectType rootType
      reportUnless (operations.length ≤ 1)
        (str "All root types must be different, '" ++ rootType ++
          str "' type is used as " ++ andList (operations.map RootOperation.value) ++
          str " root types."))

/-- The checks that arguments and input fields have in common. -/
def validateInputDefinition (kind position name : Text) (input : GraphQLArgument) :
    List Text :=
  validateName name ++
    reportUnless (schema.isInputType input.type)
      (str "The type of " ++ position ++ str " must be Input Type but got: " ++
        input.type.print ++ str ".") ++
    reportUnless (!(isRequiredArgument input.toInputDefinition &&
        input.deprecationReason.isSome))
      (str "Required " ++ kind ++ str " " ++ position ++ str " cannot be deprecated.")

def validateDirectives : List Text :=
  schema.directives.flatMap fun directive =>
    let position := str "@" ++ directive.name
    validateName directive.name ++
      reportUnless (!directive.locations.isEmpty)
        (str "Directive " ++ position ++ str " must include 1 or more locations.") ++
      directive.args.items.flatMap fun (argName, arg) =>
        validateInputDefinition schema (str "argument")
          (position ++ str "(" ++ argName ++ str ":)") argName arg

def validateFields (typeName : Text) (fields : Dict Text GraphQLField) : List Text :=
  reportUnless (!fields.items.isEmpty)
    (str "Type " ++ typeName ++ str " must define one or more fields.") ++
    fields.items.flatMap fun (fieldName, field) =>
      let position := typeName ++ str "." ++ fieldName
      validateName fieldName ++
        reportUnless (schema.isOutputType field.type)
          (str "The type of " ++ position ++ str " must be Output Type but got: " ++
            field.type.print ++ str ".") ++
        field.args.items.flatMap fun (argName, arg) =>
          validateInputDefinition schema (str "argument")
            (position ++ str "(" ++ argName ++ str ":)") argName arg

/-- The checks of an argument of an interface field. -/
def validateImplementedArg (ifaceField typeField : Text)
    (typeArgs : Dict Text GraphQLArgument) (argName : Text)
    (ifaceArg : GraphQLArgument) : List Text :=
  let position := ifaceField ++ str "(" ++ argName ++ str ":)"
  match typeArgs.get argName with
  | none =>
      [str "Interface field argument " ++ position ++ str " expected but " ++
        typeField ++ str " does not provide it."]
  | some typeArg =>
      reportUnless (isEqualType ifaceArg.type typeArg.type)
        (str "Interface field argument " ++ position ++ str " expects type " ++
          ifaceArg.type.print ++ str " but " ++ typeField ++ str "(" ++ argName ++
          str ":) is type " ++ typeArg.type.print ++ str ".")

def validateTypeImplementsInterface (typeName : Text)
    (fields : Dict Text GraphQLField) (iface : Text) : List Text :=
  (schema.fieldsOf iface).items.flatMap fun (fieldName, ifaceField) =>
    let ifacePosition := iface ++ str "." ++ fieldName
    let position := typeName ++ str "." ++ fieldName
    match fields.get fieldName with
    | none =>
        [str "Interface field " ++ ifacePosition ++ str " expected but " ++ typeName ++
          str " does not provide it."]
    | some typeField =>
        reportUnless (isTypeSubTypeOf schema typeField.type ifaceField.type)
          (str "Interface field " ++ ifacePosition ++ str " expects type " ++
            ifaceField.type.print ++ str " but " ++ position ++ str " is type " ++
            typeField.type.print ++ str ".") ++
        (ifaceField.args.items.flatMap fun (argName, ifaceArg) =>
          validateImplementedArg ifacePosition position typeField.args argName
            ifaceArg) ++
        (typeField.args.items.flatMap fun (argName, typeArg) =>
          reportUnless ((ifaceField.args.get argName).isSome ||
              !isRequiredArgument typeArg.toInputDefinition)
            (str "Argument '" ++ position ++ str "(" ++ argName ++
              str ":)' must not be required type '" ++ typeArg.type.print ++
              str "' if not provided by the Interface field '" ++ ifacePosition ++
              str "'.")) ++
        reportUnless (typeField.deprecationReason.isNone ||
            ifaceField.deprecationReason.isSome)
          (str "Interface field " ++ ifacePosition ++
            str " is not deprecated, so implementation field " ++ position ++
            str " must not be deprecated.")

def validateTypeImplementsAncestors (typeName : Text) (interfaces : List Text)
    (iface : Text) : List Text :=
  (schema.interfacesOf iface).flatMap fun transitive =>
    reportUnless (transitive ∈ interfaces)
      (if transitive = typeName then
        str "Type " ++ typeName ++ str " cannot implement " ++ iface ++
          str " because it would create a circular reference."
      else str "Type " ++ typeName ++ str " must implement " ++ transitive ++
        str " because it is implemented by " ++ iface ++ str ".")

/-- The interfaces that are left to check, after those of the given names. -/
def validateInterfacesFrom (typeName : Text) (fields : Dict Text GraphQLField)
    (interfaces : List Text) : List Text → List Text → List Text
  | _, [] => []
  | ifaceTypeNames, iface :: rest =>
      if !schema.isInterfaceType iface then
        (str "Type " ++ typeName ++
          str " must only implement Interface types, it cannot implement " ++ iface ++
          str ".") :: validateInterfacesFrom typeName fields interfaces
            ifaceTypeNames rest
      else
        reportUnless (typeName ≠ iface)
          (str "Type " ++ typeName ++
            str " cannot implement itself because it would create a circular " ++
            str "reference.") ++
        if iface ∈ ifaceTypeNames then
          (str "Type " ++ typeName ++ str " can only implement " ++ iface ++
            str " once.") :: validateInterfacesFrom typeName fields interfaces
              ifaceTypeNames rest
        else
          validateTypeImplementsAncestors schema typeName interfaces iface ++
            validateTypeImplementsInterface schema typeName fields iface ++
            validateInterfacesFrom typeName fields interfaces
              (iface :: ifaceTypeNames) rest

def validateInterfaces (typeName : Text) (fields : Dict Text GraphQLField)
    (interfaces : List Text) : List Text :=
  validateInterfacesFrom schema typeName fields interfaces [] interfaces

/-- The member types that are left to check, after those of the given names. -/
def validateMembersFrom (union : Text) : List Text → List Text → List Text
  | _, [] => []
  | includedTypeNames, memberType :: rest =>
      if schema.isObjectType memberType then
        if memberType ∈ includedTypeNames then
          (str "Union type " ++ union ++ str " can only include type " ++ memberType ++
            str " once.") :: validateMembersFrom union includedTypeNames rest
        else validateMembersFrom union (memberType :: includedTypeNames) rest
      else
        (str "Union type " ++ union ++
          str " can only include Object types, it cannot include " ++ memberType ++
          str ".") :: validateMembersFrom union includedTypeNames rest

def validateUnionMembers (union : Text) (memberTypes : List Text) : List Text :=
  reportUnless (!memberTypes.isEmpty)
    (str "Union type " ++ union ++ str " must define one or more member types.") ++
    validateMembersFrom schema union [] memberTypes

def validateEnumValues (enumType : Text) (values : Dict Text GraphQLEnumValue) :
    List Text :=
  reportUnless (!values.items.isEmpty)
    (str "Enum type " ++ enumType ++ str " must define one or more values.") ++
    values.keys.flatMap validateName

def validateOneOfInputObjectField (position : Text) (field : GraphQLInputField) :
    List Text :=
  reportUnless (!isNonNullType field.type)
    (str "OneOf input field " ++ position ++ str " must be nullable.") ++
    reportUnless (field.default.isNone && field.defaultValue.isNone)
      (str "OneOf input field " ++ position ++ str " cannot have a default value.")

def validateInputFields (inputObj : Text) (fields : Dict Text GraphQLInputField)
    (isOneOf : Bool) : List Text :=
  reportUnless (!fields.items.isEmpty)
    (str "Input Object type " ++ inputObj ++ str " must define one or more fields.") ++
    fields.items.flatMap fun (fieldName, field) =>
      let position := inputObj ++ str "." ++ fieldName
      validateInputDefinition schema (str "input field") position fieldName field ++
        if isOneOf then validateOneOfInputObjectField position field else []

/-- The checks of a type of the schema. -/
def validateType (name : Text) (type : GraphQLNamedType) : List Text :=
  match type with
  | .scalar .. => []
  | .object fields interfaces _ =>
      validateFields schema name fields ++
        validateInterfaces schema name fields interfaces
  | .interface fields interfaces _ =>
      validateFields schema name fields ++
        validateInterfaces schema name fields interfaces
  | .union types _ => validateUnionMembers schema name types
  | .enum values _ => validateEnumValues name values
  | .inputObject fields isOneOf _ => validateInputFields schema name fields isOneOf

/-- Introspection types opt out of the check of names. -/
def validateTypes : List Text :=
  schema.typeMap.items.flatMap fun (name, type) =>
    (if isIntrospectionType name then [] else validateName name) ++
      validateType schema name type

/-- The messages of the errors of a schema that is not assumed to be valid. -/
def validateSchema : List Text := validateRootTypes schema ++ validateTypes schema

end Validation

end GraphqlCore
