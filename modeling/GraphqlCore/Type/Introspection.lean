import GraphqlCore.Data.DictMerge
import GraphqlCore.Type.Directives

/-!
# Standard types

The scalars of `type/scalars.py` and the types of `type/introspection.py`.  The
members of the enumerations of the host language are given by their names.  How
the fields are resolved and the scalars coerced is left out.
-/

namespace GraphqlCore

/-! ## Scalars -/

def graphQLString : GraphQLNamedType :=
  .scalar (some (str "The `String` scalar type represents textual data, represented " ++
    str "as UTF-8 character sequences. The String type is most often " ++
    str "used by GraphQL to represent free-form human-readable text."))

def graphQLInt : GraphQLNamedType :=
  .scalar (some (str "The `Int` scalar type represents non-fractional signed whole " ++
    str "numeric values. Int can represent values between -(2^31) and " ++
    str "2^31 - 1."))

def graphQLFloat : GraphQLNamedType :=
  .scalar (some (str "The `Float` scalar type represents signed double-precision " ++
    str "fractional values as specified by [IEEE " ++
    str "754](https://en.wikipedia.org/wiki/IEEE_floating_point)."))

def graphQLBoolean : GraphQLNamedType :=
  .scalar (some (str "The `Boolean` scalar type represents `true` or `false`."))

def graphQLID : GraphQLNamedType :=
  .scalar (some (str "The `ID` scalar type represents a unique identifier, often " ++
    str "used to refetch an object or as key for a cache. The ID type " ++
    str "appears in a JSON response as a String; however, it is not " ++
    str "intended to be human-readable. When expected as an input " ++
    str "type, any string (such as `\"4\"`) or integer (such as `4`) " ++
    str "input value will be accepted as an ID."))

def specifiedScalarTypes : Dict Text GraphQLNamedType :=
  .ofList [(str "String", graphQLString), (str "Int", graphQLInt),
    (str "Float", graphQLFloat), (str "Boolean", graphQLBoolean), (str "ID", graphQLID)]

/-! ## Introspection types -/

def nonNullString : GraphQLType := .nonNull (.named (str "String"))

def optionalString : GraphQLType := .named (str "String")

/-- A list of items that are not null. -/
def listOf (name : Text) : GraphQLType := .list (.nonNull (.named name))

def metaField (type : GraphQLType) (description : Option Text := none) : GraphQLField :=
  { type := type, description := description }

/-- The argument that lets deprecated elements through, and its default value. -/
def includeDeprecated : Dict Text GraphQLArgument :=
  .ofList [(str "includeDeprecated",
    { type := .nonNull boolean, default := some (.value (.bool false)) })]

def deprecatableField (type : GraphQLType) : GraphQLField :=
  { type := type, args := includeDeprecated }

def introspectionSchema : GraphQLNamedType :=
  .object (.ofList [
    (str "description", metaField optionalString),
    (str "types", metaField (.nonNull (listOf (str "__Type")))
      (some (str "A list of all types supported by this server."))),
    (str "queryType", metaField (.nonNull (.named (str "__Type")))
      (some (str "The type that query operations will be rooted at."))),
    (str "mutationType", metaField (.named (str "__Type"))
      (some (str "If this server supports mutation, the type that mutation " ++
        str "operations will be rooted at."))),
    (str "subscriptionType", metaField (.named (str "__Type"))
      (some (str "If this server supports subscription, the type that " ++
        str "subscription operations will be rooted at."))),
    (str "directives",
      { type := .nonNull (listOf (str "__Directive"))
        -- The one argument that still has the deprecated internal default value.
        args := .ofList [(str "includeDeprecated",
          { type := .nonNull boolean, defaultValue := some (.bool false) })]
        description := some (str "A list of all directives supported by this server.") })])
    [] (some (str "A GraphQL Schema defines the capabilities of a GraphQL " ++
      str "server. It exposes all available types and directives on the " ++
      str "server, as well as the entry points for query, mutation, and " ++
      str "subscription operations."))

def introspectionDirective : GraphQLNamedType :=
  .object (.ofList [
    (str "name", metaField nonNullString),
    (str "description", metaField optionalString),
    (str "isRepeatable", metaField (.nonNull boolean)),
    (str "locations", metaField (.nonNull (listOf (str "__DirectiveLocation")))),
    (str "args", deprecatableField (.nonNull (listOf (str "__InputValue")))),
    (str "isDeprecated", metaField (.nonNull boolean)),
    (str "deprecationReason", metaField optionalString)])
    [] (some (str "A Directive provides a way to describe alternate runtime " ++
      str "execution and type validation behavior in a GraphQL " ++
      str "document.\n\nIn some cases, you need to provide options to " ++
      str "alter GraphQL's execution behavior in ways field arguments " ++
      str "will not suffice, such as conditionally including or skipping " ++
      str "a field. Directives provide this by describing additional " ++
      str "information to the executor."))

/-- An enum value that stands for the member of that name. -/
def metaValue (name : String) (description : Text) : Text × GraphQLEnumValue :=
  (str name, { value := some (.str (str name)), description := some description })

def introspectionDirectiveLocation : GraphQLNamedType :=
  .enum (.ofList [
    metaValue "QUERY"
      (str "Location adjacent to a query operation."),
    metaValue "MUTATION"
      (str "Location adjacent to a mutation operation."),
    metaValue "SUBSCRIPTION"
      (str "Location adjacent to a subscription operation."),
    metaValue "FIELD"
      (str "Location adjacent to a field."),
    metaValue "FRAGMENT_DEFINITION"
      (str "Location adjacent to a fragment definition."),
    metaValue "FRAGMENT_SPREAD"
      (str "Location adjacent to a fragment spread."),
    metaValue "INLINE_FRAGMENT"
      (str "Location adjacent to an inline fragment."),
    metaValue "VARIABLE_DEFINITION"
      (str "Location adjacent to an operation variable definition."),
    metaValue "FRAGMENT_VARIABLE_DEFINITION"
      (str "Location adjacent to a fragment variable definition."),
    metaValue "SCHEMA"
      (str "Location adjacent to a schema definition."),
    metaValue "SCALAR"
      (str "Location adjacent to a scalar definition."),
    metaValue "OBJECT"
      (str "Location adjacent to an object type definition."),
    metaValue "FIELD_DEFINITION"
      (str "Location adjacent to a field definition."),
    metaValue "ARGUMENT_DEFINITION"
      (str "Location adjacent to an argument definition."),
    metaValue "INTERFACE"
      (str "Location adjacent to an interface definition."),
    metaValue "UNION"
      (str "Location adjacent to a union definition."),
    metaValue "ENUM"
      (str "Location adjacent to an enum definition."),
    metaValue "ENUM_VALUE"
      (str "Location adjacent to an enum value definition."),
    metaValue "INPUT_OBJECT"
      (str "Location adjacent to an input object type definition."),
    metaValue "INPUT_FIELD_DEFINITION"
      (str "Location adjacent to an input object field definition."),
    metaValue "DIRECTIVE_DEFINITION"
      (str "Location adjacent to a directive definition.")])
    (some (str "A Directive can be adjacent to many parts of the GraphQL " ++
      str "language, a __DirectiveLocation describes one such possible " ++
      str "adjacencies."))

def introspectionType : GraphQLNamedType :=
  .object (.ofList [
    (str "kind", metaField (.nonNull (.named (str "__TypeKind")))),
    (str "name", metaField optionalString),
    (str "description", metaField optionalString),
    (str "specifiedByURL", metaField optionalString),
    (str "fields", deprecatableField (listOf (str "__Field"))),
    (str "interfaces", metaField (listOf (str "__Type"))),
    (str "possibleTypes", metaField (listOf (str "__Type"))),
    (str "enumValues", deprecatableField (listOf (str "__EnumValue"))),
    (str "inputFields", deprecatableField (listOf (str "__InputValue"))),
    (str "ofType", metaField (.named (str "__Type"))),
    (str "isOneOf", metaField boolean)])
    [] (some (str "The fundamental unit of any GraphQL Schema is the type. There " ++
      str "are many kinds of types in GraphQL as represented by the " ++
      str "`__TypeKind` enum.\n\nDepending on the kind of a type, " ++
      str "certain fields describe information about that type. Scalar " ++
      str "types provide no information beyond a name, description and " ++
      str "optional `specifiedByURL`, while Enum types provide their " ++
      str "values. Object and Interface types provide the fields they " ++
      str "describe. Abstract types, Union and Interface, provide the " ++
      str "Object types possible at runtime. List and NonNull types " ++
      str "compose other types."))

def introspectionField : GraphQLNamedType :=
  .object (.ofList [
    (str "name", metaField nonNullString),
    (str "description", metaField optionalString),
    (str "args", deprecatableField (.nonNull (listOf (str "__InputValue")))),
    (str "type", metaField (.nonNull (.named (str "__Type")))),
    (str "isDeprecated", metaField (.nonNull boolean)),
    (str "deprecationReason", metaField optionalString)])
    [] (some (str "Object and Interface types are described by a list of Fields, " ++
      str "each of which has a name, potentially a list of arguments, " ++
      str "and a return type."))

def introspectionInputValue : GraphQLNamedType :=
  .object (.ofList [
    (str "name", metaField nonNullString),
    (str "description", metaField optionalString),
    (str "type", metaField (.nonNull (.named (str "__Type")))),
    (str "defaultValue", metaField optionalString
      (some (str "A GraphQL-formatted string representing the default value for " ++
        str "this input value."))),
    (str "isDeprecated", metaField (.nonNull boolean)),
    (str "deprecationReason", metaField optionalString)])
    [] (some (str "Arguments provided to Fields or Directives and the input " ++
      str "fields of an InputObject are represented as Input Values " ++
      str "which describe their type and optionally a default value."))

def introspectionEnumValue : GraphQLNamedType :=
  .object (.ofList [
    (str "name", metaField nonNullString),
    (str "description", metaField optionalString),
    (str "isDeprecated", metaField (.nonNull boolean)),
    (str "deprecationReason", metaField optionalString)])
    [] (some (str "One possible value for a given Enum. Enum values are unique " ++
      str "values, not a placeholder for a string or numeric value. " ++
      str "However an Enum value is returned in a JSON response as a " ++
      str "string."))

def introspectionTypeKind : GraphQLNamedType :=
  .enum (.ofList [
    metaValue "SCALAR"
      (str "Indicates this type is a scalar."),
    metaValue "OBJECT"
      (str "Indicates this type is an object. `fields` and `interfaces` " ++
        str "are valid fields."),
    metaValue "INTERFACE"
      (str "Indicates this type is an interface. `fields`, `interfaces`, " ++
        str "and `possibleTypes` are valid fields."),
    metaValue "UNION"
      (str "Indicates this type is a union. `possibleTypes` is a valid " ++
        str "field."),
    metaValue "ENUM"
      (str "Indicates this type is an enum. `enumValues` is a valid field."),
    metaValue "INPUT_OBJECT"
      (str "Indicates this type is an input object. `inputFields` is a " ++
        str "valid field."),
    metaValue "LIST"
      (str "Indicates this type is a list. `ofType` is a valid field."),
    metaValue "NON_NULL"
      (str "Indicates this type is a non-null. `ofType` is a valid field.")])
    (some (str "An enum describing what kind of type a given `__Type` is."))

def introspectionTypes : Dict Text GraphQLNamedType :=
  .ofList [(str "__Schema", introspectionSchema), (str "__Directive", introspectionDirective),
    (str "__DirectiveLocation", introspectionDirectiveLocation),
    (str "__Type", introspectionType), (str "__Field", introspectionField),
    (str "__InputValue", introspectionInputValue),
    (str "__EnumValue", introspectionEnumValue), (str "__TypeKind", introspectionTypeKind)]

/-- Check whether the given named GraphQL type is an introspection type. -/
def isIntrospectionType (name : Text) : Bool :=
  name ∈ [str "__Schema", str "__Directive", str "__DirectiveLocation", str "__Type",
    str "__Field", str "__InputValue", str "__EnumValue", str "__TypeKind"]

/-- Check whether the given named GraphQL type is a specified scalar type. -/
def isSpecifiedScalarType (name : Text) : Bool :=
  name ∈ [str "String", str "Int", str "Float", str "Boolean", str "ID"]

/-- The types that every schema shares. -/
def stdTypeMap : Dict Text GraphQLNamedType :=
  specifiedScalarTypes.update introspectionTypes

end GraphqlCore
