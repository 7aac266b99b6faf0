import GraphqlCore.Type.ReachableTypes
import GraphqlCore.Utilities.NaturalOrder

/-!
# Sorting schemas

The function of `utilities/lexicographic_sort_schema.py`, with what `map_schema_config` does
for its mappers.  Types are mapped to new objects that refer to each other by their names;
those that every schema shares and the specified directives stay as they are.  A new schema is
made of the mapped types, so that its types come in the order in which they are collected.
-/

namespace GraphqlCore

open TypeObjects

/-! ## Sorting -/

/-- Sort the values of an object map by their keys in natural sort order. -/
def sortObjMap {β : Type} (map : Dict Text β) : Dict Text β :=
  ⟨sortBy nameLe Prod.fst map.items,
    ((sortBy_perm nameLe Prod.fst map.items).map Prod.fst).nodup_iff.mpr map.nodup_keys⟩

/-- Sort a collection of names in natural sort order. -/
def sortByName (names : List Text) : List Text := sortBy nameLe id names

/-! ## Mapping -/

/-- The types that every schema shares are found by these names. -/
def isStdType (name : Text) : Bool := isSpecifiedScalarType name || isIntrospectionType name

def mapField (field : GraphQLField) : GraphQLField := { field with args := sortObjMap field.args }

/-- A copy of the type with sorted parts.  Builtin types cannot be mapped. -/
def mapNamedType (name : Text) (type : GraphQLNamedType) : GraphQLNamedType :=
  if isStdType name then type
  else
    match type with
    | .scalar description specifiedByUrl => .scalar description specifiedByUrl
    | .object fields interfaces description =>
        .object (sortObjMap (fields.map mapField)) (sortByName interfaces) description
    | .interface fields interfaces description =>
        .interface (sortObjMap (fields.map mapField)) (sortByName interfaces) description
    | .union types description => .union (sortByName types) description
    | .enum values description => .enum (sortObjMap values) description
    | .inputObject fields isOneOf description =>
        .inputObject (sortObjMap fields) isOneOf description

/-- A copy of the directive with sorted parts.  Builtin directives cannot be mapped. -/
def mapDirective (directive : GraphQLDirective) : GraphQLDirective :=
  if isSpecifiedDirective directive then directive
  else { directive with
    locations := sortByName directive.locations
    args := sortObjMap directive.args }

def sortedDirectives (schema : GraphQLSchema) : List GraphQLDirective :=
  sortBy nameLe GraphQLDirective.name (schema.directives.map mapDirective)

/-! ## The new schema -/

/-- A type of the schema that is given, or the one that it is mapped to. -/
inductive TypeAddress
  | given (name : Text)
  | mapped (name : Text)
  deriving DecidableEq

def TypeAddress.name : TypeAddress → Text
  | given name => name
  | mapped name => name

/-- The type that a mapped type refers to by a name. -/
def getNamedType (name : Text) : TypeAddress := if isStdType name then .given name else .mapped name

/-- What a type refers to by a name. -/
def TypeAddress.refer : TypeAddress → Text → TypeAddress
  | given _ => given
  | mapped _ => getNamedType

def GraphQLType.toRef (address : Text → TypeAddress) : GraphQLType → TypeRef TypeAddress
  | named name => .named (address name)
  | list ofType => .list (ofType.toRef address)
  | nonNull ofType => .nonNull (ofType.toRef address)

def argRefs (address : Text → TypeAddress) (args : Dict Text GraphQLArgument) :
    Dict Text (TypeRef TypeAddress) :=
  args.map fun arg => arg.type.toRef address

def GraphQLNamedType.toObject (address : Text → TypeAddress) :
    GraphQLNamedType → TypeObject TypeAddress
  | .scalar .. => .scalar
  | .object fields interfaces _ =>
      .object (fields.map fun field => ⟨field.type.toRef address, argRefs address field.args⟩)
        (interfaces.map address)
  | .interface fields interfaces _ =>
      .interface (fields.map fun field => ⟨field.type.toRef address, argRefs address field.args⟩)
        (interfaces.map address)
  | .union types _ => .union (types.map address)
  | .enum .. => .enum
  | .inputObject fields _ _ => .inputObject (argRefs address fields)

section Sorting

variable (schema : GraphQLSchema)

/-- The type at an address. -/
def typeAt : TypeAddress → GraphQLNamedType
  | .given name => ((stdTypeMap.get name).orElse fun _ => schema.getType name).getD .scalar
  | .mapped name => ((schema.getType name).map (mapNamedType name)).getD .scalar

def sortingHeap : TypeHeap TypeAddress where
  name := TypeAddress.name
  definition address := (typeAt schema address).toObject address.refer
  introspectionSchema := .given (str "__Schema")
  specifiedDirectives := specifiedDirectives.map fun directive =>
    ⟨argRefs .given directive.args⟩

/-- The arguments of a directive that has been mapped refer to mapped types. -/
def directiveObject (directive : GraphQLDirective) : DirectiveObject TypeAddress :=
  ⟨argRefs (if isSpecifiedDirective directive then .given else getNamedType) directive.args⟩

def sortedKwargs : SchemaKwargs TypeAddress where
  query := schema.queryType.map getNamedType
  mutation := schema.mutationType.map getNamedType
  subscription := schema.subscriptionType.map getNamedType
  types := (sortByName schema.typeMap.keys).map getNamedType
  directives := some ((sortedDirectives schema).map fun directive =>
    some (directiveObject directive))

/-- Sort GraphQLSchema. -/
def lexicographicSortSchema (depth : ℕ) : Except SchemaError GraphQLSchema := do
  let built ← initSchema (sortingHeap schema) depth (sortedKwargs schema)
  return { schema with
    typeMap := built.typeMap.map (typeAt schema)
    directives := sortedDirectives schema }

end Sorting

end GraphqlCore
