import GraphqlCore.Type.Definition

/-!
# Schemas

The class of `type/schema.py`.  The type map holds the types that can be
reached, as they are collected in `TypeCollection`.
-/

namespace GraphqlCore

open Language

structure GraphQLSchema where
  typeMap : Dict Text GraphQLNamedType
  queryType : Option Text := none
  mutationType : Option Text := none
  subscriptionType : Option Text := none
  directives : List GraphQLDirective := []
  description : Option Text := none
  astNode : Option SchemaDefinitionNode := none

namespace GraphQLSchema

def getType (schema : GraphQLSchema) (name : Text) : Option GraphQLNamedType :=
  schema.typeMap.get name

/-- The names of the objects and interfaces that implement the interface. -/
def getImplementations (schema : GraphQLSchema) (interfaceType : Text) :
    List Text :=
  (schema.typeMap.items.filter fun entry =>
    interfaceType ∈ entry.2.interfaces).map Prod.fst

/-- The names of the possible concrete types of an abstract type. -/
def getPossibleTypes (schema : GraphQLSchema) (abstractType : Text) : List Text :=
  match schema.getType abstractType with
  | some (.union types _) => types
  | _ => (schema.getImplementations abstractType).filter fun name =>
      ((schema.getType name).map GraphQLNamedType.isObjectType).getD false

def isSubType (schema : GraphQLSchema) (abstractType maybeSubType : Text) :
    Bool :=
  match schema.getType abstractType with
  | some (.union types _) => maybeSubType ∈ types
  | _ => maybeSubType ∈ schema.getImplementations abstractType

/-! ## The kinds of types -/

variable (schema : GraphQLSchema)

/-- Does the named type of a reference have the property? -/
def named (property : GraphQLNamedType → Bool) (type : GraphQLType) : Bool :=
  ((schema.getType type.getNamedType).map property).getD false

def isInputType (type : GraphQLType) : Bool :=
  schema.named GraphQLNamedType.isInputType type

def isOutputType (type : GraphQLType) : Bool :=
  schema.named GraphQLNamedType.isOutputType type

def isInterfaceType (name : Text) : Bool :=
  schema.named GraphQLNamedType.isInterfaceType (.named name)

def isObjectType (name : Text) : Bool :=
  schema.named GraphQLNamedType.isObjectType (.named name)

def isAbstractType (name : Text) : Bool :=
  schema.named GraphQLNamedType.isAbstractType (.named name)

/-- The fields of the object or interface type of that name. -/
def fieldsOf (name : Text) : Dict Text GraphQLField :=
  ((schema.getType name).map GraphQLNamedType.fields).getD Dict.empty

/-- The interfaces of the object or interface type of that name. -/
def interfacesOf (name : Text) : List Text :=
  ((schema.getType name).map GraphQLNamedType.interfaces).getD []

/-- The root type for the operations of a document. -/
def operationRootType : OperationType → Option Text
  | .query => schema.queryType
  | .mutation => schema.mutationType
  | .subscription => schema.subscriptionType

end GraphQLSchema

/-! ## The fields of a type -/

def schemaMetaFieldDef : GraphQLField where
  type := .nonNull (.named (str "__Schema"))

def typeMetaFieldDef : GraphQLField where
  type := .named (str "__Type")
  args := Dict.empty.set (str "name") { type := .nonNull (.named (str "String")) }

def typeNameMetaFieldDef : GraphQLField where
  type := .nonNull (.named (str "String"))

/-- Get field of a given type with the given name. -/
def GraphQLSchema.getField (schema : GraphQLSchema) (parentType fieldName : Text) :
    Option GraphQLField :=
  if fieldName = str "__schema" then
    if schema.queryType = some parentType then some schemaMetaFieldDef else none
  else if fieldName = str "__type" then
    if schema.queryType = some parentType then some typeMetaFieldDef else none
  else if fieldName = str "__typename" then some typeNameMetaFieldDef
  else (schema.fieldsOf parentType).get fieldName

end GraphqlCore
