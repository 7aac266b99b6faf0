import GraphqlCore.Data.Collecting
import GraphqlCore.Type.Schema

/-!
# The types of a schema

How the class of `type/schema.py` collects its types.  Types are objects that refer to each
other, possibly in circles, and are told apart by their identity: an object is given by its
address, and the heap has what is stored there.
-/

namespace GraphqlCore.TypeObjects

open Collecting

/-! ## Types as objects -/

/-- A type that refers to named types by their addresses. -/
inductive TypeRef (ν : Type)
  | named (type : ν)
  | list (ofType : TypeRef ν)
  | nonNull (ofType : TypeRef ν)

def TypeRef.getNamedType {ν : Type} : TypeRef ν → ν
  | .named type => type
  | .list ofType => ofType.getNamedType
  | .nonNull ofType => ofType.getNamedType

/-- A field, with the types of its arguments. -/
structure FieldObject (ν : Type) where
  type : TypeRef ν
  args : Dict Text (TypeRef ν) := Dict.empty

inductive TypeObject (ν : Type)
  | scalar
  | object (fields : Dict Text (FieldObject ν)) (interfaces : List ν)
  | interface (fields : Dict Text (FieldObject ν)) (interfaces : List ν)
  | union (types : List ν)
  | enum
  | inputObject (fields : Dict Text (TypeRef ν))

namespace TypeObject

variable {ν : Type}

def isInterfaceType : TypeObject ν → Bool
  | .interface .. => true
  | _ => false

def isObjectType : TypeObject ν → Bool
  | .object .. => true
  | _ => false

def isAbstractType : TypeObject ν → Bool
  | .interface .. => true
  | .union .. => true
  | _ => false

/-- The interfaces that an object or interface type declares. -/
def interfaces : TypeObject ν → List ν
  | .object _ interfaces => interfaces
  | .interface _ interfaces => interfaces
  | _ => []

/-- The named types that a type refers to. -/
def references : TypeObject ν → List ν
  | .object fields interfaces | .interface fields interfaces =>
      interfaces ++ fields.items.flatMap fun field =>
        field.2.type.getNamedType :: field.2.args.items.map fun arg => arg.2.getNamedType
  | .union types => types
  | .inputObject fields => fields.items.map fun field => field.2.getNamedType
  | .scalar => []
  | .enum => []

end TypeObject

/-- A directive, with the types of its arguments. -/
structure DirectiveObject (ν : Type) where
  args : Dict Text (TypeRef ν) := Dict.empty

/-- The named types with their names, and the types and directives of the library itself. -/
structure TypeHeap (ν : Type) where
  name : ν → Text
  definition : ν → TypeObject ν
  introspectionSchema : ν
  specifiedDirectives : List (DirectiveObject ν)

/-- A heap with the names that the constructors of the types have checked. -/
structure NamedHeap (ν : Type) extends TypeHeap ν where
  name_ne : ∀ type, name type ≠ []

/-- The arguments of the constructor of a schema.  A directive may be another object, which
is only found out when the schema is validated. -/
structure SchemaKwargs (ν : Type) where
  query : Option ν := none
  mutation : Option ν := none
  subscription : Option ν := none
  types : List ν := []
  directives : Option (List (Option (DirectiveObject ν))) := none

/-- What the constructor of a schema ends with if it does not make one. -/
inductive SchemaError
  | missingName
  | notUnique (name : Text)
  | keyError
  | tooDeep
  deriving DecidableEq

/-! ## Collecting the types -/

section Collection

variable {ν : Type} [DecidableEq ν] (heap : TypeHeap ν)

/-- Recursive function supplementing the type starting from an initial type. -/
def collectReferencedTypes : ℕ → RefSet ν → TypeRef ν → Except SchemaError (RefSet ν)
  | 0, _, _ => .error .tooDeep
  | depth + 1, s, type =>
      let namedType := type.getNamedType
      if namedType ∈ s then .ok s
      else
        let s := s.add namedType
        let collectFields (fields : Dict Text (FieldObject ν)) (s : RefSet ν) :=
          fields.items.foldlM (fun s field => do
            let s ← collectReferencedTypes depth s field.2.type
            field.2.args.items.foldlM (fun s arg =>
              collectReferencedTypes depth s arg.2) s) s
        match heap.definition namedType with
        | .union types =>
            types.foldlM (fun s member => collectReferencedTypes depth s (.named member)) s
        | .object fields interfaces | .interface fields interfaces => do
            let s ← interfaces.foldlM (fun s iface =>
              collectReferencedTypes depth s (.named iface)) s
            collectFields fields s
        | .inputObject fields =>
            fields.items.foldlM (fun s field => collectReferencedTypes depth s field.2) s
        | .scalar | .enum => .ok s

/-- Remove a type from the collected types and then add it with all dependent types. -/
def recollect (depth : ℕ) (s : RefSet ν) (type : ν) : Except SchemaError (RefSet ν) :=
  if type ∈ s then collectReferencedTypes heap depth (s.discard type) (.named type)
  else .error .keyError

/-- An ordered set of types that can be collected starting from initial types. -/
def withInitialTypes (types : List ν) : RefSet ν := types.foldl RefSet.add .empty

def collectRoot (depth : ℕ) (s : RefSet ν) : Option ν → Except SchemaError (RefSet ν)
  | none => .ok s
  | some root => collectReferencedTypes heap depth s (.named root)

/-- Directives are not validated until `validate_schema` is called. -/
def collectDirective (depth : ℕ) (s : RefSet ν) :
    Option (DirectiveObject ν) → Except SchemaError (RefSet ν)
  | none => .ok s
  | some directive => directive.args.items.foldlM (fun s arg =>
      collectReferencedTypes heap depth s arg.2) s

/-- The specified directives are provided by default. -/
def SchemaKwargs.allDirectives (kwargs : SchemaKwargs ν) : List (Option (DirectiveObject ν)) :=
  kwargs.directives.getD (heap.specifiedDirectives.map some)

def allReferencedTypes (depth : ℕ) (kwargs : SchemaKwargs ν) :
    Except SchemaError (RefSet ν) := do
  let s ← kwargs.types.foldlM (recollect heap depth) (withInitialTypes kwargs.types)
  let s ← collectRoot heap depth s kwargs.query
  let s ← collectRoot heap depth s kwargs.mutation
  let s ← collectRoot heap depth s kwargs.subscription
  let s ← (kwargs.allDirectives heap).foldlM (collectDirective heap depth) s
  collectReferencedTypes heap depth s (.named heap.introspectionSchema)

end Collection

/-! ## The maps of a schema -/

structure InterfaceImplementations (ν : Type) where
  objects : List ν := []
  interfaces : List ν := []

/-- The types by their names, and all implementations by interface name. -/
structure SchemaObject (ν : Type) where
  typeMap : Dict Text ν := Dict.empty
  implementationsMap : Dict Text (InterfaceImplementations ν) := Dict.empty

section Maps

variable {ν : Type} (heap : TypeHeap ν)

def isInterfaceType (type : ν) : Bool := (heap.definition type).isInterfaceType

/-- The implementations of the interface of that name. -/
def SchemaObject.implementationsOf (schema : SchemaObject ν) (name : Text) :
    InterfaceImplementations ν :=
  (schema.implementationsMap.get name).getD {}

/-- Store implementations by the interfaces that a type declares. -/
def storeImplementations (append : InterfaceImplementations ν → InterfaceImplementations ν)
    (interfaces : List ν) (implementationsMap : Dict Text (InterfaceImplementations ν)) :
    Dict Text (InterfaceImplementations ν) :=
  interfaces.foldl (fun implementationsMap iface =>
    if isInterfaceType heap iface then
      implementationsMap.set (heap.name iface)
        (append ((implementationsMap.get (heap.name iface)).getD {}))
    else implementationsMap) implementationsMap

/-- Add a type to the maps of the schema. -/
def addType (schema : SchemaObject ν) (type : ν) : Except SchemaError (SchemaObject ν) :=
  let typeName := heap.name type
  if typeName = [] then .error .missingName
  else if (schema.typeMap.get typeName).isSome then .error (.notUnique typeName)
  else
    .ok {
      typeMap := schema.typeMap.set typeName type
      implementationsMap :=
        match heap.definition type with
        | .interface _ interfaces => storeImplementations heap
            (fun implementations =>
              { implementations with interfaces := implementations.interfaces ++ [type] })
            interfaces schema.implementationsMap
        | .object _ interfaces => storeImplementations heap
            (fun implementations =>
              { implementations with objects := implementations.objects ++ [type] })
            interfaces schema.implementationsMap
        | _ => schema.implementationsMap }

/-- Initialize GraphQL schema. -/
def initSchema [DecidableEq ν] (depth : ℕ) (kwargs : SchemaKwargs ν) :
    Except SchemaError (SchemaObject ν) := do
  let types ← allReferencedTypes heap depth kwargs
  types.elems.foldlM (addType heap) {}

/-- Get implementations for the given interface type. -/
def getImplementations (schema : SchemaObject ν) (interfaceType : ν) :
    InterfaceImplementations ν :=
  schema.implementationsOf (heap.name interfaceType)

/-- The names of the subtypes that were asked for, by the name of the abstract type. -/
abbrev SubTypeMap := Dict Text (List Text)

def subTypeNames (schema : SchemaObject ν) (abstractType : ν) : List Text :=
  match heap.definition abstractType with
  | .union types => types.map heap.name
  | _ =>
      let implementations := getImplementations heap schema abstractType
      implementations.objects.map heap.name ++ implementations.interfaces.map heap.name

/-- Check whether a type is a subtype of a given abstract type. -/
def isSubType (schema : SchemaObject ν) (subTypeMap : SubTypeMap)
    (abstractType maybeSubType : ν) : Bool × SubTypeMap :=
  match subTypeMap.get (heap.name abstractType) with
  | some types => (heap.name maybeSubType ∈ types, subTypeMap)
  | none =>
      let types := subTypeNames heap schema abstractType
      (heap.name maybeSubType ∈ types, subTypeMap.set (heap.name abstractType) types)

end Maps

end GraphqlCore.TypeObjects
