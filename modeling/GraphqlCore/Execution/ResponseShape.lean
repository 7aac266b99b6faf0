import GraphqlCore.Execution.Executor
import Mathlib.Data.Set.Basic

/-!
# The shape of responses

What the data of a response has to look like for a schema, whatever the resolvers
do, and how the collected errors relate to the positions in the data.
-/

namespace GraphqlCore.Execution

open Language

/-! ## Positions in data -/

/-- The data at a position. -/
def Data.atPath : List PathKey → Data → Option Data
  | [], data => some data
  | .index index :: path, .list items => items[index]?.bind (Data.atPath path)
  | .field name :: path, .object entries =>
      (Dict.find name entries).bind (Data.atPath path)
  | _ :: _, _ => none

/-- The position, which lies beneath the path, is nulled in the data at the path. -/
def Data.NullsAt (data : Data) (path position : List PathKey) : Prop :=
  ∃ suffix, path ++ suffix <+: position ∧ data.atPath suffix = some .null

/-! ## Exceptions of other code -/

/-- The exceptions that completing the result of a resolver can raise. -/
inductive Resolved.Raises : Resolved → ExecutionError → Prop
  | exception {error : ExecutionError} : Raises (.exception error) error
  | failure {items : List Resolved} {error : ExecutionError} :
      Raises (.iterable items (some error)) error
  | item {items : List Resolved} {failure : Option ExecutionError} {item : Resolved}
      {error : ExecutionError} (hitem : item ∈ items) (h : Raises item error) :
      Raises (.iterable items failure) error

namespace Executor

variable (executor : Executor)

/-- The exceptions that are raised by the functions of a schema. -/
inductive Raises : ExecutionError → Prop
  | resolve {path : Path} {parentType : Text} {nodes : List FieldNode}
      {source : Resolved} {args : Dict Text Value} {error : ExecutionError}
      (h : executor.resolve path parentType nodes source args = .error error) :
      Raises error
  | result {path : Path} {parentType : Text} {nodes : List FieldNode}
      {source result : Resolved} {args : Dict Text Value} {error : ExecutionError}
      (h : executor.resolve path parentType nodes source args = .ok result)
      (herror : result.Raises error) : Raises error
  | resolveType {path : Path} {abstractType : Text} {result : Resolved}
      {error : ExecutionError}
      (h : executor.resolveType path abstractType result = .error error) : Raises error
  | isTypeOf {path : Path} {objectType : Text} {result : Resolved}
      {error : ExecutionError}
      (h : executor.isTypeOf path objectType result = .error error) : Raises error
  | coerceOutputValue {path : Path} {leafType : Text} {result : Resolved}
      {error : ExecutionError}
      (h : executor.coerceOutputValue path leafType result = .error error) :
      Raises error

/-- The error has a response path that it was raised with. -/
def HasOwnPath (error : ExecutionError) : Prop :=
  error.path.isSome ∧ executor.Raises error

/-- The error is located at or beneath the position. -/
def LocatedBeneath (position : List PathKey) (error : ExecutionError) : Prop :=
  executor.HasOwnPath error ∨ position <+: error.path.getD []

/-- The error is not located at or beneath the position. -/
def LocatedOutside (position : List PathKey) (error : ExecutionError) : Prop :=
  executor.HasOwnPath error ∨ ¬ position <+: error.path.getD []

/-! ## Data of a type -/

/-- The types of the objects that results of an output type are completed to. -/
inductive HasRuntimeType (path : Path) (result : Resolved) : Text → Text → Prop
  | object {name : Text} {type : GraphQLNamedType}
      (htype : executor.schema.getType name = some type) (hobject : type.isObjectType) :
      HasRuntimeType path result name name
  | abstract {name runtimeType : Text} {type type' : GraphQLNamedType}
      (htype : executor.schema.getType name = some type)
      (habstract : type.isAbstractType)
      (hresolve : executor.resolveType path name result = .ok (.name runtimeType))
      (htype' : executor.schema.getType runtimeType = some type')
      (hobject : type'.isObjectType)
      (hsub : executor.schema.isSubType name runtimeType) :
      HasRuntimeType path result name runtimeType

/-- The resolver of the field returns the result. -/
def Resolves (parentType : Text) (source : Resolved) (details : List FieldDetails)
    (path : Path) (result : Resolved) : Prop :=
  ∃ args, executor.resolve path parentType (toNodes details) source args = .ok result

/-- The collected fields that exist on the type. -/
def existingFields (runtimeType : Text) (c : Collection) :
    List (Text × List FieldDetails) :=
  c.groupedFieldSet.items.filter fun field =>
    (executor.fieldOf runtimeType field.2).isSome

mutual

/-- The data is a completed value of the type for what was resolved. -/
inductive Fits : GraphQLType → List FieldDetails → Path → Resolved → Data → Prop
  | null {type : GraphQLType} {details : List FieldDetails} {path : Path}
      {result : Resolved} (hnull : isNonNullType type = false) :
      Fits type details path result .null
  | nonNull {type : GraphQLType} {details : List FieldDetails} {path : Path}
      {result : Resolved} {data : Data} (h : Fits type details path result data)
      (hnull : data ≠ .null) : Fits (.nonNull type) details path result data
  | leaf {name : Text} {type : GraphQLNamedType} {details : List FieldDetails}
      {path : Path} {result : Resolved} {value : Value}
      (htype : executor.schema.getType name = some type) (hleaf : type.isLeafType)
      (hcoerced : executor.coerceOutputValue path name result = .ok (some value))
      (hvalue : value ≠ .none) : Fits (.named name) details path result (.leaf value)
  | list {itemType : GraphQLType} {details : List FieldDetails} {path : Path}
      {items : List Resolved} {completed : List Data}
      (hlength : completed.length = items.length)
      (hitems : ∀ index item data, items[index]? = some item →
        completed[index]? = some data →
        Fits itemType details (path.addKey (.index index) none) item data) :
      Fits (.list itemType) details path (.iterable items none) (.list completed)
  | object {name runtimeType : Text} {details : List FieldDetails} {path : Path}
      {result : Resolved} {c : Collection} {entries : List (Text × Data)}
      (htype : executor.HasRuntimeType path result name runtimeType)
      (hcollected : collectSubfields (executor.collectContext runtimeType) details =
        .ok c)
      (hkeys : entries.map Prod.fst =
        (executor.existingFields runtimeType c).map Prod.fst)
      (hfields : ∀ key fields data, (key, fields) ∈ c.groupedFieldSet.items →
        (key, data) ∈ entries → FieldFits runtimeType result fields
          (path.addKey (.field key) (some runtimeType)) data) :
      Fits (.named name) details path result (.object entries)

/-- The data is that of a field of the parent type. -/
inductive FieldFits : Text → Resolved → List FieldDetails → Path → Data → Prop
  | null {parentType : Text} {source : Resolved} {details : List FieldDetails}
      {path : Path} {first : FieldDetails} {fieldDef : GraphQLField}
      (hfield : executor.fieldOf parentType details = some (first, fieldDef))
      (hnull : isNonNullType fieldDef.type = false) :
      FieldFits parentType source details path .null
  | value {parentType : Text} {source result : Resolved}
      {details : List FieldDetails} {path : Path} {first : FieldDetails}
      {fieldDef : GraphQLField} {data : Data}
      (hfield : executor.fieldOf parentType details = some (first, fieldDef))
      (hresolves : executor.Resolves parentType source details path result)
      (h : Fits fieldDef.type details path result data) :
      FieldFits parentType source details path data

end

/-- The entries are those of the collected fields of an object. -/
structure EntriesFit (runtimeType : Text) (source : Resolved) (path : Path)
    (fields : List (Text × List FieldDetails)) (entries : List (Text × Data)) :
    Prop where
  keys_eq : entries.map Prod.fst = (fields.filter fun field =>
    (executor.fieldOf runtimeType field.2).isSome).map Prod.fst
  fits : ∀ key details data, (key, details) ∈ fields → (key, data) ∈ entries →
    executor.FieldFits runtimeType source details
      (path.addKey (.field key) (some runtimeType)) data

/-- The data of a response is null, or an object of the root type. -/
def ResponseFits (operation : OperationDefinitionNode) (rootValue : Resolved)
    (data : Data) : Prop :=
  data = .null ∨ ∃ rootType c entries,
    executor.schema.operationRootType operation.operation = some rootType ∧
    collectFields (executor.collectContext rootType) operation.selectionSet = .ok c ∧
    executor.EntriesFit rootType rootValue [] c.groupedFieldSet.items entries ∧
    data = .object entries

/-- Every error is recorded and located beneath a position that is nulled in the data,
and outside of the positions that were nulled before. -/
structure ErrorsFit (data : Data) (errors : CollectedErrors) : Prop where
  nulled : ∀ entry ∈ errors.entries, ∃ position,
    data.atPath position = some .null ∧ position <+: entry.1.asList ∧
      executor.LocatedBeneath position entry.2
  ordered : errors.entries.Pairwise fun entry later =>
    ¬ entry.1.asList <+: later.1.asList ∧
      executor.LocatedOutside entry.1.asList later.2

end Executor

end GraphqlCore.Execution
