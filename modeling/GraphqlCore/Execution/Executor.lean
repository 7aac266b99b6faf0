import GraphqlCore.Data.Attempt
import GraphqlCore.Execution.CollectFields
import GraphqlCore.Utilities.ValidateInputValue

/-!
# Executing operations

The class `Executor` of `execution/executor.py`, for resolvers that are synchronous
and operations without `@defer` and `@stream`.  What the resolvers, type resolvers,
predicates and leaf types do is left open, and may depend on the position, as each of
them is executed once.
-/

namespace GraphqlCore.Execution

open Language

/-! ## Positions and errors -/

/-- A step of a response path, with the type of the object it is taken in. -/
structure PathStep where
  key : PathKey
  typename : Option Text := none
  deriving DecidableEq

/-- A response path from the root of the data. -/
abbrev Path := List PathStep

def Path.addKey (path : Path) (key : PathKey) (typename : Option Text) : Path :=
  path ++ [⟨key, typename⟩]

def Path.asList (path : Path) : List PathKey := path.map PathStep.key

/-- An exception.  GraphQL errors may have a response path. -/
structure ExecutionError where
  message : Text
  path : Option (List PathKey) := none
  deriving DecidableEq

/-- Errors that have a response path keep it. -/
def locatedError (originalError : ExecutionError) (path : List PathKey) :
    ExecutionError :=
  match originalError.path with
  | some _ => originalError
  | none => { originalError with path := some path }

/-- The collected errors with the positions that they have nulled. -/
structure CollectedErrors where
  entries : List (Path × ExecutionError) := []

namespace CollectedErrors

def errorPositions (e : CollectedErrors) : List Path := e.entries.map Prod.fst

def errors (e : CollectedErrors) : List ExecutionError := e.entries.map Prod.snd

/-- Check whether the given position or one of its ancestors is nulled. -/
def hasNulledPosition (e : CollectedErrors) (path : Path) : Bool :=
  e.errorPositions.any fun position => position.isPrefixOf path

/-- Add an error raised at the given execution position. -/
def add (e : CollectedErrors) (error : ExecutionError) (path : Path) : CollectedErrors :=
  if e.hasNulledPosition path then e
  else { entries := e.entries ++ [(path, error)] }

end CollectedErrors

/-- Why execution ends early: an exception is raised, or selection sets are nested
deeper than the model follows them. -/
inductive Interruption
  | raised (error : ExecutionError)
  | tooDeep

/-- The collected errors are kept when an exception is raised. -/
abbrev Run (α : Type) := Attempt CollectedErrors Interruption α

def raise {α : Type} (error : ExecutionError) : Run α := .throw (.raised error)

def raiseMessage {α : Type} (message : Text) : Run α := raise { message := message }

/-- Call a function from outside. -/
def call {α : Type} (result : Except ExecutionError α) : Run α := .lift .raised result

/-! ## Results and data -/

/-- The result of a resolver, as far as the executor can tell it apart.  An iterable
may raise an exception after its last item. -/
inductive Resolved
  | none
  | undefined
  | exception (error : ExecutionError)
  | iterable (items : List Resolved) (failure : Option ExecutionError)
  | other (identity : ℕ)

/-- The data of a response. -/
inductive Data
  | null
  | leaf (value : Value)
  | list (items : List Data)
  | object (entries : List (Text × Data))

/-- What a type resolver returns. -/
inductive RuntimeTypeName
  | none
  | notAString (inspected : Text)
  | name (name : Text)

structure Executor where
  schema : GraphQLSchema
  fragments : Dict Text FragmentDetails
  variableValues : VariableValues
  coercion : InputCoercion
  errorPropagation : Bool := true
  /-- The field resolvers, given the parent type, the field nodes, the source object
  and the arguments. -/
  resolve : Path → Text → List FieldNode → Resolved → Dict Text Value →
    Except ExecutionError Resolved
  /-- The type resolvers, given the abstract type. -/
  resolveType : Path → Text → Resolved → Except ExecutionError RuntimeTypeName
  /-- The predicates of object types, which hold where there is none. -/
  isTypeOf : Path → Text → Resolved → Except ExecutionError Bool
  /-- The output coercion of leaf types, `none` for `Undefined`. -/
  coerceOutputValue : Path → Text → Resolved → Except ExecutionError (Option Value)
  /-- The texts of values and of argument errors. -/
  inspect : Resolved → Text
  describe : GraphQLError → Text

/-! ## Collecting subfields -/

/-- Collect the subfields of one of the field nodes. -/
def collectSubfieldsOf (context : CollectFieldsContext) (c : Collection)
    (details : FieldDetails) : Except CollectFailure Collection :=
  match details.node.selectionSet with
  | none => .ok c
  | some selectionSet =>
      collectFieldsImpl context context.depth selectionSet.selections
        details.deferUsage details.fragmentVariableValues c

/-- Collect subfields. -/
def collectSubfields (context : CollectFieldsContext)
    (fieldDetailsList : List FieldDetails) : Except CollectFailure Collection :=
  fieldDetailsList.foldlM (collectSubfieldsOf context) {}

def toNodes (fieldDetailsList : List FieldDetails) : List FieldNode :=
  fieldDetailsList.map FieldDetails.node

namespace Executor

variable (executor : Executor)

/-! ## Completing values -/

/-- Handle error properly according to the field type. -/
def handleFieldError (rawError : ExecutionError) (returnType : GraphQLType)
    (path : Path) : Run Unit :=
  let error := locatedError rawError path.asList
  if executor.errorPropagation && isNonNullType returnType then raise error
  else .modify fun errors => errors.add error path

/-- Null is the result where an exception is handled. -/
def orNull (returnType : GraphQLType) (path : Path) (x : Run Data) : Run Data :=
  x.handle fun
    | .raised rawError => do
        executor.handleFieldError rawError returnType path
        return .null
    | .tooDeep => .throw .tooDeep

/-- What is known about the field that is resolved. -/
structure Info where
  parentType : Text
  fieldName : Text

def Info.text (info : Info) : Text := info.parentType ++ str "." ++ info.fieldName

def completeLeafValue (returnType : Text) (path : Path) (result : Resolved) :
    Run Data := do
  let message := str "Expected `" ++ returnType ++ str ".coerce_output_value(" ++
    executor.inspect result ++ str ")` to return non-nullable value, returned: "
  match ← call (executor.coerceOutputValue path returnType result) with
  | none => raiseMessage (message ++ str "Undefined")
  | some .none => raiseMessage (message ++ str "None")
  | some coerced => return .leaf coerced

/-- How the sub-selections of an object are executed. -/
abbrev ExecuteObject := Text → List FieldDetails → Path → Resolved → Run Data

/-- Complete an Object value by executing all sub-selections. -/
def completeObjectValue (executeObject : ExecuteObject) (returnType : Text)
    (fieldDetailsList : List FieldDetails) (path : Path) (result : Resolved) :
    Run Data := do
  let isTypeOf ← call (executor.isTypeOf path returnType result)
  if !isTypeOf then
    raiseMessage (str "Expected value of type '" ++ returnType ++ str "' but got: " ++
      executor.inspect result ++ str ".")
  else executeObject returnType fieldDetailsList path result

/-- Ensure that the given type is valid at runtime. -/
def ensureValidRuntimeType (runtimeTypeName : RuntimeTypeName) (returnType : Text)
    (info : Info) (result : Resolved) : Except ExecutionError Text :=
  match runtimeTypeName with
  | .none => .error
      { message := str "Abstract type '" ++ returnType ++
          str "' must resolve to an Object type at runtime for field '" ++ info.text ++
          str "'. Either the '" ++ returnType ++ str "' type should provide" ++
          str " a 'resolve_type' function or each possible type should provide" ++
          str " an 'is_type_of' function." }
  | .notAString inspected => .error
      { message := str "Abstract type '" ++ returnType ++
          str "' must resolve to an Object type at runtime for field '" ++ info.text ++
          str "' with value " ++ executor.inspect result ++ str ", received '" ++
          inspected ++ str "', which is not a valid Object type name." }
  | .name runtimeType =>
      match executor.schema.getType runtimeType with
      | none => .error
          { message := str "Abstract type '" ++ returnType ++
              str "' was resolved to a type '" ++ runtimeType ++
              str "' that does not exist inside the schema." }
      | some type =>
          if !type.isObjectType then .error
            { message := str "Abstract type '" ++ returnType ++
                str "' was resolved to a non-object type '" ++ runtimeType ++ str "'." }
          else if !executor.schema.isSubType returnType runtimeType then .error
            { message := str "Runtime Object type '" ++ runtimeType ++
                str "' is not a possible type for '" ++ returnType ++ str "'." }
          else .ok runtimeType

def completeAbstractValue (executeObject : ExecuteObject) (returnType : Text)
    (info : Info) (fieldDetailsList : List FieldDetails) (path : Path)
    (result : Resolved) : Run Data := do
  let runtimeTypeName ← call (executor.resolveType path returnType result)
  let runtimeType ←
    call (executor.ensureValidRuntimeType runtimeTypeName returnType info result)
  executor.completeObjectValue executeObject runtimeType fieldDetailsList path result

/-- Complete a value of a named type, which is not null. -/
def completeNamedValue (executeObject : ExecuteObject) (returnType : Text) (info : Info)
    (fieldDetailsList : List FieldDetails) (path : Path) (result : Resolved) :
    Run Data :=
  match executor.schema.getType returnType with
  | some type =>
      if type.isLeafType then executor.completeLeafValue returnType path result
      else if type.isAbstractType then executor.completeAbstractValue executeObject
        returnType info fieldDetailsList path result
      else if type.isObjectType then executor.completeObjectValue executeObject
        returnType fieldDetailsList path result
      else raiseMessage (str "Cannot complete value of unexpected output type: '" ++
        returnType ++ str "'.")
  | none => raiseMessage (str "Cannot complete value of unexpected output type: '" ++
      returnType ++ str "'.")

/-- Complete the items of an iterable, from the given index on. -/
def completeItems (complete : Path → Resolved → Run Data) (itemType : GraphQLType)
    (failure : Option ExecutionError) (path : Path) :
    List Resolved → ℕ → Run (List Data)
  | [], _ =>
      match failure with
      | none => return []
      | some error => raise error
  | item :: rest, index => do
      let itemPath := path.addKey (.index index) none
      let completedItem ← executor.orNull itemType itemPath (complete itemPath item)
      let completedResults ←
        completeItems complete itemType failure path rest (index + 1)
      return completedItem :: completedResults

/-- Complete a value. -/
def completeValue (executeObject : ExecuteObject) (info : Info)
    (fieldDetailsList : List FieldDetails) (returnType : GraphQLType) (path : Path)
    (result : Resolved) : Run Data :=
  match result with
  | .exception error => raise error
  | result =>
      match returnType with
      | .nonNull ofType => do
          match ← completeValue executeObject info fieldDetailsList ofType path
              result with
          | .null =>
              raiseMessage
                (str "Cannot return null for non-nullable field " ++ info.text ++ str ".")
          | completed => return completed
      | .list itemType =>
          match result with
          | .none | .undefined => return .null
          | .iterable items failure => do
              let completedResults ← executor.completeItems
                (completeValue executeObject info fieldDetailsList itemType) itemType
                failure path items 0
              return .list completedResults
          | _ => raiseMessage
              (str "Expected Iterable, but did not find one for field '" ++ info.text ++
                str "'.")
      | .named name =>
          match result with
          | .none | .undefined => return .null
          | result => executor.completeNamedValue executeObject name info
              fieldDetailsList path result

/-! ## Executing fields -/

/-- The field of the parent type that the field nodes select. -/
def fieldOf (parentType : Text) (fieldDetailsList : List FieldDetails) :
    Option (FieldDetails × GraphQLField) :=
  match fieldDetailsList with
  | [] => none
  | first :: _ =>
      (executor.schema.getField parentType first.node.name.value).map fun fieldDef =>
        (first, fieldDef)

/-- The argument values of the field. -/
def fieldArguments (first : FieldDetails) (fieldDef : GraphQLField) :
    Except GraphQLError (Dict Text Value) :=
  getArgumentValues executor.coercion (inputDefinitions fieldDef.args)
    ((first.node.arguments.getD []).map fun argument =>
      (argument.name.value, argument.value))
    executor.variableValues first.fragmentVariableValues

/-- Resolve the field on the given source object, `none` for `Undefined`. -/
def executeField (executeObject : ExecuteObject) (parentType : Text) (source : Resolved)
    (fieldDetailsList : List FieldDetails) (path : Path) : Run (Option Data) :=
  match executor.fieldOf parentType fieldDetailsList with
  | none => return none
  | some (first, fieldDef) => do
      let completed ← executor.orNull fieldDef.type path do
        let args ← .lift
          (fun error => .raised { message := executor.describe error })
          (executor.fieldArguments first fieldDef)
        let result ← call (executor.resolve path parentType
          (toNodes fieldDetailsList) source args)
        executor.completeValue executeObject
          ⟨parentType, first.node.name.value⟩ fieldDetailsList fieldDef.type path
          result
      return some completed

/-- Execute the given fields, one after the other. -/
def executeFields (executeObject : ExecuteObject) (parentType : Text)
    (source : Resolved) (path : Path) :
    List (Text × List FieldDetails) → Run (List (Text × Data))
  | [] => return []
  | (responseName, fieldDetailsList) :: rest => do
      let result ← executor.executeField executeObject parentType source
        fieldDetailsList (path.addKey (.field responseName) (some parentType))
      let results ← executeFields executeObject parentType source path rest
      match result with
      | none => return results
      | some data => return (responseName, data) :: results

/-- The context in which the fields of an object of the type are collected. -/
def collectContext (runtimeType : Text) : CollectFieldsContext where
  schema := executor.schema
  fragments := executor.fragments
  variableValues := executor.variableValues
  runtimeType := runtimeType
  coercion := executor.coercion

/-- What has been collected, or the error. -/
def collected (result : Except CollectFailure Collection) : Run Collection :=
  .lift (fun
    | .raised error => .raised { message := executor.describe error }
    | .tooDeep => .tooDeep) result

/-- Collect sub-fields and execute them, down to the given depth of objects. -/
def collectAndExecuteSubfields : ℕ → ExecuteObject
  | 0 => fun _ _ _ _ => .throw .tooDeep
  | depth + 1 => fun returnType fieldDetailsList path result => do
      let c ← executor.collected
        (collectSubfields (executor.collectContext returnType) fieldDetailsList)
      let results ← executor.executeFields (collectAndExecuteSubfields depth) returnType
        result path c.groupedFieldSet.items
      return .object results

/-! ## Executing operations -/

def operationName : OperationType → Text
  | .query => str "query"
  | .mutation => str "mutation"
  | .subscription => str "subscription"

/-- The result of an operation; the errors are none where the list is empty. -/
structure ExecutionResult where
  data : Data
  errors : CollectedErrors

def executeRoot (depth : ℕ) (operation : OperationDefinitionNode)
    (rootValue : Resolved) : Run Data :=
  match executor.schema.operationRootType operation.operation with
  | none => raiseMessage (str "Schema is not configured to execute " ++
      operationName operation.operation ++ str " operation.")
  | some rootType => do
      let c ← executor.collected
        (collectFields (executor.collectContext rootType) operation.selectionSet)
      let results ← executor.executeFields (executor.collectAndExecuteSubfields depth)
        rootType rootValue [] c.groupedFieldSet.items
      return .object results

/-- Execute an operation, `none` where it is nested too deep. -/
def executeOperation (depth : ℕ) (operation : OperationDefinitionNode)
    (rootValue : Resolved) : Option ExecutionResult :=
  match executor.executeRoot depth operation rootValue {} with
  | (.ok data, errors) => some ⟨data, errors⟩
  | (.error (.raised error), errors) => some ⟨.null, errors.add error []⟩
  | (.error .tooDeep, _) => none

end Executor

end GraphqlCore.Execution
