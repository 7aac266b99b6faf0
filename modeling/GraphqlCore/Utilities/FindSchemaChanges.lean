import GraphqlCore.Type.Introspection
import GraphqlCore.Type.Schema

/-!
# Breaking changes

The functions of `utilities/find_schema_changes.py`.  Safe and dangerous changes,
which `find_breaking_changes` takes out of the list again, are left out of it from
the beginning.
-/

namespace GraphqlCore

inductive BreakingChangeType
  | typeRemoved
  | typeChangedKind
  | typeRemovedFromUnion
  | valueRemovedFromEnum
  | requiredInputFieldAdded
  | implementedInterfaceRemoved
  | fieldRemoved
  | fieldChangedKind
  | requiredArgAdded
  | argRemoved
  | argChangedKind
  | directiveRemoved
  | directiveArgRemoved
  | requiredDirectiveArgAdded
  | directiveRepeatableRemoved
  | directiveLocationRemoved
  deriving DecidableEq

structure BreakingChange where
  type : BreakingChangeType
  description : Text
  deriving DecidableEq

/-! ## Differences of lists and dictionaries -/

structure ListDiff (α : Type) where
  added : List α
  removed : List α
  persisted : List (α × α)

/-- The item of that name, which is the last one if there are several. -/
def itemNamed {α : Type} (name : α → Text) (items : List α) (itemName : Text) :
    Option α :=
  items.reverse.find? fun item => name item = itemName

/-- Get differences between two lists of named items. -/
def listDiff {α : Type} (name : α → Text) (oldList newList : List α) : ListDiff α where
  added := newList.filter fun newItem => (itemNamed name oldList (name newItem)).isNone
  removed := oldList.filter fun oldItem => (itemNamed name newList (name oldItem)).isNone
  persisted := oldList.filterMap fun oldItem =>
    (itemNamed name newList (name oldItem)).map fun newItem => (oldItem, newItem)

structure DictDiff (β : Type) where
  added : List (Text × β)
  removed : List (Text × β)
  persisted : List (Text × β × β)

/-- Get differences between two dicts. -/
def dictDiff {β : Type} (oldDict newDict : Dict Text β) : DictDiff β where
  added := newDict.items.filter fun entry => (oldDict.get entry.1).isNone
  removed := oldDict.items.filter fun entry => (newDict.get entry.1).isNone
  persisted := oldDict.items.filterMap fun entry =>
    (newDict.get entry.1).map fun newItem => (entry.1, entry.2, newItem)

/-! ## Changes of types -/

def isChangeSafeForObjectOrInterfaceField : GraphQLType → GraphQLType → Bool
  | .list oldItem, .list newItem => isChangeSafeForObjectOrInterfaceField oldItem newItem
  | .list oldItem, .nonNull newType =>
      isChangeSafeForObjectOrInterfaceField (.list oldItem) newType
  | .nonNull oldType, .nonNull newType =>
      isChangeSafeForObjectOrInterfaceField oldType newType
  | .named oldName, .named newName => oldName = newName
  | .named oldName, .nonNull newType =>
      isChangeSafeForObjectOrInterfaceField (.named oldName) newType
  | _, _ => false
termination_by oldType newType => sizeOf oldType + sizeOf newType

def isChangeSafeForInputObjectFieldOrFieldArg : GraphQLType → GraphQLType → Bool
  | .list oldItem, .list newItem =>
      isChangeSafeForInputObjectFieldOrFieldArg oldItem newItem
  | .nonNull oldType, .nonNull newType =>
      isChangeSafeForInputObjectFieldOrFieldArg oldType newType
  -- Moving from non-null to nullable of the same underlying type is safe.
  | .nonNull oldType, newType => isChangeSafeForInputObjectFieldOrFieldArg oldType newType
  | .named oldName, .named newName => oldName = newName
  | _, _ => false

/-! ## Arguments -/

/-- The text of an argument of a field or directive. -/
def argumentText (owner argName : Text) : Text :=
  owner ++ str "(" ++ argName ++ str ":)"

def changedTypeText (subject : Text) (oldType newType : GraphQLType) : Text :=
  subject ++ str " from " ++ oldType.print ++ str " to " ++ newType.print ++ str "."

/-- Arguments of a field or directive that were added and are required. -/
def findRequiredArgsAdded (changeType : BreakingChangeType) (owner : Text)
    (added : List (Text × GraphQLArgument)) : List BreakingChange :=
  (added.filter fun entry => isRequiredArgument entry.2.toInputDefinition).map
    fun entry =>
      ⟨changeType, str "A required argument " ++ argumentText owner entry.1 ++
        str " was added."⟩

def findArgsRemoved (changeType : BreakingChangeType) (owner : Text)
    (removed : List (Text × GraphQLArgument)) : List BreakingChange :=
  removed.map fun entry =>
    ⟨changeType, str "Argument " ++ argumentText owner entry.1 ++ str " was removed."⟩

def findArgsChangedKind (owner : Text)
    (persisted : List (Text × GraphQLArgument × GraphQLArgument)) :
    List BreakingChange :=
  (persisted.filter fun (_, oldArg, newArg) =>
    !isChangeSafeForInputObjectFieldOrFieldArg oldArg.type newArg.type).map
      fun (argName, oldArg, newArg) =>
        ⟨.argChangedKind, changedTypeText (str "Argument " ++
          argumentText owner argName ++ str " has changed type") oldArg.type newArg.type⟩

def fieldText (typeName fieldName : Text) : Text := typeName ++ str "." ++ fieldName

def findArgChanges (typeName fieldName : Text) (oldField newField : GraphQLField) :
    List BreakingChange :=
  let argsDiff := dictDiff oldField.args newField.args
  let owner := fieldText typeName fieldName
  findArgsRemoved .argRemoved owner argsDiff.removed ++
    findArgsChangedKind owner argsDiff.persisted ++
    findRequiredArgsAdded .requiredArgAdded owner argsDiff.added

/-! ## Fields -/

def fieldsRemoved {β : Type} (typeName : Text) (removed : List (Text × β)) :
    List BreakingChange :=
  removed.map fun entry =>
    ⟨.fieldRemoved, str "Field " ++ fieldText typeName entry.1 ++ str " was removed."⟩

def fieldChangedKind (typeName fieldName : Text) (oldType newType : GraphQLType) :
    BreakingChange :=
  ⟨.fieldChangedKind, changedTypeText (str "Field " ++ fieldText typeName fieldName ++
    str " changed type") oldType newType⟩

def findFieldChanges (typeName : Text) (oldFields newFields : Dict Text GraphQLField) :
    List BreakingChange :=
  let fieldsDiff := dictDiff oldFields newFields
  fieldsRemoved typeName fieldsDiff.removed ++
    fieldsDiff.persisted.flatMap fun (fieldName, oldField, newField) =>
      findArgChanges typeName fieldName oldField newField ++
        if isChangeSafeForObjectOrInterfaceField oldField.type newField.type then []
        else [fieldChangedKind typeName fieldName oldField.type newField.type]

def findInputObjectTypeChanges (typeName : Text)
    (oldFields newFields : Dict Text GraphQLInputField) : List BreakingChange :=
  let fieldsDiff := dictDiff oldFields newFields
  (fieldsDiff.added.filter fun entry => isRequiredArgument entry.2.toInputDefinition).map
      (fun entry => ⟨.requiredInputFieldAdded, str "A required field " ++
        fieldText typeName entry.1 ++ str " was added."⟩) ++
    fieldsRemoved typeName fieldsDiff.removed ++
    (fieldsDiff.persisted.filter fun (_, oldField, newField) =>
      !isChangeSafeForInputObjectFieldOrFieldArg oldField.type newField.type).map
        fun (fieldName, oldField, newField) =>
          fieldChangedKind typeName fieldName oldField.type newField.type

/-! ## Named types -/

def findUnionTypeChanges (typeName : Text) (oldTypes newTypes : List Text) :
    List BreakingChange :=
  (listDiff id oldTypes newTypes).removed.map fun possibleType =>
    ⟨.typeRemovedFromUnion, possibleType ++ str " was removed from union type " ++
      typeName ++ str "."⟩

def findEnumTypeChanges (typeName : Text) (oldValues newValues : Dict Text GraphQLEnumValue) :
    List BreakingChange :=
  (dictDiff oldValues newValues).removed.map fun entry =>
    ⟨.valueRemovedFromEnum, str "Enum value " ++ fieldText typeName entry.1 ++
      str " was removed."⟩

def findImplementedInterfacesChanges (typeName : Text)
    (oldInterfaces newInterfaces : List Text) : List BreakingChange :=
  (listDiff id oldInterfaces newInterfaces).removed.map fun interface =>
    ⟨.implementedInterfaceRemoved, typeName ++
      str " no longer implements interface " ++ interface ++ str "."⟩

def typeKindName : GraphQLNamedType → Text
  | .scalar .. => str "a Scalar type"
  | .object .. => str "an Object type"
  | .interface .. => str "an Interface type"
  | .union .. => str "a Union type"
  | .enum .. => str "an Enum type"
  | .inputObject .. => str "an Input type"

/-- The body of the loop over the types that are in both schemas. -/
def findNamedTypeChanges (typeName : Text) :
    GraphQLNamedType → GraphQLNamedType → List BreakingChange
  | .enum oldValues _, .enum newValues _ =>
      findEnumTypeChanges typeName oldValues newValues
  | .union oldTypes _, .union newTypes _ => findUnionTypeChanges typeName oldTypes newTypes
  | .inputObject oldFields _ _, .inputObject newFields _ _ =>
      findInputObjectTypeChanges typeName oldFields newFields
  | .object oldFields oldInterfaces _, .object newFields newInterfaces _
  | .interface oldFields oldInterfaces _, .interface newFields newInterfaces _ =>
      findFieldChanges typeName oldFields newFields ++
        findImplementedInterfacesChanges typeName oldInterfaces newInterfaces
  | .scalar .., .scalar .. => []
  | oldType, newType =>
      [⟨.typeChangedKind, typeName ++ str " changed from " ++ typeKindName oldType ++
        str " to " ++ typeKindName newType ++ str "."⟩]

def findTypeChanges (oldSchema newSchema : GraphQLSchema) : List BreakingChange :=
  let typesDiff := dictDiff oldSchema.typeMap newSchema.typeMap
  typesDiff.removed.map
      (fun entry => ⟨.typeRemoved,
        if isSpecifiedScalarType entry.1 then
          str "Standard scalar " ++ entry.1 ++
            str " was removed because it is not referenced anymore."
        else entry.1 ++ str " was removed."⟩) ++
    typesDiff.persisted.flatMap fun (typeName, oldType, newType) =>
      findNamedTypeChanges typeName oldType newType

/-! ## Directives -/

/-- The body of the loop over the directives that are in both schemas. -/
def findDirectiveArgChanges (oldDirective newDirective : GraphQLDirective) :
    List BreakingChange :=
  let argsDiff := dictDiff oldDirective.args newDirective.args
  let owner := str "@" ++ oldDirective.name
  findRequiredArgsAdded .requiredDirectiveArgAdded owner argsDiff.added ++
    findArgsRemoved .directiveArgRemoved owner argsDiff.removed ++
    findArgsChangedKind owner argsDiff.persisted ++
    (if oldDirective.isRepeatable && !newDirective.isRepeatable then
      [⟨.directiveRepeatableRemoved, str "Repeatable flag was removed from " ++ owner ++
        str "."⟩]
    else []) ++
    (oldDirective.locations.filter fun location =>
      location ∉ newDirective.locations).map fun location =>
        ⟨.directiveLocationRemoved, location ++ str " was removed from @" ++
          newDirective.name ++ str "."⟩

def findDirectiveChanges (oldSchema newSchema : GraphQLSchema) : List BreakingChange :=
  let directivesDiff :=
    listDiff GraphQLDirective.name oldSchema.directives newSchema.directives
  directivesDiff.removed.map
      (fun directive => ⟨.directiveRemoved,
        str "Directive @" ++ directive.name ++ str " was removed."⟩) ++
    directivesDiff.persisted.flatMap fun (oldDirective, newDirective) =>
      findDirectiveArgChanges oldDirective newDirective

/-- Find breaking changes. -/
def findBreakingChanges (oldSchema newSchema : GraphQLSchema) : List BreakingChange :=
  findTypeChanges oldSchema newSchema ++ findDirectiveChanges oldSchema newSchema

end GraphqlCore
