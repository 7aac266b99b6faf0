import GraphqlCore.Language.Equality
import GraphqlCore.Type.Schema

/-!
# The validation context

What the rules read of `validation/validation_context.py` and `utilities/type_info.py`:
the fragments with their signatures, and the parent types of the selection sets, which
are visited from the outside to the inside.
-/

namespace GraphqlCore

open Language

/-! ## Types of nodes -/

/-- The named type of the schema that the node refers to. -/
def typeFromAst (schema : GraphQLSchema) (node : NamedTypeNode) : Option Text :=
  if (schema.getType node.name.value).isSome then some node.name.value else none

namespace GraphQLSchema

variable (schema : GraphQLSchema)

def isLeafType (name : Text) : Bool :=
  schema.named GraphQLNamedType.isLeafType (.named name)

def isCompositeType (name : Text) : Bool :=
  schema.named (fun type => type.isObjectType || type.isAbstractType) (.named name)

end GraphQLSchema

/-! ## Fragments -/

/-- A fragment definition with the variable definitions of its arguments. -/
structure FragmentSignature where
  definition : FragmentDefinitionNode
  variableDefinitions : Dict Text VariableDefinitionNode

structure ValidationContext where
  schema : GraphQLSchema
  document : DocumentNode

/-- The fragment definitions in the document. -/
def fragmentDefinitions (document : DocumentNode) : List FragmentDefinitionNode :=
  document.definitions.filterMap fun
    | .fragment node => some node
    | _ => none

def getVariableDefinitions (definition : FragmentDefinitionNode) :
    Dict Text VariableDefinitionNode :=
  (definition.variableDefinitions.getD []).foldl
    (fun variableDefinitions varDef =>
      variableDefinitions.set varDef.variableNode.name.value varDef) Dict.empty

/-- The signatures of all fragment definitions in a document. -/
def getFragmentSignatures (document : DocumentNode) : Dict Text FragmentSignature :=
  (fragmentDefinitions document).foldl
    (fun fragmentSignatures definition => fragmentSignatures.set definition.name.value
      ⟨definition, getVariableDefinitions definition⟩) Dict.empty

namespace ValidationContext

variable (context : ValidationContext)

def getFragment (name : Text) : Option FragmentDefinitionNode :=
  ((fragmentDefinitions context.document).foldl
    (fun fragments definition => fragments.set definition.name.value definition)
    Dict.empty).get name

def getFragmentSignature (name : Text) : Option FragmentSignature :=
  (getFragmentSignatures context.document).get name

/-! ## Selection sets with their parent types -/

/-- The parent type where the selection set of a type is entered. -/
def parentTypeOf (type : Option GraphQLType) : Option Text :=
  (type.map GraphQLType.getNamedType).filter context.schema.isCompositeType

/-- The type where a field of the parent type is entered. -/
def fieldTypeOf (parentType : Option Text) (node : FieldNode) : Option GraphQLType :=
  (parentType.bind fun parentType =>
    (context.schema.getField parentType node.name.value).map GraphQLField.type).filter
    context.schema.isOutputType

/-- The type where an inline fragment or a fragment definition is entered. -/
def conditionTypeOf (typeCondition : NamedTypeNode) : Option GraphQLType :=
  ((typeFromAst context.schema typeCondition).map GraphQLType.named).filter
    context.schema.isOutputType

def inlineFragmentTypeOf (type : Option GraphQLType)
    (typeCondition : Option NamedTypeNode) : Option GraphQLType :=
  match typeCondition with
  | some typeCondition => context.conditionTypeOf typeCondition
  | none =>
      (type.map fun type => GraphQLType.named type.getNamedType).filter
        context.schema.isOutputType

mutual

/-- The selection set and those in it, with their parent types, as they are entered. -/
def enterSelectionSet (type : Option GraphQLType) :
    SelectionSetNode → List (Option Text × SelectionSetNode)
  | ⟨selections, loc⟩ =>
      (context.parentTypeOf type, ⟨selections, loc⟩) :: enterSelections type selections

def enterSelections (type : Option GraphQLType) :
    List SelectionNode → List (Option Text × SelectionSetNode)
  | [] => []
  | selection :: rest => enterSelection type selection ++ enterSelections type rest

def enterSelection (type : Option GraphQLType) :
    SelectionNode → List (Option Text × SelectionSetNode)
  | .field ⟨fieldAlias, name, arguments, directives, selectionSet, loc⟩ =>
      enterSubselections (context.fieldTypeOf (context.parentTypeOf type)
        ⟨fieldAlias, name, arguments, directives, selectionSet, loc⟩) selectionSet
  | .fragmentSpread _ => []
  | .inlineFragment ⟨typeCondition, _, selectionSet, _⟩ =>
      enterSelectionSet (context.inlineFragmentTypeOf type typeCondition) selectionSet

def enterSubselections (type : Option GraphQLType) :
    Option SelectionSetNode → List (Option Text × SelectionSetNode)
  | none => []
  | some selectionSet => enterSelectionSet type selectionSet

end

/-- The selection sets of a definition. -/
def enterDefinition : DefinitionNode → List (Option Text × SelectionSetNode)
  | .operation node =>
      context.enterSelectionSet
        (((context.schema.operationRootType node.operation).filter
          context.schema.isObjectType).map GraphQLType.named) node.selectionSet
  | .fragment node =>
      context.enterSelectionSet (context.conditionTypeOf node.typeCondition)
        node.selectionSet
  | _ => []

/-- The selection sets of the document. -/
def enterDocument : List (Option Text × SelectionSetNode) :=
  context.document.definitions.flatMap context.enterDefinition

end ValidationContext

end GraphqlCore
