import GraphqlCore.Data.Text

/-!
# The abstract syntax tree

The node classes of `language/ast.py`.  A constant node class has the fields of
the class it specialises, and shares its type here.  Locations are compared by
`start` and `end` in the source; the tokens they hold besides are left out.
-/

namespace GraphqlCore.Language

structure Location where
  start : ℕ
  stop : ℕ
  deriving DecidableEq

inductive OperationType
  | query
  | mutation
  | subscription
  deriving DecidableEq

structure NameNode where
  value : Text
  loc : Option Location := none
  deriving DecidableEq

/-! ## Types -/

structure NamedTypeNode where
  name : NameNode
  loc : Option Location := none
  deriving DecidableEq

inductive TypeNode
  | named (node : NamedTypeNode)
  | list (type : TypeNode) (loc : Option Location)
  | nonNull (type : TypeNode) (loc : Option Location)
  deriving DecidableEq

/-! ## Values -/

structure VariableNode where
  name : NameNode
  loc : Option Location := none
  deriving DecidableEq

structure StringValueNode where
  value : Text
  block : Option Bool := none
  loc : Option Location := none
  deriving DecidableEq

mutual

inductive ValueNode
  | variable (node : VariableNode)
  | int (value : Text) (loc : Option Location)
  | float (value : Text) (loc : Option Location)
  | string (node : StringValueNode)
  | boolean (value : Bool) (loc : Option Location)
  | null (loc : Option Location)
  | enum (value : Text) (loc : Option Location)
  | list (values : List ValueNode) (loc : Option Location)
  | object (fields : List ObjectFieldNode) (loc : Option Location)

structure ObjectFieldNode where
  name : NameNode
  value : ValueNode
  loc : Option Location

end

/-! ## Directives and selections -/

structure ArgumentNode where
  name : NameNode
  value : ValueNode
  loc : Option Location := none

structure FragmentArgumentNode where
  name : NameNode
  value : ValueNode
  loc : Option Location := none

structure DirectiveNode where
  name : NameNode
  arguments : Option (List ArgumentNode) := none
  loc : Option Location := none

structure FragmentSpreadNode where
  name : NameNode
  arguments : Option (List FragmentArgumentNode) := none
  directives : Option (List DirectiveNode) := none
  loc : Option Location := none

mutual

inductive SelectionNode
  | field (node : FieldNode)
  | fragmentSpread (node : FragmentSpreadNode)
  | inlineFragment (node : InlineFragmentNode)

structure FieldNode where
  fieldAlias : Option NameNode
  name : NameNode
  arguments : Option (List ArgumentNode)
  directives : Option (List DirectiveNode)
  selectionSet : Option SelectionSetNode
  loc : Option Location

structure InlineFragmentNode where
  typeCondition : Option NamedTypeNode
  directives : Option (List DirectiveNode)
  selectionSet : SelectionSetNode
  loc : Option Location

structure SelectionSetNode where
  selections : List SelectionNode
  loc : Option Location

end

def SelectionNode.directives : SelectionNode → Option (List DirectiveNode)
  | .field node => node.directives
  | .fragmentSpread node => node.directives
  | .inlineFragment node => node.directives

/-! ## Executable definitions -/

structure VariableDefinitionNode where
  description : Option StringValueNode := none
  variableNode : VariableNode
  type : TypeNode
  defaultValue : Option ValueNode := none
  directives : Option (List DirectiveNode) := none
  loc : Option Location := none

structure OperationDefinitionNode where
  operation : OperationType
  description : Option StringValueNode := none
  name : Option NameNode := none
  variableDefinitions : Option (List VariableDefinitionNode) := none
  directives : Option (List DirectiveNode) := none
  selectionSet : SelectionSetNode
  loc : Option Location := none

structure FragmentDefinitionNode where
  description : Option StringValueNode := none
  name : NameNode
  variableDefinitions : Option (List VariableDefinitionNode) := none
  typeCondition : NamedTypeNode
  directives : Option (List DirectiveNode) := none
  selectionSet : SelectionSetNode
  loc : Option Location := none

/-! ## Type system definitions -/

structure OperationTypeDefinitionNode where
  operation : OperationType
  type : NamedTypeNode
  loc : Option Location := none

structure InputValueDefinitionNode where
  description : Option StringValueNode := none
  name : NameNode
  type : TypeNode
  defaultValue : Option ValueNode := none
  directives : Option (List DirectiveNode) := none
  loc : Option Location := none

structure FieldDefinitionNode where
  description : Option StringValueNode := none
  name : NameNode
  arguments : Option (List InputValueDefinitionNode) := none
  type : TypeNode
  directives : Option (List DirectiveNode) := none
  loc : Option Location := none

structure EnumValueDefinitionNode where
  description : Option StringValueNode := none
  name : NameNode
  directives : Option (List DirectiveNode) := none
  loc : Option Location := none

structure SchemaDefinitionNode where
  description : Option StringValueNode := none
  directives : Option (List DirectiveNode) := none
  operationTypes : List OperationTypeDefinitionNode := []
  loc : Option Location := none

structure ScalarTypeDefinitionNode where
  description : Option StringValueNode := none
  name : NameNode
  directives : Option (List DirectiveNode) := none
  loc : Option Location := none

structure ObjectTypeDefinitionNode where
  description : Option StringValueNode := none
  name : NameNode
  interfaces : Option (List NamedTypeNode) := none
  directives : Option (List DirectiveNode) := none
  fields : Option (List FieldDefinitionNode) := none
  loc : Option Location := none

/-- The class has the same fields as that of object types. -/
abbrev InterfaceTypeDefinitionNode := ObjectTypeDefinitionNode

structure UnionTypeDefinitionNode where
  description : Option StringValueNode := none
  name : NameNode
  directives : Option (List DirectiveNode) := none
  types : Option (List NamedTypeNode) := none
  loc : Option Location := none

structure EnumTypeDefinitionNode where
  description : Option StringValueNode := none
  name : NameNode
  directives : Option (List DirectiveNode) := none
  values : Option (List EnumValueDefinitionNode) := none
  loc : Option Location := none

structure InputObjectTypeDefinitionNode where
  description : Option StringValueNode := none
  name : NameNode
  directives : Option (List DirectiveNode) := none
  fields : Option (List InputValueDefinitionNode) := none
  loc : Option Location := none

structure DirectiveDefinitionNode where
  description : Option StringValueNode := none
  name : NameNode
  arguments : Option (List InputValueDefinitionNode) := none
  directives : Option (List DirectiveNode) := none
  repeatable : Bool := false
  locations : List NameNode
  loc : Option Location := none

/-! ## Type system extensions -/

structure SchemaExtensionNode where
  directives : Option (List DirectiveNode) := none
  operationTypes : Option (List OperationTypeDefinitionNode) := none
  loc : Option Location := none

structure DirectiveExtensionNode where
  name : NameNode
  directives : Option (List DirectiveNode) := none
  loc : Option Location := none

structure ScalarTypeExtensionNode where
  name : NameNode
  directives : Option (List DirectiveNode) := none
  loc : Option Location := none

structure ObjectTypeExtensionNode where
  name : NameNode
  interfaces : Option (List NamedTypeNode) := none
  directives : Option (List DirectiveNode) := none
  fields : Option (List FieldDefinitionNode) := none
  loc : Option Location := none

/-- The class has the same fields as that of object types. -/
abbrev InterfaceTypeExtensionNode := ObjectTypeExtensionNode

structure UnionTypeExtensionNode where
  name : NameNode
  directives : Option (List DirectiveNode) := none
  types : Option (List NamedTypeNode) := none
  loc : Option Location := none

structure EnumTypeExtensionNode where
  name : NameNode
  directives : Option (List DirectiveNode) := none
  values : Option (List EnumValueDefinitionNode) := none
  loc : Option Location := none

structure InputObjectTypeExtensionNode where
  name : NameNode
  directives : Option (List DirectiveNode) := none
  fields : Option (List InputValueDefinitionNode) := none
  loc : Option Location := none

/-! ## Documents -/

inductive DefinitionNode
  | operation (node : OperationDefinitionNode)
  | fragment (node : FragmentDefinitionNode)
  | schema (node : SchemaDefinitionNode)
  | scalarType (node : ScalarTypeDefinitionNode)
  | objectType (node : ObjectTypeDefinitionNode)
  | interfaceType (node : InterfaceTypeDefinitionNode)
  | unionType (node : UnionTypeDefinitionNode)
  | enumType (node : EnumTypeDefinitionNode)
  | inputObjectType (node : InputObjectTypeDefinitionNode)
  | directive (node : DirectiveDefinitionNode)
  | schemaExtension (node : SchemaExtensionNode)
  | directiveExtension (node : DirectiveExtensionNode)
  | scalarTypeExtension (node : ScalarTypeExtensionNode)
  | objectTypeExtension (node : ObjectTypeExtensionNode)
  | interfaceTypeExtension (node : InterfaceTypeExtensionNode)
  | unionTypeExtension (node : UnionTypeExtensionNode)
  | enumTypeExtension (node : EnumTypeExtensionNode)
  | inputObjectTypeExtension (node : InputObjectTypeExtensionNode)

/-- The number of tokens is set by the parser.  It is not an attribute of the
data class, and is not compared with the document. -/
structure DocumentNode where
  definitions : List DefinitionNode
  loc : Option Location := none
  tokenCount : ℕ := 0

end GraphqlCore.Language
