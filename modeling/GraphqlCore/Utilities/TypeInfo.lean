import GraphqlCore.Execution.VariableValues
import GraphqlCore.Validation.ValidationContext

/-!
# Type information

`TypeInfo` and `TypeInfoVisitor` of `utilities/type_info.py`.  The nodes of a document are
given to the visitor in the order of the visitor keys; what `TypeInfo` does not read of a
node is left out of the tree.  The visitor that is wrapped may skip nodes, but does not edit
them.
-/

namespace GraphqlCore.TypeTracking

open Language

/-! ## The nodes of a document -/

/-- A node as `TypeInfo` sees it. -/
inductive Node
  | document (node : DocumentNode)
  | operationDefinition (operation : OperationType)
  | fragmentDefinition (typeCondition : NamedTypeNode)
  | inlineFragment (typeCondition : Option NamedTypeNode)
  | selectionSet
  | field (name : Text)
  | fragmentSpread (name : Text)
  | fragmentArgument (name : Text)
  | directive (name : Text)
  | variableDefinition (type : TypeNode)
  | argument (name : Text)
  | listValue
  | objectField (name : Text)
  | enumValue (value : Text)
  | variable (node : VariableNode)
  | other (kind : String)

/-- A node with the nodes that are visited below it. -/
inductive Tree
  | node (label : Node) (children : List Tree)

section Trees

def nameTree (_ : NameNode) : Tree := .node (.other "name") []

def namedTypeTree (node : NamedTypeNode) : Tree :=
  .node (.other "named_type") [nameTree node.name]

def typeTree : TypeNode → Tree
  | .named node => namedTypeTree node
  | .list type _ => .node (.other "list_type") [typeTree type]
  | .nonNull type _ => .node (.other "non_null_type") [typeTree type]

def variableTree (node : VariableNode) : Tree := .node (.variable node) [nameTree node.name]

def stringTree (_ : StringValueNode) : Tree := .node (.other "string_value") []

mutual

def valueTree : ValueNode → Tree
  | .variable node => variableTree node
  | .int _ _ => .node (.other "int_value") []
  | .float _ _ => .node (.other "float_value") []
  | .string node => stringTree node
  | .boolean _ _ => .node (.other "boolean_value") []
  | .null _ => .node (.other "null_value") []
  | .enum value _ => .node (.enumValue value) []
  | .list values _ => .node .listValue (valueTrees values)
  | .object fields _ => .node (.other "object_value") (fieldTrees fields)

def valueTrees : List ValueNode → List Tree
  | [] => []
  | value :: rest => valueTree value :: valueTrees rest

def fieldTrees : List ObjectFieldNode → List Tree
  | [] => []
  | ⟨name, value, _⟩ :: rest =>
      .node (.objectField name.value) [nameTree name, valueTree value] :: fieldTrees rest

end

def argumentTree (node : ArgumentNode) : Tree :=
  .node (.argument node.name.value) [nameTree node.name, valueTree node.value]

def fragmentArgumentTree (node : FragmentArgumentNode) : Tree :=
  .node (.fragmentArgument node.name.value) [nameTree node.name, valueTree node.value]

/-- The trees of an optional list of nodes. -/
def listTrees {α : Type} (tree : α → Tree) (nodes : Option (List α)) : List Tree :=
  (nodes.getD []).map tree

def directiveTree (node : DirectiveNode) : Tree :=
  .node (.directive node.name.value) (nameTree node.name :: listTrees argumentTree node.arguments)

def directiveTrees (nodes : Option (List DirectiveNode)) : List Tree :=
  listTrees directiveTree nodes

def spreadTree (node : FragmentSpreadNode) : Tree :=
  .node (.fragmentSpread node.name.value) (nameTree node.name ::
    (listTrees fragmentArgumentTree node.arguments ++ directiveTrees node.directives))

mutual

def selectionTree : SelectionNode → Tree
  | .field ⟨fieldAlias, name, arguments, directives, selectionSet, _⟩ =>
      .node (.field name.value) (fieldAlias.toList.map nameTree ++ [nameTree name] ++
        listTrees argumentTree arguments ++ directiveTrees directives ++
        subselectionTrees selectionSet)
  | .fragmentSpread node => spreadTree node
  | .inlineFragment ⟨typeCondition, directives, selectionSet, _⟩ =>
      .node (.inlineFragment typeCondition) (typeCondition.toList.map namedTypeTree ++
        directiveTrees directives ++ [selectionSetTree selectionSet])

def selectionTrees : List SelectionNode → List Tree
  | [] => []
  | selection :: rest => selectionTree selection :: selectionTrees rest

def selectionSetTree : SelectionSetNode → Tree
  | ⟨selections, _⟩ => .node .selectionSet (selectionTrees selections)

def subselectionTrees : Option SelectionSetNode → List Tree
  | none => []
  | some selectionSet => [selectionSetTree selectionSet]

end

def descriptionTrees (description : Option StringValueNode) : List Tree :=
  description.toList.map stringTree

def variableDefinitionTree (node : VariableDefinitionNode) : Tree :=
  .node (.variableDefinition node.type) (descriptionTrees node.description ++
    [variableTree node.variableNode, typeTree node.type] ++
    node.defaultValue.toList.map valueTree ++ directiveTrees node.directives)

def operationTree (node : OperationDefinitionNode) : Tree :=
  .node (.operationDefinition node.operation) (descriptionTrees node.description ++
    node.name.toList.map nameTree ++ listTrees variableDefinitionTree node.variableDefinitions ++
    directiveTrees node.directives ++ [selectionSetTree node.selectionSet])

def fragmentTree (node : FragmentDefinitionNode) : Tree :=
  .node (.fragmentDefinition node.typeCondition) (descriptionTrees node.description ++
    [nameTree node.name] ++ listTrees variableDefinitionTree node.variableDefinitions ++
    [namedTypeTree node.typeCondition] ++ directiveTrees node.directives ++
    [selectionSetTree node.selectionSet])

def operationTypeTree (node : OperationTypeDefinitionNode) : Tree :=
  .node (.other "operation_type_definition") [namedTypeTree node.type]

def inputValueTree (node : InputValueDefinitionNode) : Tree :=
  .node (.other "input_value_definition") (descriptionTrees node.description ++
    [nameTree node.name, typeTree node.type] ++ node.defaultValue.toList.map valueTree ++
    directiveTrees node.directives)

def fieldDefinitionTree (node : FieldDefinitionNode) : Tree :=
  .node (.other "field_definition") (descriptionTrees node.description ++ [nameTree node.name] ++
    listTrees inputValueTree node.arguments ++ [typeTree node.type] ++
    directiveTrees node.directives)

def enumValueDefinitionTree (node : EnumValueDefinitionNode) : Tree :=
  .node (.other "enum_value_definition") (descriptionTrees node.description ++
    [nameTree node.name] ++ directiveTrees node.directives)

def definitionTree : DefinitionNode → Tree
  | .operation node => operationTree node
  | .fragment node => fragmentTree node
  | .schema node =>
      .node (.other "schema_definition") (descriptionTrees node.description ++
        directiveTrees node.directives ++ node.operationTypes.map operationTypeTree)
  | .scalarType node =>
      .node (.other "scalar_type_definition") (descriptionTrees node.description ++
        [nameTree node.name] ++ directiveTrees node.directives)
  | .objectType node =>
      .node (.other "object_type_definition") (descriptionTrees node.description ++
        [nameTree node.name] ++ listTrees namedTypeTree node.interfaces ++
        directiveTrees node.directives ++ listTrees fieldDefinitionTree node.fields)
  | .interfaceType node =>
      .node (.other "interface_type_definition") (descriptionTrees node.description ++
        [nameTree node.name] ++ listTrees namedTypeTree node.interfaces ++
        directiveTrees node.directives ++ listTrees fieldDefinitionTree node.fields)
  | .unionType node =>
      .node (.other "union_type_definition") (descriptionTrees node.description ++
        [nameTree node.name] ++ directiveTrees node.directives ++
        listTrees namedTypeTree node.types)
  | .enumType node =>
      .node (.other "enum_type_definition") (descriptionTrees node.description ++
        [nameTree node.name] ++ directiveTrees node.directives ++
        listTrees enumValueDefinitionTree node.values)
  | .inputObjectType node =>
      .node (.other "input_object_type_definition") (descriptionTrees node.description ++
        [nameTree node.name] ++ directiveTrees node.directives ++
        listTrees inputValueTree node.fields)
  | .directive node =>
      .node (.other "directive_definition") (descriptionTrees node.description ++
        [nameTree node.name] ++ listTrees inputValueTree node.arguments ++
        directiveTrees node.directives ++ node.locations.map nameTree)
  | .schemaExtension node =>
      .node (.other "schema_extension") (directiveTrees node.directives ++
        listTrees operationTypeTree node.operationTypes)
  | .directiveExtension node =>
      .node (.other "directive_extension") ([nameTree node.name] ++
        directiveTrees node.directives)
  | .scalarTypeExtension node =>
      .node (.other "scalar_type_extension") ([nameTree node.name] ++
        directiveTrees node.directives)
  | .objectTypeExtension node =>
      .node (.other "object_type_extension") ([nameTree node.name] ++
        listTrees namedTypeTree node.interfaces ++ directiveTrees node.directives ++
        listTrees fieldDefinitionTree node.fields)
  | .interfaceTypeExtension node =>
      .node (.other "interface_type_extension") ([nameTree node.name] ++
        listTrees namedTypeTree node.interfaces ++ directiveTrees node.directives ++
        listTrees fieldDefinitionTree node.fields)
  | .unionTypeExtension node =>
      .node (.other "union_type_extension") ([nameTree node.name] ++
        directiveTrees node.directives ++ listTrees namedTypeTree node.types)
  | .enumTypeExtension node =>
      .node (.other "enum_type_extension") ([nameTree node.name] ++
        directiveTrees node.directives ++ listTrees enumValueDefinitionTree node.values)
  | .inputObjectTypeExtension node =>
      .node (.other "input_object_type_extension") ([nameTree node.name] ++
        directiveTrees node.directives ++ listTrees inputValueTree node.fields)

def documentTree (document : DocumentNode) : Tree :=
  .node (.document document) (document.definitions.map definitionTree)

end Trees

/-! ## The tracker -/

/-- What `get_default_value` returns: `None` where nothing is tracked, and `Undefined` where
there is no default. -/
inductive LocationDefault
  | none
  | undefined
  | input (default : GraphQLDefaultInput)
  | value (value : Value)

/-- `default if default is not None else default_value`. -/
def defaultOf (input : Option GraphQLArgument) : LocationDefault :=
  match input with
  | none => .undefined
  | some input =>
      match input.default, input.defaultValue with
      | some default, _ => .input default
      | none, some value => .value value
      | none, none => .undefined

/-- The stacks have their top in front. -/
structure TypeInfo where
  typeStack : List (Option GraphQLType) := []
  parentTypeStack : List (Option Text) := []
  inputTypeStack : List (Option GraphQLType) := []
  fieldDefStack : List (Option GraphQLField) := []
  defaultValueStack : List LocationDefault := []
  directive : Option GraphQLDirective := none
  argument : Option GraphQLArgument := none
  enumValue : Option GraphQLEnumValue := none
  fragmentSignaturesByName : Text → Option FragmentSignature := fun _ => none
  fragmentSignature : Option FragmentSignature := none
  fragmentArgument : Option VariableDefinitionNode := none

namespace TypeInfo

variable (info : TypeInfo)

def getType : Option GraphQLType := info.typeStack.head?.join

def getParentType : Option Text := info.parentTypeStack.head?.join

def getInputType : Option GraphQLType := info.inputTypeStack.head?.join

def getParentInputType : Option GraphQLType := info.inputTypeStack.tail.head?.join

def getFieldDef : Option GraphQLField := info.fieldDefStack.head?.join

def getDefaultValue : LocationDefault := info.defaultValueStack.head?.getD .none

end TypeInfo

section Lookups

variable (schema : GraphQLSchema)

def getDirective (name : Text) : Option GraphQLDirective :=
  schema.directives.find? fun directive => directive.name = name

/-- The named type of a reference, if it is a composite type. -/
def compositeOf (type : Option GraphQLType) : Option Text :=
  (type.map GraphQLType.getNamedType).filter schema.isCompositeType

def outputOf (type : Option GraphQLType) : Option GraphQLType :=
  type.filter schema.isOutputType

def inputOf (type : Option GraphQLType) : Option GraphQLType :=
  type.filter schema.isInputType

/-- The type in an inline fragment or a fragment definition. -/
def conditionType (type : Option GraphQLType) (typeCondition : Option NamedTypeNode) :
    Option GraphQLType :=
  outputOf schema (match typeCondition with
    | some typeCondition => Execution.typeFromAst schema (.named typeCondition)
    | none => type.map fun type => .named type.getNamedType)

def rootType (operation : OperationType) : Option GraphQLType :=
  ((schema.operationRootType operation).filter schema.isObjectType).map GraphQLType.named

/-- The type of the items, if the type is a list. -/
def itemTypeOf : Option GraphQLType → Option GraphQLType
  | some (.list type) => some type
  | some (.nonNull (.list type)) => some type
  | _ => none

/-- The input field of that name, if the type is an input object. -/
def inputFieldOf (type : Option GraphQLType) (name : Text) : Option GraphQLInputField :=
  type.bind fun type =>
    match schema.getType type.getNamedType with
    | some (.inputObject fields _ _) => fields.get name
    | _ => none

/-- The enum value of that name, if the type is an enum. -/
def enumValueOf (type : Option GraphQLType) (name : Text) : Option GraphQLEnumValue :=
  type.bind fun type =>
    match schema.getType type.getNamedType with
    | some (.enum values _) => values.get name
    | _ => none

end Lookups

namespace TypeInfo

variable (schema : GraphQLSchema)

def enter (info : TypeInfo) : Node → TypeInfo
  | .document node =>
      { info with fragmentSignaturesByName := (getFragmentSignatures node).get }
  | .selectionSet =>
      { info with parentTypeStack := compositeOf schema info.getType :: info.parentTypeStack }
  | .field name =>
      let fieldDef := info.getParentType.bind fun parentType => schema.getField parentType name
      { info with
        fieldDefStack := fieldDef :: info.fieldDefStack
        typeStack := outputOf schema (fieldDef.map GraphQLField.type) :: info.typeStack }
  | .directive name => { info with directive := getDirective schema name }
  | .operationDefinition operation =>
      { info with typeStack := rootType schema operation :: info.typeStack }
  | .fragmentSpread name =>
      { info with fragmentSignature := info.fragmentSignaturesByName name }
  | .inlineFragment typeCondition =>
      { info with typeStack := conditionType schema info.getType typeCondition :: info.typeStack }
  | .fragmentDefinition typeCondition =>
      { info with
        typeStack := conditionType schema info.getType (some typeCondition) :: info.typeStack }
  | .variableDefinition type =>
      { info with
        inputTypeStack :=
          inputOf schema (Execution.typeFromAst schema type) :: info.inputTypeStack }
  | .fragmentArgument name =>
      let argDef := info.fragmentSignature.bind fun signature =>
        signature.variableDefinitions.get name
      { info with
        fragmentArgument := argDef
        defaultValueStack := .undefined :: info.defaultValueStack
        inputTypeStack := inputOf schema
          (argDef.bind fun argDef => Execution.typeFromAst schema argDef.type) ::
            info.inputTypeStack }
  | .argument name =>
      let args := (info.directive.map GraphQLDirective.args).or
        (info.getFieldDef.map GraphQLField.args)
      let argDef := args.bind fun args => args.get name
      { info with
        argument := argDef
        defaultValueStack := defaultOf argDef :: info.defaultValueStack
        inputTypeStack := inputOf schema (argDef.map fun argDef => argDef.type) ::
          info.inputTypeStack }
  | .listValue =>
      { info with
        defaultValueStack := .undefined :: info.defaultValueStack
        inputTypeStack := inputOf schema (itemTypeOf info.getInputType) :: info.inputTypeStack }
  | .objectField name =>
      let inputField := inputFieldOf schema info.getInputType name
      { info with
        defaultValueStack := defaultOf inputField :: info.defaultValueStack
        inputTypeStack := inputOf schema (inputField.map fun inputField => inputField.type) ::
          info.inputTypeStack }
  | .enumValue value => { info with enumValue := enumValueOf schema info.getInputType value }
  | .variable _ => info
  | .other _ => info

def leave (info : TypeInfo) : Node → TypeInfo
  | .document _ => { info with fragmentSignaturesByName := fun _ => none }
  | .selectionSet => { info with parentTypeStack := info.parentTypeStack.tail }
  | .field _ =>
      { info with fieldDefStack := info.fieldDefStack.tail, typeStack := info.typeStack.tail }
  | .directive _ => { info with directive := none }
  | .operationDefinition _ => { info with typeStack := info.typeStack.tail }
  | .fragmentSpread _ => { info with fragmentSignature := none }
  | .inlineFragment _ => { info with typeStack := info.typeStack.tail }
  | .fragmentDefinition _ => { info with typeStack := info.typeStack.tail }
  | .variableDefinition _ => { info with inputTypeStack := info.inputTypeStack.tail }
  | .fragmentArgument _ =>
      { info with
        fragmentArgument := none
        defaultValueStack := info.defaultValueStack.tail
        inputTypeStack := info.inputTypeStack.tail }
  | .argument _ =>
      { info with
        argument := none
        defaultValueStack := info.defaultValueStack.tail
        inputTypeStack := info.inputTypeStack.tail }
  | .listValue | .objectField _ =>
      { info with
        defaultValueStack := info.defaultValueStack.tail
        inputTypeStack := info.inputTypeStack.tail }
  | .enumValue _ => { info with enumValue := none }
  | .variable _ => info
  | .other _ => info

end TypeInfo

/-! ## The visitor -/

/-- A visitor that sees the type information and may skip nodes. -/
structure Observer (σ : Type) where
  enter : List Node → Node → TypeInfo → σ → Bool × σ
  leave : List Node → Node → TypeInfo → σ → σ

variable {σ : Type} (schema : GraphQLSchema) (visitor : Observer σ)

mutual

/-- Visit a node below its ancestors with the `TypeInfoVisitor` for the visitor. -/
def visitNode (ancestors : List Node) : Tree → TypeInfo × σ → TypeInfo × σ
  | .node node children, (info, state) =>
      let entered := info.enter schema node
      match visitor.enter ancestors node entered state with
      | (true, state) => (entered.leave node, state)
      | (false, state) =>
          let (info, state) := visitNodes (ancestors ++ [node]) children (entered, state)
          (info.leave node, visitor.leave ancestors node info state)

def visitNodes (ancestors : List Node) : List Tree → TypeInfo × σ → TypeInfo × σ
  | [], state => state
  | tree :: rest, state => visitNodes ancestors rest (visitNode ancestors tree state)

end

/-- Visit a document with new type information. -/
def visitDocument (document : DocumentNode) (state : σ) : TypeInfo × σ :=
  visitNode schema visitor [] (documentTree document) ({}, state)

/-- A call of an enter or leave method. -/
structure Call where
  isLeaving : Bool
  ancestors : List Node
  node : Node
  info : TypeInfo

/-- The visitor that also notes its calls. -/
def Observer.recording : Observer (σ × List Call) where
  enter ancestors node info state :=
    let (skip, state') := visitor.enter ancestors node info state.1
    (skip, state', state.2 ++ [⟨false, ancestors, node, info⟩])
  leave ancestors node info state :=
    (visitor.leave ancestors node info state.1, state.2 ++ [⟨true, ancestors, node, info⟩])

end GraphqlCore.TypeTracking
