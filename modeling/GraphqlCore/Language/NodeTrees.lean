import GraphqlCore.Language.SourceTrees

/-!
# The trees of the nodes

The tree of each node class of `language/ast.py`: its children and its own tokens in the order
of the grammar, from a description to the selections or fields at the end.
-/

namespace GraphqlCore.Language

/-! ## Items of the grammar -/

/-- A punctuator. -/
def punctItem (kind : TokenKind) : SourceItem := .token kind none

/-- A keyword or a name. -/
def wordItem (value : Text) : SourceItem := .token .name (some value)

@[simp]
theorem isSolid_punctItem_cons {kind : TokenKind} {items : List SourceItem} :
    IsSolid (punctItem kind :: items) := isSolid_token_cons

@[simp]
theorem isSolid_wordItem_cons {value : Text} {items : List SourceItem} :
    IsSolid (wordItem value :: items) := isSolid_token_cons

def nodeItems (trees : List SourceTree) : List SourceItem := trees.map .child

/-- A node that may be missing. -/
def maybeNode (tree : Option SourceTree) : List SourceItem := nodeItems tree.toList

/-- Nodes between two punctuators, if there are any. -/
def blockItems (openKind closeKind : TokenKind) (trees : List SourceTree) : List SourceItem :=
  if trees.isEmpty then [] else punctItem openKind :: (nodeItems trees ++ [punctItem closeKind])

@[simp]
theorem blockItems_nil {openKind closeKind : TokenKind} : blockItems openKind closeKind [] = [] :=
  rfl

/-- Nodes with a delimiter between them, and perhaps before the first. -/
def delimitedNodes (kind : TokenKind) : List SourceTree → List SourceItem
  | [] => []
  | tree :: trees =>
      .optional kind none :: .child tree ::
        trees.flatMap fun tree => [punctItem kind, .child tree]

/-- A keyword before delimited nodes, if there are any. -/
def clauseItems (keyword : SourceItem) (kind : TokenKind) (trees : List SourceTree) :
    List SourceItem :=
  if trees.isEmpty then [] else keyword :: delimitedNodes kind trees

/-! ## Names, types and values -/

def NameNode.sourceTree (node : NameNode) : SourceTree := .node node.loc [wordItem node.value]

def NamedTypeNode.sourceTree (node : NamedTypeNode) : SourceTree :=
  .node node.loc [.child node.name.sourceTree]

def TypeNode.sourceTree : TypeNode → SourceTree
  | .named node => node.sourceTree
  | .list type loc => .node loc [punctItem .bracketL, .child type.sourceTree, punctItem .bracketR]
  | .nonNull type loc => .node loc [.child type.sourceTree, punctItem .bang]

def VariableNode.sourceTree (node : VariableNode) : SourceTree :=
  .node node.loc [punctItem .dollar, .child node.name.sourceTree]

def StringValueNode.sourceTree (node : StringValueNode) : SourceTree :=
  .node node.loc [.token (if node.block = some true then .blockString else .string)
    (some node.value)]

mutual

def ValueNode.sourceTree : ValueNode → SourceTree
  | .variable node => node.sourceTree
  | .int value loc => .node loc [.token .int (some value)]
  | .float value loc => .node loc [.token .float (some value)]
  | .string node => node.sourceTree
  | .boolean value loc => .node loc [wordItem (if value then str "true" else str "false")]
  | .null loc => .node loc [wordItem (str "null")]
  | .enum value loc => .node loc [wordItem value]
  | .list values loc =>
      .node loc (punctItem .bracketL :: (nodeItems (valueTrees values) ++ [punctItem .bracketR]))
  | .object fields loc =>
      .node loc (punctItem .braceL :: (nodeItems (objectFieldTrees fields) ++ [punctItem .braceR]))

def valueTrees : List ValueNode → List SourceTree
  | [] => []
  | value :: values => value.sourceTree :: valueTrees values

def objectFieldTrees : List ObjectFieldNode → List SourceTree
  | [] => []
  | ⟨name, value, loc⟩ :: fields =>
      .node loc [.child name.sourceTree, punctItem .colon, .child value.sourceTree] ::
        objectFieldTrees fields

end

def ObjectFieldNode.sourceTree (node : ObjectFieldNode) : SourceTree :=
  .node node.loc [.child node.name.sourceTree, punctItem .colon, .child node.value.sourceTree]

theorem valueTrees_eq (values : List ValueNode) :
    valueTrees values = values.map ValueNode.sourceTree := by
  induction values with
  | nil => rfl
  | cons value values ih => rw [valueTrees, ih, List.map_cons]

theorem objectFieldTrees_eq (fields : List ObjectFieldNode) :
    objectFieldTrees fields = fields.map ObjectFieldNode.sourceTree := by
  induction fields with
  | nil => rfl
  | cons field fields ih =>
      obtain ⟨name, value, loc⟩ := field
      rw [objectFieldTrees, ih, List.map_cons, ObjectFieldNode.sourceTree]

/-! ## Arguments and directives -/

def ArgumentNode.sourceTree (node : ArgumentNode) : SourceTree :=
  .node node.loc [.child node.name.sourceTree, punctItem .colon, .child node.value.sourceTree]

def FragmentArgumentNode.sourceTree (node : FragmentArgumentNode) : SourceTree :=
  .node node.loc [.child node.name.sourceTree, punctItem .colon, .child node.value.sourceTree]

/-- The trees of nodes that may be missing. -/
def treesOf {α : Type} (tree : α → SourceTree) (list : Option (List α)) : List SourceTree :=
  (list.getD []).map tree

@[simp]
theorem treesOf_nil {α : Type} {tree : α → SourceTree} : treesOf tree (some []) = [] := rfl

def DirectiveNode.sourceTree (node : DirectiveNode) : SourceTree :=
  .node node.loc (punctItem .atSign :: .child node.name.sourceTree ::
    blockItems .parenL .parenR (treesOf ArgumentNode.sourceTree node.arguments))

def appliedDirectives (directives : Option (List DirectiveNode)) : List SourceItem :=
  nodeItems (treesOf DirectiveNode.sourceTree directives)

@[simp]
theorem appliedDirectives_none : appliedDirectives none = [] := rfl

/-! ## Selections -/

def FragmentSpreadNode.sourceTree (node : FragmentSpreadNode) : SourceTree :=
  .node node.loc (punctItem .spread :: .child node.name.sourceTree ::
    (blockItems .parenL .parenR (treesOf FragmentArgumentNode.sourceTree node.arguments) ++
      appliedDirectives node.directives))

/-- The alias and the name of a field. -/
def aliasItems (fieldAlias : Option NameNode) (name : NameNode) : List SourceItem :=
  match fieldAlias with
  | none => [.child name.sourceTree]
  | some fieldAlias => [.child fieldAlias.sourceTree, punctItem .colon, .child name.sourceTree]

def typeConditionItems (typeCondition : NamedTypeNode) : List SourceItem :=
  [wordItem (str "on"), .child typeCondition.sourceTree]

mutual

def SelectionNode.sourceTree : SelectionNode → SourceTree
  | .field ⟨fieldAlias, name, arguments, directives, none, loc⟩ =>
      .node loc (aliasItems fieldAlias name ++
        (blockItems .parenL .parenR (treesOf ArgumentNode.sourceTree arguments) ++
          appliedDirectives directives))
  | .field ⟨fieldAlias, name, arguments, directives, some selectionSet, loc⟩ =>
      .node loc (aliasItems fieldAlias name ++
        (blockItems .parenL .parenR (treesOf ArgumentNode.sourceTree arguments) ++
          (appliedDirectives directives ++ [.child selectionSet.sourceTree])))
  | .fragmentSpread node => node.sourceTree
  | .inlineFragment ⟨typeCondition, directives, selectionSet, loc⟩ =>
      .node loc (punctItem .spread :: ((typeCondition.map typeConditionItems).getD [] ++
        (appliedDirectives directives ++ [.child selectionSet.sourceTree])))

def SelectionSetNode.sourceTree : SelectionSetNode → SourceTree
  | ⟨selections, loc⟩ =>
      .node loc (punctItem .braceL ::
        (nodeItems (selectionTrees selections) ++ [punctItem .braceR]))

def selectionTrees : List SelectionNode → List SourceTree
  | [] => []
  | selection :: selections => selection.sourceTree :: selectionTrees selections

end

theorem selectionTrees_eq (selections : List SelectionNode) :
    selectionTrees selections = selections.map SelectionNode.sourceTree := by
  induction selections with
  | nil => rfl
  | cons selection selections ih => rw [selectionTrees, ih, List.map_cons]

/-! ## Executable definitions -/

def descriptionItems (description : Option StringValueNode) : List SourceItem :=
  maybeNode (description.map StringValueNode.sourceTree)

/-- A default value, behind an equals sign. -/
def defaultItems (defaultValue : Option ValueNode) : List SourceItem :=
  match defaultValue with
  | none => []
  | some value => [punctItem .equals, .child value.sourceTree]

def VariableDefinitionNode.sourceTree (node : VariableDefinitionNode) : SourceTree :=
  .node node.loc (descriptionItems node.description ++
    (.child node.variableNode.sourceTree :: punctItem .colon :: .child node.type.sourceTree ::
      (defaultItems node.defaultValue ++ appliedDirectives node.directives)))

def OperationType.keyword : OperationType → Text
  | .query => str "query"
  | .mutation => str "mutation"
  | .subscription => str "subscription"

/-- The keyword of a query may be left out where there are only selections. -/
def OperationDefinitionNode.keywordItem (node : OperationDefinitionNode) : SourceItem :=
  match node.operation, node.description, node.name, node.variableDefinitions,
      node.directives with
  | .query, none, none, none, none => .optional .name (some (str "query"))
  | operation, _, _, _, _ => wordItem operation.keyword

def OperationDefinitionNode.sourceTree (node : OperationDefinitionNode) : SourceTree :=
  .node node.loc (descriptionItems node.description ++ (node.keywordItem ::
    (maybeNode (node.name.map NameNode.sourceTree) ++
      (blockItems .parenL .parenR (treesOf VariableDefinitionNode.sourceTree
        node.variableDefinitions) ++
        (appliedDirectives node.directives ++ [.child node.selectionSet.sourceTree])))))

def FragmentDefinitionNode.sourceTree (node : FragmentDefinitionNode) : SourceTree :=
  .node node.loc (descriptionItems node.description ++ (wordItem (str "fragment") ::
    .child node.name.sourceTree ::
    (blockItems .parenL .parenR (treesOf VariableDefinitionNode.sourceTree
      node.variableDefinitions) ++
      (typeConditionItems node.typeCondition ++
        (appliedDirectives node.directives ++ [.child node.selectionSet.sourceTree])))))

/-! ## Type system definitions -/

def OperationTypeDefinitionNode.sourceTree (node : OperationTypeDefinitionNode) : SourceTree :=
  .node node.loc [wordItem node.operation.keyword, punctItem .colon, .child node.type.sourceTree]

def InputValueDefinitionNode.sourceTree (node : InputValueDefinitionNode) : SourceTree :=
  .node node.loc (descriptionItems node.description ++ (.child node.name.sourceTree ::
    punctItem .colon :: .child node.type.sourceTree ::
      (defaultItems node.defaultValue ++ appliedDirectives node.directives)))

def argumentDefItems (arguments : Option (List InputValueDefinitionNode)) : List SourceItem :=
  blockItems .parenL .parenR (treesOf InputValueDefinitionNode.sourceTree arguments)

def FieldDefinitionNode.sourceTree (node : FieldDefinitionNode) : SourceTree :=
  .node node.loc (descriptionItems node.description ++ (.child node.name.sourceTree ::
    (argumentDefItems node.arguments ++ (punctItem .colon :: .child node.type.sourceTree ::
      appliedDirectives node.directives))))

def EnumValueDefinitionNode.sourceTree (node : EnumValueDefinitionNode) : SourceTree :=
  .node node.loc (descriptionItems node.description ++
    (.child node.name.sourceTree :: appliedDirectives node.directives))

def SchemaDefinitionNode.sourceTree (node : SchemaDefinitionNode) : SourceTree :=
  .node node.loc (descriptionItems node.description ++ (wordItem (str "schema") ::
    (appliedDirectives node.directives ++ (punctItem .braceL ::
      (nodeItems (node.operationTypes.map OperationTypeDefinitionNode.sourceTree) ++
        [punctItem .braceR])))))

/-- What a definition and an extension of a type have in common: its keyword and its name. -/
def namedItems (keyword : Text) (name : NameNode) : List SourceItem :=
  [wordItem keyword, .child name.sourceTree]

def interfaceItems (interfaces : Option (List NamedTypeNode)) : List SourceItem :=
  clauseItems (wordItem (str "implements")) .amp (treesOf NamedTypeNode.sourceTree interfaces)

def fieldDefItems (fields : Option (List FieldDefinitionNode)) : List SourceItem :=
  blockItems .braceL .braceR (treesOf FieldDefinitionNode.sourceTree fields)

def memberTypeItems (types : Option (List NamedTypeNode)) : List SourceItem :=
  clauseItems (punctItem .equals) .pipe (treesOf NamedTypeNode.sourceTree types)

def enumValueItems (values : Option (List EnumValueDefinitionNode)) : List SourceItem :=
  blockItems .braceL .braceR (treesOf EnumValueDefinitionNode.sourceTree values)

def inputFieldItems (fields : Option (List InputValueDefinitionNode)) : List SourceItem :=
  blockItems .braceL .braceR (treesOf InputValueDefinitionNode.sourceTree fields)

def ScalarTypeDefinitionNode.sourceTree (node : ScalarTypeDefinitionNode) : SourceTree :=
  .node node.loc (descriptionItems node.description ++
    (namedItems (str "scalar") node.name ++ appliedDirectives node.directives))

/-- Object and interface types have the same fields. -/
def ObjectTypeDefinitionNode.treeFor (node : ObjectTypeDefinitionNode) (keyword : Text) :
    SourceTree :=
  .node node.loc (descriptionItems node.description ++ (namedItems keyword node.name ++
    (interfaceItems node.interfaces ++ (appliedDirectives node.directives ++
      fieldDefItems node.fields))))

def UnionTypeDefinitionNode.sourceTree (node : UnionTypeDefinitionNode) : SourceTree :=
  .node node.loc (descriptionItems node.description ++ (namedItems (str "union") node.name ++
    (appliedDirectives node.directives ++ memberTypeItems node.types)))

def EnumTypeDefinitionNode.sourceTree (node : EnumTypeDefinitionNode) : SourceTree :=
  .node node.loc (descriptionItems node.description ++ (namedItems (str "enum") node.name ++
    (appliedDirectives node.directives ++ enumValueItems node.values)))

def InputObjectTypeDefinitionNode.sourceTree (node : InputObjectTypeDefinitionNode) :
    SourceTree :=
  .node node.loc (descriptionItems node.description ++ (namedItems (str "input") node.name ++
    (appliedDirectives node.directives ++ inputFieldItems node.fields)))

def DirectiveDefinitionNode.sourceTree (node : DirectiveDefinitionNode) : SourceTree :=
  .node node.loc (descriptionItems node.description ++ (wordItem (str "directive") ::
    punctItem .atSign :: .child node.name.sourceTree ::
    (argumentDefItems node.arguments ++ (appliedDirectives node.directives ++
      ((if node.repeatable then [wordItem (str "repeatable")] else []) ++ (wordItem (str "on") ::
        delimitedNodes .pipe (node.locations.map NameNode.sourceTree)))))))

/-! ## Type system extensions -/

def SchemaExtensionNode.sourceTree (node : SchemaExtensionNode) : SourceTree :=
  .node node.loc (wordItem (str "extend") :: wordItem (str "schema") ::
    (appliedDirectives node.directives ++ blockItems .braceL .braceR
      (treesOf OperationTypeDefinitionNode.sourceTree node.operationTypes)))

def DirectiveExtensionNode.sourceTree (node : DirectiveExtensionNode) : SourceTree :=
  .node node.loc (wordItem (str "extend") :: wordItem (str "directive") :: punctItem .atSign ::
    .child node.name.sourceTree :: appliedDirectives node.directives)

def ScalarTypeExtensionNode.sourceTree (node : ScalarTypeExtensionNode) : SourceTree :=
  .node node.loc (wordItem (str "extend") ::
    (namedItems (str "scalar") node.name ++ appliedDirectives node.directives))

def ObjectTypeExtensionNode.treeFor (node : ObjectTypeExtensionNode) (keyword : Text) :
    SourceTree :=
  .node node.loc (wordItem (str "extend") :: (namedItems keyword node.name ++
    (interfaceItems node.interfaces ++ (appliedDirectives node.directives ++
      fieldDefItems node.fields))))

def UnionTypeExtensionNode.sourceTree (node : UnionTypeExtensionNode) : SourceTree :=
  .node node.loc (wordItem (str "extend") :: (namedItems (str "union") node.name ++
    (appliedDirectives node.directives ++ memberTypeItems node.types)))

def EnumTypeExtensionNode.sourceTree (node : EnumTypeExtensionNode) : SourceTree :=
  .node node.loc (wordItem (str "extend") :: (namedItems (str "enum") node.name ++
    (appliedDirectives node.directives ++ enumValueItems node.values)))

def InputObjectTypeExtensionNode.sourceTree (node : InputObjectTypeExtensionNode) :
    SourceTree :=
  .node node.loc (wordItem (str "extend") :: (namedItems (str "input") node.name ++
    (appliedDirectives node.directives ++ inputFieldItems node.fields)))

/-! ## Documents -/

def DefinitionNode.sourceTree : DefinitionNode → SourceTree
  | operation node => node.sourceTree
  | fragment node => node.sourceTree
  | schema node => node.sourceTree
  | scalarType node => node.sourceTree
  | objectType node => node.treeFor (str "type")
  | interfaceType node => node.treeFor (str "interface")
  | unionType node => node.sourceTree
  | enumType node => node.sourceTree
  | inputObjectType node => node.sourceTree
  | directive node => node.sourceTree
  | schemaExtension node => node.sourceTree
  | directiveExtension node => node.sourceTree
  | scalarTypeExtension node => node.sourceTree
  | objectTypeExtension node => node.treeFor (str "type")
  | interfaceTypeExtension node => node.treeFor (str "interface")
  | unionTypeExtension node => node.sourceTree
  | enumTypeExtension node => node.sourceTree
  | inputObjectTypeExtension node => node.sourceTree

/-- A document goes from the start to the end of the file. -/
def DocumentNode.sourceTree (node : DocumentNode) : SourceTree :=
  .node node.loc (punctItem .sof ::
    (nodeItems (node.definitions.map DefinitionNode.sourceTree) ++ [punctItem .eof]))

end GraphqlCore.Language
