import GraphqlCore.Language.Ast
import GraphqlCore.Language.BlockString

/-!
# The printer

The visitor of `language/printer.py` leaves every node with its text, after the
texts of its children have been computed; here each method is a function of the
node.  The module `SchemaCoordinates` prints schema coordinates.
-/

namespace GraphqlCore.Language

/-! ## Auxiliary functions -/

/-- Join the texts that are not empty. -/
def join (strings : List Text) (separator : Text := []) : Text :=
  separator.intercalate (strings.filter fun s => !s.isEmpty)

/-- Wrap a text that is not empty. -/
def wrap (start : Text) (string : Text) (stop : Text := []) : Text :=
  if string.isEmpty then [] else start ++ string ++ stop

/-- Put two spaces behind every line feed. -/
def indentLines (string : Text) : Text :=
  string.flatMap fun c => if c = 10 then [10, 32, 32] else [c]

def indent (string : Text) : Text := wrap (str "  ") (indentLines string)

/-- The texts on lines of their own, inside braces. -/
def block (strings : List Text) : Text :=
  wrap (str "\x7b\n") (indent (join strings (str "\n"))) (str "\n\x7d")

def hasMultilineItems (strings : List Text) : Bool :=
  strings.any fun s => s.contains 10

def maxLineLength : ℕ := 80

/-- The prefix with its arguments, in several lines if there are too many. -/
def wrappedLineAndArgs (line : Text) (args : List Text) : Text :=
  let argsLine := line ++ wrap (str "(") (join args (str ", ")) (str ")")
  if maxLineLength < argsLine.length then
    line ++ wrap (str "(\n") (indent (join args (str "\n"))) (str "\n)")
  else argsLine

/-! ## Types and values -/

def printName (node : NameNode) : Text := node.value

def printNamedType (node : NamedTypeNode) : Text := printName node.name

def printType : TypeNode → Text
  | .named node => printNamedType node
  | .list type _ => str "[" ++ printType type ++ str "]"
  | .nonNull type _ => printType type ++ str "!"

def printVariable (node : VariableNode) : Text := str "$" ++ printName node.name

def printStringValue (node : StringValueNode) : Text :=
  if node.block = some true then printBlockString node.value
  else printString node.value

/-- The list in one line, or with a line for each value if it is too long. -/
def printListValue (values : List Text) : Text :=
  let valuesLine := str "[" ++ join values (str ", ") ++ str "]"
  if 80 < valuesLine.length then
    str "[\n" ++ indent (join values (str "\n")) ++ str "\n]"
  else valuesLine

def printObjectValue (fields : List Text) : Text :=
  let fieldsLine := str "\x7b " ++ join fields (str ", ") ++ str " \x7d"
  if maxLineLength < fieldsLine.length then block fields else fieldsLine

mutual

def printValue : ValueNode → Text
  | .variable node => printVariable node
  | .int value _ => value
  | .float value _ => value
  | .string node => printStringValue node
  | .boolean value _ => if value then str "true" else str "false"
  | .null _ => str "null"
  | .enum value _ => value
  | .list values _ => printListValue (printValues values)
  | .object fields _ => printObjectValue (printObjectFields fields)

def printValues : List ValueNode → List Text
  | [] => []
  | value :: rest => printValue value :: printValues rest

def printObjectFields : List ObjectFieldNode → List Text
  | [] => []
  | ⟨name, value, _⟩ :: rest =>
      (printName name ++ str ": " ++ printValue value) :: printObjectFields rest

end

/-! ## Directives and selections -/

def printArgument (node : ArgumentNode) : Text :=
  printName node.name ++ str ": " ++ printValue node.value

def printFragmentArgument (node : FragmentArgumentNode) : Text :=
  printName node.name ++ str ": " ++ printValue node.value

def printArguments (arguments : Option (List ArgumentNode)) : List Text :=
  (arguments.getD []).map printArgument

def printDirective (node : DirectiveNode) : Text :=
  str "@" ++ printName node.name ++
    wrap (str "(") (join (printArguments node.arguments) (str ", ")) (str ")")

/-- The directives, separated by spaces. -/
def printDirectives (directives : Option (List DirectiveNode)) : Text :=
  join ((directives.getD []).map printDirective) (str " ")

def printFragmentSpread (node : FragmentSpreadNode) : Text :=
  wrappedLineAndArgs (str "..." ++ printName node.name)
      ((node.arguments.getD []).map printFragmentArgument) ++
    wrap (str " ") (printDirectives node.directives)

mutual

def printSelection : SelectionNode → Text
  | .field node => printField node
  | .fragmentSpread node => printFragmentSpread node
  | .inlineFragment node => printInlineFragment node

def printField : FieldNode → Text
  | ⟨fieldAlias, name, arguments, directives, selectionSet, _⟩ =>
      let line := join [wrap [] ((fieldAlias.map printName).getD []) (str ": "),
        printName name]
      join [wrappedLineAndArgs line (printArguments arguments),
        wrap (str " ") (printDirectives directives),
        wrap (str " ") (printSelectionSet? selectionSet)]

def printInlineFragment : InlineFragmentNode → Text
  | ⟨typeCondition, directives, selectionSet, _⟩ =>
      join [str "...",
        wrap (str "on ") ((typeCondition.map printNamedType).getD []),
        printDirectives directives, printSelectionSet selectionSet] (str " ")

def printSelectionSet? : Option SelectionSetNode → Text
  | none => []
  | some selectionSet => printSelectionSet selectionSet

def printSelectionSet : SelectionSetNode → Text
  | ⟨selections, _⟩ => block (printSelections selections)

def printSelections : List SelectionNode → List Text
  | [] => []
  | selection :: rest => printSelection selection :: printSelections rest

end

/-! ## Executable definitions -/

/-- The description on lines of its own. -/
def printDescription (description : Option StringValueNode) : Text :=
  wrap [] ((description.map printStringValue).getD []) (str "\n")

def printDefault (start : Text) (defaultValue : Option ValueNode) : Text :=
  wrap start ((defaultValue.map printValue).getD [])

def printVariableDefinition (node : VariableDefinitionNode) : Text :=
  printDescription node.description ++ printVariable node.variableNode ++
    str ": " ++ printType node.type ++ printDefault (str " = ") node.defaultValue ++
    wrap (str " ") (printDirectives node.directives)

def OperationType.value : OperationType → Text
  | .query => str "query"
  | .mutation => str "mutation"
  | .subscription => str "subscription"

def printOperationDefinition (node : OperationDefinitionNode) : Text :=
  let definitions := (node.variableDefinitions.getD []).map printVariableDefinition
  let varDefs := if hasMultilineItems definitions then
      wrap (str "(\n") (join definitions (str "\n")) (str "\n)")
    else wrap (str "(") (join definitions (str ", ")) (str ")")
  let start := printDescription node.description ++
    join [node.operation.value,
      join [(node.name.map printName).getD [], varDefs],
      printDirectives node.directives] (str " ")
  -- Anonymous queries without directives and variables have a short form.
  (if start = str "query" then [] else start ++ str " ") ++
    printSelectionSet node.selectionSet

def printFragmentDefinition (node : FragmentDefinitionNode) : Text :=
  printDescription node.description ++ str "fragment " ++ printName node.name ++
    wrap (str "(") (join ((node.variableDefinitions.getD []).map
      printVariableDefinition) (str ", ")) (str ")") ++
    str " on " ++ printNamedType node.typeCondition ++ str " " ++
    wrap [] (printDirectives node.directives) (str " ") ++
    printSelectionSet node.selectionSet

/-! ## Type system definitions -/

def printOperationTypeDefinition (node : OperationTypeDefinitionNode) : Text :=
  node.operation.value ++ str ": " ++ printNamedType node.type

def printInputValueDefinition (node : InputValueDefinitionNode) : Text :=
  printDescription node.description ++
    join [printName node.name ++ str ": " ++ printType node.type,
      printDefault (str "= ") node.defaultValue,
      printDirectives node.directives] (str " ")

/-- The argument definitions, each on a line of its own if one of them has
several lines. -/
def printArgumentDefs (arguments : Option (List InputValueDefinitionNode)) : Text :=
  let args := (arguments.getD []).map printInputValueDefinition
  if hasMultilineItems args then
    wrap (str "(\n") (indent (join args (str "\n"))) (str "\n)")
  else wrap (str "(") (join args (str ", ")) (str ")")

def printFieldDefinition (node : FieldDefinitionNode) : Text :=
  printDescription node.description ++ printName node.name ++
    printArgumentDefs node.arguments ++ str ": " ++ printType node.type ++
    wrap (str " ") (printDirectives node.directives)

def printEnumValueDefinition (node : EnumValueDefinitionNode) : Text :=
  printDescription node.description ++
    join [printName node.name, printDirectives node.directives] (str " ")

def printInterfaces (interfaces : Option (List NamedTypeNode)) : Text :=
  wrap (str "implements ")
    (join ((interfaces.getD []).map printNamedType) (str " & "))

def printMemberTypes (types : Option (List NamedTypeNode)) : Text :=
  wrap (str "= ") (join ((types.getD []).map printNamedType) (str " | "))

/-- The texts of the parts that object and interface types have in common. -/
def printFieldsType (keyword : Text) (name : NameNode)
    (interfaces : Option (List NamedTypeNode))
    (directives : Option (List DirectiveNode))
    (fields : Option (List FieldDefinitionNode)) : Text :=
  join [keyword, printName name, printInterfaces interfaces,
    printDirectives directives,
    block ((fields.getD []).map printFieldDefinition)] (str " ")

def printUnionType (keyword : Text) (name : NameNode)
    (directives : Option (List DirectiveNode))
    (types : Option (List NamedTypeNode)) : Text :=
  join [keyword, printName name, printDirectives directives,
    printMemberTypes types] (str " ")

def printEnumType (keyword : Text) (name : NameNode)
    (directives : Option (List DirectiveNode))
    (values : Option (List EnumValueDefinitionNode)) : Text :=
  join [keyword, printName name, printDirectives directives,
    block ((values.getD []).map printEnumValueDefinition)] (str " ")

def printInputObjectType (keyword : Text) (name : NameNode)
    (directives : Option (List DirectiveNode))
    (fields : Option (List InputValueDefinitionNode)) : Text :=
  join [keyword, printName name, printDirectives directives,
    block ((fields.getD []).map printInputValueDefinition)] (str " ")

def printSchemaDefinition (node : SchemaDefinitionNode) : Text :=
  printDescription node.description ++
    join [str "schema", printDirectives node.directives,
      block (node.operationTypes.map printOperationTypeDefinition)] (str " ")

def printScalarTypeDefinition (node : ScalarTypeDefinitionNode) : Text :=
  printDescription node.description ++
    join [str "scalar", printName node.name, printDirectives node.directives]
      (str " ")

def printObjectTypeDefinition (node : ObjectTypeDefinitionNode) : Text :=
  printDescription node.description ++ printFieldsType (str "type") node.name
    node.interfaces node.directives node.fields

def printInterfaceTypeDefinition (node : InterfaceTypeDefinitionNode) : Text :=
  printDescription node.description ++ printFieldsType (str "interface") node.name
    node.interfaces node.directives node.fields

def printUnionTypeDefinition (node : UnionTypeDefinitionNode) : Text :=
  printDescription node.description ++
    printUnionType (str "union") node.name node.directives node.types

def printEnumTypeDefinition (node : EnumTypeDefinitionNode) : Text :=
  printDescription node.description ++
    printEnumType (str "enum") node.name node.directives node.values

def printInputObjectTypeDefinition (node : InputObjectTypeDefinitionNode) : Text :=
  printDescription node.description ++
    printInputObjectType (str "input") node.name node.directives node.fields

def printDirectiveDefinition (node : DirectiveDefinitionNode) : Text :=
  printDescription node.description ++ str "directive @" ++ printName node.name ++
    printArgumentDefs node.arguments ++
    wrap (str " ") (printDirectives node.directives) ++
    (if node.repeatable then str " repeatable" else []) ++ str " on " ++
    join (node.locations.map printName) (str " | ")

/-! ## Type system extensions -/

def printSchemaExtension (node : SchemaExtensionNode) : Text :=
  join [str "extend schema", printDirectives node.directives,
    block ((node.operationTypes.getD []).map printOperationTypeDefinition)]
    (str " ")

def printDirectiveExtension (node : DirectiveExtensionNode) : Text :=
  join [str "extend directive @" ++ printName node.name,
    printDirectives node.directives] (str " ")

def printScalarTypeExtension (node : ScalarTypeExtensionNode) : Text :=
  join [str "extend scalar", printName node.name, printDirectives node.directives]
    (str " ")

def printObjectTypeExtension (node : ObjectTypeExtensionNode) : Text :=
  printFieldsType (str "extend type") node.name node.interfaces node.directives
    node.fields

def printInterfaceTypeExtension (node : InterfaceTypeExtensionNode) : Text :=
  printFieldsType (str "extend interface") node.name node.interfaces
    node.directives node.fields

def printUnionTypeExtension (node : UnionTypeExtensionNode) : Text :=
  printUnionType (str "extend union") node.name node.directives node.types

def printEnumTypeExtension (node : EnumTypeExtensionNode) : Text :=
  printEnumType (str "extend enum") node.name node.directives node.values

def printInputObjectTypeExtension (node : InputObjectTypeExtensionNode) : Text :=
  printInputObjectType (str "extend input") node.name node.directives node.fields

/-! ## Documents -/

def printDefinition : DefinitionNode → Text
  | .operation node => printOperationDefinition node
  | .fragment node => printFragmentDefinition node
  | .schema node => printSchemaDefinition node
  | .scalarType node => printScalarTypeDefinition node
  | .objectType node => printObjectTypeDefinition node
  | .interfaceType node => printInterfaceTypeDefinition node
  | .unionType node => printUnionTypeDefinition node
  | .enumType node => printEnumTypeDefinition node
  | .inputObjectType node => printInputObjectTypeDefinition node
  | .directive node => printDirectiveDefinition node
  | .schemaExtension node => printSchemaExtension node
  | .directiveExtension node => printDirectiveExtension node
  | .scalarTypeExtension node => printScalarTypeExtension node
  | .objectTypeExtension node => printObjectTypeExtension node
  | .interfaceTypeExtension node => printInterfaceTypeExtension node
  | .unionTypeExtension node => printUnionTypeExtension node
  | .enumTypeExtension node => printEnumTypeExtension node
  | .inputObjectTypeExtension node => printInputObjectTypeExtension node

/-- Convert a document into a text. -/
def printDocument (node : DocumentNode) : Text :=
  join (node.definitions.map printDefinition) (str "\n\n")

end GraphqlCore.Language
