import GraphqlCore.Language.Parser
import GraphqlCore.Language.TokenChain

/-!
# The parser of documents

The type system definitions and extensions of the class `Parser`, the definitions
of a document, and the functions of `language/parser.py` that parse a source text.
-/

namespace GraphqlCore.Language

namespace Parser

/-! ## Type system definitions -/

def parseOperationTypeDefinition : Parser OperationTypeDefinitionNode := do
  let start ← token
  let operation ← parseOperationType
  let _ ← expectToken .colon
  let type ← parseNamedType
  return { operation := operation, type := type, loc := ← loc start }

def parseSchemaDefinition (bound : ℕ) : Parser SchemaDefinitionNode := do
  let start ← token
  let description ← parseDescription
  expectKeyword (str "schema")
  let directives ← parseConstDirectives bound
  let operationTypes ← many bound .braceL parseOperationTypeDefinition .braceR
  return { description := description, directives := directives
           operationTypes := operationTypes, loc := ← loc start }

/-- ScalarTypeDefinition: Description? scalar Name Directives[Const]? -/
def parseScalarTypeDefinition (bound : ℕ) : Parser ScalarTypeDefinitionNode := do
  let start ← token
  let description ← parseDescription
  expectKeyword (str "scalar")
  let name ← parseName
  let directives ← parseConstDirectives bound
  return { description := description, name := name, directives := directives
           loc := ← loc start }

/-- InputValueDefinition -/
def parseInputValueDef (bound : ℕ) : Parser InputValueDefinitionNode := do
  let start ← token
  let description ← parseDescription
  let name ← parseName
  let _ ← expectToken .colon
  let type ← parseTypeReference bound
  let defaultValue ← parseDefaultValue bound
  let directives ← parseConstDirectives bound
  return { description := description, name := name, type := type
           defaultValue := defaultValue, directives := directives
           loc := ← loc start }

/-- ArgumentsDefinition: (InputValueDefinition+) -/
def parseArgumentDefs (bound : ℕ) : Parser (Option (List InputValueDefinitionNode)) :=
  optionalMany bound .parenL (parseInputValueDef bound) .parenR

def parseFieldDefinition (bound : ℕ) : Parser FieldDefinitionNode := do
  let start ← token
  let description ← parseDescription
  let name ← parseName
  let args ← parseArgumentDefs bound
  let _ ← expectToken .colon
  let type ← parseTypeReference bound
  let directives ← parseConstDirectives bound
  return { description := description, name := name, arguments := args, type := type
           directives := directives, loc := ← loc start }

/-- FieldsDefinition: {FieldDefinition+} -/
def parseFieldsDefinition (bound : ℕ) : Parser (Option (List FieldDefinitionNode)) :=
  optionalMany bound .braceL (parseFieldDefinition bound) .braceR

def parseImplementsInterfaces (bound : ℕ) : Parser (Option (List NamedTypeNode)) := do
  orNone (← expectOptionalKeyword (str "implements"))
    (delimitedMany bound .amp parseNamedType)

def parseObjectTypeDefinition (bound : ℕ) : Parser ObjectTypeDefinitionNode := do
  let start ← token
  let description ← parseDescription
  expectKeyword (str "type")
  let name ← parseName
  let interfaces ← parseImplementsInterfaces bound
  let directives ← parseConstDirectives bound
  let fields ← parseFieldsDefinition bound
  return { description := description, name := name, interfaces := interfaces
           directives := directives, fields := fields, loc := ← loc start }

def parseInterfaceTypeDefinition (bound : ℕ) :
    Parser InterfaceTypeDefinitionNode := do
  let start ← token
  let description ← parseDescription
  expectKeyword (str "interface")
  let name ← parseName
  let interfaces ← parseImplementsInterfaces bound
  let directives ← parseConstDirectives bound
  let fields ← parseFieldsDefinition bound
  return { description := description, name := name, interfaces := interfaces
           directives := directives, fields := fields, loc := ← loc start }

def parseUnionMemberTypes (bound : ℕ) : Parser (Option (List NamedTypeNode)) := do
  orNone (← expectOptionalToken .equals) (delimitedMany bound .pipe parseNamedType)

def parseUnionTypeDefinition (bound : ℕ) : Parser UnionTypeDefinitionNode := do
  let start ← token
  let description ← parseDescription
  expectKeyword (str "union")
  let name ← parseName
  let directives ← parseConstDirectives bound
  let types ← parseUnionMemberTypes bound
  return { description := description, name := name, directives := directives
           types := types, loc := ← loc start }

/-- EnumValue: Name but not `true`, `false` or `null` -/
def parseEnumValueName : Parser NameNode := do
  let token ← token
  if token.value = some (str "true") ∨ token.value = some (str "false") ∨
      token.value = some (str "null") then
    raise token.start (getTokenDesc token ++
      str " is reserved and cannot be used for an enum value.")
  else parseName

/-- EnumValueDefinition: Description? EnumValue Directives[Const]? -/
def parseEnumValueDefinition (bound : ℕ) : Parser EnumValueDefinitionNode := do
  let start ← token
  let description ← parseDescription
  let name ← parseEnumValueName
  let directives ← parseConstDirectives bound
  return { description := description, name := name, directives := directives
           loc := ← loc start }

/-- EnumValuesDefinition: {EnumValueDefinition+} -/
def parseEnumValuesDefinition (bound : ℕ) :
    Parser (Option (List EnumValueDefinitionNode)) :=
  optionalMany bound .braceL (parseEnumValueDefinition bound) .braceR

def parseEnumTypeDefinition (bound : ℕ) : Parser EnumTypeDefinitionNode := do
  let start ← token
  let description ← parseDescription
  expectKeyword (str "enum")
  let name ← parseName
  let directives ← parseConstDirectives bound
  let values ← parseEnumValuesDefinition bound
  return { description := description, name := name, directives := directives
           values := values, loc := ← loc start }

/-- InputFieldsDefinition: {InputValueDefinition+} -/
def parseInputFieldsDefinition (bound : ℕ) :
    Parser (Option (List InputValueDefinitionNode)) :=
  optionalMany bound .braceL (parseInputValueDef bound) .braceR

def parseInputObjectTypeDefinition (bound : ℕ) :
    Parser InputObjectTypeDefinitionNode := do
  let start ← token
  let description ← parseDescription
  expectKeyword (str "input")
  let name ← parseName
  let directives ← parseConstDirectives bound
  let fields ← parseInputFieldsDefinition bound
  return { description := description, name := name, directives := directives
           fields := fields, loc := ← loc start }

/-- The members of the enumeration `DirectiveLocation`. -/
def directiveLocationNames : List Text :=
  [str "QUERY", str "MUTATION", str "SUBSCRIPTION", str "FIELD",
   str "FRAGMENT_DEFINITION", str "FRAGMENT_SPREAD", str "INLINE_FRAGMENT",
   str "VARIABLE_DEFINITION", str "FRAGMENT_VARIABLE_DEFINITION", str "SCHEMA",
   str "SCALAR", str "OBJECT", str "FIELD_DEFINITION", str "ARGUMENT_DEFINITION",
   str "INTERFACE", str "UNION", str "ENUM", str "ENUM_VALUE", str "INPUT_OBJECT",
   str "INPUT_FIELD_DEFINITION", str "DIRECTIVE_DEFINITION"]

def parseDirectiveLocation : Parser NameNode := do
  let start ← token
  let name ← parseName
  if name.value ∈ directiveLocationNames then return name
  else unexpected start

def parseDirectiveLocations (bound : ℕ) : Parser (List NameNode) :=
  delimitedMany bound .pipe parseDirectiveLocation

def parseDirectiveDefinition (bound : ℕ) : Parser DirectiveDefinitionNode := do
  let start ← token
  let description ← parseDescription
  expectKeyword (str "directive")
  let _ ← expectToken .atSign
  let name ← parseName
  let args ← parseArgumentDefs bound
  let s ← Action.get
  let directives ← if s.options.experimentalDirectivesOnDirectiveDefinitions
    then parseConstDirectives bound else pure none
  let repeatable ← expectOptionalKeyword (str "repeatable")
  expectKeyword (str "on")
  let locations ← parseDirectiveLocations bound
  return { description := description, name := name, arguments := args
           directives := directives, repeatable := repeatable
           locations := locations, loc := ← loc start }

/-! ## Type system extensions -/

/-- An extension that extends nothing is an error at the token behind it. -/
def expectExtension (extended : Bool) : Parser Unit := do
  if extended then return () else unexpected (← token)

/-- Is the tuple truthy? -/
def isGiven {α : Type} (nodes : Option (List α)) : Bool := !(nodes.getD []).isEmpty

def parseSchemaExtension (bound : ℕ) : Parser SchemaExtensionNode := do
  let start ← token
  expectKeyword (str "extend")
  expectKeyword (str "schema")
  let directives ← parseConstDirectives bound
  let operationTypes ← optionalMany bound .braceL parseOperationTypeDefinition .braceR
  expectExtension (isGiven directives || isGiven operationTypes)
  return { directives := directives, operationTypes := operationTypes
           loc := ← loc start }

def parseScalarTypeExtension (bound : ℕ) : Parser ScalarTypeExtensionNode := do
  let start ← token
  expectKeyword (str "extend")
  expectKeyword (str "scalar")
  let name ← parseName
  let directives ← parseConstDirectives bound
  expectExtension (isGiven directives)
  return { name := name, directives := directives, loc := ← loc start }

def parseObjectTypeExtension (bound : ℕ) : Parser ObjectTypeExtensionNode := do
  let start ← token
  expectKeyword (str "extend")
  expectKeyword (str "type")
  let name ← parseName
  let interfaces ← parseImplementsInterfaces bound
  let directives ← parseConstDirectives bound
  let fields ← parseFieldsDefinition bound
  expectExtension (isGiven interfaces || isGiven directives || isGiven fields)
  return { name := name, interfaces := interfaces, directives := directives
           fields := fields, loc := ← loc start }

def parseInterfaceTypeExtension (bound : ℕ) : Parser InterfaceTypeExtensionNode := do
  let start ← token
  expectKeyword (str "extend")
  expectKeyword (str "interface")
  let name ← parseName
  let interfaces ← parseImplementsInterfaces bound
  let directives ← parseConstDirectives bound
  let fields ← parseFieldsDefinition bound
  expectExtension (isGiven interfaces || isGiven directives || isGiven fields)
  return { name := name, interfaces := interfaces, directives := directives
           fields := fields, loc := ← loc start }

def parseUnionTypeExtension (bound : ℕ) : Parser UnionTypeExtensionNode := do
  let start ← token
  expectKeyword (str "extend")
  expectKeyword (str "union")
  let name ← parseName
  let directives ← parseConstDirectives bound
  let types ← parseUnionMemberTypes bound
  expectExtension (isGiven directives || isGiven types)
  return { name := name, directives := directives, types := types, loc := ← loc start }

def parseEnumTypeExtension (bound : ℕ) : Parser EnumTypeExtensionNode := do
  let start ← token
  expectKeyword (str "extend")
  expectKeyword (str "enum")
  let name ← parseName
  let directives ← parseConstDirectives bound
  let values ← parseEnumValuesDefinition bound
  expectExtension (isGiven directives || isGiven values)
  return { name := name, directives := directives, values := values
           loc := ← loc start }

def parseInputObjectTypeExtension (bound : ℕ) :
    Parser InputObjectTypeExtensionNode := do
  let start ← token
  expectKeyword (str "extend")
  expectKeyword (str "input")
  let name ← parseName
  let directives ← parseConstDirectives bound
  let fields ← parseInputFieldsDefinition bound
  expectExtension (isGiven directives || isGiven fields)
  return { name := name, directives := directives, fields := fields
           loc := ← loc start }

def parseDirectiveDefinitionExtension (bound : ℕ) :
    Parser DirectiveExtensionNode := do
  let start ← token
  expectKeyword (str "extend")
  expectKeyword (str "directive")
  let _ ← expectToken .atSign
  let name ← parseName
  let directives ← parseConstDirectives bound
  expectExtension (isGiven directives)
  return { name := name, directives := directives, loc := ← loc start }

/-! ## Documents -/

section Methods

variable (bound : ℕ)

/-- The methods for extensions, by the keyword behind `extend`. -/
def typeExtensionMethods : List (Text × Parser DefinitionNode) :=
  [(str "schema", DefinitionNode.schemaExtension <$> parseSchemaExtension bound),
   (str "scalar",
    DefinitionNode.scalarTypeExtension <$> parseScalarTypeExtension bound),
   (str "type",
    DefinitionNode.objectTypeExtension <$> parseObjectTypeExtension bound),
   (str "interface",
    DefinitionNode.interfaceTypeExtension <$> parseInterfaceTypeExtension bound),
   (str "union", DefinitionNode.unionTypeExtension <$> parseUnionTypeExtension bound),
   (str "enum", DefinitionNode.enumTypeExtension <$> parseEnumTypeExtension bound),
   (str "input",
    DefinitionNode.inputObjectTypeExtension <$> parseInputObjectTypeExtension bound)]

/-- The methods for type system definitions, by keyword. -/
def typeSystemDefinitionMethods : List (Text × Parser DefinitionNode) :=
  [(str "schema", DefinitionNode.schema <$> parseSchemaDefinition bound),
   (str "scalar", DefinitionNode.scalarType <$> parseScalarTypeDefinition bound),
   (str "type", DefinitionNode.objectType <$> parseObjectTypeDefinition bound),
   (str "interface",
    DefinitionNode.interfaceType <$> parseInterfaceTypeDefinition bound),
   (str "union", DefinitionNode.unionType <$> parseUnionTypeDefinition bound),
   (str "enum", DefinitionNode.enumType <$> parseEnumTypeDefinition bound),
   (str "input",
    DefinitionNode.inputObjectType <$> parseInputObjectTypeDefinition bound),
   (str "directive", DefinitionNode.directive <$> parseDirectiveDefinition bound)]

/-- The methods for executable definitions, by keyword. -/
def executableDefinitionMethods : List (Text × Parser DefinitionNode) :=
  [(str "query", DefinitionNode.operation <$> parseOperationDefinition bound),
   (str "mutation", DefinitionNode.operation <$> parseOperationDefinition bound),
   (str "subscription", DefinitionNode.operation <$> parseOperationDefinition bound),
   (str "fragment", DefinitionNode.fragment <$> parseFragmentDefinition bound)]

def parseTypeSystemExtension : Parser DefinitionNode := do
  let keywordToken ← lookahead
  if keywordToken.kind = .name then
    match (typeExtensionMethods bound).lookup (keywordToken.value.getD []) with
    | some method => method
    | none => do
        let s ← Action.get
        if keywordToken.value = some (str "directive") ∧
            s.options.experimentalDirectivesOnDirectiveDefinitions then
          DefinitionNode.directiveExtension <$> parseDirectiveDefinitionExtension bound
        else unexpected keywordToken
  else unexpected keywordToken

/-- Definition: ExecutableDefinition or TypeSystemDefinition/Extension -/
def parseDefinition : Parser DefinitionNode := do
  if ← peek .braceL then DefinitionNode.operation <$> parseOperationDefinition bound
  else do
    -- Many definitions begin with a description and require a lookahead.
    let hasDescription ← peekDescription
    let keywordToken ← if hasDescription then lookahead else token
    if hasDescription ∧ keywordToken.kind = .braceL then
      raise (← token).start (str "Unexpected description, " ++
        str "descriptions are not supported on shorthand queries.")
    else if keywordToken.kind = .name then
      let tokenName := keywordToken.value.getD []
      match (typeSystemDefinitionMethods bound).lookup tokenName,
          (executableDefinitionMethods bound).lookup tokenName with
      | some method, _ => method
      | none, some method => method
      | none, none =>
          if hasDescription then
            raise (← token).start (str "Unexpected description, " ++
              str "only GraphQL definitions support descriptions.")
          else if tokenName = str "extend" then parseTypeSystemExtension bound
          else unexpected keywordToken
    else unexpected keywordToken

/-- Document: Definition+ -/
def parseDocument : Parser DocumentNode := do
  let start ← token
  let definitions ← many bound .sof (parseDefinition bound) .eof
  let loc ← loc start
  let s ← Action.get
  return { definitions := definitions, loc := loc, tokenCount := s.tokenCounter }

end Methods

/-- A node that takes up the whole source. -/
def whole {α : Type} (parseFn : Parser α) : Parser α := do
  let _ ← expectToken .sof
  let node ← parseFn
  let _ ← expectToken .eof
  return node

end Parser

/-! ## Parsing a source text -/

/-- The parser of tokens, before its first step. -/
def ParserState.initial (options : ParseOptions)
    (lexed : List Token × Option SyntaxError) : ParserState :=
  { options := options, token := sofToken, lastToken := sofToken
    tokens := lexed.1, failure := lexed.2 }

/-- Run a parser on tokens, with a bound that is above their number. -/
def runParser {α : Type} (options : ParseOptions)
    (lexed : List Token × Option SyntaxError) (parseFn : ℕ → Parser α) :
    Except ParseFailure α :=
  (parseFn (lexed.1.length + 1) (.initial options lexed)).map Prod.fst

def parse (options : ParseOptions) (source : Text) : Except ParseFailure DocumentNode :=
  runParser options (lex source) Parser.parseDocument

def parseValue (options : ParseOptions) (source : Text) :
    Except ParseFailure ValueNode :=
  runParser options (lex source) fun bound =>
    Parser.whole (Parser.parseValueLiteral bound false)

def parseConstValue (options : ParseOptions) (source : Text) :
    Except ParseFailure ValueNode :=
  runParser options (lex source) fun bound =>
    Parser.whole (Parser.parseConstValueLiteral bound)

def parseType (options : ParseOptions) (source : Text) : Except ParseFailure TypeNode :=
  runParser options (lex source) fun bound =>
    Parser.whole (Parser.parseTypeReference bound)

end GraphqlCore.Language
