import GraphqlCore.Data.Action
import GraphqlCore.Language.Ast
import GraphqlCore.Language.Lexer

/-!
# The parser

The class `Parser` of `language/parser.py`, up to operations and fragments.  The lexer
is asked for one token after the other; since it reads ahead without an effect,
its tokens are given as a list here, with the error that follows the last of
them if the source does not lex.

The loops and the recursion of the parser are bounded by a number.  The bound
that `parse` gives, the number of tokens, is never reached.
-/

namespace GraphqlCore.Language

structure ParseOptions where
  noLocation : Bool := false
  maxTokens : Option ℕ := none
  experimentalFragmentArguments : Bool := false
  experimentalDirectivesOnDirectiveDefinitions : Bool := false

/-- The parser fails with a syntax error, or because its bound is exhausted. -/
inductive ParseFailure
  | raised (error : SyntaxError)
  | exhausted
  deriving DecidableEq

/-- The attributes of the parser and of its lexer: the current and the last
token, the tokens to come, and the error that is raised behind them. -/
structure ParserState where
  options : ParseOptions
  token : Token
  lastToken : Token
  tokens : List Token
  failure : Option SyntaxError
  tokenCounter : ℕ := 0

abbrev Parser (α : Type) := Action ParserState ParseFailure α

/-! ## Token descriptions -/

namespace TokenKind

def value : TokenKind → Text
  | sof => str "<SOF>"
  | eof => str "<EOF>"
  | bang => str "!"
  | dollar => str "$"
  | amp => str "&"
  | parenL => str "("
  | parenR => str ")"
  | dot => str "."
  | spread => str "..."
  | colon => str ":"
  | equals => str "="
  | atSign => str "@"
  | bracketL => str "["
  | bracketR => str "]"
  | braceL => str "\x7b"
  | pipe => str "|"
  | braceR => str "\x7d"
  | name => str "Name"
  | int => str "Int"
  | float => str "Float"
  | string => str "String"
  | blockString => str "BlockString"
  | comment => str "Comment"

def isPunctuator : TokenKind → Bool
  | bang | dollar | amp | parenL | parenR | dot | spread | colon | equals | atSign
  | bracketL | bracketR | braceL | pipe | braceR => true
  | _ => false

end TokenKind

def getTokenKindDesc (kind : TokenKind) : Text :=
  if kind.isPunctuator then str "'" ++ kind.value ++ str "'" else kind.value

def getTokenDesc (token : Token) : Text :=
  getTokenKindDesc token.kind ++ match token.value with
    | some value => str " '" ++ value ++ str "'"
    | none => []

/-- The decimal digits of a number. -/
def printNat (n : ℕ) : Text := (Nat.toDigits 10 n).map Char.toNat

namespace Parser

/-! ## Core parsing utility functions -/

def raise {α : Type} (position : ℕ) (description : Text) : Parser α :=
  Action.throw (.raised (.syntaxError position description))

def exhausted {α : Type} : Parser α := Action.throw .exhausted

/-- The current token. -/
def token : Parser Token := do return (← Action.get).token

/-- The next token, which is the current one at the end of the file. -/
def lookahead : Parser Token := do
  let s ← Action.get
  match s.tokens, s.failure with
  | token :: _, _ => return token
  | [], some error => Action.throw (.raised error)
  | [], none => return s.token

/-- Advance the lexer. -/
def advanceLexer : Parser Unit := do
  let next ← lookahead
  let s ← Action.get
  let s := { s with lastToken := s.token, token := next, tokens := s.tokens.tail }
  if next.kind = .eof then Action.set s
  else do
    Action.set { s with tokenCounter := s.tokenCounter + 1 }
    match s.options.maxTokens with
    | none => return ()
    | some maxTokens =>
        if maxTokens < s.tokenCounter + 1 then
          raise next.start (str "Document contains more than " ++
            printNat maxTokens ++ str " tokens. Parsing aborted.")
        else return ()

/-- The place in the source that created the object that starts here. -/
def loc (startToken : Token) : Parser (Option Location) := do
  let s ← Action.get
  if s.options.noLocation then return none
  else return some ⟨startToken.start, s.lastToken.stop⟩

/-- Determine if the next token is of a given kind. -/
def peek (kind : TokenKind) : Parser Bool := do
  return (← token).kind = kind

def expectToken (kind : TokenKind) : Parser Token := do
  let token ← token
  if token.kind = kind then do
    advanceLexer
    return token
  else
    raise token.start (str "Expected " ++ getTokenKindDesc kind ++ str ", found " ++
      getTokenDesc token ++ str ".")

def expectOptionalToken (kind : TokenKind) : Parser Bool := do
  let token ← token
  if token.kind = kind then do
    advanceLexer
    return true
  else return false

def expectKeyword (value : Text) : Parser Unit := do
  let token ← token
  if token.kind = .name ∧ token.value = some value then advanceLexer
  else
    raise token.start (str "Expected '" ++ value ++ str "', found " ++
      getTokenDesc token ++ str ".")

def expectOptionalKeyword (value : Text) : Parser Bool := do
  let token ← token
  if token.kind = .name ∧ token.value = some value then do
    advanceLexer
    return true
  else return false

/-- The node, if the condition holds. -/
def orNone {α : Type} (condition : Bool) (parseFn : Parser α) : Parser (Option α) :=
  if condition then some <$> parseFn else pure none

/-- Raise an error at an unexpected token. -/
def unexpected {α : Type} (atToken : Token) : Parser α :=
  raise atToken.start (str "Unexpected " ++ getTokenDesc atToken ++ str ".")

section Loops

variable {α : Type}

/-- Nodes up to a token of the given kind. -/
def itemsUntil (closeKind : TokenKind) (parseFn : Parser α) : ℕ → Parser (List α)
  | 0 => exhausted
  | bound + 1 => do
      if ← expectOptionalToken closeKind then return []
      else do
        let node ← parseFn
        let nodes ← itemsUntil closeKind parseFn bound
        return node :: nodes

/-- Fetch any matching nodes, possibly none. -/
def any (bound : ℕ) (openKind : TokenKind) (parseFn : Parser α)
    (closeKind : TokenKind) : Parser (List α) := do
  let _ ← expectToken openKind
  itemsUntil closeKind parseFn bound

/-- At least one node, and more up to a token of the given kind. -/
def someUntil (bound : ℕ) (parseFn : Parser α) (closeKind : TokenKind) :
    Parser (List α) := do
  let node ← parseFn
  let nodes ← itemsUntil closeKind parseFn bound
  return node :: nodes

/-- Fetch matching nodes, maybe none. -/
def optionalMany (bound : ℕ) (openKind : TokenKind) (parseFn : Parser α)
    (closeKind : TokenKind) : Parser (Option (List α)) := do
  orNone (← expectOptionalToken openKind) (someUntil bound parseFn closeKind)

/-- Fetch matching nodes, at least one. -/
def many (bound : ℕ) (openKind : TokenKind) (parseFn : Parser α)
    (closeKind : TokenKind) : Parser (List α) := do
  let _ ← expectToken openKind
  someUntil bound parseFn closeKind

def delimitedItems (delimiterKind : TokenKind) (parseFn : Parser α) :
    ℕ → Parser (List α)
  | 0 => exhausted
  | bound + 1 => do
      let node ← parseFn
      if ← expectOptionalToken delimiterKind then do
        let nodes ← delimitedItems delimiterKind parseFn bound
        return node :: nodes
      else return [node]

/-- Fetch many delimited nodes.  A delimiter may stand before the first. -/
def delimitedMany (bound : ℕ) (delimiterKind : TokenKind) (parseFn : Parser α) :
    Parser (List α) := do
  let _ ← expectOptionalToken delimiterKind
  delimitedItems delimiterKind parseFn bound

end Loops

/-! ## Names, types and values -/

/-- Convert a name lex token into a name parse node. -/
def parseName : Parser NameNode := do
  let token ← expectToken .name
  return { value := token.value.getD [], loc := ← loc token }

def parseNamedType : Parser NamedTypeNode := do
  let start ← token
  let name ← parseName
  return { name := name, loc := ← loc start }

/-- Type: NamedType or ListType or NonNullType -/
def parseTypeReference : ℕ → Parser TypeNode
  | 0 => exhausted
  | bound + 1 => do
      let start ← token
      let type ← if ← expectOptionalToken .bracketL then (do
          let innerType ← parseTypeReference bound
          let _ ← expectToken .bracketR
          TypeNode.list innerType <$> loc start)
        else TypeNode.named <$> parseNamedType
      if ← expectOptionalToken .bang then TypeNode.nonNull type <$> loc start
      else return type

/-- Variable: $Name -/
def parseVariable : Parser VariableNode := do
  let start ← token
  let _ ← expectToken .dollar
  let name ← parseName
  return { name := name, loc := ← loc start }

def parseStringLiteral : Parser StringValueNode := do
  let token ← token
  advanceLexer
  return { value := token.value.getD [], block := some (token.kind = .blockString)
           loc := ← loc token }

def parseInt : Parser ValueNode := do
  let token ← token
  advanceLexer
  ValueNode.int (token.value.getD []) <$> loc token

def parseFloat : Parser ValueNode := do
  let token ← token
  advanceLexer
  ValueNode.float (token.value.getD []) <$> loc token

def parseNamedValues : Parser ValueNode := do
  let token ← token
  let value := token.value.getD []
  advanceLexer
  let loc ← loc token
  if value = str "true" then return .boolean true loc
  else if value = str "false" then return .boolean false loc
  else if value = str "null" then return .null loc
  else return .enum value loc

def parseVariableValue (isConst : Bool) : Parser ValueNode := do
  if isConst then do
    let variableToken ← expectToken .dollar
    let token ← token
    if token.kind = .name then
      raise variableToken.start (str "Unexpected variable '$" ++
        token.value.getD [] ++ str "' in constant value.")
    else unexpected variableToken
  else ValueNode.variable <$> parseVariable

/-- An object field, with its value read by the given function. -/
def parseObjectField (parseValue : Parser ValueNode) : Parser ObjectFieldNode := do
  let start ← token
  let name ← parseName
  let _ ← expectToken .colon
  let value ← parseValue
  ObjectFieldNode.mk name value <$> loc start

def parseValueLiteral : ℕ → Bool → Parser ValueNode
  | 0, _ => exhausted
  | bound + 1, isConst => do
      let start ← token
      match start.kind with
      | .bracketL => do
          let values ← any (bound + 1) .bracketL (parseValueLiteral bound isConst)
            .bracketR
          ValueNode.list values <$> loc start
      | .braceL => do
          let fields ← any (bound + 1) .braceL
            (parseObjectField (parseValueLiteral bound isConst)) .braceR
          ValueNode.object fields <$> loc start
      | .int => parseInt
      | .float => parseFloat
      | .string => ValueNode.string <$> parseStringLiteral
      | .blockString => ValueNode.string <$> parseStringLiteral
      | .name => parseNamedValues
      | .dollar => parseVariableValue isConst
      | _ => unexpected start

def parseConstValueLiteral (bound : ℕ) : Parser ValueNode :=
  parseValueLiteral bound true

def peekDescription : Parser Bool := do
  return (← peek .string) || (← peek .blockString)

def parseDescription : Parser (Option StringValueNode) := do
  orNone (← peekDescription) parseStringLiteral

/-! ## Arguments and directives -/

/-- Argument[Const]: Name : Value[?Const] -/
def parseArgument (bound : ℕ) (isConst : Bool) : Parser ArgumentNode := do
  let start ← token
  let name ← parseName
  let _ ← expectToken .colon
  let value ← parseValueLiteral bound isConst
  return { name := name, value := value, loc := ← loc start }

def parseArguments (bound : ℕ) (isConst : Bool) :
    Parser (Option (List ArgumentNode)) :=
  optionalMany bound .parenL (parseArgument bound isConst) .parenR

/-- A single argument on a fragment spread. -/
def parseFragmentArgument (bound : ℕ) : Parser FragmentArgumentNode := do
  let start ← token
  let name ← parseName
  let _ ← expectToken .colon
  let value ← parseValueLiteral bound false
  return { name := name, value := value, loc := ← loc start }

def parseFragmentArguments (bound : ℕ) :
    Parser (Option (List FragmentArgumentNode)) :=
  optionalMany bound .parenL (parseFragmentArgument bound) .parenR

/-- Directive[Const]: @ Name Arguments[?Const]? -/
def parseDirective (bound : ℕ) (isConst : Bool) : Parser DirectiveNode := do
  let start ← token
  let _ ← expectToken .atSign
  let name ← parseName
  let arguments ← parseArguments bound isConst
  return { name := name, arguments := arguments, loc := ← loc start }

/-- The directives that follow. -/
def directiveItems (bound : ℕ) (isConst : Bool) : ℕ → Parser (List DirectiveNode)
  | 0 => exhausted
  | steps + 1 => do
      if ← peek .atSign then do
        let directive ← parseDirective bound isConst
        let directives ← directiveItems bound isConst steps
        return directive :: directives
      else return []

/-- Directives[Const]: Directive[?Const]+ -/
def parseDirectives (bound : ℕ) (isConst : Bool) :
    Parser (Option (List DirectiveNode)) := do
  let directives ← directiveItems bound isConst bound
  return if directives.isEmpty then none else some directives

def parseConstDirectives (bound : ℕ) : Parser (Option (List DirectiveNode)) :=
  parseDirectives bound true

/-! ## Operations and fragments -/

/-- OperationType: one of query mutation subscription -/
def parseOperationType : Parser OperationType := do
  let operationToken ← expectToken .name
  if operationToken.value = some (str "query") then return .query
  else if operationToken.value = some (str "mutation") then return .mutation
  else if operationToken.value = some (str "subscription") then return .subscription
  else unexpected operationToken

/-- A default value, behind an equals sign. -/
def parseDefaultValue (bound : ℕ) : Parser (Option ValueNode) := do
  orNone (← expectOptionalToken .equals) (parseConstValueLiteral bound)

/-- VariableDefinition: Variable: Type DefaultValue? Directives[Const]? -/
def parseVariableDefinition (bound : ℕ) : Parser VariableDefinitionNode := do
  let start ← token
  let description ← parseDescription
  let variableNode ← parseVariable
  let _ ← expectToken .colon
  let type ← parseTypeReference bound
  let defaultValue ← parseDefaultValue bound
  let directives ← parseConstDirectives bound
  return { description := description, variableNode := variableNode, type := type
           defaultValue := defaultValue, directives := directives
           loc := ← loc start }

/-- VariableDefinitions: (VariableDefinition+) -/
def parseVariableDefinitions (bound : ℕ) :
    Parser (Option (List VariableDefinitionNode)) :=
  optionalMany bound .parenL (parseVariableDefinition bound) .parenR

/-- FragmentName: Name but not `on` -/
def parseFragmentName : Parser NameNode := do
  let token ← token
  if token.value = some (str "on") then unexpected token
  else parseName

def parseTypeCondition : Parser NamedTypeNode := do
  expectKeyword (str "on")
  parseNamedType

/-- The alias of a field, if it has one, and its name. -/
def parseAliasAndName : Parser (Option NameNode × NameNode) := do
  let nameOrAlias ← parseName
  if ← expectOptionalToken .colon then do
    let name ← parseName
    return (some nameOrAlias, name)
  else return (none, nameOrAlias)

/-- Field: Alias? Name Arguments? Directives? SelectionSet? -/
def parseField (bound : ℕ) (parseSelectionSet : Parser SelectionSetNode) :
    Parser FieldNode := do
  let start ← token
  let (fieldAlias, name) ← parseAliasAndName
  let arguments ← parseArguments bound false
  let directives ← parseDirectives bound false
  let selectionSet ← orNone (← peek .braceL) parseSelectionSet
  FieldNode.mk fieldAlias name arguments directives selectionSet <$> loc start

/-- Both FragmentSpread and InlineFragment in the specification. -/
def parseFragment (bound : ℕ) (parseSelectionSet : Parser SelectionSetNode) :
    Parser SelectionNode := do
  let start ← token
  let _ ← expectToken .spread
  let hasTypeCondition ← expectOptionalKeyword (str "on")
  if !hasTypeCondition && (← peek .name) then do
    let name ← parseFragmentName
    let s ← Action.get
    let arguments ← if (← peek .parenL) && s.options.experimentalFragmentArguments
      then parseFragmentArguments bound else pure none
    let directives ← parseDirectives bound false
    let loc ← loc start
    return .fragmentSpread { name := name, arguments := arguments
                             directives := directives, loc := loc }
  else do
    let typeCondition ← orNone hasTypeCondition parseNamedType
    let directives ← parseDirectives bound false
    let selectionSet ← parseSelectionSet
    let loc ← loc start
    return .inlineFragment ⟨typeCondition, directives, selectionSet, loc⟩

/-- Selection: Field or FragmentSpread or InlineFragment -/
def parseSelection (bound : ℕ) (parseSelectionSet : Parser SelectionSetNode) :
    Parser SelectionNode := do
  if ← peek .spread then parseFragment bound parseSelectionSet
  else SelectionNode.field <$> parseField bound parseSelectionSet

/-- SelectionSet: {Selection+} -/
def parseSelectionSet : ℕ → Parser SelectionSetNode
  | 0 => exhausted
  | bound + 1 => do
      let start ← token
      let selections ← many (bound + 1) .braceL
        (parseSelection (bound + 1) (parseSelectionSet bound)) .braceR
      SelectionSetNode.mk selections <$> loc start

def parseOperationDefinition (bound : ℕ) : Parser OperationDefinitionNode := do
  let start ← token
  if ← peek .braceL then do
    let selectionSet ← parseSelectionSet bound
    return { operation := .query, selectionSet := selectionSet, loc := ← loc start }
  else do
    let description ← parseDescription
    let operation ← parseOperationType
    let name ← orNone (← peek .name) parseName
    let variableDefinitions ← parseVariableDefinitions bound
    let directives ← parseDirectives bound false
    let selectionSet ← parseSelectionSet bound
    return { operation := operation, description := description, name := name
             variableDefinitions := variableDefinitions, directives := directives
             selectionSet := selectionSet, loc := ← loc start }

def parseFragmentDefinition (bound : ℕ) : Parser FragmentDefinitionNode := do
  let start ← token
  let description ← parseDescription
  expectKeyword (str "fragment")
  let s ← Action.get
  let name ← parseFragmentName
  let variableDefinitions ← if s.options.experimentalFragmentArguments
    then parseVariableDefinitions bound else pure (some [])
  let typeCondition ← parseTypeCondition
  let directives ← parseDirectives bound false
  let selectionSet ← parseSelectionSet bound
  return { description := description, name := name
           variableDefinitions := variableDefinitions
           typeCondition := typeCondition, directives := directives
           selectionSet := selectionSet, loc := ← loc start }

end Parser

end GraphqlCore.Language
