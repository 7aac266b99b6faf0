import GraphqlCore.Data.Text
import Mathlib.Tactic.Common

/-!
# The lexer

The lexer of `language/lexer.py`, with the character classes and the dedenting of
block strings that it uses.  A position in the source body is modelled by the
number of code points before it together with the text from there on, so that
`body[position + k]` is the `k`-th code point of that text.
-/

namespace GraphqlCore.Language

inductive TokenKind
  | sof
  | eof
  | bang
  | dollar
  | amp
  | parenL
  | parenR
  | dot
  | spread
  | colon
  | equals
  | atSign
  | bracketL
  | bracketR
  | braceL
  | pipe
  | braceR
  | name
  | int
  | float
  | string
  | blockString
  | comment
  deriving DecidableEq

structure Token where
  kind : TokenKind
  start : ℕ
  stop : ℕ
  line : ℕ
  column : ℕ
  value : Option Text := none
  deriving DecidableEq

/-- A syntax error that is raised, or the `IndexError` of an access behind the
end of the body, which is not caught. -/
inductive SyntaxError
  | syntaxError (position : ℕ) (description : Text)
  | indexError
  deriving DecidableEq

/-! ## Character classes -/

def isDigit (c : ℕ) : Bool := 48 ≤ c && c ≤ 57

def isLetter (c : ℕ) : Bool := (65 ≤ c && c ≤ 90) || (97 ≤ c && c ≤ 122)

def isNameStart (c : ℕ) : Bool := isLetter c || c = 95

def isNameContinue (c : ℕ) : Bool := isLetter c || isDigit c || c = 95

def isUnicodeScalarValue (c : ℕ) : Bool :=
  c ≤ 0xD7FF || (0xE000 ≤ c && c ≤ 0x10FFFF)

def isLeadingSurrogate (c : ℕ) : Bool := 0xD800 ≤ c && c ≤ 0xDBFF

def isTrailingSurrogate (c : ℕ) : Bool := 0xDC00 ≤ c && c ≤ 0xDFFF

/-- Does the text start with a surrogate pair? -/
def isSupplementaryCodePoint : Text → Bool
  | c :: d :: _ => isLeadingSurrogate c && isTrailingSurrogate d
  | _ => false

/-- The code point that a surrogate pair encodes. -/
def decodeSurrogatePair (c d : ℕ) : ℕ :=
  0x10000 + (c - 0xD800) * 0x400 + (d - 0xDC00)

/-- Space, tab, comma and byte order mark. -/
def isIgnored (c : ℕ) : Bool := c = 32 || c = 9 || c = 44 || c = 0xFEFF

def isLineEnd (c : ℕ) : Bool := c = 13 || c = 10

def kindForPunct (c : ℕ) : Option TokenKind :=
  match c with
  | 33 => some .bang
  | 36 => some .dollar
  | 38 => some .amp
  | 40 => some .parenL
  | 41 => some .parenR
  | 58 => some .colon
  | 61 => some .equals
  | 64 => some .atSign
  | 91 => some .bracketL
  | 93 => some .bracketR
  | 123 => some .braceL
  | 125 => some .braceR
  | 124 => some .pipe
  | _ => none

/-- The value of a hexadecimal digit. -/
def readHexDigit (c : ℕ) : Option ℕ :=
  if isDigit c then some (c - 48)
  else if 65 ≤ c && c ≤ 70 then some (c - 55)
  else if 97 ≤ c && c ≤ 102 then some (c - 87)
  else none

/-! ## Error messages -/

/-- At least four hexadecimal digits. -/
def formatHex (point : ℕ) : Text :=
  let digits := (Nat.toDigits 16 point).map fun c => c.toUpper.toNat
  List.replicate (4 - digits.length) 48 ++ digits

/-- The code point that the text starts with, for use in error messages. -/
def printCodePointAt : Text → Text
  | [] => str "<EOF>"
  | c :: rest =>
      if 0x20 ≤ c && c ≤ 0x7E then
        if c = 34 then str "'\"'" else [39, c, 39]
      else
        let point := match rest with
          | d :: _ => if isSupplementaryCodePoint (c :: rest) then
              decodeSurrogatePair c d else c
          | [] => c
        str "U+" ++ formatHex point

def invalidCharacterWithinString (position : ℕ) (rest : Text) : SyntaxError :=
  .syntaxError position
    (str "Invalid character within String: " ++ printCodePointAt rest ++ str ".")

def unterminatedString (position : ℕ) : SyntaxError :=
  .syntaxError position (str "Unterminated string.")

def invalidUnicodeEscape (position : ℕ) (escape : Text) : SyntaxError :=
  .syntaxError position
    (str "Invalid Unicode escape sequence: '" ++ escape ++ str "'.")

def expectedDigit (position : ℕ) (rest : Text) : SyntaxError :=
  .syntaxError position
    (str "Invalid number, expected digit but got: " ++ printCodePointAt rest ++
      str ".")

/-! ## Names, numbers and comments -/

/-- The code points of a comment, up to the end of its line. -/
def readComment : Text → Text × Text
  | [] => ([], [])
  | c :: rest =>
      if isLineEnd c then ([], c :: rest)
      else if isUnicodeScalarValue c then
        let (value, rest) := readComment rest
        (c :: value, rest)
      else match rest with
        | d :: rest' =>
            if isSupplementaryCodePoint (c :: d :: rest') then
              let (value, rest) := readComment rest'
              (c :: d :: value, rest)
            else ([], c :: d :: rest')
        | [] => ([], [c])

/-- One or more digits. -/
def readDigits (position : ℕ) (rest : Text) : Except SyntaxError (Text × Text) :=
  match rest with
  | [] => .error (expectedDigit position [])
  | c :: rest =>
      if isDigit c then
        .ok (c :: rest.takeWhile isDigit, rest.dropWhile isDigit)
      else .error (expectedDigit position (c :: rest))

/-- An optional minus sign. -/
def readSign : Text → Text × Text
  | 45 :: rest => ([45], rest)
  | rest => ([], rest)

def readIntegerPart (position : ℕ) (rest : Text) :
    Except SyntaxError (Text × Text) :=
  match rest with
  | 48 :: c :: rest =>
      if isDigit c then
        .error (.syntaxError (position + 1)
          (str "Invalid number, unexpected digit after 0: " ++
            printCodePointAt (c :: rest) ++ str "."))
      else .ok ([48], c :: rest)
  | [48] => .ok ([48], [])
  | rest => readDigits position rest

/-- The digits after a decimal point, if there is one. -/
def readFractionalPart (position : ℕ) (rest : Text) :
    Except SyntaxError (Text × Text) :=
  match rest with
  | 46 :: rest => do
      let (digits, rest) ← readDigits (position + 1) rest
      return (46 :: digits, rest)
  | rest => .ok ([], rest)

/-- The exponent, if there is one. -/
def readExponentPart (position : ℕ) (rest : Text) :
    Except SyntaxError (Text × Text) :=
  match rest with
  | c :: rest =>
      if c = 69 || c = 101 then
        match rest with
        | d :: rest' =>
            if d = 43 || d = 45 then do
              let (digits, rest) ← readDigits (position + 2) rest'
              return (c :: d :: digits, rest)
            else do
              let (digits, rest) ← readDigits (position + 1) rest
              return (c :: digits, rest)
        | [] => .error (expectedDigit (position + 1) [])
      else .ok ([], c :: rest)
  | [] => .ok ([], [])

/-- A number: whether it is a float, its text, and the text after it. -/
def readNumber (position : ℕ) (rest : Text) :
    Except SyntaxError (Bool × Text × Text) := do
  let (sign, rest) := readSign rest
  let position := position + sign.length
  let (integer, rest) ← readIntegerPart position rest
  let position := position + integer.length
  let (fraction, rest) ← readFractionalPart position rest
  let position := position + fraction.length
  let (exponent, rest) ← readExponentPart position rest
  let position := position + exponent.length
  let isFloat := !(fraction.isEmpty && exponent.isEmpty)
  match rest with
  | c :: rest =>
      if c = 46 || isNameStart c then .error (expectedDigit position (c :: rest))
      else return (isFloat, sign ++ integer ++ fraction ++ exponent, c :: rest)
  | [] => return (isFloat, sign ++ integer ++ fraction ++ exponent, [])

/-! ## Strings -/

def escapedChar (c : ℕ) : Option ℕ :=
  match c with
  | 34 => some 34
  | 47 => some 47
  | 92 => some 92
  | 98 => some 8
  | 102 => some 12
  | 110 => some 10
  | 114 => some 13
  | 116 => some 9
  | _ => none

/-- The value of four hexadecimal digits, `none` if one is not valid. -/
def read16BitHexCode (rest : Text) : Except SyntaxError (Option ℕ) :=
  match rest with
  | a :: b :: c :: d :: _ => .ok do
      let a ← readHexDigit a
      let b ← readHexDigit b
      let c ← readHexDigit c
      let d ← readHexDigit d
      return ((a * 16 + b) * 16 + c) * 16 + d
  | _ => .error .indexError

/-- The hexadecimal digits between braces: their value and their number.  At
most `limit` code points are read. -/
def readBracedHex : ℕ → ℕ → ℕ → Text → Option (ℕ × ℕ)
  | 0, _, _, _ => none
  | _ + 1, _, _, [] => none
  | limit + 1, point, size, c :: rest =>
      if c = 125 then
        if 0 < size && isUnicodeScalarValue point then some (point, size)
        else none
      else match readHexDigit c with
        | none => none
        | some digit => readBracedHex limit (point * 16 + digit) (size + 1) rest

/-- How many code points are read before a braced escape is given up. -/
def bracedHexSize : ℕ → ℕ → Text → ℕ
  | 0, size, _ => size
  | _ + 1, size, [] => size
  | limit + 1, size, c :: rest =>
      if c = 125 then size + 1
      else match readHexDigit c with
        | none => size + 1
        | some _ => bracedHexSize limit (size + 1) rest

/-- An escape sequence, from its backslash on: its value and size. -/
def readEscapedUnicodeVariableWidth (position : ℕ) (rest : Text) :
    Except SyntaxError (ℕ × ℕ) :=
  match readBracedHex 9 0 0 (rest.drop 3) with
  | some (point, size) => .ok (point, size + 4)
  | none => .error (invalidUnicodeEscape position
      (rest.take (bracedHexSize 9 3 (rest.drop 3))))

def readEscapedUnicodeFixedWidth (position : ℕ) (rest : Text) :
    Except SyntaxError (ℕ × ℕ) := do
  let invalid := .error (invalidUnicodeEscape position (rest.take 6))
  match ← read16BitHexCode (rest.drop 2) with
  | none => invalid
  | some code =>
      if isUnicodeScalarValue code then return (code, 6)
      else if isLeadingSurrogate code && (rest.drop 6).take 2 = [92, 117] then
        match ← read16BitHexCode (rest.drop 8) with
        | none => invalid
        | some trailing =>
            if isTrailingSurrogate trailing then
              return (decodeSurrogatePair code trailing, 12)
            else invalid
      else invalid

def readEscapedCharacter (position : ℕ) (rest : Text) :
    Except SyntaxError (ℕ × ℕ) :=
  match rest[1]? with
  | none => .error .indexError
  | some c =>
      match escapedChar c with
      | some value => .ok (value, 2)
      | none => .error (.syntaxError position
          (str "Invalid character escape sequence: '" ++ rest.take 2 ++
            str "'."))

def readEscape (position : ℕ) (rest : Text) : Except SyntaxError (ℕ × ℕ) :=
  if rest[1]? = some 117 then
    if rest[2]? = some 123 then readEscapedUnicodeVariableWidth position rest
    else readEscapedUnicodeFixedWidth position rest
  else readEscapedCharacter position rest

/-- The loop of `read_string`, after the opening quote: the value, the number of
code points up to and with the closing quote, and the text after it. -/
def readString (position : ℕ) (rest : Text) :
    Except SyntaxError (Text × ℕ × Text) :=
  match rest with
  | [] => .error (unterminatedString position)
  | c :: tail =>
      if c = 34 then .ok ([], 1, tail)
      else if c = 92 then do
        let (value, size) ← readEscape position (c :: tail)
        let (values, length, rest) ← readString (position + size)
          (tail.drop (size - 1))
        return (value :: values, size + length, rest)
      else if isLineEnd c then .error (unterminatedString position)
      else if isUnicodeScalarValue c then do
        let (values, length, rest) ← readString (position + 1) tail
        return (c :: values, length + 1, rest)
      else if isSupplementaryCodePoint (c :: tail) then do
        let (values, length, rest) ← readString (position + 2) (tail.drop 1)
        return (c :: tail.take 1 ++ values, length + 2, rest)
      else .error (invalidCharacterWithinString position (c :: tail))
termination_by rest.length
decreasing_by all_goals simp <;> omega

/-! ## Block strings -/

def leadingWhiteSpace (line : Text) : ℕ :=
  (line.takeWhile fun c => c = 32 || c = 9).length

/-- A line of white space. -/
def isBlank (line : Text) : Bool := leadingWhiteSpace line = line.length

/-- The common indentation of the lines that are not blank, if there are any. -/
def commonIndent (lines : List Text) : Option ℕ :=
  ((lines.filter fun line => !isBlank line).map leadingWhiteSpace).min?

/-- Produce the value of a block string from its parsed raw value: remove the
common indentation from all lines but the first, and leading and trailing blank
lines. -/
def dedentBlockStringLines (lines : List Text) : List Text :=
  match lines with
  | [] => []
  | first :: rest =>
      let dedented := match commonIndent rest with
        | some indent => first :: rest.map (List.drop indent)
        | none => first :: rest.map fun _ => []
      let start := (lines.takeWhile isBlank).length
      let stop := lines.length - (lines.reverse.takeWhile isBlank).length
      (dedented.take stop).drop start

/-- What is read of a block string after its opening quotes: its raw lines, the
number of code points up to and with the closing quotes, the position at which
the last line starts, and the text after it. -/
structure BlockLines where
  line : Text
  lines : List Text
  length : ℕ
  lineStart : ℕ
  rest : Text

namespace BlockLines

/-- Put text at the front that was read from the given number of code points. -/
def prepend (block : BlockLines) (text : Text) (length : ℕ) : BlockLines :=
  { block with line := text ++ block.line, length := length + block.length }

def prependLine (block : BlockLines) (length : ℕ) : BlockLines :=
  { block with line := [], lines := block.line :: block.lines
               length := length + block.length }

end BlockLines

/-- The loop of `read_block_string`, after the opening quotes. -/
def readBlockLines (position lineStart : ℕ) (rest : Text) :
    Except SyntaxError BlockLines :=
  match rest with
  | [] => .error (unterminatedString position)
  | c :: tail =>
      if c = 34 && tail.take 2 = [34, 34] then
        .ok { line := [], lines := [], length := 3, lineStart := lineStart
              rest := tail.drop 2 }
      else if c = 92 && tail.take 3 = [34, 34, 34] then do
        let block ← readBlockLines (position + 4) lineStart (tail.drop 3)
        return block.prepend [34, 34, 34] 4
      else if isLineEnd c then
        if c = 13 && tail.head? = some 10 then do
          let block ← readBlockLines (position + 2) (position + 2) (tail.drop 1)
          return block.prependLine 2
        else do
          let block ← readBlockLines (position + 1) (position + 1) tail
          return block.prependLine 1
      else if isUnicodeScalarValue c then do
        let block ← readBlockLines (position + 1) lineStart tail
        return block.prepend [c] 1
      else if isSupplementaryCodePoint (c :: tail) then do
        let block ← readBlockLines (position + 2) lineStart (tail.drop 1)
        return block.prepend (c :: tail.take 1) 2
      else .error (invalidCharacterWithinString position (c :: tail))
termination_by rest.length
decreasing_by all_goals simp <;> omega

/-- The lines joined by line feeds. -/
def joinLines : List Text → Text
  | [] => []
  | [line] => line
  | line :: next :: lines => line ++ 10 :: joinLines (next :: lines)

def blockStringValue (block : BlockLines) : Text :=
  joinLines (dedentBlockStringLines (block.line :: block.lines))

/-! ## Tokens -/

/-- The state of the lexer between two tokens: the position in the body, with
the number of the line and the position at which it starts. -/
structure Cursor where
  position : ℕ
  line : ℕ
  lineStart : ℕ
  rest : Text

namespace Cursor

/-- The token of the given length that starts here. -/
def createToken (cursor : Cursor) (kind : TokenKind) (length : ℕ)
    (value : Option Text := none) : Token where
  kind := kind
  start := cursor.position
  stop := cursor.position + length
  line := cursor.line
  column := 1 + cursor.position - cursor.lineStart
  value := value

/-- Behind a token within a line. -/
def advance (cursor : Cursor) (length : ℕ) (rest : Text) : Cursor :=
  { cursor with position := cursor.position + length, rest := rest }

def newLine (cursor : Cursor) (length : ℕ) (rest : Text) : Cursor :=
  { position := cursor.position + length, line := cursor.line + 1
    lineStart := cursor.position + length, rest := rest }

end Cursor

def unexpectedCharacter (position c : ℕ) (rest : Text) : SyntaxError :=
  .syntaxError position
    (if c = 39 then
      str "Unexpected single quote character ('), did you mean to use a double quote (\")?"
    else if isUnicodeScalarValue c || isSupplementaryCodePoint (c :: rest) then
      str "Unexpected character: " ++ printCodePointAt (c :: rest) ++ str "."
    else str "Invalid character: " ++ printCodePointAt (c :: rest) ++ str ".")

def readBlockString (cursor : Cursor) (rest : Text) :
    Except SyntaxError (Token × Cursor) := do
  let block ← readBlockLines (cursor.position + 3) cursor.lineStart rest
  return (cursor.createToken .blockString (3 + block.length)
      (some (blockStringValue block)),
    { position := cursor.position + (3 + block.length)
      line := cursor.line + block.lines.length
      lineStart := block.lineStart, rest := block.rest })

/-- A token that starts with a period. -/
def readPeriod (cursor : Cursor) (rest : Text) :
    Except SyntaxError (Token × Cursor) :=
  match rest with
  | c :: rest' =>
      if c = 46 then
        if rest'.head? = some 46 then
          .ok (cursor.createToken .spread 3, cursor.advance 3 (rest'.drop 1))
        else .error (.syntaxError cursor.position
          (str "Unexpected '..', did you mean '...'?"))
      else if isDigit c then
        .error (.syntaxError cursor.position
          (str "Invalid number, expected digit before '.', did you mean '0." ++
            rest.takeWhile isDigit ++ str "'?"))
      else .error (unexpectedCharacter cursor.position 46 rest)
  | [] => .error (unexpectedCharacter cursor.position 46 [])

/-- The token that starts with the code point `c` at the cursor. -/
def readToken (cursor : Cursor) (c : ℕ) (rest : Text) :
    Except SyntaxError (Token × Cursor) :=
  if c = 35 then
    let (value, rest) := readComment rest
    .ok (cursor.createToken .comment (value.length + 1) (some value),
      cursor.advance (value.length + 1) rest)
  else if c = 34 then
    if rest.take 2 = [34, 34] then readBlockString cursor (rest.drop 2)
    else do
      let (value, length, rest) ← readString (cursor.position + 1) rest
      return (cursor.createToken .string (1 + length) (some value),
        cursor.advance (1 + length) rest)
  else match kindForPunct c with
    | some kind => .ok (cursor.createToken kind 1, cursor.advance 1 rest)
    | none =>
        if isDigit c || c = 45 then do
          let (isFloat, value, rest) ← readNumber cursor.position (c :: rest)
          return (cursor.createToken (if isFloat then .float else .int)
              value.length (some value),
            cursor.advance value.length rest)
        else if isNameStart c then
          let value := c :: rest.takeWhile isNameContinue
          .ok (cursor.createToken .name value.length (some value),
            cursor.advance value.length (rest.dropWhile isNameContinue))
        else if c = 46 then readPeriod cursor rest
        else .error (unexpectedCharacter cursor.position c rest)

/-- Skip ignored characters, and read the next token. -/
def readNextToken (cursor : Cursor) : Except SyntaxError (Token × Cursor) :=
  match _h : cursor.rest with
  | [] => .ok (cursor.createToken .eof 0, cursor)
  | c :: rest =>
      if isIgnored c then readNextToken (cursor.advance 1 rest)
      else if c = 10 then readNextToken (cursor.newLine 1 rest)
      else if c = 13 then
        if rest.head? = some 10 then
          readNextToken (cursor.newLine 2 (rest.drop 1))
        else readNextToken (cursor.newLine 1 rest)
      else readToken cursor c rest
termination_by cursor.rest.length
decreasing_by all_goals simp [Cursor.advance, Cursor.newLine, _h] <;> omega

/-- The tokens that are not comments, up to the end of file or up to an error.
At most `limit` tokens are read. -/
def lexTokens : ℕ → Cursor → List Token × Option SyntaxError
  | 0, _ => ([], none)
  | limit + 1, cursor =>
      match readNextToken cursor with
      | .error error => ([], some error)
      | .ok (token, next) =>
          if token.kind = .eof then ([token], none)
          else
            let (tokens, error) := lexTokens limit next
            if token.kind = .comment then (tokens, error)
            else (token :: tokens, error)

/-- The tokens of a source body.  Every token but the last has a code point of
its own, so that there are no more than these. -/
def lex (body : Text) : List Token × Option SyntaxError :=
  lexTokens (body.length + 1)
    { position := 0, line := 1, lineStart := 0, rest := body }

end GraphqlCore.Language
