import GraphqlCore.Data.Text

/-!
# Printed strings

The functions of `language/print_string.py` and the printing of block strings in
`language/block_string.py`, with the string methods that they use.
-/

namespace GraphqlCore.Language

/-! ## Strings -/

/-- `\u00XX` -/
def escapeControl (c : ℕ) : Text :=
  let digit := fun n => if n < 10 then 48 + n else 55 + n
  [92, 117, 48, 48, digit (c / 16), digit (c % 16)]

/-- The replacement of a code point by the table `escape_sequences`. -/
def escapeCodePoint (c : ℕ) : Text :=
  if c = 8 then [92, 98]
  else if c = 9 then [92, 116]
  else if c = 10 then [92, 110]
  else if c = 12 then [92, 102]
  else if c = 13 then [92, 114]
  else if c = 34 then [92, 34]
  else if c = 92 then [92, 92]
  else if c ≤ 0x1F || (0x7F ≤ c && c ≤ 0x9F) then escapeControl c
  else [c]

/-- Print a string as a string literal. -/
def printString (s : Text) : Text := 34 :: s.flatMap escapeCodePoint ++ [34]

/-! ## Block strings -/

/-- What is known of a value while its code points are scanned. -/
structure PrintableScan where
  isEmptyLine : Bool := true
  hasIndent : Bool := false
  hasCommonIndent : Bool := true
  seenNonEmptyLine : Bool := false

/-- Scan one more code point, unless the value cannot be printed. -/
def PrintableScan.step (scan : PrintableScan) (c : ℕ) : Option PrintableScan :=
  if c = 10 then
    -- A leading line feed would be removed.
    if scan.isEmptyLine && !scan.seenNonEmptyLine then none
    else some { scan with seenNonEmptyLine := true, isEmptyLine := true, hasIndent := false }
  else if c = 32 || c = 9 then some { scan with hasIndent := scan.hasIndent || scan.isEmptyLine }
  else if c ≤ 0x0F then none
  else some { scan with hasCommonIndent := scan.hasCommonIndent && scan.hasIndent
                        isEmptyLine := false }

/-- Is the value printable as a block string? -/
def isPrintableAsBlockString (value : Text) : Bool :=
  if value.isEmpty then true
  else match value.foldlM PrintableScan.step {} with
    | none => false
    | some scan => !scan.isEmptyLine && !(scan.hasCommonIndent && scan.seenNonEmptyLine)

/-- Replace every `"""` by `\"""`, from left to right. -/
def escapeTripleQuotes : Text → Text
  | 34 :: 34 :: 34 :: rest => 92 :: 34 :: 34 :: 34 :: escapeTripleQuotes rest
  | c :: rest => c :: escapeTripleQuotes rest
  | [] => []

/-- The line boundaries of `str.splitlines`. -/
def isLineBoundary (c : ℕ) : Bool :=
  (10 ≤ c && c ≤ 13) || (0x1C ≤ c && c ≤ 0x1E) || c = 0x85 || c = 0x2028 ||
    c = 0x2029

/-- The lines of a text.  A boundary at the end starts no further line. -/
def splitLines : Text → List Text
  | [] => []
  | 13 :: 10 :: rest => [] :: splitLines rest
  | c :: rest =>
      if isLineBoundary c then [] :: splitLines rest
      else match splitLines rest with
        | [] => [[c]]
        | line :: lines => (c :: line) :: lines

def startsWithWhiteSpace : Text → Bool
  | c :: _ => c = 32 || c = 9
  | [] => false

/-- All lines but the first are empty or start with white space. -/
def forcesLeadingNewLine (lines : List Text) : Bool :=
  1 < lines.length &&
    lines.tail.all fun line => line.isEmpty || startsWithWhiteSpace line

/-- Print a block string in the indented block form. -/
def printBlockString (value : Text) (minimize : Bool := false) : Text :=
  let escapedValue := escapeTripleQuotes value
  let lines := if splitLines escapedValue = [] then [[]]
    else splitLines escapedValue
  let isSingleLine := lines.length = 1
  let forceLeadingNewLine := forcesLeadingNewLine lines
  let hasTrailingTripleQuotes := [92, 34, 34, 34].isSuffixOf escapedValue
  let hasTrailingQuote := [34].isSuffixOf value && !hasTrailingTripleQuotes
  let hasTrailingSlash := [92].isSuffixOf value
  let forceTrailingNewLine := hasTrailingQuote || hasTrailingSlash
  let printAsMultipleLines := !minimize &&
    (!isSingleLine || 70 < value.length || forceTrailingNewLine ||
      forceLeadingNewLine || hasTrailingTripleQuotes)
  let skipLeadingNewLine := isSingleLine && startsWithWhiteSpace value
  let before := if (printAsMultipleLines && !skipLeadingNewLine) ||
    forceLeadingNewLine then [10] else []
  let after := if printAsMultipleLines || forceTrailingNewLine then [10] else []
  [34, 34, 34] ++ before ++ escapedValue ++ after ++ [34, 34, 34]

end GraphqlCore.Language
