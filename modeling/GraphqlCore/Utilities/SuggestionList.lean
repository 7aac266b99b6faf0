import GraphqlCore.Data.LinearRel
import GraphqlCore.Data.DictMerge
import GraphqlCore.Utilities.SortValueNode

/-!
# Lists with suggestions

The function and the class of `pyutils/suggestion_list.py`, with the keys of
`pyutils/natural_compare.py` for all of Unicode.  What the string methods of the host
language know of code points is given.
-/

namespace GraphqlCore.Suggestion

/-! ## What is given -/

/-- The string methods, and how many digits are converted to a number. -/
structure StringMethods where
  lower : Text → Text
  /-- The value of a decimal digit. -/
  decimal : ℕ → Option ℕ
  /-- The limit of the conversion of digits, if there is one. -/
  maxStrDigits : Option ℕ

inductive SuggestionError
  | indexError
  | valueError
  deriving DecidableEq

/-! ## Natural sort order -/

section NaturalOrder

variable (methods : StringMethods)

def isDecimal (c : ℕ) : Bool := (methods.decimal c).isSome

/-- The parts of the text without and with digits, which alternate. -/
def splitNumbers : Bool → Text → Text → List Text
  | _, part, [] => [part]
  | digits, part, c :: rest =>
      if isDecimal methods c = digits then splitNumbers digits (part ++ [c]) rest
      else part :: splitNumbers (!digits) [c] rest

/-- Are there more digits than are converted? -/
def isTooLong (digits : Text) : Bool :=
  match methods.maxStrDigits with
  | some limit => limit < digits.length
  | none => false

def parseNumber (digits : Text) : Except SuggestionError ℕ :=
  if isTooLong methods digits then .error .valueError
  else .ok (digits.foldl (fun n c => 10 * n + (methods.decimal c).getD 0) 0)

/-- The parts with the values of those that are digits. -/
def keyParts : Bool → List Text → Except SuggestionError (List (ℕ × Text))
  | _, [] => .ok []
  | digits, part :: rest => do
      let value ← if digits then parseNumber methods part else pure 0
      let parts ← keyParts (!digits) rest
      return (value, part) :: parts

/-- Comparison key for sorting strings by natural sort order. -/
def naturalComparisonKey (key : Text) : Except SuggestionError (List (ℕ × Text)) :=
  let parts := splitNumbers methods false [] key
  keyParts methods false (if parts.length % 2 = 0 then parts ++ [[]] else parts)

end NaturalOrder

/-! ## Lists that are changed in place -/

/-- The item of a list, unless the index is out of range. -/
def getItem {α : Type} (items : List α) (i : ℕ) : Except SuggestionError α :=
  match items[i]? with
  | some item => .ok item
  | none => .error .indexError

def setItem {α : Type} (items : List α) (i : ℕ) (item : α) :
    Except SuggestionError (List α) :=
  if i < items.length then .ok (items.set i item) else .error .indexError

abbrev Rows := List (List ℕ)

def getCell (rows : Rows) (i j : ℕ) : Except SuggestionError ℕ := do
  let row ← getItem rows i
  getItem row j

def setCell (rows : Rows) (i j cell : ℕ) : Except SuggestionError Rows := do
  let row ← getItem rows i
  let row ← setItem row j cell
  setItem rows i row

/-! ## Distances -/

/-- Computes the lexical distance between strings A and B. -/
structure LexicalDistance where
  input : Text
  inputLowerCase : Text
  rows : Rows

def LexicalDistance.init (methods : StringMethods) (input : Text) : LexicalDistance where
  input := input
  inputLowerCase := methods.lower input
  rows := List.replicate 3 (List.replicate (input.length + 1) 0)

section Measure

variable (a b : Text)

/-- Are the last items of these parts swapped? -/
def isTransposition (i j : ℕ) : Except SuggestionError Bool :=
  if 1 < i ∧ 1 < j then do
    let last ← getItem a (i - 1)
    let earlier' ← getItem b (j - 2)
    if last = earlier' then
      let earlier ← getItem a (i - 2)
      let last' ← getItem b (j - 1)
      return decide (earlier = last')
    else return false
  else .ok false

/-- The body of the loop over the cells of a row. -/
def measureCell (i : ℕ) (state : Rows × ℕ) (j : ℕ) : Except SuggestionError (Rows × ℕ) := do
  let (rows, smallestCell) := state
  let last ← getItem a (i - 1)
  let last' ← getItem b (j - 1)
  let cost := if last = last' then 0 else 1
  let delete ← getCell rows ((i - 1) % 3) j
  let insert ← getCell rows (i % 3) (j - 1)
  let substitute ← getCell rows ((i - 1) % 3) (j - 1)
  let currentCell := min (min (delete + 1) (insert + 1)) (substitute + cost)
  let currentCell ← if ← isTransposition a b i j then do
      let doubleDiagonalCell ← getCell rows ((i - 2) % 3) (j - 2)
      pure (min currentCell (doubleDiagonalCell + 1))
    else pure currentCell
  let rows ← setCell rows (i % 3) j currentCell
  return (rows, min currentCell smallestCell)

/-- Fill in a row.  The smallest cell of the row is also returned. -/
def measureRow (rows : Rows) (i : ℕ) : Except SuggestionError (Rows × ℕ) := do
  let rows ← setCell rows (i % 3) 0 i
  (List.range' 1 b.length).foldlM (measureCell a b i) (rows, i)

/-- The loop over the rows, which is left early if a distance cannot be small enough any
more. -/
def measureRows (threshold : ℤ) : List ℕ → Rows → Except SuggestionError (Rows × Bool)
  | [], rows => .ok (rows, true)
  | i :: rest, rows => do
      let (rows, smallestCell) ← measureRow a b rows i
      if threshold < smallestCell then return (rows, false)
      else measureRows threshold rest rows

/-- The distance of two texts, of which the first one is not shorter. -/
def measureTexts (rows : Rows) (threshold : ℤ) :
    Except SuggestionError (Option ℕ × Rows) := do
  if threshold < (a.length : ℤ) - b.length then return (none, rows)
  let rows ← (List.range (b.length + 1)).foldlM (fun rows j => setCell rows 0 j j) rows
  match ← measureRows a b threshold (List.range' 1 a.length) rows with
  | (rows, false) => return (none, rows)
  | (rows, true) => do
      let distance ← getCell rows (a.length % 3) b.length
      return (if (distance : ℤ) ≤ threshold then some distance else none, rows)

end Measure

/-- The distance to an option, and the object behind the call. -/
def LexicalDistance.measure (methods : StringMethods) (lexicalDistance : LexicalDistance)
    (option : Text) (threshold : ℤ) :
    Except SuggestionError (Option ℕ × LexicalDistance) := do
  if lexicalDistance.input = option then return (some 0, lexicalDistance)
  let optionLowerCase := methods.lower option
  -- Any case change counts as a single edit.
  if lexicalDistance.inputLowerCase = optionLowerCase then return (some 1, lexicalDistance)
  let a := optionLowerCase
  let b := lexicalDistance.inputLowerCase
  let (a, b) := if a.length < b.length then (b, a) else (a, b)
  let (distance, rows) ← measureTexts a b lexicalDistance.rows threshold
  return (distance, { lexicalDistance with rows := rows })

/-! ## Suggestions -/

section Suggestions

variable (methods : StringMethods)

/-- The number of edits that are tolerated, `int(len(input_) * 0.4) + 1`. -/
def thresholdOf (input : Text) : ℕ := input.length * 2 / 5 + 1

/-- The body of the loop over the options. -/
def measureOption (threshold : ℤ) (state : Dict Text ℕ × LexicalDistance) (option : Text) :
    Except SuggestionError (Dict Text ℕ × LexicalDistance) := do
  let (optionsByDistance, lexicalDistance) := state
  match ← lexicalDistance.measure methods option threshold with
  | (some distance, lexicalDistance) =>
      return (optionsByDistance.set option distance, lexicalDistance)
  | (none, lexicalDistance) => return (optionsByDistance, lexicalDistance)

/-- An option with the key by which it is sorted. -/
def withKey (entry : Text × ℕ) : Except SuggestionError (Text × ℕ × List (ℕ × Text)) := do
  let key ← naturalComparisonKey methods entry.1
  return (entry.1, entry.2, key)

/-- Get list with suggestions for a given input. -/
def suggestionList (input : Text) (options : List Text) : Except SuggestionError (List Text) := do
  let (optionsByDistance, _) ← options.foldlM (measureOption methods (thresholdOf input))
    (Dict.empty, LexicalDistance.init methods input)
  let keyed ← optionsByDistance.items.mapM (withKey methods)
  return (sortBy (pairLe (fun n m => decide (n ≤ m)) keyLe) Prod.snd keyed).map Prod.fst

end Suggestions

end GraphqlCore.Suggestion
