import GraphqlCore.Language.Parser
import GraphqlCore.Type.Definition

/-!
# Values of the host language and the specified scalars

The values that are given to a service, and those they are coerced to.  Numbers may be
floating-point numbers, which are known by what is documented of their conversions.  The
functions of the specified scalars in `type/scalars.py` return `none` where they raise an
error, since their callers catch it.
-/

namespace GraphqlCore

open Language

/-! ## The text of integers -/

/-- `str(value)` of an integer. -/
def intText (value : ℤ) : Text :=
  if value < 0 then 45 :: printNat value.natAbs else printNat value.natAbs

/-- The number with those decimal digits, after digits of the given value. -/
def readDigits (value : ℕ) : Text → Option ℕ
  | [] => some value
  | c :: rest => if isDigit c then readDigits (10 * value + (c - 48)) rest else none

def readNat (text : Text) : Option ℕ := if text.isEmpty then none else readDigits 0 text

/-- `int(text)` of the text of an integer value, `none` for a `ValueError`. -/
def readInt : Text → Option ℤ
  | 45 :: rest => (readNat rest).map fun value => -(value : ℤ)
  | text => (readNat text).map fun value => (value : ℤ)

/-- The digits match `0|[1-9][0-9]*`. -/
def isNatString : Text → Bool
  | [48] => true
  | c :: rest => c ≠ 48 && isDigit c && rest.all isDigit
  | [] => false

/-- The text matches `^-?(?:0|[1-9][0-9]*)$`, where `$` also matches before a line feed at
the end. -/
def isIntegerString (text : Text) : Bool :=
  let line := if text.getLast? = some 10 then text.dropLast else text
  match line with
  | 45 :: rest => isNatString rest
  | line => isNatString line

/-! ## Values -/

/-- The floating-point numbers of the host language. -/
structure FloatFormat where
  Number : Type
  nan : Number
  isFinite : Number → Bool
  /-- The integer that the number equals. -/
  toInt : Number → Option ℤ
  /-- `float(value)` of an integer, `none` for an `OverflowError`. -/
  ofInt : ℤ → Option Number
  /-- `str(value)` -/
  text : Number → Text
  /-- `float(text)`, `none` for a `ValueError`. -/
  read : Text → Option Number
  read_text : ∀ value, isFinite value → read (text value) = some value
  read_intText : ∀ value number, ofInt value = some number → read (intText value) = some number

inductive HostValue (floats : FloatFormat)
  | none
  | undefined
  | bool (value : Bool)
  | int (value : ℤ)
  | float (value : floats.Number)
  | str (value : Text)
  /-- An iterable that is neither a string nor a mapping. -/
  | iterable (items : List (HostValue floats))
  /-- A mapping, which may be no `dict`. -/
  | mapping (isDict : Bool) (entries : List (Text × HostValue floats))
  | object (identity : ℕ)

namespace HostValue

variable {floats : FloatFormat}

def isUndefined : HostValue floats → Bool
  | .undefined => true
  | _ => false

/-- Is the value `None`? -/
def isNone : HostValue floats → Bool
  | .none => true
  | _ => false

/-- Is the value `None` or `Undefined`? -/
def isMissing (value : HostValue floats) : Bool := value.isNone || value.isUndefined

end HostValue

/-! ## The default conversion to literals -/

variable {floats : FloatFormat}

mutual

/-- Convert a Python value to a literal (AST) using the default rules. -/
def defaultScalarValueToLiteral : HostValue floats → Option ValueNode
  | .none => some (.null none)
  | .undefined => some (.null none)
  | .bool value => some (.boolean value none)
  | .str value => some (.string { value, block := some false })
  | .int value => some (.int (intText value) none)
  | .float value =>
      if floats.isFinite value then
        let stringValue := floats.text value
        -- Will parse as an IntValue if it has no fractional or exponent part.
        some (if isIntegerString stringValue then .int stringValue none
          else .float stringValue none)
      -- Like JSON, a null literal is produced for non-finite values.
      else some (.null none)
  | .iterable items => (defaultItemsToLiterals items).map fun values => .list values none
  | .mapping _ entries => (defaultEntriesToLiterals entries).map fun fields => .object fields none
  | .object _ => none

def defaultItemsToLiterals : List (HostValue floats) → Option (List ValueNode)
  | [] => some []
  | item :: rest => do
      let value ← defaultScalarValueToLiteral item
      let values ← defaultItemsToLiterals rest
      return value :: values

def defaultEntriesToLiterals : List (Text × HostValue floats) → Option (List ObjectFieldNode)
  | [] => some []
  | (name, fieldValue) :: rest => do
      let value ← defaultScalarValueToLiteral fieldValue
      let fields ← defaultEntriesToLiterals rest
      -- Like JSON, undefined fields are not included in the literal result.
      return if fieldValue.isUndefined then fields
        else ⟨{ value := name }, value, none⟩ :: fields

end

/-! ## Numbers -/

def graphqlMaxInt : ℤ := 2147483647

def graphqlMinInt : ℤ := -2147483648

def isIntInRange (value : ℤ) : Bool := graphqlMinInt ≤ value && value ≤ graphqlMaxInt

/-- The integer that a number is equal to, `none` for other values. -/
def integerOf : HostValue floats → Option ℤ
  | .int value => some value
  | .float value => floats.toInt value
  | _ => none

def coerceIntFromNumber (value : HostValue floats) : Option ℤ :=
  (integerOf value).filter isIntInRange

def coerceFloatFromInt (value : ℤ) : Option floats.Number :=
  (floats.ofInt value).filter fun number => floats.toInt number = some value

def coerceIdFromNumber (value : HostValue floats) : Option Text := (integerOf value).map intText

/-! ## The specified scalars -/

inductive SpecifiedScalar
  | string
  | int
  | float
  | boolean
  | id
  deriving DecidableEq

namespace SpecifiedScalar

def coerceInt (inputValue : HostValue floats) : Option (HostValue floats) :=
  (coerceIntFromNumber inputValue).map .int

/-- Parse an integer value node in the AST. -/
def parseIntLiteral : ValueNode → Option (HostValue floats)
  | .int value _ => ((readInt value).filter isIntInRange).map .int
  | _ => none

/-- Convert an integer value to an Int literal in the AST. -/
def intValueToLiteral (value : HostValue floats) : Option ValueNode :=
  ((integerOf value).filter isIntInRange).map fun num => .int (intText num) none

def coerceFloat : HostValue floats → Option (HostValue floats)
  | .float value => if floats.isFinite value then some (.float value) else none
  | .int value => (coerceFloatFromInt value).map .float
  | _ => none

/-- Parse a float value node in the AST. -/
def parseFloatLiteral : ValueNode → Option (HostValue floats)
  | .float value _ => (floats.read value).map .float
  | .int value _ => (floats.read value).map .float
  | _ => none

/-- Convert a float value to a Float literal in the AST. -/
def floatValueToLiteral (value : HostValue floats) : Option ValueNode :=
  match defaultScalarValueToLiteral value with
  | some (.float value loc) => some (.float value loc)
  | some (.int value loc) => some (.int value loc)
  | _ => none

def coerceString : HostValue floats → Option (HostValue floats)
  | .str inputValue => some (.str inputValue)
  | _ => none

def parseStringLiteral : ValueNode → Option (HostValue floats)
  | .string valueNode => some (.str valueNode.value)
  | _ => none

def coerceBoolean : HostValue floats → Option (HostValue floats)
  | .bool inputValue => some (.bool inputValue)
  | _ => none

def parseBooleanLiteral : ValueNode → Option (HostValue floats)
  | .boolean value _ => some (.bool value)
  | _ => none

/-- Convert a string value to a String literal in the AST. -/
def stringValueToLiteral (value : HostValue floats) : Option ValueNode :=
  match defaultScalarValueToLiteral value with
  | some (.string node) => some (.string node)
  | _ => none

/-- Convert a boolean value to a Boolean literal in the AST. -/
def booleanValueToLiteral (value : HostValue floats) : Option ValueNode :=
  match defaultScalarValueToLiteral value with
  | some (.boolean value loc) => some (.boolean value loc)
  | _ => none

def coerceId : HostValue floats → Option (HostValue floats)
  | .str inputValue => some (.str inputValue)
  | inputValue => (coerceIdFromNumber inputValue).map .str

/-- Parse an ID value node in the AST. -/
def parseIdLiteral : ValueNode → Option (HostValue floats)
  | .string valueNode => some (.str valueNode.value)
  | .int value _ => some (.str value)
  | _ => none

/-- Convert an ID value to an Int or String literal in the AST. -/
def idValueToLiteral : HostValue floats → Option ValueNode
  | .str value =>
      -- Will parse as an IntValue if it consists only of integer digits.
      some (if isIntegerString value then .int value none
        else .string { value, block := some false })
  | value => (coerceIdFromNumber value).map fun value => .int value none

def coerceInputValue : SpecifiedScalar → HostValue floats → Option (HostValue floats)
  | .string => coerceString
  | .int => coerceInt
  | .float => coerceFloat
  | .boolean => coerceBoolean
  | .id => coerceId

def coerceInputLiteral : SpecifiedScalar → ValueNode → Option (HostValue floats)
  | .string => parseStringLiteral
  | .int => parseIntLiteral
  | .float => parseFloatLiteral
  | .boolean => parseBooleanLiteral
  | .id => parseIdLiteral

def valueToLiteral : SpecifiedScalar → HostValue floats → Option ValueNode
  | .string => stringValueToLiteral
  | .int => intValueToLiteral
  | .float => floatValueToLiteral
  | .boolean => booleanValueToLiteral
  | .id => idValueToLiteral

end SpecifiedScalar

/-! ## Reading integers -/

theorem isDigit_toNat {c : Char} (h : c.isDigit = true) : isDigit c.toNat = true := by
  simp only [isDigit, Bool.and_eq_true, decide_eq_true_eq]
  exact Char.isDigit_iff_toNat.mp h

theorem readDigits_map (digits : List Char) (value : ℕ) (h : ∀ c ∈ digits, c.isDigit = true) :
    readDigits value (digits.map Char.toNat) = some (Nat.ofDigitChars 10 digits value) := by
  induction digits generalizing value with
  | nil => rfl
  | cons c rest ih =>
      obtain ⟨hc, hrest⟩ := List.forall_mem_cons.mp h
      rw [List.map_cons, readDigits, if_pos (isDigit_toNat hc), ih _ hrest]
      rfl

theorem isDigit_of_mem_toDigits {value : ℕ} {c : Char} (h : c ∈ Nat.toDigits 10 value) :
    c.isDigit = true :=
  Nat.isDigit_of_mem_toDigits (by decide) (by decide) h

theorem readNat_printNat (value : ℕ) : readNat (printNat value) = some value := by
  have hne : (printNat value).isEmpty = false := by
    rw [List.isEmpty_eq_false_iff, printNat]
    simp [Nat.toDigits_ne_nil]
  rw [readNat, hne, if_neg Bool.noConfusion, printNat,
    readDigits_map _ _ fun c hc => isDigit_of_mem_toDigits hc, Nat.ofDigitChars_ten_toDigits]

theorem isDigit_of_mem_printNat {value c : ℕ} (h : c ∈ printNat value) : isDigit c = true := by
  obtain ⟨char, hchar, rfl⟩ := List.mem_map.mp h
  exact isDigit_toNat (isDigit_of_mem_toDigits hchar)

/-- An integer is read back from its text. -/
theorem readInt_intText (value : ℤ) : readInt (intText value) = some value := by
  rw [intText]
  split
  · rename_i hneg
    have habs : -(value.natAbs : ℤ) = value := by omega
    rw [readInt, readNat_printNat]
    exact congrArg some habs
  · rename_i hneg
    have hfirst : ∀ rest, printNat value.natAbs ≠ 45 :: rest := by
      intro rest h
      have hdigit : isDigit 45 = true := isDigit_of_mem_printNat (h ▸ List.mem_cons_self)
      exact absurd hdigit (by decide)
    have habs : (value.natAbs : ℤ) = value := by omega
    rw [readInt, readNat_printNat]
    · exact congrArg some habs
    · exact hfirst

theorem isDigit_of_mem_intText {value : ℤ} {c : ℕ} (h : c ∈ intText value) :
    c = 45 ∨ isDigit c = true := by
  rw [intText] at h
  split at h
  · exact (List.mem_cons.mp h).imp_right isDigit_of_mem_printNat
  · exact Or.inr (isDigit_of_mem_printNat h)

/-- The text without `.0` at the end. -/
def dropPointZero (text : Text) : Text :=
  match text.reverse with
  | 48 :: 46 :: rest => rest.reverse
  | _ => text

theorem dropPointZero_append (text : Text) : dropPointZero (text ++ str ".0") = text := by
  simp [dropPointZero, str]

theorem dropPointZero_intText (value : ℤ) : dropPointZero (intText value) = intText value := by
  rw [dropPointZero]
  split
  · rename_i rest hreverse
    have hmem : 46 ∈ intText value := by
      rw [← List.mem_reverse, hreverse]
      simp
    exact absurd (isDigit_of_mem_intText hmem) (by decide)
  · rfl

/-- The floating-point numbers that are integers below `2 ^ 53`, beside those that are none. -/
def integralFloats : FloatFormat where
  Number := Option ℤ
  nan := none
  isFinite := Option.isSome
  toInt := id
  ofInt value := if value.natAbs ≤ 2 ^ 53 then some (some value) else none
  text
    | none => str "nan"
    | some value => intText value ++ str ".0"
  read text := (readInt (dropPointZero text)).map some
  read_text value hfinite := by
    obtain ⟨value, rfl⟩ := Option.isSome_iff_exists.mp hfinite
    rw [dropPointZero_append, readInt_intText]
    rfl
  read_intText value number h := by
    split at h
    · rw [dropPointZero_intText, readInt_intText, ← Option.some.inj h]
      rfl
    · nomatch h

end GraphqlCore
