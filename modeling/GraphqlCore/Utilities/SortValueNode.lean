import GraphqlCore.Language.Ast
import Mathlib.Data.List.Sort

/-!
# Sorting value nodes

The functions of `utilities/sort_value_node.py` and `pyutils/natural_compare.py`, for
names, of which all digits are ASCII.
-/

namespace GraphqlCore

open Language

/-! ## Natural sort order -/

def isDigit (c : ℕ) : Bool := 48 ≤ c && c ≤ 57

/-- The parts of the text without and with digits, which alternate. -/
def splitDigits : Bool → Text → Text → List Text
  | _, part, [] => [part]
  | digits, part, c :: rest =>
      if isDigit c = digits then splitDigits digits (part ++ [c]) rest
      else part :: splitDigits (!digits) [c] rest

def digitsToNat (digits : Text) : ℕ := digits.foldl (fun n c => 10 * n + (c - 48)) 0

/-- Parts with digits are compared by their values first. -/
def numberParts : Bool → List Text → List (ℕ × Text)
  | _, [] => []
  | digits, part :: rest =>
      (if digits then digitsToNat part else 0, part) :: numberParts (!digits) rest

/-- The comparison key.  A text that ends with digits has an empty part behind them. -/
def naturalComparisonKey (key : Text) : List (ℕ × Text) :=
  let parts := splitDigits false [] key
  numberParts false (if parts.length % 2 = 0 then parts ++ [[]] else parts)

def textLe : Text → Text → Bool
  | [], _ => true
  | _ :: _, [] => false
  | c :: rest, c' :: rest' => c < c' || (c = c' && textLe rest rest')

def keyLe : List (ℕ × Text) → List (ℕ × Text) → Bool
  | [], _ => true
  | _ :: _, [] => false
  | (n, part) :: rest, (n', part') :: rest' =>
      n < n' || (n = n' && (if part = part' then keyLe rest rest' else textLe part part'))

/-! ## Values -/

mutual

/-- A copy of the value of which all objects are sorted by the names of their fields. -/
def sortValueNode : ValueNode → ValueNode
  | .object fields loc =>
      .object ((sortFieldValues fields).insertionSort fun field field' =>
        keyLe (naturalComparisonKey field.name.value)
          (naturalComparisonKey field'.name.value)) loc
  | .list values loc => .list (sortValueNodes values) loc
  | value => value

def sortValueNodes : List ValueNode → List ValueNode
  | [] => []
  | value :: rest => sortValueNode value :: sortValueNodes rest

def sortFieldValues : List ObjectFieldNode → List ObjectFieldNode
  | [] => []
  | ⟨name, value, loc⟩ :: rest => ⟨name, sortValueNode value, loc⟩ :: sortFieldValues rest

end

end GraphqlCore
