import GraphqlCore.Data.Dict
import Mathlib.Algebra.Order.BigOperators.Group.List
import Mathlib.Algebra.Order.Ring.Nat

/-!
# Dictionaries of flags

The flag of a key is set at most twice where it may only change from true to false.
How often the flags of given keys can still be set is a measure for the termination of
what sets them.
-/

namespace GraphqlCore.Dict

universe u

variable {κ : Type u} [DecidableEq κ]

/-- How often a flag can still be set. -/
def flagsLeft : Option Bool → ℕ
  | none => 2
  | some true => 1
  | some false => 0

/-- How often the flags of the keys can still be set. -/
def remaining (keys : List κ) (d : Dict κ Bool) : ℕ :=
  (keys.map fun key => flagsLeft (d.get key)).sum

theorem remaining_set_lt {keys : List κ} {d : Dict κ Bool} {key : κ} {flag : Bool}
    (hkey : key ∈ keys) (hlt : flagsLeft (some flag) < flagsLeft (d.get key)) :
    (d.set key flag).remaining keys < d.remaining keys := by
  refine List.sum_lt_sum _ _ (fun other _ => ?_) ⟨key, hkey, ?_⟩
  · rw [get_set]
    split
    · next heq => exact heq ▸ hlt.le
    · exact le_rfl
  · rwa [get_set_self]

end GraphqlCore.Dict
