import Mathlib.Data.List.Basic

/-!
# Text

A Python string is a sequence of code points, among which surrogates may occur.
-/

namespace GraphqlCore

abbrev Text := List ℕ

instance : LawfulBEq Text := inferInstanceAs (LawfulBEq (List ℕ))

/-- The code points of a literal. -/
def str (s : String) : Text := s.toList.map Char.toNat

end GraphqlCore
