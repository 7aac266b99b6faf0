import GraphqlCore.Data.LinearRel
import GraphqlCore.Utilities.SortValueNode

/-!
# Natural order of names

The comparison keys of names are ordered linearly, and a key has the whole name.  So names
that are different are never taken to be the same when they are sorted.
-/

namespace GraphqlCore

/-! ## Keys -/

theorem textLe_eq (text other : Text) :
    textLe text other = listLe (fun a b : ℕ => decide (a ≤ b)) text other := by
  induction text generalizing other with
  | nil => rfl
  | cons c rest ih =>
      cases other with
      | nil => rfl
      | cons c' rest' =>
          rw [textLe, listLe, ih]
          by_cases heq : c = c'
          · simp [heq]
          · simp [heq, lt_iff_le_and_ne]

/-- A part of a key is compared by its number first. -/
def partLe : ℕ × Text → ℕ × Text → Bool := pairLe (fun a b => decide (a ≤ b)) textLe

theorem keyLe_eq (key other : List (ℕ × Text)) : keyLe key other = listLe partLe key other := by
  induction key generalizing other with
  | nil => rfl
  | cons part rest ih =>
      obtain ⟨n, part⟩ := part
      cases other with
      | nil => rfl
      | cons part' rest' =>
          obtain ⟨n', part'⟩ := part'
          rw [keyLe, listLe, ih, partLe, pairLe]
          by_cases hn : n = n'
          · by_cases hpart : part = part' <;> simp [hn, hpart]
          · simp [hn, lt_iff_le_and_ne]

theorem textLe_isLinear : IsLinear textLe := by
  have heq : textLe = listLe fun a b : ℕ => decide (a ≤ b) :=
    funext fun text => funext (textLe_eq text)
  rw [heq]
  exact IsLinear.nat.list

theorem keyLe_isLinear : IsLinear keyLe := by
  have heq : keyLe = listLe partLe := funext fun key => funext (keyLe_eq key)
  rw [heq]
  exact (IsLinear.nat.pair textLe_isLinear).list

/-! ## Names -/

/-- The parts of a text make up the text. -/
theorem flatten_splitDigits (digits : Bool) (part text : Text) :
    (splitDigits digits part text).flatten = part ++ text := by
  induction text generalizing digits part with
  | nil => simp [splitDigits]
  | cons c rest ih =>
      rw [splitDigits]
      split
      · rw [ih]
        simp
      · rw [List.flatten_cons, ih]
        rfl

theorem map_snd_numberParts (digits : Bool) (parts : List Text) :
    (numberParts digits parts).map Prod.snd = parts := by
  induction parts generalizing digits with
  | nil => rfl
  | cons part rest ih => rw [numberParts, List.map_cons, ih]

/-- The key of a text has its parts. -/
theorem flatten_naturalComparisonKey (key : Text) :
    ((naturalComparisonKey key).map Prod.snd).flatten = key := by
  rw [naturalComparisonKey, map_snd_numberParts]
  split
  · rw [List.flatten_append, flatten_splitDigits]
    simp
  · exact flatten_splitDigits false [] key

theorem naturalComparisonKey_injective : Function.Injective naturalComparisonKey := by
  intro name other h
  rw [← flatten_naturalComparisonKey name, h, flatten_naturalComparisonKey]

/-- Natural sort order. -/
def nameLe (name other : Text) : Bool :=
  keyLe (naturalComparisonKey name) (naturalComparisonKey other)

/-- The natural order of texts is a linear order. -/
theorem nameLe_isLinear : IsLinear nameLe := keyLe_isLinear.comap naturalComparisonKey_injective

end GraphqlCore
