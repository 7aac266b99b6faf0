import GraphqlCore.Language.Lexer
import Mathlib.Data.List.DropRight

/-!
# The lines of a source

The line ends of a text, where a carriage return and a line feed behind it count as one,
and the position at which its last line starts.
-/

namespace GraphqlCore.Language

/-- The number of line ends.  A line end is counted at its last code point. -/
def lineEnds : Text → ℕ
  | [] => 0
  | c :: rest =>
      (if c = 10 || (c = 13 && rest.head? ≠ some 10) then 1 else 0) + lineEnds rest

/-- The position behind the last line end. -/
def lastLineStart (text : Text) : ℕ := (text.rdropWhile fun c => !isLineEnd c).length

/-- The text is not cut between a carriage return and its line feed. -/
def CutsNoLineEnd (before rest : Text) : Prop :=
  ¬ (before.getLast? = some 13 ∧ rest.head? = some 10)

theorem isLineEnd_iff {c : ℕ} : isLineEnd c ↔ c = 13 ∨ c = 10 := by simp [isLineEnd]

theorem not_isLineEnd_iff {c : ℕ} : isLineEnd c = false ↔ c ≠ 13 ∧ c ≠ 10 := by
  simp [isLineEnd]

theorem lineEnds_cons_of_not {c : ℕ} (hc : isLineEnd c = false) (text : Text) :
    lineEnds (c :: text) = lineEnds text := by
  obtain ⟨h13, h10⟩ := not_isLineEnd_iff.mp hc
  simp [lineEnds, h13, h10]

theorem lineEnds_eq_zero_iff {text : Text} :
    lineEnds text = 0 ↔ ∀ c ∈ text, isLineEnd c = false := by
  induction text with
  | nil => simp [lineEnds]
  | cons c rest ih =>
      by_cases hc : isLineEnd c
      · have hleft : lineEnds (c :: rest) ≠ 0 := by
          rcases isLineEnd_iff.mp hc with rfl | rfl
          · by_cases hrest : rest.head? = some 10
            · have hmem : 10 ∈ rest := List.mem_of_head? hrest
              intro hzero
              rw [lineEnds, Nat.add_eq_zero_iff] at hzero
              exact absurd (ih.mp hzero.2 10 hmem) (by decide)
            · simp [lineEnds, hrest]
          · simp [lineEnds]
        simp [hleft, hc]
      · rw [Bool.not_eq_true] at hc
        rw [lineEnds_cons_of_not hc, ih]
        simp [hc]

theorem lineEnds_append {before rest : Text} (h : CutsNoLineEnd before rest) :
    lineEnds (before ++ rest) = lineEnds before + lineEnds rest := by
  induction before with
  | nil => simp [lineEnds]
  | cons c before ih =>
      cases before with
      | nil =>
          have hc : ¬ (c = 13 ∧ rest.head? = some 10) := by simpa [CutsNoLineEnd] using h
          rw [List.cons_append, List.nil_append, lineEnds, lineEnds, lineEnds]
          by_cases h13 : c = 13
          · have hrest : rest.head? ≠ some 10 := fun hhead => hc ⟨h13, hhead⟩
            simp [h13, hrest]
          · simp [h13]
      | cons d before =>
          have htail := ih (by simpa [CutsNoLineEnd] using h)
          calc lineEnds (c :: (d :: before ++ rest))
              = (if c = 10 || (c = 13 && (d :: before ++ rest).head? ≠ some 10) then 1 else 0) +
                  lineEnds (d :: before ++ rest) := rfl
            _ = lineEnds (c :: d :: before) + lineEnds rest := by
                rw [htail, ← Nat.add_assoc]
                rfl

theorem lastLineStart_le (text : Text) : lastLineStart text ≤ text.length :=
  (List.rdropWhile_prefix _ _).length_le

theorem lastLineStart_concat_of_not {c : ℕ} (hc : isLineEnd c = false) (text : Text) :
    lastLineStart (text ++ [c]) = lastLineStart text := by
  rw [lastLineStart, List.rdropWhile_concat_pos _ _ _ (by simp [hc])]
  rfl

theorem lastLineStart_concat {c : ℕ} (hc : isLineEnd c) (text : Text) :
    lastLineStart (text ++ [c]) = text.length + 1 := by
  rw [lastLineStart, List.rdropWhile_concat_neg _ _ _ (by simp [hc])]
  simp

theorem lineEnds_concat_of_not {c : ℕ} (hc : isLineEnd c = false) (text : Text) :
    lineEnds (text ++ [c]) = lineEnds text := by
  obtain ⟨h13, h10⟩ := not_isLineEnd_iff.mp hc
  rw [lineEnds_append (by simp [CutsNoLineEnd, h10]), lineEnds_cons_of_not hc]
  rfl

theorem lastLineStart_append (before text : Text) :
    lastLineStart (before ++ text) =
      if lineEnds text = 0 then lastLineStart before
      else before.length + lastLineStart text := by
  induction text using List.reverseRecOn with
  | nil => simp [lineEnds]
  | append_singleton text c ih =>
      rw [← List.append_assoc]
      by_cases hc : isLineEnd c
      · have hsome : lineEnds (text ++ [c]) ≠ 0 := fun hzero => by
          have hnot := lineEnds_eq_zero_iff.mp hzero c (by simp)
          rw [hc] at hnot
          cases hnot
        rw [if_neg hsome, lastLineStart_concat hc, lastLineStart_concat hc,
          List.length_append, Nat.add_assoc]
      · rw [Bool.not_eq_true] at hc
        rw [lineEnds_concat_of_not hc, lastLineStart_concat_of_not hc,
          lastLineStart_concat_of_not hc, ih]

end GraphqlCore.Language
