import GraphqlCore.Language.BlockString
import GraphqlCore.Language.StringTokens

/-!
# Printed strings are read again

The escape sequences of `print_string` are those that the lexer undoes: what is printed
for a string is a single string token with that value.
-/

namespace GraphqlCore.Language

/-- The hexadecimal digit of a number below sixteen. -/
theorem readHexDigit_digit {n : ℕ} (h : n < 16) :
    readHexDigit (if n < 10 then 48 + n else 55 + n) = some n := by
  by_cases hn : n < 10
  · have hdigit : isDigit (48 + n) := by
      simp [isDigit]
      omega
    rw [if_pos hn, readHexDigit, if_pos hdigit]
    simp
  · have hdigit : ¬ isDigit (55 + n) := by
      simp [isDigit]
      omega
    have hletter : (65 ≤ 55 + n && 55 + n ≤ 70) = true := by
      simp
      omega
    rw [if_neg hn, readHexDigit, if_neg hdigit, if_pos hletter]
    simp

/-- Control characters are written with two hexadecimal digits. -/
theorem spellsEscape_escapeControl {c : ℕ} (h : c ≤ 0x9F) :
    SpellsEscape (escapeControl c) c := by
  have hhigh := readHexDigit_digit (show c / 16 < 16 by omega)
  have hlow := readHexDigit_digit (show c % 16 < 16 by omega)
  have hzero : readHexDigit 48 = some 0 := rfl
  have hsum : (0 * 16 + 0) * 16 + c / 16 = c / 16 := by omega
  have hvalue : c / 16 * 16 + c % 16 = c := Nat.div_add_mod' c 16
  apply SpellsEscape.fixedWidth
  · simp only [read16BitHexCode, hzero, hhigh, hlow, bind, Option.bind, pure, hsum, hvalue]
  · simp [isUnicodeScalarValue]
    omega

theorem spells_escapeCodePoint {c : ℕ} (h : isUnicodeScalarValue c) :
    SpellsString (escapeCodePoint c) [c] := by
  have hescape {text : Text} {code : ℕ} (hspells : SpellsEscape text code) :
      SpellsString text [code] := by
    have hall : SpellsString (text ++ []) [code] := .escape hspells .nil
    rwa [List.append_nil] at hall
  rw [escapeCodePoint]
  split_ifs with hb ht hn hf hr hquote hslash hcontrol
  · exact hescape (.character (by rw [hb]; rfl))
  · exact hescape (.character (by rw [ht]; rfl))
  · exact hescape (.character (by rw [hn]; rfl))
  · exact hescape (.character (by rw [hf]; rfl))
  · exact hescape (.character (by rw [hr]; rfl))
  · exact hescape (.character (by rw [hquote]; rfl))
  · exact hescape (.character (by rw [hslash]; rfl))
  · apply hescape
    apply spellsEscape_escapeControl
    simp at hcontrol
    omega
  · exact .plain hquote hslash (by simp [isLineEnd, hn, hr]) h .nil

theorem spells_printedString {s : Text} (hs : ∀ c ∈ s, isUnicodeScalarValue c) :
    SpellsString (s.flatMap escapeCodePoint) s := by
  induction s with
  | nil => exact .nil
  | cons c s ih =>
      have hc := spells_escapeCodePoint (hs c List.mem_cons_self)
      have hrest := ih fun c hc => hs c (List.mem_cons_of_mem _ hc)
      exact hc.append hrest

theorem readNextToken_of_quote (cursor : Cursor) {rest : Text}
    (hrest : cursor.rest = 34 :: rest) : readNextToken cursor = readToken cursor 34 rest := by
  rw [readNextToken]
  split
  · next h => simp [h] at hrest
  · next c tail h =>
    obtain ⟨rfl, rfl⟩ := List.cons.inj (h.symm.trans hrest)
    simp [isIgnored]

theorem readNextToken_of_nil (cursor : Cursor) (hrest : cursor.rest = []) :
    readNextToken cursor = .ok (cursor.createToken .eof 0, cursor) := by
  rw [readNextToken]
  split
  · rfl
  · next c tail h => simp [h] at hrest

/-- What is printed for a string is one token, which covers the text and has the value of
the string. -/
theorem lex_printString (s : Text) (hs : ∀ c ∈ s, isUnicodeScalarValue c) :
    ∃ token eof, lex (printString s) = ([token, eof], none) ∧
      token.kind = .string ∧ token.value = some s ∧
      token.start = 0 ∧ token.stop = (printString s).length ∧ eof.kind = .eof := by
  have hspells := spells_printedString hs
  generalize hchars : s.flatMap escapeCodePoint = chars at hspells
  have htext : printString s = 34 :: (chars ++ [34]) := by rw [printString, hchars]; rfl
  let start : Cursor := { position := 0, line := 1, lineStart := 0, rest := printString s }
  let last := start.advance (chars.length + 2) []
  have hfirst : readNextToken start =
      .ok (start.createToken .string (chars.length + 2) (some s), last) := by
    rw [readNextToken_of_quote start htext]
    exact readToken_of_spells hspells (by simp) start
  have hlast : readNextToken last = .ok (last.createToken .eof 0, last) :=
    readNextToken_of_nil last rfl
  have hlength : (printString s).length = chars.length + 2 := by
    rw [htext, List.length_cons, List.length_append]
    rfl
  refine ⟨start.createToken .string (chars.length + 2) (some s), last.createToken .eof 0, ?_,
    rfl, rfl, rfl, ?_, rfl⟩
  · rw [lex, hlength, lexTokens, hfirst]
    simp only [Cursor.createToken, lexTokens, hlast, reduceCtorEq, if_false, if_true]
  · rw [hlength]
    exact Nat.zero_add _

/-- Control characters, quotes and characters above U+FFFF. -/
theorem lex_printString_controls :
    (∀ c ∈ [0, 34, 92, 0x7F, 0x1F600], isUnicodeScalarValue c) ∧
      ∃ token eof, lex (printString [0, 34, 92, 0x7F, 0x1F600]) = ([token, eof], none) ∧
        token.kind = .string ∧ token.value = some [0, 34, 92, 0x7F, 0x1F600] ∧
        token.start = 0 ∧ token.stop = (printString [0, 34, 92, 0x7F, 0x1F600]).length ∧
        eof.kind = .eof :=
  ⟨by decide, lex_printString _ (by decide)⟩

end GraphqlCore.Language
