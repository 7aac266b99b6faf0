import GraphqlCore.Language.SourceLines
import GraphqlCore.Language.StringTokens

/-!
# The text of block strings

What the text behind the opening quotes of a block string spells: `SpellsBlock` relates
it, with the closing quotes, to its raw lines.  Block strings are read exactly where
there is such a text, and reading them raises nothing but syntax errors.
-/

namespace GraphqlCore.Language

/-- The text of a block string up to and with its closing quotes, its first raw line and
its further raw lines. -/
inductive SpellsBlock : Text → Text → List Text → Prop
  | close : SpellsBlock [34, 34, 34] [] []
  | quotes {text line : Text} {lines : List Text} (h : SpellsBlock text line lines) :
      SpellsBlock (92 :: 34 :: 34 :: 34 :: text) (34 :: 34 :: 34 :: line) lines
  | lineFeed {text line : Text} {lines : List Text} (h : SpellsBlock text line lines) :
      SpellsBlock (10 :: text) [] (line :: lines)
  | carriageReturn {text line : Text} {lines : List Text} (hnext : text.head? ≠ some 10)
      (h : SpellsBlock text line lines) : SpellsBlock (13 :: text) [] (line :: lines)
  | both {text line : Text} {lines : List Text} (h : SpellsBlock text line lines) :
      SpellsBlock (13 :: 10 :: text) [] (line :: lines)
  | plain {c : ℕ} {text line : Text} {lines : List Text} (hline : isLineEnd c = false)
      (hscalar : isUnicodeScalarValue c) (hclose : c = 34 → text.take 2 ≠ [34, 34])
      (hquotes : c = 92 → text.take 3 ≠ [34, 34, 34]) (h : SpellsBlock text line lines) :
      SpellsBlock (c :: text) (c :: line) lines
  | surrogates {c d : ℕ} {text line : Text} {lines : List Text}
      (hleading : isLeadingSurrogate c) (htrailing : isTrailingSurrogate d)
      (h : SpellsBlock text line lines) : SpellsBlock (c :: d :: text) (c :: d :: line) lines

namespace SpellsBlock

variable {text line : Text} {lines : List Text}

theorem three_le (h : SpellsBlock text line lines) : 3 ≤ text.length := by
  induction h with
  | close => simp
  | quotes _ ih | lineFeed _ ih | carriageReturn _ _ ih | both _ ih | plain _ _ _ _ _ ih
    | surrogates _ _ _ ih =>
      simp only [List.length_cons]
      omega

/-- Every raw line but the first stands behind a line end. -/
theorem length_lines (h : SpellsBlock text line lines) : lines.length = lineEnds text := by
  induction h with
  | close => rfl
  | quotes _ ih => simpa [lineEnds] using ih
  | lineFeed _ ih => simp [lineEnds, ih, Nat.add_comm]
  | carriageReturn hnext _ ih => simp [lineEnds, hnext, ih, Nat.add_comm]
  | both _ ih => simp [lineEnds, ih, Nat.add_comm]
  | plain hline _ _ _ _ ih => rw [lineEnds_cons_of_not hline, ih]
  | surrogates hleading htrailing _ ih =>
      rw [lineEnds_cons_of_not (not_lineEnd_of_surrogate (Or.inl hleading)),
        lineEnds_cons_of_not (not_lineEnd_of_surrogate (Or.inr htrailing)), ih]

theorem getLast?_eq (h : SpellsBlock text line lines) : text.getLast? = some 34 := by
  induction h with
  | close => rfl
  | quotes _ ih | lineFeed _ ih | carriageReturn _ _ ih | both _ ih | plain _ _ _ _ _ ih
    | surrogates _ _ _ ih =>
      simp [List.getLast?_cons, ih]

/-- A look ahead by up to three code points stays within the text. -/
theorem take_append (h : SpellsBlock text line lines) (rest : Text) {n : ℕ} (hn : n ≤ 3) :
    (text ++ rest).take n = text.take n := by
  rw [List.take_append_of_le_length]
  have := h.three_le
  omega

end SpellsBlock

/-- The position at which the last line starts, behind a text at that position. -/
def lineStartBehind (position lineStart : ℕ) (text : Text) : ℕ :=
  if lineEnds text = 0 then lineStart else position + lastLineStart text

theorem lineEnds_append_eq_zero_iff {before text : Text} :
    lineEnds (before ++ text) = 0 ↔ lineEnds before = 0 ∧ lineEnds text = 0 := by
  simp only [lineEnds_eq_zero_iff, List.mem_append]
  exact ⟨fun h => ⟨fun c hc => h c (Or.inl hc), fun c hc => h c (Or.inr hc)⟩,
    fun h c hc => hc.elim (h.1 c) (h.2 c)⟩

theorem lineStartBehind_append (position lineStart : ℕ) (before text : Text) :
    lineStartBehind position lineStart (before ++ text) =
      lineStartBehind (position + before.length) (lineStartBehind position lineStart before)
        text := by
  simp only [lineStartBehind, lineEnds_append_eq_zero_iff, lastLineStart_append]
  by_cases htext : lineEnds text = 0
  · simp [htext]
  · simp [htext, Nat.add_assoc]

/-- Within a line. -/
theorem lineStartBehind_inLine (position lineStart : ℕ) {piece : Text}
    (h : ∀ c ∈ piece, isLineEnd c = false) (text : Text) :
    lineStartBehind position lineStart (piece ++ text) =
      lineStartBehind (position + piece.length) lineStart text := by
  have hpiece : lineStartBehind position lineStart piece = lineStart :=
    if_pos (lineEnds_eq_zero_iff.mpr h)
  rw [lineStartBehind_append, hpiece]

/-- Behind a line end. -/
theorem lineStartBehind_newLine (position lineStart : ℕ) {piece : Text}
    (h : ∃ c ∈ piece.getLast?, isLineEnd c) (text : Text) :
    lineStartBehind position lineStart (piece ++ text) =
      lineStartBehind (position + piece.length) (position + piece.length) text := by
  obtain ⟨c, hlast, hc⟩ := h
  obtain ⟨before, rfl⟩ := List.getLast?_eq_some_iff.mp hlast
  have hsome : lineEnds (before ++ [c]) ≠ 0 := fun hzero => by
    have hnot := lineEnds_eq_zero_iff.mp hzero c (by simp)
    rw [hc] at hnot
    cases hnot
  have hpiece : lineStartBehind position lineStart (before ++ [c]) =
      position + (before ++ [c]).length := by
    rw [lineStartBehind, if_neg hsome, lastLineStart_concat hc, List.length_append]
    rfl
  rw [lineStartBehind_append, hpiece]

/-- A block string is read up to its closing quotes. -/
theorem readBlockLines_of_spells {text line : Text} {lines : List Text}
    (h : SpellsBlock text line lines) (position lineStart : ℕ) (rest : Text) :
    readBlockLines position lineStart (text ++ rest) =
      .ok { line := line, lines := lines, length := text.length
            lineStart := lineStartBehind position lineStart text, rest := rest } := by
  induction h generalizing position lineStart with
  | close =>
      rw [List.cons_append, readBlockLines, if_pos (by simp)]
      rfl
  | @quotes text line lines h ih =>
      have hbehind : lineStartBehind position lineStart ([92, 34, 34, 34] ++ text) =
          lineStartBehind (position + 4) lineStart text :=
        lineStartBehind_inLine position lineStart (by decide) text
      rw [List.cons_append, readBlockLines, if_neg (by simp), if_pos (by simp)]
      simp only [List.cons_append, List.drop_succ_cons, List.drop_zero, ih, bind, Except.bind,
        pure, Except.pure, BlockLines.prepend, Nat.add_comm 4]
      rw [← hbehind]
      rfl
  | @lineFeed text line lines h ih =>
      have hbehind : lineStartBehind position lineStart ([10] ++ text) =
          lineStartBehind (position + 1) (position + 1) text :=
        lineStartBehind_newLine position lineStart ⟨10, rfl, rfl⟩ text
      rw [List.cons_append, readBlockLines, if_neg (by simp), if_neg (by simp),
        if_pos (by decide), if_neg (by simp), ih]
      simp only [bind, Except.bind, pure, Except.pure, BlockLines.prependLine, Nat.add_comm 1]
      rw [← hbehind]
      rfl
  | @carriageReturn text line lines hnext h ih =>
      have hbehind : lineStartBehind position lineStart ([13] ++ text) =
          lineStartBehind (position + 1) (position + 1) text :=
        lineStartBehind_newLine position lineStart ⟨13, rfl, rfl⟩ text
      have hhead : (text ++ rest).head? ≠ some 10 := by
        have := h.three_le
        cases text with
        | nil => simp at this
        | cons c text => exact hnext
      rw [List.cons_append, readBlockLines, if_neg (by simp), if_neg (by simp),
        if_pos (by decide), if_neg (by simpa using hhead), ih]
      simp only [bind, Except.bind, pure, Except.pure, BlockLines.prependLine, Nat.add_comm 1]
      rw [← hbehind]
      rfl
  | @both text line lines h ih =>
      have hbehind : lineStartBehind position lineStart ([13, 10] ++ text) =
          lineStartBehind (position + 2) (position + 2) text :=
        lineStartBehind_newLine position lineStart ⟨10, rfl, rfl⟩ text
      rw [List.cons_append, readBlockLines, if_neg (by simp), if_neg (by simp),
        if_pos (by decide), if_pos (by simp)]
      simp only [List.cons_append, List.drop_succ_cons, List.drop_zero, ih, bind, Except.bind,
        pure, Except.pure, BlockLines.prependLine, Nat.add_comm 2]
      rw [← hbehind]
      rfl
  | @plain c text line lines hline hscalar hclose hquotes h ih =>
      have hbehind : lineStartBehind position lineStart ([c] ++ text) =
          lineStartBehind (position + 1) lineStart text :=
        lineStartBehind_inLine position lineStart (by simpa using hline) text
      have hclose' : ¬ (decide (c = 34) && decide ((text ++ rest).take 2 = [34, 34])) := by
        rw [h.take_append rest (by omega)]
        simpa using hclose
      have hquotes' :
          ¬ (decide (c = 92) && decide ((text ++ rest).take 3 = [34, 34, 34])) := by
        rw [h.take_append rest le_rfl]
        simpa using hquotes
      rw [List.cons_append, readBlockLines, if_neg hclose', if_neg hquotes',
        if_neg (by simp [hline]), if_pos hscalar, ih]
      simp only [bind, Except.bind, pure, Except.pure, BlockLines.prepend, Nat.add_comm 1]
      rw [← hbehind]
      rfl
  | @surrogates c d text line lines hleading htrailing h ih =>
      have hc := not_lineEnd_of_surrogate (Or.inl hleading)
      have hd := not_lineEnd_of_surrogate (Or.inr htrailing)
      have hbehind : lineStartBehind position lineStart ([c, d] ++ text) =
          lineStartBehind (position + 2) lineStart text :=
        lineStartBehind_inLine position lineStart (by simp [hc, hd]) text
      have hscalar := not_scalar_of_leading hleading
      have hrange := hleading
      simp only [isLeadingSurrogate, Bool.and_eq_true, decide_eq_true_eq] at hrange
      rw [List.cons_append, readBlockLines, if_neg (by simp; omega), if_neg (by simp; omega),
        if_neg (by simp [hc]), if_neg (by simp [hscalar]),
        if_pos (by simp [isSupplementaryCodePoint, hleading, htrailing])]
      simp only [List.cons_append, List.drop_succ_cons, List.drop_zero, List.take_succ_cons,
        List.take_zero, ih, bind, Except.bind, pure, Except.pure, BlockLines.prepend,
        Nat.add_comm 2]
      rw [← hbehind]
      rfl

/-- There is a block string at the start of the text, or reading it raises a syntax
error. -/
def SpelledOrInvalid (text : Text) : Prop :=
  (∃ read rest line lines, text = read ++ rest ∧ SpellsBlock read line lines) ∨
    ∀ position lineStart, ∃ errorPosition description,
      readBlockLines position lineStart text =
        .error (.syntaxError errorPosition description)

theorem spelledOrInvalid (text : Text) : SpelledOrInvalid text := by
  induction hlength : text.length using Nat.strongRecOn generalizing text with
  | _ length ih =>
      subst hlength
      match text with
      | [] =>
          refine Or.inr fun position lineStart => ⟨position, str "Unterminated string.", ?_⟩
          rw [readBlockLines]
          rfl
      | c :: tail =>
          have hih (rest : Text) (hshorter : rest.length ≤ tail.length) :
              SpelledOrInvalid rest :=
            ih rest.length (Nat.lt_succ_of_le hshorter) rest rfl
          by_cases hclose : c = 34 ∧ tail.take 2 = [34, 34]
          · obtain ⟨rfl, htake⟩ := hclose
            refine Or.inl ⟨_, tail.drop 2, _, _, ?_, .close⟩
            rw [← List.take_append_drop 2 tail, htake]
            rfl
          by_cases hquotes : c = 92 ∧ tail.take 3 = [34, 34, 34]
          · obtain ⟨rfl, htake⟩ := hquotes
            have htail : tail = [34, 34, 34] ++ tail.drop 3 := by
              rw [← htake, List.take_append_drop]
            rcases hih (tail.drop 3) (by simp) with ⟨read, rest, line, lines, hrest, h⟩ | herror
            · refine Or.inl ⟨_, rest, _, _, ?_, h.quotes⟩
              rw [htail, hrest]
              rfl
            · refine Or.inr fun position lineStart => ?_
              obtain ⟨e, d, hread⟩ := herror (position + 4) lineStart
              refine ⟨e, d, ?_⟩
              rw [readBlockLines, if_neg (by simp), if_pos (by simp [htake]), hread]
              rfl
          by_cases hline : isLineEnd c
          · by_cases hboth : c = 13 ∧ tail.head? = some 10
            · obtain ⟨rfl, hhead⟩ := hboth
              obtain ⟨tail, rfl⟩ : ∃ rest, tail = 10 :: rest := by
                cases tail with
                | nil => simp at hhead
                | cons d rest => exact ⟨rest, by simpa using hhead⟩
              rcases hih tail (by simp) with ⟨read, rest, line, lines, rfl, h⟩ | herror
              · exact Or.inl ⟨_, rest, _, _, rfl, h.both⟩
              · refine Or.inr fun position lineStart => ?_
                obtain ⟨e, d, hread⟩ := herror (position + 2) (position + 2)
                refine ⟨e, d, ?_⟩
                rw [readBlockLines, if_neg (by simp), if_neg (by simp), if_pos hline,
                  if_pos (by simp), List.drop_succ_cons, List.drop_zero, hread]
                rfl
            · rcases hih tail le_rfl with ⟨read, rest, line, lines, rfl, h⟩ | herror
              · refine Or.inl ⟨c :: read, rest, [], line :: lines, rfl, ?_⟩
                rcases isLineEnd_iff.mp hline with rfl | rfl
                · refine h.carriageReturn fun hhead => hboth ⟨rfl, ?_⟩
                  rw [List.head?_append, hhead]
                  rfl
                · exact h.lineFeed
              · refine Or.inr fun position lineStart => ?_
                obtain ⟨e, d, hread⟩ := herror (position + 1) (position + 1)
                refine ⟨e, d, ?_⟩
                rw [readBlockLines, if_neg (by simpa using hclose), if_neg (by simpa using hquotes),
                  if_pos hline, if_neg (by simpa using hboth), hread]
                rfl
          rw [Bool.not_eq_true] at hline
          by_cases hscalar : isUnicodeScalarValue c
          · rcases hih tail le_rfl with ⟨read, rest, line, lines, rfl, h⟩ | herror
            · rw [h.take_append rest (by omega)] at hclose
              rw [h.take_append rest le_rfl] at hquotes
              have hspells : SpellsBlock (c :: read) (c :: line) lines :=
                .plain hline hscalar (fun hc htake => hclose ⟨hc, htake⟩)
                  (fun hc htake => hquotes ⟨hc, htake⟩) h
              exact Or.inl ⟨_, rest, _, _, rfl, hspells⟩
            · refine Or.inr fun position lineStart => ?_
              obtain ⟨e, d, hread⟩ := herror (position + 1) lineStart
              refine ⟨e, d, ?_⟩
              rw [readBlockLines, if_neg (by simpa using hclose), if_neg (by simpa using hquotes),
                if_neg (by simp [hline]), if_pos hscalar, hread]
              rfl
          by_cases hpair : isSupplementaryCodePoint (c :: tail)
          · obtain ⟨d, tail, rfl⟩ : ∃ d rest, tail = d :: rest := by
              cases tail with
              | nil => simp [isSupplementaryCodePoint] at hpair
              | cons d rest => exact ⟨d, rest, rfl⟩
            have hsurrogates := hpair
            simp only [isSupplementaryCodePoint, Bool.and_eq_true] at hsurrogates
            rcases hih tail (by simp) with ⟨read, rest, line, lines, rfl, h⟩ | herror
            · exact Or.inl ⟨_, rest, _, _, rfl, h.surrogates hsurrogates.1 hsurrogates.2⟩
            · refine Or.inr fun position lineStart => ?_
              obtain ⟨e, d', hread⟩ := herror (position + 2) lineStart
              refine ⟨e, d', ?_⟩
              rw [readBlockLines, if_neg (by simpa using hclose), if_neg (by simpa using hquotes),
                if_neg (by simp [hline]), if_neg hscalar, if_pos hpair, List.drop_succ_cons,
                List.drop_zero, hread]
              rfl
          · refine Or.inr fun position lineStart => ⟨position,
              str "Invalid character within String: " ++ printCodePointAt (c :: tail) ++
                str ".", ?_⟩
            rw [readBlockLines, if_neg (by simpa using hclose), if_neg (by simpa using hquotes),
              if_neg (by simp [hline]), if_neg hscalar, if_neg hpair]
            rfl

/-- What reading a block string can end with. -/
inductive BlockOutcome (position lineStart : ℕ) (text : Text) :
    Except SyntaxError BlockLines → Prop
  | complete {read line rest : Text} {lines : List Text} (htext : text = read ++ rest)
      (hspells : SpellsBlock read line lines) :
      BlockOutcome position lineStart text (.ok
        { line := line, lines := lines, length := read.length
          lineStart := lineStartBehind position lineStart read, rest := rest })
  | invalid (errorPosition : ℕ) (description : Text) :
      BlockOutcome position lineStart text (.error (.syntaxError errorPosition description))

theorem readBlockLines_outcome (position lineStart : ℕ) (text : Text) :
    BlockOutcome position lineStart text (readBlockLines position lineStart text) := by
  rcases spelledOrInvalid text with ⟨read, rest, line, lines, rfl, hspells⟩ | herror
  · rw [readBlockLines_of_spells hspells]
    exact .complete rfl hspells
  · obtain ⟨e, d, hread⟩ := herror position lineStart
    rw [hread]
    exact .invalid e d

end GraphqlCore.Language
