import GraphqlCore.Language.PrintedBlockStrings
import GraphqlCore.Language.WrittenValues
import Mathlib.Logic.Function.Iterate

/-!
# Nested block strings

The indentation that all lines but the first have in common does not change the value of a
block string.  So a block string may be indented with what is printed around it, unless its
lines end with carriage returns alone, which the printer does not take for line ends.
-/

namespace GraphqlCore.Language

/-! ## Uniform indentation -/

/-- Put spaces in front of every line but the first. -/
def indentOthers (spaces : ℕ) : List Text → List Text
  | [] => []
  | first :: others => first :: others.map (indentLine spaces)

theorem takeWhile_indentLine (spaces : ℕ) (lines : List Text) :
    (lines.map (indentLine spaces)).takeWhile isBlank =
      (lines.takeWhile isBlank).map (indentLine spaces) := by
  rw [List.takeWhile_map]
  have hblank : isBlank ∘ indentLine spaces = isBlank := funext (isBlank_indentLine spaces)
  rw [hblank]

/-- As many lines are blank at the start. -/
theorem length_takeWhile_indentOthers (spaces : ℕ) (lines : List Text) :
    ((indentOthers spaces lines).takeWhile isBlank).length =
      (lines.takeWhile isBlank).length := by
  cases lines with
  | nil => rfl
  | cons first others =>
      rw [indentOthers, List.takeWhile_cons, List.takeWhile_cons]
      split
      · rw [takeWhile_indentLine, List.length_cons, List.length_map, List.length_cons]
      · rfl

/-- As many lines are blank at the end. -/
theorem length_takeWhile_reverse_indentOthers (spaces : ℕ) (lines : List Text) :
    ((indentOthers spaces lines).reverse.takeWhile isBlank).length =
      (lines.reverse.takeWhile isBlank).length := by
  cases lines with
  | nil => rfl
  | cons first others =>
      rw [indentOthers, List.reverse_cons, List.reverse_cons, ← List.map_reverse,
        List.takeWhile_append, List.takeWhile_append, takeWhile_indentLine]
      simp only [List.length_map]
      split <;> simp

/-- What is left of the lines is the same. -/
theorem map_dedentLine_indentLine (spaces : ℕ) (lines : List Text) :
    (lines.map (indentLine spaces)).map (dedentLine (lines.map (indentLine spaces))) =
      lines.map (dedentLine lines) := by
  rw [List.map_map]
  refine List.map_congr_left fun line _ => ?_
  rw [Function.comp_apply, dedentLine, dedentLine, commonIndent_indentLine]
  cases commonIndent lines with
  | none => rfl
  | some indent => exact drop_indentLine spaces indent line

theorem dedentBlockStringLines_cons (head : Text) (rest : List Text) :
    dedentBlockStringLines (head :: rest) =
      ((head :: rest.map (dedentLine rest)).take ((head :: rest).length -
        ((head :: rest).reverse.takeWhile isBlank).length)).drop
          ((head :: rest).takeWhile isBlank).length := by
  rw [← dedented_eq]
  rfl

theorem dedentBlockStringLines_indentOthers (spaces : ℕ) (lines : List Text) :
    dedentBlockStringLines (indentOthers spaces lines) = dedentBlockStringLines lines := by
  cases lines with
  | nil => rfl
  | cons first others =>
      have hstart := length_takeWhile_indentOthers spaces (first :: others)
      have hstop := length_takeWhile_reverse_indentOthers spaces (first :: others)
      rw [indentOthers] at hstart hstop ⊢
      rw [dedentBlockStringLines_cons, dedentBlockStringLines_cons, map_dedentLine_indentLine,
        hstart, hstop, List.length_cons, List.length_cons, List.length_map]

/-- The value does not begin with a blank line, and it does not end with one. -/
theorem dedentBlockStringLines_ends (lines : List Text) :
    (∀ line ∈ (dedentBlockStringLines lines).head?, isBlank line = false) ∧
      ∀ line ∈ (dedentBlockStringLines lines).getLast?, isBlank line = false := by
  cases lines with
  | nil => exact ⟨fun _ h => (nomatch h), fun _ h => nomatch h⟩
  | cons head rest =>
      rcases exists_trimmed (head :: rest) with hblank | ⟨before, middle, after, htrimmed⟩
      · rw [dedentBlockStringLines_of_blank hblank]
        exact ⟨fun _ h => (nomatch h), fun _ h => nomatch h⟩
      · cases middle with
        | nil => exact absurd rfl htrimmed.ne_nil
        | cons first middle =>
            cases before with
            | nil =>
                obtain ⟨rfl, -⟩ := List.cons.inj htrimmed.lines_eq
                obtain ⟨hvalue, hlast⟩ := htrimmed.dedent_inFront
                rw [hvalue]
                refine ⟨fun line hline => ?_, hlast⟩
                exact htrimmed.first line hline
            | cons blank before =>
                obtain ⟨rfl, -⟩ := List.cons.inj htrimmed.lines_eq
                obtain ⟨hvalue, hfirst, hlast⟩ := htrimmed.dedent_behind
                rw [hvalue]
                refine ⟨fun line hline => ?_, hlast⟩
                obtain rfl : dedentLine rest first = line := by simpa using hline
                exact hfirst

/-! ## Indented texts -/

/-- A carriage return stands only in front of a line feed. -/
def EndsLinesWithFeeds (text : Text) : Prop :=
  ∀ rest, 13 :: rest <:+ text → rest.head? = some 10

theorem EndsLinesWithFeeds.of_suffix {text text' : Text} (h : EndsLinesWithFeeds text)
    (hsuffix : text' <:+ text) : EndsLinesWithFeeds text' :=
  fun rest hrest => h rest (hrest.trans hsuffix)

theorem EndsLinesWithFeeds.tail {c : ℕ} {text : Text} (h : EndsLinesWithFeeds (c :: text)) :
    EndsLinesWithFeeds text := h.of_suffix (List.suffix_cons c text)

/-- The text has as many quotes at the start. -/
theorem take_indentRest {spaces n : ℕ} {text : Text}
    (h : (indentRest spaces text).take n = List.replicate n 34) :
    text.take n = List.replicate n 34 := by
  induction n generalizing text with
  | zero => rfl
  | succ n ih =>
      cases text with
      | nil => exact h
      | cons c text =>
          rw [List.replicate_succ] at h ⊢
          by_cases hc : c = 10
          · subst hc
            cases h
          · rw [indentRest_cons hc, List.take_succ_cons] at h
            obtain ⟨rfl, htail⟩ := List.cons.inj h
            rw [List.take_succ_cons, ih htail]

/-- The raw lines of an indented block string are indented. -/
theorem SpellsBlock.indentRest {text line : Text} {lines : List Text}
    (h : SpellsBlock text line lines) (hfeeds : EndsLinesWithFeeds text) (spaces : ℕ) :
    SpellsBlock (indentRest spaces text) line (lines.map (indentLine spaces)) := by
  induction h with
  | close => exact .close
  | quotes _ ih =>
      rw [indentRest_cons (by decide), indentRest_cons (by decide), indentRest_cons (by decide),
        indentRest_cons (by decide)]
      exact (ih hfeeds.tail.tail.tail.tail).quotes
  | lineFeed _ ih => exact ((ih hfeeds.tail).spaces spaces).lineFeed
  | carriageReturn hnext _ _ => exact absurd (hfeeds _ List.suffix_rfl) hnext
  | both _ ih =>
      rw [indentRest_cons (by decide)]
      exact ((ih hfeeds.tail.tail).spaces spaces).both
  | plain hline hscalar hclose hquotes _ ih =>
      rw [indentRest_cons (not_isLineEnd_iff.mp hline).2]
      exact .plain hline hscalar (fun hc htake => hclose hc (take_indentRest htake))
        (fun hc htake => hquotes hc (take_indentRest htake)) (ih hfeeds.tail)
  | surrogates hleading htrailing _ ih =>
      have hc := (not_isLineEnd_iff.mp (not_lineEnd_of_surrogate (Or.inl hleading))).2
      have hd := (not_isLineEnd_iff.mp (not_lineEnd_of_surrogate (Or.inr htrailing))).2
      rw [indentRest_cons hc, indentRest_cons hd]
      exact .surrogates hleading htrailing (ih hfeeds.tail.tail)

theorem indentLines_eq (text : Text) : indentLines text = indentRest 2 text := rfl

/-- To indent a text puts spaces in front of all lines. -/
theorem indent_of_ne_nil {text : Text} (h : text ≠ []) :
    indent text = List.replicate 2 32 ++ indentRest 2 text := by
  have hsome : (indentLines text).isEmpty = false := by
    cases text with
    | nil => exact absurd rfl h
    | cons c text =>
        rw [indentLines, List.flatMap_cons]
        split <;> rfl
  rw [indent, wrap, hsome, indentLines_eq]
  exact List.append_nil _

theorem indentRest_replicate (spaces n : ℕ) (text : Text) :
    indentRest spaces (List.replicate n 32 ++ text) =
      List.replicate n 32 ++ indentRest spaces text := by
  induction n with
  | zero => rfl
  | succ n ih =>
      rw [List.replicate_succ, List.cons_append, indentRest_cons (by decide), ih]
      rfl

theorem indentRest_indentRest (spaces spaces' : ℕ) (text : Text) :
    indentRest spaces (indentRest spaces' text) = indentRest (spaces + spaces') text := by
  induction text with
  | nil => rfl
  | cons c text ih =>
      by_cases hc : c = 10
      · subst hc
        rw [indentRest_lineFeed, indentRest_lineFeed, indentRest_lineFeed, indentRest_replicate,
          ih, ← List.append_assoc, List.replicate_append_replicate]
      · rw [indentRest_cons hc, indentRest_cons hc, indentRest_cons hc, ih]

theorem indentRest_zero (text : Text) : indentRest 0 text = text := by
  induction text with
  | nil => rfl
  | cons c text ih =>
      by_cases hc : c = 10
      · subst hc
        rw [indentRest_lineFeed, ih]
        rfl
      · rw [indentRest_cons hc, ih]

/-- A text that is nested some levels deep. -/
theorem iterate_indent {text : Text} (h : text ≠ []) (depth : ℕ) :
    indent^[depth] text = List.replicate (2 * depth) 32 ++ indentRest (2 * depth) text := by
  induction depth with
  | zero => exact (indentRest_zero text).symm
  | succ depth ih =>
      have hne : List.replicate (2 * depth) 32 ++ indentRest (2 * depth) text ≠ [] := by
        cases text with
        | nil => exact absurd rfl h
        | cons c text =>
            refine List.append_ne_nil_of_right_ne_nil _ ?_
            rw [indentRest, List.flatMap_cons]
            split <;> exact List.cons_ne_nil _ _
      have hsum : 2 * (depth + 1) = 2 + 2 * depth := by omega
      rw [Function.iterate_succ_apply', ih, indent_of_ne_nil hne, indentRest_replicate,
        indentRest_indentRest, ← List.append_assoc, List.replicate_append_replicate, hsum]

/-! ## Tokens behind spaces -/

theorem exists_readNextToken_spaces {n : ℕ} (cursor : Cursor) {rest : Text}
    (hrest : cursor.rest = List.replicate n 32 ++ rest) :
    ∃ start : Cursor, start.rest = rest ∧ readNextToken cursor = readNextToken start := by
  induction n generalizing cursor with
  | zero => exact ⟨cursor, hrest, rfl⟩
  | succ n ih =>
      rw [List.replicate_succ, List.cons_append] at hrest
      obtain ⟨start, hstart, hread⟩ := ih (cursor.advance 1 (List.replicate n 32 ++ rest)) rfl
      exact ⟨start, hstart, (readNextToken_of_space hrest).trans hread⟩

/-- The text of a token behind spaces is read as that token. -/
theorem SpellsToken.lex_spaces {kind : TokenKind} {value : Option Text} {text : Text}
    (h : SpellsToken kind value text) (n : ℕ) :
    ∃ token eof, lex (List.replicate n 32 ++ text) = ([token, eof], none) ∧
      token.kind = kind ∧ token.value = value ∧ eof.kind = .eof := by
  let first : Cursor :=
    { position := 0, line := 1, lineStart := 0, rest := List.replicate n 32 ++ text }
  obtain ⟨start, hstart, hskip⟩ := exists_readNextToken_spaces first rfl
  have hrest : start.rest = text ++ [] := hstart.trans (List.append_nil text).symm
  obtain ⟨token, next, hread, hbefore⟩ := h.read (fun _ => separates_nil) hrest
  obtain ⟨heof, hcomment⟩ := h.kind_ne
  have hkind : token.kind = kind := by rw [hbefore.token_eq]; rfl
  have hvalue : token.value = value := by rw [hbefore.token_eq]; rfl
  have hlength : (List.replicate n 32 ++ text).length ≠ 0 := by
    obtain ⟨c, rest, rfl, -⟩ := h.exists_cons
    simp
  obtain ⟨limit, hlimit⟩ := Nat.exists_eq_succ_of_ne_zero hlength
  refine ⟨token, next.createToken .eof 0, ?_, hkind, hvalue, rfl⟩
  rw [lex, lexTokens, hskip, hread]
  simp only [hkind, heof, hcomment, if_false]
  rw [hlimit, lexTokens, readNextToken_of_nil next hbefore.rest_eq]
  rfl

theorem lexesAsBlockString_spaces_iff {text line value : Text} {lines : List Text}
    (h : SpellsBlock text line lines) (n : ℕ) :
    LexesAsBlockString (List.replicate n 32 ++ 34 :: 34 :: 34 :: text) value ↔
      joinLines (dedentBlockStringLines (line :: lines)) = value := by
  obtain ⟨token, eof, hlex, hkind, hvalue, heof⟩ := (SpellsToken.blockString h).lex_spaces n
  constructor
  · rintro ⟨token', eof', hlex', -, hvalue', -⟩
    obtain ⟨rfl, -⟩ := List.cons.inj (Prod.mk.inj (hlex.symm.trans hlex')).1
    exact Option.some.inj (hvalue.symm.trans hvalue')
  · rintro rfl
    exact ⟨token, eof, hlex, hkind, hvalue, heof⟩

/-- A block string that is nested any number of times is read as the same value. -/
theorem lexesAsBlockString_iterate_indent {text line value : Text} {lines : List Text}
    (h : SpellsBlock text line lines) (hfeeds : EndsLinesWithFeeds text) (depth : ℕ) :
    LexesAsBlockString (indent^[depth] (34 :: 34 :: 34 :: text)) value ↔
      LexesAsBlockString (34 :: 34 :: 34 :: text) value := by
  have hsame := dedentBlockStringLines_indentOthers (2 * depth) (line :: lines)
  rw [indentOthers] at hsame
  rw [iterate_indent (List.cons_ne_nil _ _), indentRest_cons (by decide),
    indentRest_cons (by decide), indentRest_cons (by decide),
    lexesAsBlockString_spaces_iff (h.indentRest hfeeds (2 * depth)), hsame,
    lexesAsBlockString_iff h]

/-! ## Main result -/

/-- Dedenting ignores uniform indentation and leaves no blank lines at the ends.  So a block
string keeps its value at every level, if its lines end with line feeds. -/
theorem dedentBlockStringLines_ignoresIndentation :
    (∀ spaces lines, dedentBlockStringLines (indentOthers spaces lines) =
        dedentBlockStringLines lines) ∧
      (∀ lines, (∀ line ∈ (dedentBlockStringLines lines).head?, isBlank line = false) ∧
        ∀ line ∈ (dedentBlockStringLines lines).getLast?, isBlank line = false) ∧
      ∀ text line lines, SpellsBlock text line lines → EndsLinesWithFeeds text →
        ∀ depth value, LexesAsBlockString (indent^[depth] (34 :: 34 :: 34 :: text)) value ↔
          LexesAsBlockString (34 :: 34 :: 34 :: text) value :=
  ⟨dedentBlockStringLines_indentOthers, dedentBlockStringLines_ends,
    fun _ _ _ h hfeeds depth _ => lexesAsBlockString_iterate_indent h hfeeds depth⟩

/-- Two lines of which the second one is indented, three levels deep. -/
theorem dedentBlockStringLines_ignoresIndentation_nested :
    LexesAsBlockString (indent^[3] (34 :: 34 :: 34 :: [97, 10, 32, 98, 34, 34, 34])) [97, 10, 98] ↔
      LexesAsBlockString (34 :: 34 :: 34 :: [97, 10, 32, 98, 34, 34, 34]) [97, 10, 98] := by
  have hspells : SpellsBlock [97, 10, 32, 98, 34, 34, 34] [97] [[32, 98]] :=
    .plain rfl rfl nofun nofun (.lineFeed (.plain rfl rfl nofun nofun
      (.plain rfl rfl nofun nofun .close)))
  have hfeeds : EndsLinesWithFeeds [97, 10, 32, 98, 34, 34, 34] := by
    intro rest hrest
    have hmem := hrest.subset List.mem_cons_self
    simp at hmem
  exact dedentBlockStringLines_ignoresIndentation.2.2 _ _ _ hspells hfeeds 3 _

/-- The lines of a block string, of which the first ends with a carriage return. -/
def carriageReturnLines : Text := [97, 13, 32, 98, 10, 32, 99, 34, 34, 34]

/-- The second line is not indented by the printer, and so the value changes. -/
theorem lexesAsBlockString_carriageReturn :
    LexesAsBlockString (34 :: 34 :: 34 :: carriageReturnLines) [97, 10, 98, 10, 99] ∧
      ¬ LexesAsBlockString (indent (34 :: 34 :: 34 :: carriageReturnLines))
        [97, 10, 98, 10, 99] := by
  constructor
  · have hspells : SpellsBlock carriageReturnLines [97] [[32, 98], [32, 99]] :=
      .plain rfl rfl nofun nofun (.carriageReturn (by decide) (.plain rfl rfl nofun nofun
        (.plain rfl rfl nofun nofun (.lineFeed (.plain rfl rfl nofun nofun
          (.plain rfl rfl nofun nofun .close))))))
    exact (lexesAsBlockString_iff hspells).mpr (by decide)
  · have hspells : SpellsBlock [97, 13, 32, 98, 10, 32, 32, 32, 99, 34, 34, 34] [97]
        [[32, 98], [32, 32, 32, 99]] :=
      .plain rfl rfl nofun nofun (.carriageReturn (by decide) (.plain rfl rfl nofun nofun
        (.plain rfl rfl nofun nofun (.lineFeed (.plain rfl rfl nofun nofun
          (.plain rfl rfl nofun nofun (.plain rfl rfl nofun nofun
            (.plain rfl rfl nofun nofun .close))))))))
    have hindent : indent (34 :: 34 :: 34 :: carriageReturnLines) =
        List.replicate 2 32 ++ 34 :: 34 :: 34 ::
          [97, 13, 32, 98, 10, 32, 32, 32, 99, 34, 34, 34] := by decide
    rw [hindent, lexesAsBlockString_spaces_iff hspells]
    decide

end GraphqlCore.Language
