import GraphqlCore.Language.BlockStringLines
import GraphqlCore.Language.BlockStringTokens

/-!
# The values of block strings

What the lexer makes of the raw lines of a block string: its code points can stand in a
block string again, and its lines are those of a value that is printable.
-/

namespace GraphqlCore.Language

/-! ## Code points -/

/-- Text of scalar values that are no carriage returns, and of surrogate pairs. -/
inductive BlockText : Text → Prop
  | nil : BlockText []
  | plain {c : ℕ} {text : Text} (hscalar : isUnicodeScalarValue c) (hreturn : c ≠ 13)
      (h : BlockText text) : BlockText (c :: text)
  | surrogates {c d : ℕ} {text : Text} (hleading : isLeadingSurrogate c)
      (htrailing : isTrailingSurrogate d) (h : BlockText text) : BlockText (c :: d :: text)

theorem blockText_of_scalar {text : Text} (h : ∀ c ∈ text, isUnicodeScalarValue c ∧ c ≠ 13) :
    BlockText text := by
  induction text with
  | nil => exact .nil
  | cons c text ih =>
      obtain ⟨hscalar, hreturn⟩ := h c List.mem_cons_self
      exact .plain hscalar hreturn (ih fun d hd => h d (List.mem_cons_of_mem _ hd))

theorem BlockText.append {text text' : Text} (h : BlockText text) (h' : BlockText text') :
    BlockText (text ++ text') := by
  induction h with
  | nil => exact h'
  | plain hscalar hreturn _ ih => exact .plain hscalar hreturn ih
  | surrogates hleading htrailing _ ih => exact .surrogates hleading htrailing ih

theorem BlockText.tail {c : ℕ} {text : Text} (h : BlockText (c :: text))
    (hscalar : isUnicodeScalarValue c) : BlockText text := by
  cases h with
  | plain _ _ h => exact h
  | surrogates hleading =>
      rw [not_scalar_of_leading hleading] at hscalar
      cases hscalar

theorem isWhiteSpace_scalar {c : ℕ} (h : (c = 32 || c = 9 : Bool)) : isUnicodeScalarValue c := by
  rw [Bool.or_eq_true, decide_eq_true_eq, decide_eq_true_eq] at h
  rcases h with rfl | rfl <;> rfl

/-- White space is taken off the front. -/
theorem BlockText.drop_whiteSpace {text : Text} (h : BlockText text) {n : ℕ}
    (hn : n ≤ leadingWhiteSpace text) : BlockText (text.drop n) := by
  induction n generalizing text with
  | zero => exact h
  | succ n ih =>
      cases text with
      | nil => exact h
      | cons c text =>
          rw [leadingWhiteSpace_cons] at hn
          split at hn
          · rename_i hc
            exact ih (h.tail (isWhiteSpace_scalar hc)) (by omega)
          · omega

/-- The code points of a line: it has no line feed. -/
structure BlockLine (line : Text) : Prop where
  text : BlockText line
  noFeed : 10 ∉ line

theorem SpellsBlock.blockLines {text line : Text} {lines : List Text}
    (h : SpellsBlock text line lines) : ∀ raw ∈ line :: lines, BlockLine raw := by
  have hempty : BlockLine [] := ⟨.nil, List.not_mem_nil⟩
  have hquote : isUnicodeScalarValue 34 := rfl
  induction h with
  | close => exact List.forall_mem_singleton.mpr hempty
  | quotes _ ih =>
      obtain ⟨⟨hline, hnone⟩, hlines⟩ := List.forall_mem_cons.mp ih
      refine List.forall_mem_cons.mpr ⟨⟨?_, by simpa using hnone⟩, hlines⟩
      exact .plain hquote (by decide) (.plain hquote (by decide) (.plain hquote (by decide) hline))
  | lineFeed _ ih | carriageReturn _ _ ih | both _ ih =>
      exact List.forall_mem_cons.mpr ⟨hempty, ih⟩
  | plain hline hscalar _ _ _ ih =>
      obtain ⟨⟨htext, hnone⟩, hlines⟩ := List.forall_mem_cons.mp ih
      obtain ⟨hreturn, hfeed⟩ := not_isLineEnd_iff.mp hline
      refine List.forall_mem_cons.mpr ⟨⟨.plain hscalar hreturn htext, ?_⟩, hlines⟩
      simpa using ⟨hfeed.symm, hnone⟩
  | surrogates hleading htrailing _ ih =>
      obtain ⟨⟨htext, hnone⟩, hlines⟩ := List.forall_mem_cons.mp ih
      refine List.forall_mem_cons.mpr ⟨⟨.surrogates hleading htrailing htext, ?_⟩, hlines⟩
      have hc := (not_isLineEnd_iff.mp (not_lineEnd_of_surrogate (Or.inl hleading))).2
      have hd := (not_isLineEnd_iff.mp (not_lineEnd_of_surrogate (Or.inr htrailing))).2
      simpa using ⟨hc.symm, hd.symm, hnone⟩

/-! ## Joined lines -/

theorem splitOn_of_noFeed {line : Text} (h : 10 ∉ line) : line.splitOn 10 = [line] :=
  List.splitOn_eq_singleton h

theorem splitOn_append_lineFeed {line : Text} (h : 10 ∉ line) (text : Text) :
    (line ++ 10 :: text).splitOn 10 = line :: text.splitOn 10 := by
  induction line with
  | nil =>
      rw [List.nil_append, List.splitOn_cons_eq_if_modifyHead, if_pos (by decide)]
  | cons c line ih =>
      have hc : c ≠ 10 := fun hc => h (hc ▸ List.mem_cons_self)
      exact splitOn_cons_of_ne hc (ih fun hmem => h (List.mem_cons_of_mem _ hmem))

theorem splitOn_joinLines {first : Text} {others : List Text}
    (h : ∀ line ∈ first :: others, 10 ∉ line) :
    (joinLines (first :: others)).splitOn 10 = first :: others := by
  induction others generalizing first with
  | nil => exact splitOn_of_noFeed (h first List.mem_cons_self)
  | cons next others ih =>
      obtain ⟨hfirst, hothers⟩ := List.forall_mem_cons.mp h
      rw [joinLines_cons _ (List.cons_ne_nil _ _), splitOn_append_lineFeed hfirst, ih hothers]

theorem blockText_joinLines {lines : List Text} (h : ∀ line ∈ lines, BlockText line) :
    BlockText (joinLines lines) := by
  induction lines with
  | nil => exact .nil
  | cons line lines ih =>
      obtain ⟨hline, hlines⟩ := List.forall_mem_cons.mp h
      cases lines with
      | nil => exact hline
      | cons next lines =>
          rw [joinLines_cons _ (List.cons_ne_nil _ _)]
          exact hline.append (.plain rfl (by decide) (ih hlines))

/-! ## Dedented lines -/

/-- What is left of a line behind the first one. -/
def dedentLine (lines : List Text) (line : Text) : Text :=
  match commonIndent lines with
  | some indent => line.drop indent
  | none => []

theorem leadingWhiteSpace_drop {line : Text} {n : ℕ} (hn : n ≤ leadingWhiteSpace line) :
    leadingWhiteSpace (line.drop n) = leadingWhiteSpace line - n := by
  induction n generalizing line with
  | zero => rfl
  | succ n ih =>
      cases line with
      | nil => cases hn
      | cons c line =>
          rw [leadingWhiteSpace_cons] at hn ⊢
          split at hn
          · rename_i hc
            rw [if_pos hc, List.drop_succ_cons, ih (by omega)]
            omega
          · omega

theorem isBlank_drop {line : Text} {n : ℕ} (hn : n ≤ leadingWhiteSpace line) :
    isBlank (line.drop n) = isBlank line := by
  have hle : leadingWhiteSpace line ≤ line.length := (List.takeWhile_sublist _).length_le
  rw [isBlank, isBlank, leadingWhiteSpace_drop hn, List.length_drop, decide_eq_decide]
  omega

/-- A line that is not blank has the common indentation. -/
theorem commonIndent_le {lines : List Text} {line : Text} (hline : line ∈ lines)
    (hblank : isBlank line = false) :
    ∃ indent, commonIndent lines = some indent ∧ indent ≤ leadingWhiteSpace line := by
  cases h : commonIndent lines with
  | none =>
      rw [commonIndent_eq_none_iff.mp h line hline] at hblank
      cases hblank
  | some indent => exact ⟨indent, rfl, (commonIndent_eq_some_iff.mp h).2 line hline hblank⟩

theorem isBlank_dedentLine {lines : List Text} {line : Text} (hline : line ∈ lines)
    (hblank : isBlank line = false) : isBlank (dedentLine lines line) = false := by
  obtain ⟨indent, hindent, hle⟩ := commonIndent_le hline hblank
  rw [dedentLine, hindent]
  exact (isBlank_drop hle).trans hblank

theorem mem_of_mem_dedentLine {lines : List Text} {line : Text} {c : ℕ}
    (h : c ∈ dedentLine lines line) : c ∈ line := by
  rw [dedentLine] at h
  split at h
  · exact List.mem_of_mem_drop h
  · cases h

theorem drop_of_isBlank {line : Text} (h : isBlank line) (n : ℕ) : BlockText (line.drop n) := by
  apply blockText_of_scalar
  intro c hc
  rw [isBlank_eq_all, List.all_eq_true] at h
  have hspace := h c (List.mem_of_mem_drop hc)
  refine ⟨isWhiteSpace_scalar hspace, ?_⟩
  rintro rfl
  cases hspace

theorem BlockLine.dedentLine {lines : List Text} {line : Text} (h : BlockLine line)
    (hline : line ∈ lines) : BlockLine (dedentLine lines line) := by
  refine ⟨?_, fun hmem => h.noFeed (mem_of_mem_dedentLine hmem)⟩
  cases hblank : isBlank line with
  | false =>
      obtain ⟨indent, hindent, hle⟩ := commonIndent_le hline hblank
      rw [Language.dedentLine, hindent]
      exact h.text.drop_whiteSpace hle
  | true =>
      rw [Language.dedentLine]
      split
      · exact drop_of_isBlank hblank _
      · exact .nil

theorem exists_trimmed_front (lines : List Text) :
    ∃ before rest, lines = before ++ rest ∧ (∀ line ∈ before, isBlank line) ∧
      ∀ line ∈ rest.head?, isBlank line = false := by
  induction lines with
  | nil => exact ⟨[], [], rfl, fun _ h => (nomatch h), fun _ h => nomatch h⟩
  | cons line lines ih =>
      cases hblank : isBlank line with
      | false =>
          refine ⟨[], line :: lines, rfl, fun _ h => (nomatch h), fun line' hline => ?_⟩
          obtain rfl : line = line' := by simpa using hline
          exact hblank
      | true =>
          obtain ⟨before, rest, rfl, hbefore, hrest⟩ := ih
          exact ⟨line :: before, rest, rfl, List.forall_mem_cons.mpr ⟨hblank, hbefore⟩, hrest⟩

/-- The lines that stand between blank lines. -/
structure Trimmed (lines before middle after : List Text) : Prop where
  lines_eq : lines = before ++ middle ++ after
  ne_nil : middle ≠ []
  before : ∀ line ∈ before, isBlank line
  after : ∀ line ∈ after, isBlank line
  first : ∀ line ∈ middle.head?, isBlank line = false
  last : ∀ line ∈ middle.getLast?, isBlank line = false

theorem exists_trimmed (lines : List Text) :
    (∀ line ∈ lines, isBlank line) ∨ ∃ before middle after, Trimmed lines before middle after := by
  obtain ⟨before, rest, rfl, hbefore, hfirst⟩ := exists_trimmed_front lines
  cases rest with
  | nil => exact .inl fun line hline => hbefore line (by simpa using hline)
  | cons first rest =>
      right
      have hfirst : isBlank first = false := hfirst first rfl
      obtain ⟨after, middle, hrest, hafter, hlast⟩ := exists_trimmed_front (first :: rest).reverse
      have hsplit : first :: rest = middle.reverse ++ after.reverse := by
        rw [← List.reverse_append, ← hrest, List.reverse_reverse]
      have hsome : middle.reverse ≠ [] := by
        intro hnil
        rw [hnil, List.nil_append] at hsplit
        have hmem : first ∈ after := List.mem_reverse.mp (hsplit ▸ List.mem_cons_self)
        rw [hafter first hmem] at hfirst
        cases hfirst
      refine ⟨before, middle.reverse, after.reverse,
        ⟨by rw [hsplit, List.append_assoc], hsome, hbefore,
          fun line hline => hafter line (List.mem_reverse.mp hline), ?_, ?_⟩⟩
      · intro line hline
        cases hmiddle : middle.reverse with
        | nil => exact absurd hmiddle hsome
        | cons first' middle' =>
            rw [hmiddle] at hline hsplit
            obtain rfl : first' = line := by simpa using hline
            obtain ⟨rfl, -⟩ := List.cons.inj hsplit
            exact hfirst
      · intro line hline
        rw [List.getLast?_reverse] at hline
        exact hlast line hline

/-- The lines of a value: printable lines, or none. -/
inductive ValueLines : List Text → Prop
  | nil : ValueLines []
  | cons {first : Text} {others : List Text} (hlines : ∀ line ∈ first :: others, BlockLine line)
      (h : PrintableLines first others) : ValueLines (first :: others)

theorem dedentBlockStringLines_of_blank {head : Text} {rest : List Text}
    (h : ∀ line ∈ head :: rest, isBlank line) : dedentBlockStringLines (head :: rest) = [] := by
  have hstart : ((head :: rest).takeWhile isBlank).length = (head :: rest).length := by
    rw [List.takeWhile_eq_self_iff.mpr h]
  rw [dedentBlockStringLines, hstart, List.drop_eq_nil_iff, List.length_take]
  split <;> simp

theorem dedented_eq (head : Text) (rest : List Text) :
    (match commonIndent rest with
      | some indent => head :: rest.map (List.drop indent)
      | none => head :: rest.map fun _ => []) = head :: rest.map (dedentLine rest) := by
  cases h : commonIndent rest with
  | none =>
      have hline : dedentLine rest = fun _ => [] := funext fun line => by rw [dedentLine, h]
      rw [hline]
  | some indent =>
      have hline : dedentLine rest = List.drop indent := funext fun line => by rw [dedentLine, h]
      rw [hline]

/-- One of the lines behind the first that are not blank has no indentation any more. -/
theorem exists_not_indented {lines : List Text} {last : Text} (hlast : last ∈ lines)
    (hblank : isBlank last = false) :
    ∃ line ∈ lines, isBlank line = false ∧ isIndented (dedentLine lines line) = false := by
  obtain ⟨indent, hindent, -⟩ := commonIndent_le hlast hblank
  obtain ⟨⟨line, hline, hsome, hleading⟩, -⟩ := commonIndent_eq_some_iff.mp hindent
  refine ⟨line, hline, hsome, isIndented_eq_false_iff.mpr ⟨isBlank_dedentLine hline hsome, ?_⟩⟩
  rw [dedentLine, hindent]
  dsimp only
  rw [leadingWhiteSpace_drop (Nat.le_of_eq hleading.symm), hleading, Nat.sub_self]

/-- A line that is not blank is not trimmed. -/
theorem Trimmed.mem_middle {lines before middle after : List Text}
    (h : Trimmed lines before middle after) {line : Text} (hline : line ∈ lines)
    (hblank : isBlank line = false) : line ∈ middle := by
  rw [h.lines_eq, List.mem_append, List.mem_append] at hline
  rcases hline with (hmem | hmem) | hmem
  · rw [h.before line hmem] at hblank
    cases hblank
  · exact hmem
  · rw [h.after line hmem] at hblank
    cases hblank

theorem getLast?_map_dedentLine {rest middle : List Text} (hsub : ∀ line ∈ middle, line ∈ rest)
    (hlast : ∀ line ∈ middle.getLast?, isBlank line = false) :
    ∀ line ∈ (middle.map (dedentLine rest)).getLast?, isBlank line = false := by
  intro line hline
  rw [List.getLast?_map] at hline
  obtain ⟨raw, hraw, rfl⟩ := Option.map_eq_some_iff.mp hline
  exact isBlank_dedentLine (hsub raw (List.mem_of_getLast? hraw)) (hlast raw hraw)

/-- The value starts with the first raw line. -/
theorem Trimmed.dedent_inFront {head : Text} {rest middle after : List Text}
    (h : Trimmed (head :: rest) [] (head :: middle) after) :
    dedentBlockStringLines (head :: rest) = head :: middle.map (dedentLine rest) ∧
      ∀ line ∈ (head :: middle.map (dedentLine rest)).getLast?, isBlank line = false := by
  have hrest : rest = middle ++ after := (List.cons.inj h.lines_eq).2
  constructor
  · refine dedent_trim [] (head :: middle) after [] (after.map (dedentLine rest)) h.lines_eq
      h.before h.after h.first h.last h.ne_nil ?_ rfl (by simp)
    have hmap := congrArg (List.map (dedentLine rest)) hrest
    refine (dedented_eq head rest).trans ((congrArg (head :: ·) hmap).trans ?_)
    simp
  · cases middle with
    | nil => exact h.last
    | cons next middle =>
        intro line hline
        have hsub : ∀ line ∈ next :: middle, line ∈ rest := fun line hline =>
          hrest ▸ List.mem_append_left _ hline
        rw [List.map_cons, List.getLast?_cons_cons, ← List.map_cons] at hline
        refine getLast?_map_dedentLine hsub (fun raw hmem => h.last raw ?_) line hline
        rwa [List.getLast?_cons_cons]

/-- The value starts behind the first raw line. -/
theorem Trimmed.dedent_behind {head first : Text} {rest before middle after : List Text}
    (h : Trimmed (head :: rest) (head :: before) (first :: middle) after) :
    dedentBlockStringLines (head :: rest) = (first :: middle).map (dedentLine rest) ∧
      isBlank (dedentLine rest first) = false ∧
      ∀ line ∈ ((first :: middle).map (dedentLine rest)).getLast?, isBlank line = false := by
  have hrest : rest = before ++ (first :: middle) ++ after := (List.cons.inj h.lines_eq).2
  have hsub : ∀ line ∈ first :: middle, line ∈ rest := fun line hline => by
    rw [hrest]
    exact List.mem_append_left _ (List.mem_append_right _ hline)
  refine ⟨?_, isBlank_dedentLine (hsub first List.mem_cons_self) (h.first first rfl),
    getLast?_map_dedentLine hsub h.last⟩
  refine dedent_trim (head :: before) (first :: middle) after
    (head :: before.map (dedentLine rest)) (after.map (dedentLine rest)) h.lines_eq
    h.before h.after h.first h.last h.ne_nil ?_ (by simp) (by simp)
  have hmap := congrArg (List.map (dedentLine rest)) hrest
  refine (dedented_eq head rest).trans ((congrArg (head :: ·) hmap).trans ?_)
  simp

theorem valueLines_inFront {head : Text} {rest middle after : List Text}
    (hraw : ∀ line ∈ head :: rest, BlockLine line)
    (h : Trimmed (head :: rest) [] (head :: middle) after) :
    ValueLines (dedentBlockStringLines (head :: rest)) := by
  have hrest : rest = middle ++ after := (List.cons.inj h.lines_eq).2
  have hsub : ∀ line ∈ middle, line ∈ rest := fun line hline =>
    hrest ▸ List.mem_append_left _ hline
  obtain ⟨hhead, hrawRest⟩ := List.forall_mem_cons.mp hraw
  obtain ⟨hvalue, hlastLine⟩ := h.dedent_inFront
  rw [hvalue]
  refine .cons ?_ ⟨h.first head rfl, hlastLine, ?_⟩
  · refine List.forall_mem_cons.mpr ⟨hhead, fun line hline => ?_⟩
    obtain ⟨raw, hmem, rfl⟩ := List.mem_map.mp hline
    exact (hrawRest raw (hsub raw hmem)).dedentLine (hsub raw hmem)
  · intro hothers
    have hmiddle : middle ≠ [] := fun hnil => hothers (by rw [hnil]; rfl)
    have hlast := List.getLast?_eq_some_getLast hmiddle
    have hblank : isBlank (middle.getLast hmiddle) = false := by
      apply h.last
      rw [List.getLast?_cons, hlast]
      rfl
    obtain ⟨line, hline, hsome, hindented⟩ :=
      exists_not_indented (hsub _ (List.getLast_mem hmiddle)) hblank
    have hmem : line ∈ middle := by
      rw [hrest, List.mem_append] at hline
      rcases hline with hmem | hmem
      · exact hmem
      · rw [h.after line hmem] at hsome
        cases hsome
    exact ⟨_, List.mem_cons_of_mem _ (List.mem_map_of_mem hmem), hindented⟩

theorem valueLines_behind {head first : Text} {rest before middle after : List Text}
    (hraw : ∀ line ∈ rest, BlockLine line)
    (h : Trimmed (head :: rest) (head :: before) (first :: middle) after) :
    ValueLines (dedentBlockStringLines (head :: rest)) := by
  have hrest : rest = before ++ (first :: middle) ++ after := (List.cons.inj h.lines_eq).2
  have hsub : ∀ line ∈ first :: middle, line ∈ rest := fun line hline => by
    rw [hrest]
    exact List.mem_append_left _ (List.mem_append_right _ hline)
  obtain ⟨hvalue, hfirstLine, hlastLine⟩ := h.dedent_behind
  rw [hvalue]
  refine .cons ?_ ⟨hfirstLine, hlastLine, fun _ => ?_⟩
  · intro line hline
    rw [← List.map_cons] at hline
    obtain ⟨raw, hmem, rfl⟩ := List.mem_map.mp hline
    exact (hraw raw (hsub raw hmem)).dedentLine (hsub raw hmem)
  · obtain ⟨line, hline, hsome, hindented⟩ :=
      exists_not_indented (hsub first List.mem_cons_self) (h.first first rfl)
    have hmem := h.mem_middle (List.mem_cons_of_mem _ hline) hsome
    exact ⟨_, List.mem_map_of_mem hmem, hindented⟩

/-- The lines of the value of a block string. -/
theorem SpellsBlock.valueLines {text line : Text} {lines : List Text}
    (h : SpellsBlock text line lines) : ValueLines (dedentBlockStringLines (line :: lines)) := by
  have hraw := h.blockLines
  rcases exists_trimmed (line :: lines) with hblank | ⟨before, middle, after, htrimmed⟩
  · rw [dedentBlockStringLines_of_blank hblank]
    exact .nil
  · cases middle with
    | nil => exact absurd rfl htrimmed.ne_nil
    | cons first middle =>
        cases before with
        | nil =>
            obtain ⟨rfl, -⟩ := List.cons.inj htrimmed.lines_eq
            exact valueLines_inFront hraw htrimmed
        | cons head before =>
            obtain ⟨rfl, -⟩ := List.cons.inj htrimmed.lines_eq
            exact valueLines_behind
              (fun raw hmem => hraw raw (List.mem_cons_of_mem _ hmem)) htrimmed

end GraphqlCore.Language
