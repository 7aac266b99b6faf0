import GraphqlCore.Language.BlockStringValues
import GraphqlCore.Language.PrintedStrings
import GraphqlCore.Language.SourceLocation

/-!
# Printed block strings are read again

The printer of block strings escapes triple quotes and puts line feeds in front of and
behind the value; lexing undoes the escaping, and dedenting undoes the indentation of the
lines.  The lines of the printer are those of Python, the lines of the lexer are not, so
that this holds of some values only.
-/

namespace GraphqlCore.Language

/-! ## Escaped quotes -/

/-- Is the last code point a quote that is not escaped, or a backslash? -/
def endsOpen : Text → Bool
  | 34 :: 34 :: 34 :: rest => endsOpen rest
  | [c] => c = 34 || c = 92
  | _ :: rest => endsOpen rest
  | [] => false

theorem escapeTripleQuotes_triple (rest : Text) :
    escapeTripleQuotes (34 :: 34 :: 34 :: rest) =
      92 :: 34 :: 34 :: 34 :: escapeTripleQuotes rest := rfl

theorem escapeTripleQuotes_cons {c : ℕ} {rest : Text}
    (h : ¬ (c = 34 ∧ rest.take 2 = [34, 34])) :
    escapeTripleQuotes (c :: rest) = c :: escapeTripleQuotes rest := by
  rw [escapeTripleQuotes.eq_def]
  split
  · next heq =>
    obtain ⟨rfl, rfl⟩ := List.cons.inj heq
    exact absurd ⟨rfl, rfl⟩ h
  · next heq =>
    obtain ⟨rfl, rfl⟩ := List.cons.inj heq
    rfl
  · next heq => cases heq

theorem endsOpen_triple (rest : Text) : endsOpen (34 :: 34 :: 34 :: rest) = endsOpen rest := rfl

theorem endsOpen_cons {c : ℕ} {rest : Text} (h : ¬ (c = 34 ∧ rest.take 2 = [34, 34]))
    (hsome : rest ≠ []) : endsOpen (c :: rest) = endsOpen rest := by
  rw [endsOpen.eq_def]
  split
  · next heq =>
    obtain ⟨rfl, rfl⟩ := List.cons.inj heq
    exact absurd ⟨rfl, rfl⟩ h
  · next heq =>
    obtain ⟨-, rfl⟩ := List.cons.inj heq
    exact absurd rfl hsome
  · next heq =>
    obtain ⟨-, rfl⟩ := List.cons.inj heq
    rfl
  · next heq => cases heq

theorem endsOpen_of_tail {c : ℕ} {rest : Text} (h : ¬ (c = 34 ∧ rest.take 2 = [34, 34]))
    (hopen : endsOpen rest) : endsOpen (c :: rest) := by
  have hsome : rest ≠ [] := by
    rintro rfl
    cases hopen
  rw [endsOpen_cons h hsome]
  exact hopen

theorem endsOpen_singleton (c : ℕ) : endsOpen [c] = (c = 34 || c = 92) := by
  rw [endsOpen.eq_def]
  split
  · next heq => cases heq
  · next heq =>
    obtain ⟨rfl, -⟩ := List.cons.inj heq
    rfl
  · next hne heq =>
    obtain ⟨-, rfl⟩ := List.cons.inj heq
    exact (hne rfl).elim
  · next heq => cases heq

/-- Triple quotes come first, then every other text. -/
theorem tripleQuotes_induction {motive : Text → Prop} (nil : motive [])
    (triple : ∀ rest, motive rest → motive (34 :: 34 :: 34 :: rest))
    (cons : ∀ c rest, ¬ (c = 34 ∧ rest.take 2 = [34, 34]) → motive rest → motive (c :: rest))
    (text : Text) : motive text := by
  induction hlength : text.length using Nat.strongRecOn generalizing text with
  | _ length ih =>
      subst hlength
      match text with
      | [] => exact nil
      | c :: rest =>
          by_cases h : c = 34 ∧ rest.take 2 = [34, 34]
          · obtain ⟨rfl, htake⟩ := h
            obtain ⟨rest, rfl⟩ : ∃ rest', rest = 34 :: 34 :: rest' :=
              ⟨rest.drop 2, by rw [← List.take_append_drop 2 rest, htake]; rfl⟩
            refine triple rest (ih rest.length ?_ rest rfl)
            simp only [List.length_cons]
            omega
          · exact cons c rest h (ih rest.length (Nat.lt_succ_self _) rest rfl)

/-- Triple quotes come first, then every other code point or surrogate pair. -/
theorem BlockText.quotes_induction {motive : ∀ text, BlockText text → Prop}
    (nil : motive [] .nil)
    (triple : ∀ rest (hrest : BlockText rest) (h : BlockText (34 :: 34 :: 34 :: rest)),
      motive rest hrest → motive (34 :: 34 :: 34 :: rest) h)
    (plain : ∀ c rest (hrest : BlockText rest) (h : BlockText (c :: rest)),
      ¬ (c = 34 ∧ rest.take 2 = [34, 34]) → isUnicodeScalarValue c → c ≠ 13 →
        motive rest hrest → motive (c :: rest) h)
    (surrogates : ∀ c d rest (hrest : BlockText rest) (h : BlockText (c :: d :: rest)),
      isLeadingSurrogate c → isTrailingSurrogate d → motive rest hrest →
        motive (c :: d :: rest) h)
    {text : Text} (h : BlockText text) : motive text h := by
  induction hlength : text.length using Nat.strongRecOn generalizing text with
  | _ length ih =>
      subst hlength
      cases h with
      | nil => exact nil
      | surrogates hleading htrailing hrest =>
          refine surrogates _ _ _ hrest _ hleading htrailing (ih _ ?_ hrest rfl)
          simp only [List.length_cons]
          omega
      | @plain c rest hscalar hreturn hrest =>
          by_cases hquotes : c = 34 ∧ rest.take 2 = [34, 34]
          · obtain ⟨rfl, htake⟩ := hquotes
            obtain ⟨rest, rfl⟩ : ∃ rest', rest = 34 :: 34 :: rest' :=
              ⟨rest.drop 2, by rw [← List.take_append_drop 2 rest, htake]; rfl⟩
            refine triple rest ((hrest.tail rfl).tail rfl) _ (ih rest.length ?_ _ rfl)
            simp only [List.length_cons]
            omega
          · exact plain c rest hrest _ hquotes hscalar hreturn (ih _ (Nat.lt_succ_self _) hrest rfl)

/-! ## Indentation -/

/-- All lines but the first are indented. -/
def indentRest (spaces : ℕ) (text : Text) : Text :=
  text.flatMap fun c => if c = 10 then 10 :: List.replicate spaces 32 else [c]

theorem indentRest_append (spaces : ℕ) (text text' : Text) :
    indentRest spaces (text ++ text') = indentRest spaces text ++ indentRest spaces text' :=
  List.flatMap_append

theorem indentRest_lineFeed (spaces : ℕ) (text : Text) :
    indentRest spaces (10 :: text) =
      10 :: (List.replicate spaces 32 ++ indentRest spaces text) := rfl

theorem indentRest_cons {c : ℕ} (hc : c ≠ 10) (spaces : ℕ) (text : Text) :
    indentRest spaces (c :: text) = c :: indentRest spaces text := by
  rw [indentRest, List.flatMap_cons, if_neg hc]
  rfl

/-- Quotes in front of the closing quotes are quotes of the value. -/
theorem take_quotes {spaces n c : ℕ} {rest tail : Text} (hc : c = 34 ∨ c = 92)
    (hopen : ¬ (c = 34 ∧ rest.take 2 = [34, 34]))
    (hclose : endsOpen (c :: rest) → tail.head? = some 10)
    (h : (indentRest spaces (escapeTripleQuotes rest) ++ tail).take n = List.replicate n 34) :
    rest.take n = List.replicate n 34 := by
  induction n generalizing c rest with
  | zero => rfl
  | succ n ih =>
      rw [List.replicate_succ] at h ⊢
      cases rest with
      | nil =>
          have hhead : tail.head? = some 10 := hclose (by simpa [endsOpen_singleton] using hc)
          cases tail with
          | nil => cases h
          | cons d tail =>
              obtain rfl : d = 10 := by simpa using hhead
              cases h
      | cons d rest =>
          rw [endsOpen_cons hopen (List.cons_ne_nil _ _)] at hclose
          by_cases htriple : d = 34 ∧ rest.take 2 = [34, 34]
          · obtain ⟨rfl, htake⟩ := htriple
            obtain ⟨rest, rfl⟩ : ∃ rest', rest = 34 :: 34 :: rest' :=
              ⟨rest.drop 2, by rw [← List.take_append_drop 2 rest, htake]; rfl⟩
            cases h
          · rw [escapeTripleQuotes_cons htriple] at h
            by_cases hd : d = 10
            · subst hd
              cases h
            · rw [indentRest_cons hd, List.cons_append, List.take_succ_cons] at h
              obtain ⟨rfl, htail⟩ := List.cons.inj h
              rw [List.take_succ_cons, ih (Or.inl rfl) htriple hclose htail]

/-- A backslash in front of three quotes is one that escapes them. -/
theorem suffix_escaped_iff {c : ℕ} {rest : Text} (h : ¬ (c = 34 ∧ rest.take 2 = [34, 34])) :
    [92, 34, 34, 34] <:+ escapeTripleQuotes (c :: rest) ↔
      [92, 34, 34, 34] <:+ escapeTripleQuotes rest := by
  rw [escapeTripleQuotes_cons h, List.suffix_cons_iff, or_iff_right]
  intro hall
  obtain ⟨-, hrest⟩ := List.cons.inj hall
  have htake : (indentRest 0 (escapeTripleQuotes rest) ++ [10]).take 3 =
      List.replicate 3 34 := by
    rw [← hrest]
    rfl
  have hquotes : rest.take 3 = [34, 34, 34] :=
    take_quotes (Or.inr rfl) (fun hslash => nomatch hslash.1) (fun _ => rfl) htake
  obtain ⟨rest, rfl⟩ : ∃ rest', rest = 34 :: 34 :: 34 :: rest' :=
    ⟨rest.drop 3, by rw [← List.take_append_drop 3 rest, hquotes]; rfl⟩
  cases hrest

theorem escapeTripleQuotes_ne_nil {text : Text} (h : text ≠ []) :
    escapeTripleQuotes text ≠ [] := by
  rw [escapeTripleQuotes.eq_def]
  split <;> simp_all

/-- The last code point of a text is that of its tail. -/
theorem singleton_suffix_cons {c d : ℕ} {rest : Text} (h : rest ≠ []) :
    [c] <:+ d :: rest ↔ [c] <:+ rest := by
  rw [List.suffix_cons_iff, or_iff_right]
  intro hall
  exact h (List.cons.inj hall).2.symm

theorem suffix_escaped_triple {rest : Text} (h : rest ≠ []) :
    [92, 34, 34, 34] <:+ escapeTripleQuotes (34 :: 34 :: 34 :: rest) ↔
      [92, 34, 34, 34] <:+ escapeTripleQuotes rest := by
  have hsome := escapeTripleQuotes_ne_nil h
  rw [escapeTripleQuotes_triple, List.suffix_cons_iff, List.suffix_cons_iff,
    List.suffix_cons_iff, List.suffix_cons_iff]
  simp [hsome.symm]

/-- The printer looks for the same end. -/
theorem endsOpen_iff (value : Text) :
    endsOpen value ↔
      [34] <:+ value ∧ ¬ [92, 34, 34, 34] <:+ escapeTripleQuotes value ∨ [92] <:+ value := by
  induction value using tripleQuotes_induction with
  | nil => simp [endsOpen]
  | triple rest ih =>
      by_cases hsome : rest = []
      · subst hsome
        decide
      · rw [endsOpen_triple, ih, suffix_escaped_triple hsome,
          singleton_suffix_cons (List.cons_ne_nil _ _),
          singleton_suffix_cons (List.cons_ne_nil _ _),
          singleton_suffix_cons hsome, singleton_suffix_cons (List.cons_ne_nil _ _),
          singleton_suffix_cons (List.cons_ne_nil _ _), singleton_suffix_cons hsome]
  | cons c rest h ih =>
      by_cases hsome : rest = []
      · subst hsome
        rw [endsOpen_singleton, escapeTripleQuotes_cons h]
        simp [List.suffix_cons_iff, escapeTripleQuotes, @eq_comm ℕ _ c]
      · rw [endsOpen_cons h hsome, ih, suffix_escaped_iff h, singleton_suffix_cons hsome,
          singleton_suffix_cons hsome]

theorem SpellsBlock.spaces {text line : Text} {lines : List Text}
    (h : SpellsBlock text line lines) (n : ℕ) :
    SpellsBlock (List.replicate n 32 ++ text) (List.replicate n 32 ++ line) lines := by
  induction n with
  | zero => exact h
  | succ n ih =>
      rw [List.replicate_succ, List.cons_append, List.cons_append]
      exact .plain rfl rfl (fun h => nomatch h) (fun h => nomatch h) ih

/-- The escaped value, its lines indented, is read up to the closing quotes as the lines of
the value. -/
theorem spells_escaped (spaces : ℕ) {value tail : Text} {lines : List Text}
    (htail : SpellsBlock tail [] lines) (hclose : endsOpen value → tail.head? = some 10)
    (hvalue : BlockText value)
    {first : Text} {others : List Text} (hlines : value.splitOn 10 = first :: others) :
    SpellsBlock (indentRest spaces (escapeTripleQuotes value) ++ tail) first
      (others.map (indentLine spaces) ++ lines) := by
  induction hvalue using BlockText.quotes_induction generalizing first others with
  | nil =>
      obtain ⟨rfl, rfl⟩ := List.cons.inj hlines
      exact htail
  | triple rest _ _ ih =>
      obtain ⟨first, others, hrest⟩ := exists_splitOn rest
      have hall := splitOn_cons_of_ne (show 34 ≠ 10 by decide)
        (splitOn_cons_of_ne (show 34 ≠ 10 by decide)
          (splitOn_cons_of_ne (show 34 ≠ 10 by decide) hrest))
      obtain ⟨rfl, rfl⟩ := List.cons.inj (hlines.symm.trans hall)
      have htext := ih hclose hrest
      rw [escapeTripleQuotes_triple, indentRest_cons (by decide), indentRest_cons (by decide),
        indentRest_cons (by decide), indentRest_cons (by decide)]
      exact htext.quotes
  | surrogates c d rest _ _ hleading htrailing ih =>
      obtain ⟨first, others, hrest⟩ := exists_splitOn rest
      have hc := (not_isLineEnd_iff.mp (not_lineEnd_of_surrogate (Or.inl hleading))).2
      have hd := (not_isLineEnd_iff.mp (not_lineEnd_of_surrogate (Or.inr htrailing))).2
      have hplain : c ≠ 34 ∧ d ≠ 34 := by
        simp only [isLeadingSurrogate, isTrailingSurrogate, Bool.and_eq_true,
          decide_eq_true_eq] at hleading htrailing
        omega
      have hquote : ¬ (d = 34 ∧ rest.take 2 = [34, 34]) := fun h => hplain.2 h.1
      have hquotes : ¬ (c = 34 ∧ (d :: rest).take 2 = [34, 34]) := fun h => hplain.1 h.1
      have hall := splitOn_cons_of_ne hc (splitOn_cons_of_ne hd hrest)
      obtain ⟨rfl, rfl⟩ := List.cons.inj (hlines.symm.trans hall)
      have htext := ih (fun hopen => hclose
        (endsOpen_of_tail hquotes (endsOpen_of_tail hquote hopen))) hrest
      rw [escapeTripleQuotes_cons hquotes, escapeTripleQuotes_cons hquote, indentRest_cons hc,
        indentRest_cons hd]
      exact .surrogates hleading htrailing htext
  | plain c rest _ _ h hscalar hreturn ih =>
      obtain ⟨first, others, hrest⟩ := exists_splitOn rest
      have htext := ih (fun hopen => hclose (endsOpen_of_tail h hopen)) hrest
      rw [escapeTripleQuotes_cons h]
      by_cases hfeed : c = 10
      · subst hfeed
        rw [List.splitOn_cons_eq_if_modifyHead, if_pos (by decide), hrest] at hlines
        obtain ⟨rfl, rfl⟩ := List.cons.inj hlines
        rw [indentRest_lineFeed, List.cons_append, List.append_assoc]
        exact (htext.spaces spaces).lineFeed
      · obtain ⟨rfl, rfl⟩ := List.cons.inj (hlines.symm.trans (splitOn_cons_of_ne hfeed hrest))
        rw [indentRest_cons hfeed]
        refine .plain (not_isLineEnd_iff.mpr ⟨hreturn, hfeed⟩) hscalar ?_ ?_ htext
        · rintro rfl htake
          exact h ⟨rfl, take_quotes (Or.inl rfl) h hclose htake⟩
        · rintro rfl htake
          have hquotes : rest.take 3 = [34, 34, 34] :=
            take_quotes (Or.inr rfl) h hclose htake
          obtain ⟨rest, rfl⟩ : ∃ rest', rest = 34 :: 34 :: 34 :: rest' :=
            ⟨rest.drop 3, by rw [← List.take_append_drop 3 rest, hquotes]; rfl⟩
          cases htake

/-! ## The token of a block string -/

/-- The text is a single block string token with the given value. -/
def LexesAsBlockString (text value : Text) : Prop :=
  ∃ token eof, lex text = ([token, eof], none) ∧ token.kind = .blockString ∧
    token.value = some value ∧ eof.kind = .eof

theorem lex_of_spellsBlock {text line : Text} {lines : List Text}
    (h : SpellsBlock text line lines) :
    ∃ token eof, lex (34 :: 34 :: 34 :: text) = ([token, eof], none) ∧
      token.kind = .blockString ∧
      token.value = some (joinLines (dedentBlockStringLines (line :: lines))) ∧
      eof.kind = .eof := by
  let start : Cursor := { position := 0, line := 1, lineStart := 0, rest := 34 :: 34 :: 34 :: text }
  let last : Cursor :=
    { position := 0 + (3 + text.length), line := 1 + lines.length
      lineStart := lineStartBehind (0 + 3) 0 text, rest := [] }
  have hblock := readBlockLines_of_spells h (0 + 3) 0 []
  rw [List.append_nil] at hblock
  have hfirst : readNextToken start = .ok (start.createToken .blockString (3 + text.length)
      (some (joinLines (dedentBlockStringLines (line :: lines)))), last) := by
    rw [readNextToken_of_quote start rfl, readToken, if_neg (by decide), if_pos rfl,
      if_pos (by simp), readBlockString]
    simp only [List.drop_succ_cons, List.drop_zero]
    rw [show start.position = 0 from rfl, show start.lineStart = 0 from rfl, hblock]
    rfl
  have hlast := readNextToken_of_nil last rfl
  refine ⟨start.createToken .blockString (3 + text.length)
    (some (joinLines (dedentBlockStringLines (line :: lines)))), last.createToken .eof 0, ?_,
    rfl, rfl, rfl⟩
  rw [lex, List.length_cons, List.length_cons, lexTokens]
  rw [show readNextToken _ = _ from hfirst]
  simp only [Cursor.createToken, lexTokens, hlast, reduceCtorEq, if_false, if_true]

theorem lexesAsBlockString_iff {text line value : Text} {lines : List Text}
    (h : SpellsBlock text line lines) :
    LexesAsBlockString (34 :: 34 :: 34 :: text) value ↔
      joinLines (dedentBlockStringLines (line :: lines)) = value := by
  obtain ⟨token, eof, hlex, hkind, hvalue, heof⟩ := lex_of_spellsBlock h
  constructor
  · rintro ⟨token', eof', hlex', -, hvalue', -⟩
    obtain ⟨rfl, -⟩ := List.cons.inj (Prod.mk.inj (hlex.symm.trans hlex')).1
    exact Option.some.inj (hvalue.symm.trans hvalue')
  · rintro rfl
    exact ⟨token, eof, hlex, hkind, hvalue, heof⟩

/-! ## What is printed -/

/-- The lines of the printer. -/
def printedLines (value : Text) : List Text :=
  if splitLines (escapeTripleQuotes value) = [] then [[]] else splitLines (escapeTripleQuotes value)

def printsMultipleLines (value : Text) (minimize : Bool) : Bool :=
  !minimize && (!((printedLines value).length = 1 : Bool) || 70 < value.length ||
    ([34].isSuffixOf value && !([92, 34, 34, 34].isSuffixOf (escapeTripleQuotes value)) ||
      [92].isSuffixOf value) ||
    forcesLeadingNewLine (printedLines value) ||
    [92, 34, 34, 34].isSuffixOf (escapeTripleQuotes value))

/-- Is a line feed printed behind the opening quotes? -/
def opensLine (value : Text) (minimize : Bool) : Bool :=
  (printsMultipleLines value minimize &&
    !(((printedLines value).length = 1 : Bool) && startsWithWhiteSpace value)) ||
    forcesLeadingNewLine (printedLines value)

/-- Is a line feed printed in front of the closing quotes? -/
def closesLine (value : Text) (minimize : Bool) : Bool :=
  printsMultipleLines value minimize ||
    ([34].isSuffixOf value && !([92, 34, 34, 34].isSuffixOf (escapeTripleQuotes value)) ||
      [92].isSuffixOf value)

theorem printBlockString_eq (value : Text) (minimize : Bool) :
    printBlockString value minimize =
      [34, 34, 34] ++ (if opensLine value minimize then [10] else []) ++
        escapeTripleQuotes value ++ (if closesLine value minimize then [10] else []) ++
        [34, 34, 34] := rfl

theorem closesLine_of_endsOpen {value : Text} (h : endsOpen value) (minimize : Bool) :
    closesLine value minimize := by
  have hend := (endsOpen_iff value).mp h
  rw [closesLine, Bool.or_eq_true]
  right
  simpa only [Bool.or_eq_true, Bool.and_eq_true, Bool.not_eq_true', ← Bool.not_eq_true,
    List.isSuffixOf_iff_suffix] using hend

/-- The printed text behind the opening quotes, its lines indented. -/
theorem spells_printed (spaces : ℕ) (minimize : Bool) {value first : Text} {others : List Text}
    (hvalue : BlockText value)
    (hlines : value.splitOn 10 = first :: others) :
    ∃ text blank, indentRest spaces (printBlockString value minimize) = 34 :: 34 :: 34 :: text ∧
      (∀ line ∈ blank, isBlank line) ∧
      if opensLine value minimize then
        SpellsBlock text [] ((first :: others).map (indentLine spaces) ++ blank)
      else SpellsBlock text first (others.map (indentLine spaces) ++ blank) := by
  obtain ⟨blank, hblank, htail, hclose⟩ :
      ∃ blank, (∀ line ∈ blank, isBlank line) ∧
        SpellsBlock (indentRest spaces ((if closesLine value minimize then [10] else []) ++
          [34, 34, 34])) [] blank ∧
        (endsOpen value → (indentRest spaces ((if closesLine value minimize then [10] else []) ++
          [34, 34, 34])).head? = some 10) := by
    cases hcloses : closesLine value minimize with
    | true =>
        refine ⟨[indentLine spaces []], ?_, (SpellsBlock.close.spaces spaces).lineFeed,
          fun _ => rfl⟩
        intro line hline
        rw [List.mem_singleton.mp hline, isBlank_indentLine]
        rfl
    | false =>
        refine ⟨[], fun _ h => (nomatch h), .close, fun hopen => ?_⟩
        rw [closesLine_of_endsOpen hopen minimize] at hcloses
        cases hcloses
  have hspells := spells_escaped spaces htail hclose hvalue hlines
  refine ⟨indentRest spaces ((if opensLine value minimize then [10] else []) ++
    escapeTripleQuotes value ++ ((if closesLine value minimize then [10] else []) ++
      [34, 34, 34])), blank, ?_, hblank, ?_⟩
  · rw [printBlockString_eq]
    simp only [List.append_assoc]
    rfl
  · cases hopens : opensLine value minimize with
    | true =>
        simp only [if_true, List.singleton_append]
        rw [indentRest_append, indentRest_lineFeed, List.cons_append, List.append_assoc]
        exact (hspells.spaces spaces).lineFeed
    | false =>
        simp only [Bool.false_eq_true, if_false, List.nil_append]
        rw [indentRest_append]
        exact hspells

theorem joinLines_drop_behind_iff {first : Text} {others : List Text}
    (h : PrintableLines first others) :
    joinLines (first :: others.map (List.drop (ownIndent others))) = joinLines (first :: others) ↔
      others = [] ∨ ∃ line ∈ others, isIndented line = false := by
  cases others with
  | nil => simp
  | cons other others =>
      have hend := List.getLast?_eq_some_getLast (List.cons_ne_nil other others)
      have hlast : isBlank ((other :: others).getLast (List.cons_ne_nil _ _)) = false := by
        apply h.lastLine
        rwa [List.getLast?_cons_cons]
      have hiff := joinLines_drop_eq_iff ⟨_, List.mem_of_getLast? hend, hlast⟩
      rw [joinLines_cons _ (by simp), joinLines_cons _ (List.cons_ne_nil _ _),
        List.append_cancel_left_eq, List.cons_eq_cons, hiff]
      simp

/-- The value is read again exactly when the lines behind the first raw line have no
indentation in common. -/
theorem lexes_printed_iff (spaces : ℕ) (minimize : Bool) {value first : Text}
    {others : List Text} (hvalue : BlockText value)
    (hlines : value.splitOn 10 = first :: others) (h : PrintableLines first others) :
    LexesAsBlockString (indentRest spaces (printBlockString value minimize)) value ↔
      if opensLine value minimize then ∃ line ∈ first :: others, isIndented line = false
      else others = [] ∨ ∃ line ∈ others, isIndented line = false := by
  obtain ⟨text, blank, htext, hblank, hspells⟩ := spells_printed spaces minimize hvalue hlines
  have hvalueLines : joinLines (first :: others) = value := by
    rw [← hlines, joinLines_splitOn]
  rw [htext]
  split at hspells
  · next hopens =>
    rw [if_pos hopens, lexesAsBlockString_iff hspells,
      dedent_behind spaces h.firstLine h.lastLine hblank,
      ← joinLines_drop_eq_iff ⟨first, List.mem_cons_self, h.firstLine⟩, hvalueLines]
  · next hopens =>
    rw [if_neg hopens, lexesAsBlockString_iff hspells,
      dedent_inFront spaces h.firstLine h.lastLine hblank, ← joinLines_drop_behind_iff h,
      hvalueLines]

/-! ## Lines of Python and lines of the lexer -/

/-- The lines of Python and those that line feeds end do not lead the printer astray: where
the value is a single line that starts with white space, no further line of Python makes it
start on a line of its own; and where all further lines are indented, so are all further
lines of Python. -/
structure LinesAgree (value : Text) (minimize : Bool) : Prop where
  single : value.splitOn 10 = [value] → startsWithWhiteSpace value →
    if minimize then forcesLeadingNewLine (splitLines (escapeTripleQuotes value)) = false
    else (splitLines (escapeTripleQuotes value)).length ≤ 1
  several : minimize → forcesLeadingNewLine (value.splitOn 10) →
    forcesLeadingNewLine (splitLines (escapeTripleQuotes value))

theorem isIndented_eq (line : Text) :
    isIndented line = (line.isEmpty || startsWithWhiteSpace line) := by
  cases line with
  | nil => rfl
  | cons c line =>
      rw [isIndented, isBlank_eq_all, List.all_cons, startsWithWhiteSpace]
      cases (c = 32 || c = 9 : Bool) <;> simp

theorem forcesLeadingNewLine_cons {first : Text} {others : List Text} (h : others ≠ []) :
    forcesLeadingNewLine (first :: others) = false ↔
      ∃ line ∈ others, isIndented line = false := by
  have hlength : (1 < (first :: others).length : Bool) = true := by
    simpa using List.length_pos_iff.mpr h
  rw [forcesLeadingNewLine, hlength, Bool.true_and, List.tail_cons, List.all_eq_false]
  simp only [isIndented_eq, Bool.not_eq_true]

theorem forcesLeadingNewLine_singleton (line : Text) : forcesLeadingNewLine [line] = false := rfl

theorem escapeTripleQuotes_append_lineFeed (before rest : Text) :
    escapeTripleQuotes (before ++ 10 :: rest) =
      escapeTripleQuotes before ++ 10 :: escapeTripleQuotes rest := by
  induction before using tripleQuotes_induction with
  | nil => exact escapeTripleQuotes_cons (fun h => nomatch h.1)
  | triple before ih =>
      simp only [List.cons_append, escapeTripleQuotes_triple, ih]
  | cons c before h ih =>
      have hnot : ¬ (c = 34 ∧ (before ++ 10 :: rest).take 2 = [34, 34]) := by
        rintro ⟨rfl, htake⟩
        match before with
        | [] => cases htake
        | [d] => cases htake
        | d :: e :: before => exact h ⟨rfl, htake⟩
      rw [List.cons_append, escapeTripleQuotes_cons hnot, escapeTripleQuotes_cons h, ih,
        List.cons_append]

/-- A value of several lines has several lines of Python. -/
theorem one_lt_length_splitLines {value first : Text} {others : List Text}
    (hlines : value.splitOn 10 = first :: others) (h : PrintableLines first others)
    (hothers : others ≠ []) : 1 < (splitLines (escapeTripleQuotes value)).length := by
  have hmem : 10 ∈ value := by
    by_contra hnot
    rw [List.splitOn_eq_singleton hnot] at hlines
    exact hothers (List.cons.inj hlines).2.symm
  obtain ⟨before, rest, rfl⟩ := List.append_of_mem hmem
  have hrest : rest ≠ [] := by
    rintro rfl
    rw [splitOn_concat] at hlines
    have hblank := h.lastLine [] (by rw [← hlines]; simp)
    cases hblank
  have hends : EndsLines (escapeTripleQuotes before ++ [10]) := by
    intro c hc
    obtain rfl : 10 = c := by simpa using hc
    rfl
  have hwhole : CutsNoLineEnd (escapeTripleQuotes before ++ [10]) (escapeTripleQuotes rest) := by
    simp [CutsNoLineEnd]
  have hfirst : splitLines (escapeTripleQuotes before ++ [10]) ≠ [] :=
    splitLines_ne_nil (by simp)
  have hsecond : splitLines (escapeTripleQuotes rest) ≠ [] :=
    splitLines_ne_nil (escapeTripleQuotes_ne_nil hrest)
  have hfirstLength := List.length_pos_iff.mpr hfirst
  have hsecondLength := List.length_pos_iff.mpr hsecond
  have hall : escapeTripleQuotes (before ++ 10 :: rest) =
      (escapeTripleQuotes before ++ [10]) ++ escapeTripleQuotes rest := by
    rw [escapeTripleQuotes_append_lineFeed, List.append_assoc]
    rfl
  rw [hall, splitLines_append hends hwhole, List.length_append]
  omega

theorem printedLines_eq {value : Text} (h : value ≠ []) :
    printedLines value = splitLines (escapeTripleQuotes value) :=
  if_neg (splitLines_ne_nil (escapeTripleQuotes_ne_nil h))

theorem forcesLeadingNewLine_of_length {lines : List Text} (h : lines.length ≤ 1) :
    forcesLeadingNewLine lines = false := by
  rw [forcesLeadingNewLine, Bool.and_eq_false_iff]
  left
  simpa using h

/-- With several lines of Python, a value that is not minimized starts on a line of its own. -/
theorem opensLine_of_several {value : Text} (h : value ≠ [])
    (hlines : 1 < (splitLines (escapeTripleQuotes value)).length) :
    opensLine value false := by
  have hlength : ((splitLines (escapeTripleQuotes value)).length = 1 : Bool) = false := by
    rw [decide_eq_false_iff_not]
    omega
  rw [opensLine, printsMultipleLines, printedLines_eq h, hlength]
  rfl

theorem opensLine_minimized {value : Text} (h : value ≠ []) :
    opensLine value true = forcesLeadingNewLine (splitLines (escapeTripleQuotes value)) := by
  rw [opensLine, printsMultipleLines, printedLines_eq h]
  rfl

/-- A single line of Python that starts with white space stays behind the opening quotes. -/
theorem opensLine_of_single {value : Text} (h : value ≠ []) (hstart : startsWithWhiteSpace value)
    (hlines : (splitLines (escapeTripleQuotes value)).length ≤ 1) :
    opensLine value false = false := by
  have hsome := List.length_pos_iff.mpr (splitLines_ne_nil (escapeTripleQuotes_ne_nil h))
  have hlength : ((splitLines (escapeTripleQuotes value)).length = 1 : Bool) = true := by
    rw [decide_eq_true_eq]
    omega
  rw [opensLine, printedLines_eq h, forcesLeadingNewLine_of_length hlines, hlength, hstart]
  simp

theorem linesAgree_single_iff {value : Text} (minimize : Bool) (hsome : value ≠ [])
    (hlines : value.splitOn 10 = [value]) (hblank : isBlank value = false) :
    (if opensLine value minimize then ∃ line ∈ [value], isIndented line = false
      else ([] : List Text) = [] ∨ ∃ line ∈ ([] : List Text), isIndented line = false) ↔
      LinesAgree value minimize := by
  have hseveral : minimize → forcesLeadingNewLine (value.splitOn 10) →
      forcesLeadingNewLine (splitLines (escapeTripleQuotes value)) := by
    intro _ hforced
    rw [hlines] at hforced
    cases hforced
  have hleft : (if opensLine value minimize then ∃ line ∈ [value], isIndented line = false
      else ([] : List Text) = [] ∨ ∃ line ∈ ([] : List Text), isIndented line = false) ↔
      (startsWithWhiteSpace value → opensLine value minimize = false) := by
    cases hopens : opensLine value minimize with
    | true => simp [isIndented, hblank]
    | false => simp
  rw [hleft]
  constructor
  · intro h
    refine ⟨fun _ hstart => ?_, hseveral⟩
    have hopens := h hstart
    cases minimize with
    | true =>
        rw [opensLine_minimized hsome] at hopens
        rw [if_pos rfl]
        exact hopens
    | false =>
        rw [if_neg (by simp)]
        by_contra hlong
        rw [opensLine_of_several hsome (by omega)] at hopens
        cases hopens
  · intro h hstart
    have hsingle := h.single hlines hstart
    cases minimize with
    | true =>
        rw [if_pos rfl] at hsingle
        rw [opensLine_minimized hsome]
        exact hsingle
    | false =>
        rw [if_neg (by simp)] at hsingle
        exact opensLine_of_single hsome hstart hsingle

theorem linesAgree_several_iff {value first : Text} {others : List Text} (minimize : Bool)
    (hsome : value ≠ []) (hlines : value.splitOn 10 = first :: others)
    (h : PrintableLines first others) (hothers : others ≠ []) :
    (if opensLine value minimize then ∃ line ∈ first :: others, isIndented line = false
      else others = [] ∨ ∃ line ∈ others, isIndented line = false) ↔
      LinesAgree value minimize := by
  have hsingle : value.splitOn 10 ≠ [value] := by
    intro hone
    exact hothers (List.cons.inj (hlines.symm.trans hone)).2
  have hagree : LinesAgree value minimize ↔
      (minimize → forcesLeadingNewLine (value.splitOn 10) →
        forcesLeadingNewLine (splitLines (escapeTripleQuotes value))) :=
    ⟨fun h => h.several, fun h => ⟨fun hone => absurd hone hsingle, h⟩⟩
  have hforced : forcesLeadingNewLine (first :: others) = false ↔
      ∃ line ∈ others, isIndented line = false := forcesLeadingNewLine_cons hothers
  rw [hagree, hlines]
  cases minimize with
  | false =>
      have hlong := one_lt_length_splitLines hlines h hothers
      rw [opensLine_of_several hsome hlong, if_pos rfl]
      simpa using h.someLine hothers
  | true =>
      rw [opensLine_minimized hsome]
      cases hpython : forcesLeadingNewLine (splitLines (escapeTripleQuotes value)) with
      | true => simpa using h.someLine hothers
      | false =>
          rw [if_neg (by simp), or_iff_right hothers, ← hforced]
          simp

theorem lexes_printed_iff_linesAgree (spaces : ℕ) (minimize : Bool) {value first : Text}
    {others : List Text} (hsome : value ≠ []) (hvalue : BlockText value)
    (hlines : value.splitOn 10 = first :: others) (h : PrintableLines first others) :
    LexesAsBlockString (indentRest spaces (printBlockString value minimize)) value ↔
      LinesAgree value minimize := by
  rw [lexes_printed_iff spaces minimize hvalue hlines h]
  cases others with
  | nil =>
      have hfirst : first = value := by
        rw [← joinLines_splitOn value, hlines]
        rfl
      subst hfirst
      exact linesAgree_single_iff minimize hsome hlines h.firstLine
  | cons other others =>
      exact linesAgree_several_iff minimize hsome hlines h (List.cons_ne_nil _ _)

/-- What is printed for a printable value, its lines indented in any way, is read again as
that value exactly when the lines of Python do not lead the printer astray. -/
theorem lexes_printBlockString_iff (value : Text) (minimize : Bool) (spaces : ℕ)
    (hscalar : ∀ c ∈ value, isUnicodeScalarValue c) (hprintable : isPrintableAsBlockString value) :
    LexesAsBlockString (indentRest spaces (printBlockString value minimize)) value ↔
      LinesAgree value minimize := by
  by_cases hsome : value = []
  · subst hsome
    have htext : indentRest spaces (printBlockString [] minimize) =
        34 :: 34 :: 34 :: [34, 34, 34] := by
      cases minimize <;> rfl
    rw [htext, lexesAsBlockString_iff .close]
    exact iff_of_true rfl ⟨fun _ h => (nomatch h), fun _ h => nomatch h⟩
  obtain ⟨first, others, hlines⟩ := exists_splitOn value
  obtain ⟨h, hchars⟩ := printableLines hprintable hsome hlines
  have hvalue := blockText_of_scalar fun c hc => ⟨hscalar c hc, hchars c hc⟩
  exact lexes_printed_iff_linesAgree spaces minimize hsome hvalue hlines h

/-- Two lines, the second one indented and with quotes, minimized and indented by two. -/
theorem lexes_printBlockString_indented :
    LexesAsBlockString (indentRest 2 (printBlockString (str "a\n b\"\"\"") true))
      (str "a\n b\"\"\"") ↔ LinesAgree (str "a\n b\"\"\"") true :=
  lexes_printBlockString_iff (str "a\n b\"\"\"") true 2 (by decide) (by decide)

/-- White space in front of a line separator is lost. -/
theorem not_lexes_printBlockString :
    (∀ c ∈ [32, 97, 0x2028, 98], isUnicodeScalarValue c) ∧
      isPrintableAsBlockString [32, 97, 0x2028, 98] ∧
      ¬ LexesAsBlockString (indentRest 0 (printBlockString [32, 97, 0x2028, 98]))
        [32, 97, 0x2028, 98] := by
  refine ⟨by decide, by decide, ?_⟩
  rintro ⟨token, eof, hlex, -, hvalue, -⟩
  have hread : (lex (indentRest 0 (printBlockString [32, 97, 0x2028, 98]))).1.head?.map
      Token.value = some (some [97, 0x2028, 98]) := by
    decide +kernel
  rw [hlex] at hread
  obtain hread : token.value = some [97, 0x2028, 98] := Option.some.inj hread
  rw [hvalue] at hread
  cases hread

end GraphqlCore.Language
