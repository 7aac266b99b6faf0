import GraphqlCore.Language.BlockString
import GraphqlCore.Language.Lexer
import Mathlib.Data.List.Induction

/-!
# The lines of block strings

Which values `is_printable_as_block_string` accepts, in terms of their lines, and what
dedenting makes of lines that have been indented.
-/

namespace GraphqlCore.Language

/-! ## Lines -/

theorem exists_splitOn (text : Text) : ∃ first others, text.splitOn 10 = first :: others :=
  List.exists_cons_of_ne_nil (List.splitOn_ne_nil 10 text)

theorem splitOn_cons_of_ne {c : ℕ} (hc : c ≠ 10) {rest first : Text} {others : List Text}
    (h : rest.splitOn 10 = first :: others) : (c :: rest).splitOn 10 = (c :: first) :: others := by
  rw [List.splitOn_cons_eq_if_modifyHead, if_neg (by simpa using hc), h]
  rfl

theorem splitOn_concat (text : Text) : (text ++ [10]).splitOn 10 = text.splitOn 10 ++ [[]] :=
  List.splitOn_append_cons_self text []

theorem splitOn_concat_of_ne {c : ℕ} (hc : c ≠ 10) {text last : Text} {front : List Text}
    (h : text.splitOn 10 = front ++ [last]) :
    (text ++ [c]).splitOn 10 = front ++ [last ++ [c]] := by
  induction text generalizing front last with
  | nil =>
      have hall : [] ++ [[]] = front ++ [last] := h
      obtain ⟨rfl, hlast⟩ := List.append_inj' hall rfl
      obtain rfl := List.singleton_inj.mp hlast
      exact splitOn_cons_of_ne hc (List.splitOn_nil 10)
  | cons d text ih =>
      obtain ⟨front', last', hlines⟩ :=
        (List.eq_nil_or_concat' (text.splitOn 10)).resolve_left (List.splitOn_ne_nil 10 text)
      have htail := ih hlines
      rw [List.splitOn_cons_eq_if_modifyHead, hlines] at h
      rw [List.cons_append, List.splitOn_cons_eq_if_modifyHead, htail]
      split at h
      · next hd =>
        have hall : ([] :: front') ++ [last'] = front ++ [last] := h
        obtain ⟨rfl, hlast⟩ := List.append_inj' hall rfl
        obtain rfl := List.singleton_inj.mp hlast
        rw [if_pos hd]
        rfl
      · next hd =>
        rw [if_neg hd]
        cases front' with
        | nil =>
            have hall : [] ++ [d :: last'] = front ++ [last] := h
            obtain ⟨rfl, hlast⟩ := List.append_inj' hall rfl
            obtain rfl := List.singleton_inj.mp hlast
            rfl
        | cons first front' =>
            have hall : ((d :: first) :: front') ++ [last'] = front ++ [last] := h
            obtain ⟨rfl, hlast⟩ := List.append_inj' hall rfl
            obtain rfl := List.singleton_inj.mp hlast
            rfl

theorem joinLines_cons (line : Text) {lines : List Text} (h : lines ≠ []) :
    joinLines (line :: lines) = line ++ 10 :: joinLines lines := by
  cases lines with
  | nil => exact absurd rfl h
  | cons next lines => rfl

theorem joinLines_splitOn (text : Text) : joinLines (text.splitOn 10) = text := by
  induction text with
  | nil => rfl
  | cons c text ih =>
      obtain ⟨first, others, hlines⟩ := exists_splitOn text
      by_cases hc : c = 10
      · subst hc
        rw [List.splitOn_cons_eq_if_modifyHead, if_pos (by decide),
          joinLines_cons _ (List.splitOn_ne_nil 10 text), ih]
        rfl
      · rw [hlines] at ih
        rw [splitOn_cons_of_ne hc hlines]
        cases others with
        | nil => exact congrArg (c :: ·) ih
        | cons next others => exact congrArg (c :: ·) ih

/-! ## Printable values -/

theorem leadingWhiteSpace_cons (c : ℕ) (line : Text) :
    leadingWhiteSpace (c :: line) =
      if c = 32 || c = 9 then leadingWhiteSpace line + 1 else 0 := by
  rw [leadingWhiteSpace, List.takeWhile_cons]
  split <;> rfl

theorem isBlank_eq_all (line : Text) : isBlank line = line.all fun c => c = 32 || c = 9 := by
  induction line with
  | nil => rfl
  | cons c line ih =>
      rw [List.all_cons, ← ih, isBlank, isBlank, leadingWhiteSpace_cons]
      split
      · next hc => simp [hc]
      · next hc => simp [hc]

theorem isBlank_concat (line : Text) (c : ℕ) :
    isBlank (line ++ [c]) = (isBlank line && (c = 32 || c = 9)) := by
  simp [isBlank_eq_all]

theorem startsWithWhiteSpace_concat (line : Text) (c : ℕ) :
    startsWithWhiteSpace (line ++ [c]) =
      (startsWithWhiteSpace line || line.isEmpty && (c = 32 || c = 9)) := by
  cases line <;> simp [startsWithWhiteSpace]

/-- The line is blank, or it starts with white space. -/
def isIndented (line : Text) : Bool := isBlank line || startsWithWhiteSpace line

theorem forall_mem_concat {text : Text} {c : ℕ} {p : ℕ → Prop} (h : ∀ d ∈ text, p d) (hc : p c) :
    ∀ d ∈ text ++ [c], p d := by
  intro d hd
  rcases List.mem_append.mp hd with hd | hd
  · exact h d hd
  · exact List.mem_singleton.mp hd ▸ hc

/-- What is known of a value that has been scanned. -/
structure Scanned (text : Text) (scan : PrintableScan) (front : List Text) (last : Text) :
    Prop where
  lines : text.splitOn 10 = front ++ [last]
  isEmptyLine : scan.isEmptyLine = isBlank last
  hasIndent : scan.hasIndent = startsWithWhiteSpace last
  seenNonEmptyLine : scan.seenNonEmptyLine = !front.isEmpty
  hasCommonIndent : scan.hasCommonIndent = (front ++ [last]).all isIndented
  first : ∀ line ∈ front.head?, isBlank line = false
  chars : ∀ c ∈ text, c ≠ 13

theorem scanned_start : Scanned [] {} [] [] where
  lines := List.splitOn_nil 10
  isEmptyLine := rfl
  hasIndent := rfl
  seenNonEmptyLine := rfl
  hasCommonIndent := rfl
  first := fun _ h => nomatch h
  chars := fun _ h => nomatch h

/-- One more code point is scanned. -/
theorem Scanned.step {text last : Text} {scan next : PrintableScan} {front : List Text} {c : ℕ}
    (h : Scanned text scan front last) (hstep : scan.step c = some next) :
    ∃ front last, Scanned (text ++ [c]) next front last := by
  rw [PrintableScan.step] at hstep
  split at hstep
  · next hc =>
    subst hc
    split at hstep
    · cases hstep
    · next hlead =>
      obtain rfl := Option.some.inj hstep
      refine ⟨front ++ [last], [], ?_, rfl, rfl, ?_, ?_, ?_, ?_⟩
      · rw [splitOn_concat, h.lines]
      · simp
      · rw [List.all_append, ← h.hasCommonIndent]
        exact (Bool.and_true _).symm
      · intro line hline
        cases front with
        | nil =>
            obtain rfl : last = line := by simpa using hline
            rw [h.isEmptyLine, h.seenNonEmptyLine] at hlead
            simpa using hlead
        | cons first front => exact h.first line hline
      · exact forall_mem_concat h.chars (by decide)
  · next hfeed =>
    split at hstep
    · next hc =>
      obtain rfl := Option.some.inj hstep
      have hblank : isBlank (last ++ [c]) = isBlank last := by
        rw [isBlank_concat, hc, Bool.and_true]
      have hindented : isIndented (last ++ [c]) = isIndented last := by
        rw [isIndented, isIndented, hblank, startsWithWhiteSpace_concat, hc, Bool.and_true]
        cases last <;> simp [isBlank_eq_all]
      refine ⟨front, last ++ [c], splitOn_concat_of_ne hfeed h.lines, ?_, ?_,
        h.seenNonEmptyLine, ?_, h.first, ?_⟩
      · rw [hblank]
        exact h.isEmptyLine
      · rw [h.hasIndent, h.isEmptyLine, startsWithWhiteSpace_concat, hc, Bool.and_true]
        cases last with
        | nil => rfl
        | cons d last =>
            rw [isBlank_eq_all]
            cases hd : (d = 32 || d = 9 : Bool) <;> simp [startsWithWhiteSpace, hd]
      · rw [h.hasCommonIndent]
        simp [hindented]
      · refine forall_mem_concat h.chars ?_
        rintro rfl
        cases hc
    · next hc =>
      split at hstep
      · cases hstep
      · next hcontrol =>
        obtain rfl := Option.some.inj hstep
        rw [Bool.not_eq_true] at hc
        have hblank : isBlank (last ++ [c]) = false := by
          rw [isBlank_concat, hc, Bool.and_false]
        have hstart : startsWithWhiteSpace (last ++ [c]) = startsWithWhiteSpace last := by
          rw [startsWithWhiteSpace_concat, hc, Bool.and_false, Bool.or_false]
        refine ⟨front, last ++ [c], splitOn_concat_of_ne hfeed h.lines, hblank.symm, ?_,
          h.seenNonEmptyLine, ?_, h.first, ?_⟩
        · rw [hstart]
          exact h.hasIndent
        · rw [h.hasCommonIndent, h.hasIndent, List.all_append, List.all_append]
          simp only [List.all_cons, List.all_nil, Bool.and_true, isIndented, hblank, hstart,
            Bool.false_or]
          cases startsWithWhiteSpace last <;> simp
        · refine forall_mem_concat h.chars ?_
          rintro rfl
          exact hcontrol (by decide)

theorem scanned_of_foldlM {text : Text} {scan : PrintableScan}
    (h : text.foldlM PrintableScan.step {} = some scan) :
    ∃ front last, Scanned text scan front last := by
  induction text using List.reverseRecOn generalizing scan with
  | nil =>
      obtain rfl := Option.some.inj h
      exact ⟨[], [], scanned_start⟩
  | append_singleton text c ih =>
      rw [List.foldlM_append] at h
      obtain ⟨mid, hmid, hstep⟩ := Option.bind_eq_some_iff.mp h
      obtain ⟨front, last, hscanned⟩ := ih hmid
      rw [List.foldlM_cons] at hstep
      obtain ⟨next, hnext, hsome⟩ := Option.bind_eq_some_iff.mp hstep
      obtain rfl := Option.some.inj hsome
      exact hscanned.step hnext

/-- The lines of a value that is printable as a block string. -/
structure PrintableLines (first : Text) (others : List Text) : Prop where
  firstLine : isBlank first = false
  lastLine : ∀ line ∈ (first :: others).getLast?, isBlank line = false
  someLine : others ≠ [] → ∃ line ∈ first :: others, isIndented line = false

theorem printableLines {value first : Text} {others : List Text}
    (h : isPrintableAsBlockString value) (hsome : value ≠ [])
    (hlines : value.splitOn 10 = first :: others) :
    PrintableLines first others ∧ ∀ c ∈ value, c ≠ 13 := by
  rw [isPrintableAsBlockString, if_neg (by simpa using hsome)] at h
  split at h
  · cases h
  · next scan hscan =>
    obtain ⟨front, last, hscanned⟩ := scanned_of_foldlM hscan
    have hall : front ++ [last] = first :: others := hscanned.lines.symm.trans hlines
    rw [Bool.and_eq_true, Bool.not_eq_true', Bool.not_eq_true', hscanned.isEmptyLine,
      hscanned.hasCommonIndent, hscanned.seenNonEmptyLine, hall] at h
    obtain ⟨hlast, hindent⟩ := h
    refine ⟨⟨?_, ?_, ?_⟩, hscanned.chars⟩
    · cases front with
      | nil =>
          obtain ⟨rfl, -⟩ := List.cons.inj hall
          exact hlast
      | cons line front =>
          obtain ⟨rfl, -⟩ := List.cons.inj hall
          exact hscanned.first _ rfl
    · rw [← hall]
      simpa using hlast
    · intro hothers
      have hfront : front ≠ [] := by
        rintro rfl
        exact hothers (List.cons.inj hall).2.symm
      have hnot : ((first :: others).all isIndented) = false := by simpa [hfront] using hindent
      simpa only [List.all_eq_false, Bool.not_eq_true] using hnot

/-! ## Indentation -/

/-- The line behind the given number of spaces. -/
def indentLine (spaces : ℕ) (line : Text) : Text := List.replicate spaces 32 ++ line

theorem leadingWhiteSpace_indentLine (spaces : ℕ) (line : Text) :
    leadingWhiteSpace (indentLine spaces line) = spaces + leadingWhiteSpace line := by
  induction spaces with
  | zero => exact (Nat.zero_add _).symm
  | succ spaces ih =>
      have hcons : indentLine (spaces + 1) line = 32 :: indentLine spaces line := by
        rw [indentLine, List.replicate_succ]
        rfl
      rw [hcons, leadingWhiteSpace_cons, if_pos (by decide), ih]
      omega

theorem isBlank_indentLine (spaces : ℕ) (line : Text) :
    isBlank (indentLine spaces line) = isBlank line := by
  simp [isBlank_eq_all, indentLine]

theorem drop_indentLine (spaces indent : ℕ) (line : Text) :
    (indentLine spaces line).drop (spaces + indent) = line.drop indent := by
  have hdrop : (indentLine spaces line).drop ((List.replicate spaces 32).length + indent) =
      line.drop indent := List.drop_length_add_append indent
  rwa [List.length_replicate] at hdrop

theorem leadingWhiteSpace_eq_zero_iff {line : Text} :
    leadingWhiteSpace line = 0 ↔ startsWithWhiteSpace line = false := by
  cases line with
  | nil => simp [leadingWhiteSpace, startsWithWhiteSpace]
  | cons c line =>
      rw [leadingWhiteSpace_cons, startsWithWhiteSpace]
      cases (c = 32 || c = 9 : Bool) <;> simp

theorem isIndented_eq_false_iff {line : Text} :
    isIndented line = false ↔ isBlank line = false ∧ leadingWhiteSpace line = 0 := by
  rw [isIndented, Bool.or_eq_false_iff, leadingWhiteSpace_eq_zero_iff]

/-! ## Common indentation -/

theorem commonIndent_eq_none_iff {lines : List Text} :
    commonIndent lines = none ↔ ∀ line ∈ lines, isBlank line := by
  rw [commonIndent, List.min?_eq_none_iff, List.map_eq_nil_iff, List.filter_eq_nil_iff]
  simp

theorem commonIndent_eq_some_iff {lines : List Text} {indent : ℕ} :
    commonIndent lines = some indent ↔
      (∃ line ∈ lines, isBlank line = false ∧ leadingWhiteSpace line = indent) ∧
        ∀ line ∈ lines, isBlank line = false → indent ≤ leadingWhiteSpace line := by
  rw [commonIndent, List.min?_eq_some_iff]
  simp only [List.mem_map, List.mem_filter, Bool.not_eq_true', and_assoc, forall_exists_index,
    and_imp]
  refine and_congr_right fun _ => ⟨fun h line hline hblank => h _ line hline hblank rfl, ?_⟩
  rintro h _ line hline hblank rfl
  exact h line hline hblank

theorem commonIndent_eq_zero_iff {lines : List Text} :
    commonIndent lines = some 0 ↔ ∃ line ∈ lines, isIndented line = false := by
  simp only [commonIndent_eq_some_iff, isIndented_eq_false_iff, Nat.zero_le, implies_true,
    and_true]

theorem commonIndent_append_blank {lines blank : List Text} (h : ∀ line ∈ blank, isBlank line) :
    commonIndent (lines ++ blank) = commonIndent lines := by
  have hnil : blank.filter (fun line => !isBlank line) = [] := by
    simpa [List.filter_eq_nil_iff] using h
  rw [commonIndent, List.filter_append, hnil, List.append_nil]
  rfl

theorem commonIndent_indentLine (spaces : ℕ) (lines : List Text) :
    commonIndent (lines.map (indentLine spaces)) = (commonIndent lines).map (spaces + ·) := by
  cases h : commonIndent lines with
  | none =>
      rw [commonIndent_eq_none_iff] at h
      rw [Option.map_none, commonIndent_eq_none_iff]
      simpa [isBlank_indentLine] using h
  | some indent =>
      rw [commonIndent_eq_some_iff] at h
      rw [Option.map_some, commonIndent_eq_some_iff]
      simpa [isBlank_indentLine, leadingWhiteSpace_indentLine] using h

/-! ## Dedenting -/

theorem length_takeWhile_of_blank {blank lines : List Text} (hblank : ∀ line ∈ blank, isBlank line)
    (hlines : ∀ line ∈ lines.head?, isBlank line = false) :
    ((blank ++ lines).takeWhile isBlank).length = blank.length := by
  rw [List.takeWhile_append_of_pos hblank, List.length_append]
  cases lines with
  | nil => rfl
  | cons line lines => simp [hlines line rfl]

/-- Blank lines at both ends are removed. -/
theorem dedent_trim {head : Text} {rest : List Text} (before middle after : List Text)
    {middle' : List Text} (before' after' : List Text)
    (hlines : head :: rest = before ++ middle ++ after)
    (hbefore : ∀ line ∈ before, isBlank line) (hafter : ∀ line ∈ after, isBlank line)
    (hfirst : ∀ line ∈ middle.head?, isBlank line = false)
    (hlast : ∀ line ∈ middle.getLast?, isBlank line = false) (hsome : middle ≠ [])
    (hdedented : (match commonIndent rest with
      | some indent => head :: rest.map (List.drop indent)
      | none => head :: rest.map fun _ => []) = before' ++ middle' ++ after')
    (hlengthBefore : before'.length = before.length)
    (hlengthMiddle : middle'.length = middle.length) :
    dedentBlockStringLines (head :: rest) = middle' := by
  have hstart : ((head :: rest).takeWhile isBlank).length = before.length := by
    rw [hlines, List.append_assoc]
    refine length_takeWhile_of_blank hbefore fun line hline => hfirst line ?_
    cases middle with
    | nil => exact absurd rfl hsome
    | cons line' middle => exact hline
  have hstop : ((head :: rest).reverse.takeWhile isBlank).length = after.length := by
    have hafterLength : after.length = after.reverse.length := List.length_reverse.symm
    rw [hlines, List.reverse_append, hafterLength]
    refine length_takeWhile_of_blank (fun line hline => hafter line (by simpa using hline)) ?_
    intro line hline
    rw [List.reverse_append, List.head?_append, List.head?_reverse] at hline
    cases hend : middle.getLast? with
    | none => exact absurd (List.getLast?_eq_none_iff.mp hend) hsome
    | some last =>
        rw [hend] at hline
        obtain rfl : last = line := by simpa using hline
        exact hlast _ hend
  have hlength : (head :: rest).length - after.length = (before' ++ middle').length := by
    rw [hlines]
    simp only [List.length_append]
    omega
  have hvalue : dedentBlockStringLines (head :: rest) =
      (((match commonIndent rest with
        | some indent => head :: rest.map (List.drop indent)
        | none => head :: rest.map fun _ => []) : List Text).take
          ((head :: rest).length - ((head :: rest).reverse.takeWhile isBlank).length)).drop
        ((head :: rest).takeWhile isBlank).length := rfl
  rw [hvalue, hdedented, hstart, hstop, hlength, List.take_left, ← hlengthBefore, List.drop_left]

/-- The indentation that is common to the lines. -/
def ownIndent (lines : List Text) : ℕ := (commonIndent lines).getD 0

theorem map_drop_indentLine (spaces indent : ℕ) (lines : List Text) :
    (lines.map (indentLine spaces)).map (List.drop (spaces + indent)) =
      lines.map (List.drop indent) := by
  rw [List.map_map]
  exact List.map_congr_left fun line _ => drop_indentLine spaces indent line

theorem last_indentLine {spaces : ℕ} {lines : List Text}
    (h : ∀ line ∈ lines.getLast?, isBlank line = false) :
    ∀ line ∈ (lines.map (indentLine spaces)).getLast?, isBlank line = false := by
  intro line hline
  rw [List.getLast?_map] at hline
  obtain ⟨last, hlast, rfl⟩ := Option.map_eq_some_iff.mp hline
  rw [isBlank_indentLine]
  exact h last hlast

/-- Dedenting behind an empty first line: the indentation of all lines is removed. -/
theorem dedent_behind (spaces : ℕ) {first : Text} {others blank : List Text}
    (hfirst : isBlank first = false)
    (hlast : ∀ line ∈ (first :: others).getLast?, isBlank line = false)
    (hblank : ∀ line ∈ blank, isBlank line) :
    dedentBlockStringLines ([] :: ((first :: others).map (indentLine spaces) ++ blank)) =
      (first :: others).map (List.drop (ownIndent (first :: others))) := by
  obtain ⟨indent, hindent⟩ : ∃ indent, commonIndent (first :: others) = some indent := by
    cases h : commonIndent (first :: others) with
    | some indent => exact ⟨indent, rfl⟩
    | none =>
        have hall := commonIndent_eq_none_iff.mp h first List.mem_cons_self
        rw [hfirst] at hall
        cases hall
  have hcommon : commonIndent ((first :: others).map (indentLine spaces) ++ blank) =
      some (spaces + indent) := by
    rw [commonIndent_append_blank hblank, commonIndent_indentLine, hindent]
    rfl
  have hown : ownIndent (first :: others) = indent := by rw [ownIndent, hindent]; rfl
  rw [hown]
  refine dedent_trim [[]] ((first :: others).map (indentLine spaces)) blank [[]]
    (blank.map (List.drop (spaces + indent))) rfl ?_ hblank ?_ (last_indentLine hlast)
    (List.cons_ne_nil _ _) ?_ rfl ?_
  · intro line hline
    rw [List.mem_singleton.mp hline]
    rfl
  · intro line hline
    obtain rfl : indentLine spaces first = line := by simpa using hline
    rw [isBlank_indentLine]
    exact hfirst
  · rw [hcommon]
    simp only [List.map_append, map_drop_indentLine]
    rfl
  · simp

/-- Dedenting from the first line on: the indentation of the other lines is removed. -/
theorem dedent_inFront (spaces : ℕ) {first : Text} {others blank : List Text}
    (hfirst : isBlank first = false)
    (hlast : ∀ line ∈ (first :: others).getLast?, isBlank line = false)
    (hblank : ∀ line ∈ blank, isBlank line) :
    dedentBlockStringLines (first :: (others.map (indentLine spaces) ++ blank)) =
      first :: others.map (List.drop (ownIndent others)) := by
  have hhead : ∀ line ∈ (first :: others.map (indentLine spaces)).head?,
      isBlank line = false := by
    intro line hline
    obtain rfl : first = line := by simpa using hline
    exact hfirst
  have hnone : ∀ line ∈ ([] : List Text), isBlank line := fun _ h => nomatch h
  cases others with
  | nil =>
      have hcommon : commonIndent blank = none := commonIndent_eq_none_iff.mpr hblank
      refine dedent_trim [] [first] blank [] (blank.map fun _ => []) rfl hnone hblank hhead hlast
        (List.cons_ne_nil _ _) ?_ rfl rfl
      rw [List.map_nil, List.nil_append, hcommon]
      rfl
  | cons other others =>
      have hothers : ∀ line ∈ (other :: others).getLast?, isBlank line = false := by
        intro line hline
        apply hlast line
        rwa [List.getLast?_cons_cons]
      obtain ⟨indent, hindent⟩ :
          ∃ indent, commonIndent (other :: others) = some indent := by
        cases h : commonIndent (other :: others) with
        | some indent => exact ⟨indent, rfl⟩
        | none =>
            have hend := List.getLast?_eq_some_getLast (List.cons_ne_nil other others)
            have hall := commonIndent_eq_none_iff.mp h _ (List.mem_of_getLast? hend)
            rw [hothers _ hend] at hall
            cases hall
      have hcommon : commonIndent ((other :: others).map (indentLine spaces) ++ blank) =
          some (spaces + indent) := by
        rw [commonIndent_append_blank hblank, commonIndent_indentLine, hindent]
        rfl
      have hown : ownIndent (other :: others) = indent := by rw [ownIndent, hindent]; rfl
      rw [hown]
      refine dedent_trim [] (first :: (other :: others).map (indentLine spaces)) blank []
        (blank.map (List.drop (spaces + indent))) rfl hnone hblank hhead ?_
        (List.cons_ne_nil _ _) ?_ rfl ?_
      · intro line hline
        apply last_indentLine hothers line
        rwa [List.map_cons, List.getLast?_cons_cons] at hline
      · rw [hcommon]
        simp only [List.map_append, map_drop_indentLine]
        rfl
      · simp

/-! ## Joined lines -/

theorem length_joinLines_cons (line next : Text) (lines : List Text) :
    (joinLines (line :: next :: lines)).length =
      line.length + 1 + (joinLines (next :: lines)).length := by
  rw [joinLines_cons line (List.cons_ne_nil _ _), List.length_append, List.length_cons]
  omega

theorem length_joinLines_drop_le (indent : ℕ) (lines : List Text) :
    (joinLines (lines.map (List.drop indent))).length ≤ (joinLines lines).length := by
  induction lines with
  | nil => exact Nat.le_refl _
  | cons line lines ih =>
      cases lines with
      | nil => simp [joinLines]
      | cons next lines =>
          rw [List.map_cons, List.map_cons, length_joinLines_cons, length_joinLines_cons,
            List.length_drop]
          rw [List.map_cons] at ih
          omega

/-- Text is lost when the lines that are left have been dedented. -/
theorem length_joinLines_drop_lt {indent : ℕ} (hindent : 0 < indent) {lines : List Text}
    (hsome : ∃ line ∈ lines, line ≠ []) :
    (joinLines (lines.map (List.drop indent))).length < (joinLines lines).length := by
  induction lines with
  | nil =>
      obtain ⟨_, hnil, -⟩ := hsome
      cases hnil
  | cons line lines ih =>
      have hline (h : line ≠ []) : line.length - indent < line.length := by
        have hpositive := List.length_pos_iff.mpr h
        omega
      cases lines with
      | nil =>
          obtain ⟨line', hmem, hsome⟩ := hsome
          obtain rfl := List.mem_singleton.mp hmem
          simpa [joinLines] using hline hsome
      | cons next lines =>
          have hle := length_joinLines_drop_le indent (next :: lines)
          rw [List.map_cons, List.map_cons, length_joinLines_cons, length_joinLines_cons,
            List.length_drop]
          rw [List.map_cons] at hle ih
          obtain ⟨line', hmem, hsome⟩ := hsome
          rcases List.mem_cons.mp hmem with rfl | hmem
          · have hlt := hline hsome
            omega
          · have hlt := ih ⟨line', hmem, hsome⟩
            omega

/-- The lines are left as they are exactly when there is nothing to remove. -/
theorem joinLines_drop_eq_iff {lines : List Text} (hsome : ∃ line ∈ lines, isBlank line = false) :
    joinLines (lines.map (List.drop (ownIndent lines))) = joinLines lines ↔
      ∃ line ∈ lines, isIndented line = false := by
  obtain ⟨indent, hindent⟩ : ∃ indent, commonIndent lines = some indent := by
    cases h : commonIndent lines with
    | some indent => exact ⟨indent, rfl⟩
    | none =>
        obtain ⟨line, hmem, hline⟩ := hsome
        have hall := commonIndent_eq_none_iff.mp h line hmem
        rw [hline] at hall
        cases hall
  have hown : ownIndent lines = indent := by rw [ownIndent, hindent]; rfl
  rw [hown, ← commonIndent_eq_zero_iff, hindent]
  constructor
  · intro h
    by_contra hne
    have hpositive : 0 < indent := Nat.pos_of_ne_zero fun hzero => hne (congrArg some hzero)
    obtain ⟨line, hmem, hline⟩ := hsome
    have hnil : line ≠ [] := by
      rintro rfl
      cases hline
    have hlt := length_joinLines_drop_lt hpositive ⟨line, hmem, hnil⟩
    rw [h] at hlt
    exact Nat.lt_irrefl _ hlt
  · intro h
    obtain rfl : indent = 0 := Option.some.inj h
    have hid : lines.map (List.drop 0) = lines := by
      rw [show (List.drop 0 : Text → Text) = id from rfl, List.map_id]
    rw [hid]

end GraphqlCore.Language
