import GraphqlCore.Language.BlockString
import GraphqlCore.Language.TokenChain

/-!
# Locations in a source

`Source.get_location` finds a line and a column with the lines of Python, which end at
more code points than those of the lexer and which leave out an empty last line.  It is
compared with what the lexer stores in its tokens.
-/

namespace GraphqlCore.Language

structure SourceLocation where
  line : ℕ
  column : ℕ
  deriving DecidableEq

def getLocation (body : Text) (position : ℕ) : SourceLocation :=
  let lines := splitLines (body.take position)
  match lines.getLast? with
  | some last => { line := lines.length, column := last.length + 1 }
  | none => { line := 1, column := 1 }

/-! ## The lines of Python -/

/-- A line boundary of Python that is no line end. -/
def isSeparator (c : ℕ) : Bool := isLineBoundary c && !isLineEnd c

/-- No line of Python is left open at the end of the text. -/
def EndsLines (text : Text) : Prop := ∀ c ∈ text.getLast?, isLineBoundary c

def NoBoundary (text : Text) : Prop := ∀ c ∈ text, isLineBoundary c = false

theorem isLineBoundary_of_lineEnd {c : ℕ} (h : isLineEnd c) : isLineBoundary c := by
  rcases isLineEnd_iff.mp h with rfl | rfl <;> rfl

theorem not_lineEnd_of_noBoundary {c : ℕ} (h : isLineBoundary c = false) :
    isLineEnd c = false := by
  rw [← Bool.not_eq_true]
  intro hline
  rw [isLineBoundary_of_lineEnd hline] at h
  cases h

theorem NoBoundary.inLine {text : Text} (h : NoBoundary text) : InLine text :=
  fun c hc => not_lineEnd_of_noBoundary (h c hc)

theorem splitLines_cons_of_not {c : ℕ} (hc : isLineBoundary c = false) (rest : Text) :
    splitLines (c :: rest) = match splitLines rest with
      | [] => [[c]]
      | line :: lines => (c :: line) :: lines := by
  rw [splitLines.eq_def]
  split
  · next h => cases h
  · next h =>
    obtain ⟨rfl, -⟩ := List.cons.inj h
    cases hc
  · next d tail _ h =>
    obtain ⟨rfl, rfl⟩ := List.cons.inj h
    exact if_neg (by simp [hc])

theorem splitLines_cons {c : ℕ} (hc : isLineBoundary c) {rest : Text}
    (hwhole : ¬ (c = 13 ∧ rest.head? = some 10)) :
    splitLines (c :: rest) = [] :: splitLines rest := by
  rw [splitLines.eq_def]
  split
  · next h => cases h
  · next h =>
    obtain ⟨rfl, rfl⟩ := List.cons.inj h
    exact absurd ⟨rfl, rfl⟩ hwhole
  · next d tail _ h =>
    obtain ⟨rfl, rfl⟩ := List.cons.inj h
    rw [if_pos hc]

theorem splitLines_both (rest : Text) : splitLines (13 :: 10 :: rest) = [] :: splitLines rest := rfl

theorem splitLines_ne_nil {text : Text} (h : text ≠ []) : splitLines text ≠ [] := by
  rw [splitLines.eq_def]
  split
  · exact absurd rfl h
  · simp
  · split
    · simp
    · split <;> simp

/-- A line without its boundary. -/
theorem splitLines_of_noBoundary {text : Text} (h : NoBoundary text) (hsome : text ≠ []) :
    splitLines text = [text] := by
  induction text with
  | nil => exact absurd rfl hsome
  | cons c rest ih =>
      have hc := h c List.mem_cons_self
      rw [splitLines_cons_of_not hc]
      cases rest with
      | nil => rfl
      | cons d rest => rw [ih (fun e he => h e (List.mem_cons_of_mem _ he)) (by simp)]

theorem EndsLines.tail {c : ℕ} {text : Text} (h : EndsLines (c :: text)) : EndsLines text := by
  intro d hd
  apply h d
  cases text with
  | nil => cases hd
  | cons e text => simpa using hd

theorem CutsNoLineEnd.tail {c : ℕ} {before rest : Text} (h : CutsNoLineEnd (c :: before) rest) :
    CutsNoLineEnd before rest := by
  rintro ⟨hlast, hhead⟩
  refine h ⟨?_, hhead⟩
  rw [List.getLast?_cons, hlast]
  rfl

/-- Behind the end of a line, the lines are split anew. -/
theorem splitLines_append {before rest : Text} (hends : EndsLines before)
    (hwhole : CutsNoLineEnd before rest) :
    splitLines (before ++ rest) = splitLines before ++ splitLines rest := by
  fun_induction splitLines before with
  | case1 => rfl
  | case2 before ih =>
      have htail := ih hends.tail.tail hwhole.tail.tail
      rw [List.cons_append, List.cons_append, splitLines_both, htail, List.cons_append]
  | case3 c before hpair hc ih =>
      have htail := ih hends.tail hwhole.tail
      have hnext : ¬ (c = 13 ∧ (before ++ rest).head? = some 10) := by
        rintro ⟨rfl, hhead⟩
        cases before with
        | nil => exact hwhole ⟨rfl, hhead⟩
        | cons d before =>
            obtain rfl : d = 10 := by simpa using hhead
            exact hpair before rfl rfl
      rw [List.cons_append, splitLines_cons hc hnext, htail, List.cons_append]
  | case4 c before hpair hc hlines ih =>
      rw [Bool.not_eq_true] at hc
      have hnil : before = [] := by
        by_contra hsome
        exact splitLines_ne_nil hsome hlines
      subst hnil
      have hboundary := hends c rfl
      rw [hc] at hboundary
      cases hboundary
  | case5 c before hpair hc line lines hlines ih =>
      rw [Bool.not_eq_true] at hc
      have htail := ih hends.tail hwhole.tail
      rw [List.cons_append, splitLines_cons_of_not hc, htail, hlines]
      rfl

/-- The number of lines that are ended. -/
theorem length_splitLines {before : Text} (hends : EndsLines before) :
    (splitLines before).length = lineEnds before + before.countP isSeparator := by
  fun_induction splitLines before with
  | case1 => rfl
  | case2 before ih =>
      rw [List.length_cons, ih hends.tail.tail]
      simp [lineEnds, isSeparator, isLineEnd]
      omega
  | case3 c before hpair hc ih =>
      have htail := ih hends.tail
      rw [List.length_cons, htail]
      by_cases hline : isLineEnd c
      · have hone : lineEnds (c :: before) = 1 + lineEnds before := by
          rcases isLineEnd_iff.mp hline with rfl | rfl
          · have hhead : before.head? ≠ some 10 := by
              intro hhead
              cases before with
              | nil => cases hhead
              | cons d before =>
                  obtain rfl : d = 10 := by simpa using hhead
                  exact hpair before rfl rfl
            simp [lineEnds, hhead]
          · simp [lineEnds]
        rw [hone, List.countP_cons_of_neg (by simp [isSeparator, hline])]
        omega
      · rw [Bool.not_eq_true] at hline
        rw [lineEnds_cons_of_not hline, List.countP_cons_of_pos (by simp [isSeparator, hline, hc])]
        omega
  | case4 c before hpair hc hlines ih =>
      rw [Bool.not_eq_true] at hc
      have hnil : before = [] := by
        by_contra hsome
        exact splitLines_ne_nil hsome hlines
      subst hnil
      have hboundary := hends c rfl
      rw [hc] at hboundary
      cases hboundary
  | case5 c before hpair hc line lines hlines ih =>
      rw [Bool.not_eq_true] at hc
      have htail := ih hends.tail
      have hline := not_lineEnd_of_noBoundary hc
      rw [hlines] at htail
      rw [lineEnds_cons_of_not hline, List.countP_cons_of_neg (by simp [isSeparator, hc]),
        ← htail]
      rfl

/-- The last line of a text, with what stands in front of it. -/
theorem exists_lastLine (text : Text) :
    ∃ before line, text = before ++ line ∧ EndsLines before ∧ NoBoundary line := by
  induction text using List.reverseRecOn with
  | nil => exact ⟨[], [], rfl, fun _ h => (nomatch h), fun _ h => nomatch h⟩
  | append_singleton text c ih =>
      by_cases hc : isLineBoundary c
      · refine ⟨text ++ [c], [], (List.append_nil _).symm, ?_, fun _ h => nomatch h⟩
        intro d hd
        obtain rfl : c = d := by simpa using hd
        exact hc
      · rw [Bool.not_eq_true] at hc
        obtain ⟨before, line, rfl, hends, hline⟩ := ih
        refine ⟨before, line ++ [c], List.append_assoc _ _ _, hends, ?_⟩
        intro d hd
        rcases List.mem_append.mp hd with hd | hd
        · exact hline d hd
        · obtain rfl := List.mem_singleton.mp hd
          exact hc

/-- What ends a line of Python. -/
def IsBoundary (ended : Text) : Prop := ended = [13, 10] ∨ ∃ c, ended = [c] ∧ isLineBoundary c

theorem splitLines_ended {line ended : Text} (hline : NoBoundary line) (hended : IsBoundary ended) :
    splitLines (line ++ ended) = [line] := by
  induction line with
  | nil =>
      rcases hended with rfl | ⟨c, rfl, hc⟩
      · rfl
      · rw [List.nil_append, splitLines_cons hc (by simp)]
        rfl
  | cons c line ih =>
      have htail := ih fun d hd => hline d (List.mem_cons_of_mem _ hd)
      rw [List.cons_append, splitLines_cons_of_not (hline c List.mem_cons_self), htail]

theorem NoBoundary.countP_eq_zero {line : Text} (h : NoBoundary line) :
    line.countP isSeparator = 0 := by
  rw [List.countP_eq_zero]
  intro c hc
  simp [isSeparator, h c hc]

theorem NoBoundary.cutsNoLineEnd_append {before line rest : Text} (h : NoBoundary line)
    (hsome : line ≠ []) : CutsNoLineEnd before (line ++ rest) := by
  rintro ⟨-, hhead⟩
  cases line with
  | nil => exact hsome rfl
  | cons c line =>
      obtain rfl : c = 10 := by simpa using hhead
      cases h 10 List.mem_cons_self

/-! ## Tokens -/

/-- The location of a lexer behind the text. -/
def tokenLocation (before : Text) : SourceLocation :=
  { line := 1 + lineEnds before, column := before.length - lastLineStart before + 1 }

/-- The location that is found with the lines of Python. -/
def locationOfLines (lines : List Text) : SourceLocation :=
  match lines.getLast? with
  | some last => { line := lines.length, column := last.length + 1 }
  | none => { line := 1, column := 1 }

theorem getLocation_eq (body : Text) (position : ℕ) :
    getLocation body position = locationOfLines (splitLines (body.take position)) := rfl

theorem locationOfLines_concat (lines : List Text) (last : Text) :
    locationOfLines (lines ++ [last]) =
      { line := lines.length + 1, column := last.length + 1 } := by
  simp [locationOfLines]

/-- The texts behind which both locations are the same: within a line, when no separator is
in front of it; at the start of a line only behind an empty line, when one separator in
front of it makes up for the line that is not counted. -/
inductive LocationsAgree : Text → Prop
  | inLine {before : Text} (hopen : ∀ c ∈ before.getLast?, isLineEnd c = false)
      (hnone : before.countP isSeparator = 0) : LocationsAgree before
  | emptyLine {before ended : Text} (hended : ended = [10] ∨ ended = [13] ∨ ended = [13, 10])
      (hempty : EndsLines before) (hwhole : CutsNoLineEnd before ended)
      (hone : before.countP isSeparator = 1) : LocationsAgree (before ++ ended)

theorem isBoundary_of_lineEnd {ended : Text}
    (h : ended = [10] ∨ ended = [13] ∨ ended = [13, 10]) : IsBoundary ended := by
  rcases h with rfl | rfl | rfl
  · exact Or.inr ⟨10, rfl, rfl⟩
  · exact Or.inr ⟨13, rfl, rfl⟩
  · exact Or.inl rfl

/-- Where a line of the lexer starts. -/
theorem lastLineStart_of_ended {before ended : Text}
    (h : ended = [10] ∨ ended = [13] ∨ ended = [13, 10]) :
    lastLineStart (before ++ ended) = (before ++ ended).length := by
  obtain ⟨front, c, rfl, hc⟩ : ∃ front c, ended = front ++ [c] ∧ isLineEnd c := by
    rcases h with rfl | rfl | rfl
    · exact ⟨[], 10, rfl, rfl⟩
    · exact ⟨[], 13, rfl, rfl⟩
    · exact ⟨[13], 10, rfl, rfl⟩
  rw [← List.append_assoc, lastLineStart_concat hc]
  simp only [List.length_append, List.length_singleton]

theorem lineEnds_of_ended {before ended : Text} (hwhole : CutsNoLineEnd before ended)
    (h : ended = [10] ∨ ended = [13] ∨ ended = [13, 10]) :
    lineEnds (before ++ ended) = lineEnds before + 1 := by
  rw [lineEnds_append hwhole]
  rcases h with rfl | rfl | rfl <;> rfl

/-- The location of a text whose last line of Python is given. -/
theorem locationOfLines_append {before piece line : Text} (hends : EndsLines before)
    (hwhole : CutsNoLineEnd before piece) (hpiece : splitLines piece = [line]) :
    locationOfLines (splitLines (before ++ piece)) =
      { line := lineEnds before + before.countP isSeparator + 1, column := line.length + 1 } := by
  rw [splitLines_append hends hwhole, hpiece, locationOfLines_concat, length_splitLines hends]

theorem tokenLocation_inLine {before piece : Text} (hin : InLine piece) :
    tokenLocation (before ++ piece) =
      { line := 1 + lineEnds before
        column := before.length + piece.length - lastLineStart before + 1 } := by
  have hzero : lineEnds piece = 0 := lineEnds_eq_zero_iff.mpr hin
  have hwhole : CutsNoLineEnd before piece := by
    rintro ⟨-, hhead⟩
    cases hin 10 (List.mem_of_head? hhead)
  rw [tokenLocation, lineEnds_append hwhole, hzero, lastLineStart_append, if_pos hzero,
    List.length_append]
  rfl

theorem tokenLocation_ended {before ended : Text} (hwhole : CutsNoLineEnd before ended)
    (h : ended = [10] ∨ ended = [13] ∨ ended = [13, 10]) :
    tokenLocation (before ++ ended) = { line := lineEnds before + 2, column := 1 } := by
  rw [tokenLocation, lineEnds_of_ended hwhole h, lastLineStart_of_ended h, Nat.sub_self,
    ← Nat.add_assoc, Nat.add_comm 1, Nat.add_assoc]

/-- Without a separator, a line of Python starts where a line of the lexer starts. -/
theorem lastLineStart_of_noSeparator {before : Text} (hends : EndsLines before)
    (hnone : before.countP isSeparator = 0) : lastLineStart before = before.length := by
  cases before using List.reverseRecOn with
  | nil => rfl
  | append_singleton before c =>
      have hboundary : isLineBoundary c := hends c (by simp)
      have hseparator := List.countP_eq_zero.mp hnone c (by simp)
      have hline : isLineEnd c := by simpa [isSeparator, hboundary] using hseparator
      rw [lastLineStart_concat hline, List.length_append]
      rfl

/-- Within a line, the locations are the same exactly when no separator is in front. -/
theorem locations_inLine_iff {before line : Text} (hends : EndsLines before)
    (hline : NoBoundary line) (hsome : line ≠ []) :
    locationOfLines (splitLines (before ++ line)) = tokenLocation (before ++ line) ↔
      before.countP isSeparator = 0 := by
  have hwhole : CutsNoLineEnd before (line ++ []) := hline.cutsNoLineEnd_append hsome
  rw [List.append_nil] at hwhole
  rw [locationOfLines_append hends hwhole (splitLines_of_noBoundary hline hsome),
    tokenLocation_inLine hline.inLine, SourceLocation.mk.injEq]
  constructor
  · rintro ⟨hlines, -⟩
    omega
  · intro hnone
    rw [lastLineStart_of_noSeparator hends hnone, hnone]
    omega

/-- Behind a line end, the locations are the same exactly when the line in front of it is
empty and one separator makes up for the line that is not counted. -/
theorem locations_ended_iff {before line ended : Text} (hends : EndsLines before)
    (hline : NoBoundary line) (hwhole : CutsNoLineEnd (before ++ line) ended)
    (hended : ended = [10] ∨ ended = [13] ∨ ended = [13, 10]) :
    locationOfLines (splitLines (before ++ line ++ ended)) =
        tokenLocation (before ++ line ++ ended) ↔
      line = [] ∧ before.countP isSeparator = 1 := by
  have hpiece := splitLines_ended hline (isBoundary_of_lineEnd hended)
  have hcut : CutsNoLineEnd before (line ++ ended) := by
    cases line with
    | nil =>
        rw [List.append_nil] at hwhole
        exact hwhole
    | cons c line => exact hline.cutsNoLineEnd_append (List.cons_ne_nil _ _)
  have hcutLine : CutsNoLineEnd before line := by
    rintro ⟨-, hhead⟩
    cases hline 10 (List.mem_of_head? hhead)
  have hzero : lineEnds line = 0 := lineEnds_eq_zero_iff.mpr hline.inLine
  rw [tokenLocation_ended hwhole hended, lineEnds_append hcutLine, hzero, List.append_assoc,
    locationOfLines_append hends hcut hpiece, SourceLocation.mk.injEq,
    ← List.length_eq_zero_iff]
  omega

/-- Behind a separator, the locations differ. -/
theorem locations_separator_ne {before line : Text} {c : ℕ} (hends : EndsLines before)
    (hline : NoBoundary line) (hc : isSeparator c) :
    locationOfLines (splitLines (before ++ (line ++ [c]))) ≠
      tokenLocation (before ++ (line ++ [c])) := by
  have hboth := hc
  simp only [isSeparator, Bool.and_eq_true, Bool.not_eq_true'] at hboth
  have hpiece := splitLines_ended hline (Or.inr ⟨c, rfl, hboth.1⟩)
  have hin : InLine (line ++ [c]) := hline.inLine.append (inLine_nil.cons hboth.2)
  have hwhole : CutsNoLineEnd before (line ++ [c]) := by
    rintro ⟨-, hhead⟩
    cases hin 10 (List.mem_of_head? hhead)
  have hle := lastLineStart_le before
  rw [locationOfLines_append hends hwhole hpiece, tokenLocation_inLine hin, ne_eq,
    SourceLocation.mk.injEq, List.length_append, List.length_singleton]
  omega

/-- A text that ends with a line end, cut in front of it. -/
theorem exists_ended (text : Text) {c : ℕ} (hc : isLineEnd c) :
    ∃ before ended, text ++ [c] = before ++ ended ∧ CutsNoLineEnd before ended ∧
      (ended = [10] ∨ ended = [13] ∨ ended = [13, 10]) := by
  by_cases hboth : text.getLast? = some 13 ∧ c = 10
  · obtain ⟨hlast, rfl⟩ := hboth
    obtain ⟨before, rfl⟩ := List.getLast?_eq_some_iff.mp hlast
    exact ⟨before, [13, 10], by simp, by simp [CutsNoLineEnd], by simp⟩
  · refine ⟨text, [c], rfl, ?_, ?_⟩
    · rintro ⟨hlast, hhead⟩
      exact hboth ⟨hlast, Option.some.inj hhead⟩
    · rcases isLineEnd_iff.mp hc with rfl | rfl <;> simp

theorem locations_eq_iff (text : Text) :
    locationOfLines (splitLines text) = tokenLocation text ↔ LocationsAgree text := by
  constructor
  · intro h
    cases text using List.reverseRecOn with
    | nil => exact .inLine (fun _ hc => nomatch hc) rfl
    | append_singleton text c =>
        by_cases hboundary : isLineBoundary c
        · by_cases hline : isLineEnd c
          · obtain ⟨front, ended, htext, hwhole, hended⟩ := exists_ended text hline
            rw [htext] at h ⊢
            obtain ⟨before, line, rfl, hends, hlast⟩ := exists_lastLine front
            obtain ⟨rfl, hone⟩ := (locations_ended_iff hends hlast hwhole hended).mp h
            rw [List.append_nil] at hwhole ⊢
            exact .emptyLine hended hends hwhole hone
          · obtain ⟨before, line, rfl, hends, hlast⟩ := exists_lastLine text
            have hc : isSeparator c := by simp [isSeparator, hboundary, hline]
            rw [List.append_assoc] at h
            exact absurd h (locations_separator_ne hends hlast hc)
        · rw [Bool.not_eq_true] at hboundary
          obtain ⟨before, line, htext, hends, hlast⟩ := exists_lastLine (text ++ [c])
          have hsome : line ≠ [] := by
            rintro rfl
            rw [List.append_nil] at htext
            have hc := hends c (by rw [← htext]; simp)
            rw [hboundary] at hc
            cases hc
          have hopen : ∀ d ∈ (text ++ [c]).getLast?, isLineEnd d = false := by
            intro d hd
            obtain rfl : c = d := by simpa using hd
            exact not_lineEnd_of_noBoundary hboundary
          rw [htext] at h
          have hnone := (locations_inLine_iff hends hlast hsome).mp h
          refine .inLine hopen ?_
          rw [htext, List.countP_append, hnone, hlast.countP_eq_zero]
  · intro h
    cases h with
    | inLine hopen hnone =>
        obtain ⟨before, line, rfl, hends, hlast⟩ := exists_lastLine text
        rw [List.countP_append, hlast.countP_eq_zero, Nat.add_zero] at hnone
        by_cases hsome : line = []
        · subst hsome
          rw [List.append_nil] at hopen ⊢
          cases before using List.reverseRecOn with
          | nil => rfl
          | append_singleton before c =>
              have hboundary : isLineBoundary c := hends c (by simp)
              have hline := hopen c (by simp)
              have hseparator := List.countP_eq_zero.mp hnone c (by simp)
              simp [isSeparator, hboundary, hline] at hseparator
        · exact (locations_inLine_iff hends hlast hsome).mpr hnone
    | @emptyLine before ended hended hempty hwhole hone =>
        have hnil : NoBoundary [] := fun _ hc => nomatch hc
        have h := locations_ended_iff hempty hnil (by rwa [List.append_nil]) hended
        rw [List.append_nil] at h
        exact h.mpr ⟨rfl, hone⟩

/-- The location that is found for the start of a token is the one stored in the token
exactly when both agree behind the text in front of it. -/
theorem getLocation_eq_token_iff (body : Text) (token : Token)
    (h : token ∈ (tokenChain body).1) :
    getLocation body token.start = { line := token.line, column := token.column } ↔
      LocationsAgree (body.take token.start) := by
  obtain ⟨before, text, ⟨rest, hbody⟩, hcovers⟩ := (tokenChain_chained body).covers token h
  have htake : body.take token.start = before := by
    rw [← hbody, hcovers.start_eq, List.append_assoc, List.take_left]
  have hstored : tokenLocation before = { line := token.line, column := token.column } := by
    rw [hcovers.line_eq, hcovers.column_eq, tokenLocation]
  rw [getLocation_eq, htake, ← hstored]
  exact locations_eq_iff before

/-- A token behind another token of its line. -/
theorem getLocation_eq_token_inLine :
    getLocation (str "\n\na b") 4 = { line := 3, column := 3 } ↔
      LocationsAgree ((str "\n\na b").take 4) :=
  getLocation_eq_token_iff (str "\n\na b")
    { kind := .name, start := 4, stop := 5, line := 3, column := 3, value := some (str "b") }
    (by decide +kernel)

/-- A token at the start of a line is located at the end of the line in front of it. -/
theorem getLocation_ne_token :
    ¬ ∀ tokens, tokenChain (str "a\nb") = (tokens, none) → ∀ token ∈ tokens,
      getLocation (str "a\nb") token.start =
        { line := token.line, column := token.column } := by
  intro h
  have hlexes : tokenChain (str "a\nb") =
      ([{ kind := .name, start := 0, stop := 1, line := 1, column := 1
          value := some (str "a") },
        { kind := .name, start := 2, stop := 3, line := 2, column := 1
          value := some (str "b") },
        { kind := .eof, start := 3, stop := 3, line := 2, column := 2 }], none) := by
    decide +kernel
  have hlocation := h _ hlexes
    { kind := .name, start := 2, stop := 3, line := 2, column := 1, value := some (str "b") }
    (by simp)
  have hfound : getLocation (str "a\nb") 2 = { line := 1, column := 2 } := by decide +kernel
  rw [hfound] at hlocation
  cases hlocation

end GraphqlCore.Language
