import GraphqlCore.Language.Parser
import GraphqlCore.Language.SourceLocation

/-!
# Printing a source location

`print_source_location` of `language/print_location.py`.  The location is computed with
the lines of Python, while the printed lines end with `\n`, `\r\n` or `\r`.
-/

namespace GraphqlCore.Language

structure Source where
  body : Text
  name : Text := str "GraphQL request"
  locationOffset : SourceLocation := ⟨1, 1⟩
  line_pos : 0 < locationOffset.line := by decide
  column_pos : 0 < locationOffset.column := by decide

/-! ## The printed lines -/

/-- Split at `\r\n`, `\n` and `\r`. -/
def splitNewlines : Text → List Text
  | [] => [[]]
  | 13 :: 10 :: rest => [] :: splitNewlines rest
  | c :: rest =>
      if isLineEnd c then [] :: splitNewlines rest
      else match splitNewlines rest with
        | [] => [[c]]
        | line :: lines => (c :: line) :: lines

/-- Put spaces in front, up to the given width. -/
def rjust (text : Text) (width : ℕ) : Text :=
  List.replicate (width - text.length) 32 ++ text

/-- The pieces of 80 code points. -/
def splitSubLines (line : Text) : List Text :=
  (List.range ((line.length + 79) / 80)).map fun i => (line.drop (80 * i)).take 80

/-- The body with spaces for the columns in front of its first line. -/
def printedBody (source : Source) : Text :=
  rjust [] (source.locationOffset.column - 1) ++ source.body

/-- What is printed of the source: the number of the marked line, the lines beside it,
and the line itself or its pieces up to the one above the caret. -/
structure Excerpt where
  lineNum : ℕ
  columnNum : ℕ
  minified : Bool
  previous : Option Text
  shown : List Text
  caretWidth : ℕ
  next : Option Text

namespace Excerpt

def caret (excerpt : Excerpt) : Text := rjust (str "^") excerpt.caretWidth

/-- The lines with their prefixes. -/
def rows (excerpt : Excerpt) : List (Text × Option Text) :=
  if excerpt.minified then
    ((excerpt.shown.take 1).map fun line => (printNat excerpt.lineNum ++ str " |", some line)) ++
      ((excerpt.shown.drop 1).map fun line => (str "|", some line)) ++
      [(str "|", some excerpt.caret), (str "|", excerpt.next)]
  else
    (printNat (excerpt.lineNum - 1) ++ str " |", excerpt.previous) ::
      (excerpt.shown.map fun line => (printNat excerpt.lineNum ++ str " |", some line)) ++
      [(str "|", some excerpt.caret), (printNat (excerpt.lineNum + 1) ++ str " |", excerpt.next)]

end Excerpt

/-- The lines for a location, or an `IndexError`. -/
def excerptAt (source : Source) (location : SourceLocation) : Option Excerpt :=
  let firstLineColumnOffset := source.locationOffset.column - 1
  let lineIndex := location.line - 1
  let lineOffset := source.locationOffset.line - 1
  let lineNum := location.line + lineOffset
  let columnOffset := if location.line = 1 then firstLineColumnOffset else 0
  let columnNum := location.column + columnOffset
  let lines := splitNewlines (printedBody source)
  match lines[lineIndex]? with
  | none => none
  | some locationLine =>
      if 120 < locationLine.length then
        let subLines := splitSubLines locationLine
        some
          { lineNum := lineNum, columnNum := columnNum, minified := true, previous := none
            shown := subLines.take (columnNum / 80 + 1), caretWidth := columnNum % 80
            next := if columnNum / 80 < subLines.length - 1 then subLines[columnNum / 80 + 1]?
              else none }
      else
        some
          { lineNum := lineNum, columnNum := columnNum, minified := false
            previous := if 0 < lineIndex then lines[lineIndex - 1]? else none
            shown := [locationLine], caretWidth := columnNum
            next := if lineIndex < lines.length - 1 then lines[lineIndex + 1]? else none }

def printPrefixedLines (lines : List (Text × Option Text)) : Text :=
  let existingLines := lines.filterMap fun row => row.2.map fun line => (row.1, line)
  let padLen := (existingLines.map fun row => row.1.length).foldr max 0
  joinLines (existingLines.map fun row =>
    rjust row.1 padLen ++ if row.2.isEmpty then [] else str " " ++ row.2)

/-- Render a helpful description of the location in the source. -/
def printSourceLocation (source : Source) (location : SourceLocation) : Option Text :=
  (excerptAt source location).map fun excerpt =>
    source.name ++ str ":" ++ printNat excerpt.lineNum ++ str ":" ++
      printNat excerpt.columnNum ++ str "\n" ++ printPrefixedLines excerpt.rows

/-! ## Marked positions -/

/-- The line and the column of the position between two texts.  Between a carriage return
and its line feed the line has not ended. -/
def placeIn (before rest : Text) : SourceLocation :=
  if before.getLast? = some 13 ∧ rest.head? = some 10 then
    let place := tokenLocation before.dropLast
    { place with column := place.column + 1 }
  else tokenLocation before

/-- The pieces in which a line is printed. -/
def printedPieces (line : Text) : List Text :=
  if 120 < line.length then splitSubLines line else [line]

/-- The excerpt marks the column of the line: the caret stands in that column below the
line, or below the piece that contains it. -/
structure Excerpt.Marks (excerpt : Excerpt) (number : ℕ) (line : Text) (column : ℕ) :
    Prop where
  lineNum_eq : excerpt.lineNum = number
  caret_below : ∃ index < (printedPieces line).length,
    excerpt.shown = (printedPieces line).take (index + 1) ∧
      80 * index + excerpt.caret.length = column ∧
      (120 < line.length → excerpt.caret.length ≤ 80)

section Positions

variable (source : Source) (position : ℕ)

/-- The place of the position in the printed body. -/
def printedPlace : SourceLocation :=
  placeIn (rjust [] (source.locationOffset.column - 1) ++ source.body.take position)
    (source.body.drop position)

/-- The printed line that contains the position. -/
def printedLine : Option Text :=
  (splitNewlines (printedBody source))[(printedPlace source position).line - 1]?

/-- The location found for the position is printed, and the position is marked. -/
def MarksPosition : Prop :=
  ∃ text excerpt line,
    printSourceLocation source (getLocation source.body position) = some text ∧
      excerptAt source (getLocation source.body position) = some excerpt ∧
      printedLine source position = some line ∧
      excerpt.Marks
        ((printedPlace source position).line + (source.locationOffset.line - 1)) line
        (printedPlace source position).column

end Positions

/-! ## The lines of the printed body -/

/-- Does a line end stand in front of the rest, or nothing? -/
def EndsNewline (text : Text) : Prop := ∀ c ∈ text.getLast?, isLineEnd c

theorem EndsNewline.tail {c : ℕ} {text : Text} (h : EndsNewline (c :: text)) :
    EndsNewline text := by
  intro d hd
  apply h d
  cases text with
  | nil => cases hd
  | cons e text => simpa using hd

/-- A text is cut in front of its last line. -/
theorem exists_lineStart (text : Text) :
    ∃ front line, text = front ++ line ∧ EndsNewline front ∧ InLine line ∧
      lastLineStart text = front.length := by
  induction text using List.reverseRecOn with
  | nil => exact ⟨[], [], rfl, fun _ h => (nomatch h), inLine_nil, rfl⟩
  | append_singleton text c ih =>
      by_cases hc : isLineEnd c
      · refine ⟨text ++ [c], [], (List.append_nil _).symm, fun d hd => ?_, inLine_nil, ?_⟩
        · obtain rfl : c = d := by simpa using hd
          exact hc
        · rw [lastLineStart_concat hc, List.length_append, List.length_singleton]
      · rw [Bool.not_eq_true] at hc
        obtain ⟨front, line, rfl, hends, hline, hstart⟩ := ih
        refine ⟨front, line ++ [c], List.append_assoc _ _ _, hends,
          hline.append (inLine_nil.cons hc), ?_⟩
        rw [lastLineStart_concat_of_not hc, hstart]

theorem splitNewlines_cons_of_not {c : ℕ} (hc : isLineEnd c = false) (rest : Text) :
    splitNewlines (c :: rest) = match splitNewlines rest with
      | [] => [[c]]
      | line :: lines => (c :: line) :: lines := by
  rw [splitNewlines.eq_def]
  split
  · next h => cases h
  · next h =>
    obtain ⟨rfl, rfl⟩ := List.cons.inj h
    cases hc
  · next h =>
    obtain ⟨rfl, rfl⟩ := List.cons.inj h
    simp [hc]

theorem splitNewlines_ne_nil (text : Text) : splitNewlines text ≠ [] := by
  rw [splitNewlines.eq_def]
  split
  · simp
  · simp
  · split
    · simp
    · split <;> simp

/-- Within a line, the text goes to the first line of what follows. -/
theorem splitNewlines_inLine {line rest first : Text} {lines : List Text} (hline : InLine line)
    (h : splitNewlines rest = first :: lines) :
    splitNewlines (line ++ rest) = (line ++ first) :: lines := by
  induction line with
  | nil => exact h
  | cons c line ih =>
      have htail := ih fun d hd => hline d (List.mem_cons_of_mem _ hd)
      rw [List.cons_append, splitNewlines_cons_of_not (hline c List.mem_cons_self), htail]
      rfl

theorem splitNewlines_lineEnd {c : ℕ} (hc : isLineEnd c) {rest : Text}
    (hwhole : ¬ (c = 13 ∧ rest.head? = some 10)) :
    splitNewlines (c :: rest) = [] :: splitNewlines rest := by
  rw [splitNewlines.eq_def]
  split
  · next h => cases h
  · next h =>
    obtain ⟨rfl, rfl⟩ := List.cons.inj h
    exact absurd ⟨rfl, rfl⟩ hwhole
  · next h =>
    obtain ⟨rfl, rfl⟩ := List.cons.inj h
    rw [if_pos hc]

/-- Behind a line end, the lines are split anew. -/
theorem splitNewlines_append {front : Text} (hends : EndsNewline front) :
    ∃ lines, lines.length = lineEnds front ∧ ∀ rest, CutsNoLineEnd front rest →
      splitNewlines (front ++ rest) = lines ++ splitNewlines rest := by
  fun_induction splitNewlines front with
  | case1 => exact ⟨[], rfl, fun _ _ => rfl⟩
  | case2 front ih =>
      obtain ⟨lines, hlength, hsplit⟩ := ih hends.tail.tail
      refine ⟨[] :: lines, by simp [lineEnds, hlength, Nat.add_comm], fun rest hwhole => ?_⟩
      have h := hsplit rest hwhole.tail.tail
      rw [List.cons_append, List.cons_append, splitNewlines, h]
      rfl
  | case3 c front hpair hc ih =>
      obtain ⟨lines, hlength, hsplit⟩ := ih hends.tail
      have hfront : ¬ (c = 13 ∧ front.head? = some 10) := by
        rintro ⟨rfl, hhead⟩
        obtain ⟨front, rfl⟩ := List.head?_eq_some_iff.mp hhead
        exact hpair front rfl rfl
      refine ⟨[] :: lines, ?_, fun rest hwhole => ?_⟩
      · have hone : lineEnds (c :: front) = 1 + lineEnds front := by
          rcases isLineEnd_iff.mp hc with rfl | rfl
          · have hhead : front.head? ≠ some 10 := fun hhead => hfront ⟨rfl, hhead⟩
            simp [lineEnds, hhead]
          · simp [lineEnds]
        rw [hone, List.length_cons, hlength, Nat.add_comm]
      · have hnext : ¬ (c = 13 ∧ (front ++ rest).head? = some 10) := by
          rintro ⟨rfl, hhead⟩
          cases front with
          | nil => exact hwhole ⟨rfl, hhead⟩
          | cons d front => exact hfront ⟨rfl, hhead⟩
        rw [List.cons_append, splitNewlines_lineEnd hc hnext, hsplit rest hwhole.tail]
        rfl
  | case4 c front hpair hc hlines ih => exact absurd hlines (splitNewlines_ne_nil front)
  | case5 c front hpair hc first others hlines ih =>
      rw [Bool.not_eq_true] at hc
      have hsome : front ≠ [] := by
        rintro rfl
        have hend := hends c rfl
        rw [hc] at hend
        cases hend
      obtain ⟨lines, hlength, hsplit⟩ := ih hends.tail
      -- A line is open in front of the first line end.
      cases lines with
      | nil =>
          have hlast := hends.tail _ (List.getLast?_eq_some_getLast hsome)
          rw [lineEnds_eq_zero_iff.mp hlength.symm _ (List.getLast_mem hsome)] at hlast
          cases hlast
      | cons line lines =>
          refine ⟨(c :: line) :: lines, by rw [lineEnds_cons_of_not hc, ← hlength]; rfl,
            fun rest hwhole => ?_⟩
          rw [List.cons_append, splitNewlines_cons_of_not hc, hsplit rest hwhole.tail]
          rfl

theorem length_splitNewlines (text : Text) :
    (splitNewlines text).length = lineEnds text + 1 := by
  obtain ⟨front, line, rfl, hends, hline, -⟩ := exists_lineStart text
  obtain ⟨lines, hlength, hsplit⟩ := splitNewlines_append hends
  have hwhole : CutsNoLineEnd front line := by
    rintro ⟨-, hhead⟩
    cases hline 10 (List.mem_of_head? hhead)
  have hlast := @splitNewlines_inLine line [] [] [] hline rfl
  rw [List.append_nil] at hlast
  rw [hsplit line hwhole, hlast, lineEnds_append hwhole,
    lineEnds_eq_zero_iff.mpr hline, List.length_append, hlength]
  rfl

/-- The line behind the line ends in front of the rest. -/
theorem exists_line {before rest : Text} (hwhole : CutsNoLineEnd before rest) :
    ∃ line, (splitNewlines (before ++ rest))[lineEnds before]? = some line := by
  refine ⟨_, List.getElem?_eq_getElem ?_⟩
  rw [length_splitNewlines, lineEnds_append hwhole]
  omega

/-- The line that a carriage return with its line feed ends. -/
theorem line_of_ended (before rest : Text) :
    ∃ line, (splitNewlines (before ++ 13 :: 10 :: rest))[lineEnds before]? = some line ∧
      line.length = before.length - lastLineStart before := by
  obtain ⟨front, line, rfl, hends, hline, hstart⟩ := exists_lineStart before
  obtain ⟨lines, hlength, hsplit⟩ := splitNewlines_append hends
  have hcut : ∀ rest : Text, rest.head? ≠ some 10 → CutsNoLineEnd front (line ++ rest) := by
    rintro rest hrest ⟨-, hhead⟩
    cases line with
    | nil => exact hrest hhead
    | cons c line =>
        obtain rfl : c = 10 := by simpa using hhead
        cases hline 10 List.mem_cons_self
  have hwhole := hcut [] (by simp)
  rw [List.append_nil] at hwhole
  have hlines : splitNewlines (line ++ 13 :: 10 :: rest) = line :: splitNewlines rest := by
    rw [splitNewlines_inLine hline (by rw [splitNewlines]), List.append_nil]
  refine ⟨line, ?_, ?_⟩
  · rw [List.append_assoc, hsplit _ (hcut _ (by simp)), hlines, lineEnds_append hwhole,
      lineEnds_eq_zero_iff.mpr hline, Nat.add_zero, ← hlength,
      List.getElem?_append_right le_rfl, Nat.sub_self]
    rfl
  · rw [hstart, List.length_append, Nat.add_sub_cancel_left]

/-! ## Places in the printed body -/

section Places

variable {source : Source} {position : ℕ}

def Source.columnOffset (source : Source) : ℕ := source.locationOffset.column - 1

theorem lineEnds_indented (columns : ℕ) (before : Text) :
    lineEnds (rjust [] columns ++ before) = lineEnds before := by
  have hline : InLine (rjust [] columns) := by
    intro c hc
    obtain rfl := List.eq_of_mem_replicate (by simpa [rjust] using hc)
    rfl
  have hwhole : CutsNoLineEnd (rjust [] columns) before := by
    rintro ⟨hlast, -⟩
    cases hline 13 (List.mem_of_getLast? hlast)
  rw [lineEnds_append hwhole, lineEnds_eq_zero_iff.mpr hline, Nat.zero_add]

theorem length_indentation (columns : ℕ) : (rjust [] columns).length = columns := by
  simp [rjust]

/-- The columns of the first line are moved by the indentation. -/
theorem tokenLocation_indented (columns : ℕ) (before : Text) :
    tokenLocation (rjust [] columns ++ before) =
      { line := (tokenLocation before).line
        column := (tokenLocation before).column +
          if (tokenLocation before).line = 1 then columns else 0 } := by
  have hlines := lineEnds_indented columns before
  have hstart : lastLineStart (rjust [] columns) = 0 := by
    have hzero := lineEnds_indented columns []
    rw [List.append_nil] at hzero
    rw [lastLineStart, List.length_eq_zero_iff, List.rdropWhile_eq_nil_iff]
    intro c hc
    rw [lineEnds_eq_zero_iff.mp hzero c hc]
    rfl
  have hlast := lastLineStart_append (rjust [] columns) before
  have hle := lastLineStart_le before
  rw [tokenLocation, tokenLocation, hlines, hlast, List.length_append, hstart,
    length_indentation]
  by_cases hzero : lineEnds before = 0
  · have hnone : lastLineStart before = 0 := by
      rw [lastLineStart, List.length_eq_zero_iff, List.rdropWhile_eq_nil_iff]
      intro c hc
      rw [lineEnds_eq_zero_iff.mp hzero c hc]
      rfl
    simp only [hzero, hnone, if_true]
    congr 1
    omega
  · have hmore : 1 + lineEnds before ≠ 1 := by omega
    simp only [hzero, hmore, if_false]
    congr 1
    omega

/-- The place of the position in the body, with the indentation of the first line. -/
theorem printedPlace_eq : printedPlace source position =
    { line := (placeIn (source.body.take position) (source.body.drop position)).line
      column := (placeIn (source.body.take position) (source.body.drop position)).column +
        if (placeIn (source.body.take position) (source.body.drop position)).line = 1
          then source.columnOffset else 0 } := by
  generalize hbefore : source.body.take position = before
  generalize hrest : source.body.drop position = rest
  rw [printedPlace, hbefore, hrest]
  have hindented := tokenLocation_indented source.columnOffset
  cases before using List.reverseRecOn with
  | nil =>
      have hlast : (rjust [] source.columnOffset ++ []).getLast? ≠ some 13 := by
        intro hlast
        have hmem := List.mem_of_getLast? hlast
        simp [rjust] at hmem
      have hplace : placeIn [] rest = tokenLocation [] := if_neg (by simp)
      rw [hplace, ← hindented []]
      exact if_neg fun h => hlast h.1
  | append_singleton before c =>
      have hlast : (rjust [] source.columnOffset ++ (before ++ [c])).getLast? = some c := by
        simp
      have hdrop : (rjust [] source.columnOffset ++ (before ++ [c])).dropLast =
          rjust [] source.columnOffset ++ before := by
        rw [← List.append_assoc, List.dropLast_concat]
      change placeIn (rjust [] source.columnOffset ++ (before ++ [c])) rest = _
      unfold placeIn
      rw [hlast, hdrop, List.getLast?_concat, List.dropLast_concat]
      by_cases hcut : some c = some 13 ∧ rest.head? = some 10
      · simp only [if_pos hcut]
        rw [hindented before]
        exact congrArg _ (Nat.add_right_comm _ _ _)
      · simp only [if_neg hcut]
        exact hindented (before ++ [c])

end Places

/-! ## The column of the caret -/

/-- The column of the line in which the caret stands for a column number. -/
def caretPlace (length columnNum : ℕ) : ℕ :=
  if 120 < length then
    80 * min (columnNum / 80) ((length + 79) / 80 - 1) + max (columnNum % 80) 1
  else max columnNum 1

theorem length_caret (excerpt : Excerpt) :
    excerpt.caret.length = max excerpt.caretWidth 1 := by
  rw [Excerpt.caret, rjust, List.length_append, List.length_replicate]
  change excerpt.caretWidth - 1 + 1 = _
  omega

theorem length_splitSubLines (line : Text) :
    (splitSubLines line).length = (line.length + 79) / 80 := by
  rw [splitSubLines, List.length_map, List.length_range]

/-- A column is marked just if the caret stands in it. -/
theorem marks_iff {source : Source} {location : SourceLocation} {line : Text}
    {number column : ℕ}
    (hline : (splitNewlines (printedBody source))[location.line - 1]? = some line) :
    (∃ excerpt, excerptAt source location = some excerpt ∧
        excerpt.Marks number line column) ↔
      location.line + (source.locationOffset.line - 1) = number ∧
        caretPlace line.length (location.column +
          if location.line = 1 then source.columnOffset else 0) = column := by
  generalize hnum : location.column +
    (if location.line = 1 then source.columnOffset else 0) = columnNum
  have hnum' : location.column +
    (if location.line = 1 then source.locationOffset.column - 1 else 0) = columnNum := hnum
  unfold excerptAt
  simp only [hline, hnum']
  by_cases hlong : 120 < line.length
  · have hcount := length_splitSubLines line
    have hpieces : printedPieces line = splitSubLines line := if_pos hlong
    rw [if_pos hlong, caretPlace, if_pos hlong]
    constructor
    · rintro ⟨excerpt, heq, hline, index, hindex, hshown, hcolumn, -⟩
      cases heq
      rw [length_caret] at hcolumn
      rw [hpieces] at hindex hshown
      have hlength := congrArg List.length hshown
      rw [List.length_take, List.length_take] at hlength
      refine ⟨hline, ?_⟩
      rw [← hcolumn]
      dsimp only
      omega
    · rintro ⟨hline, hcolumn⟩
      refine ⟨_, rfl, hline, min (columnNum / 80) ((line.length + 79) / 80 - 1), ?_, ?_, ?_, ?_⟩
      · rw [hpieces]
        omega
      · rw [hpieces]
        by_cases hin : columnNum / 80 ≤ (line.length + 79) / 80 - 1
        · rw [min_eq_left hin]
        · rw [List.take_of_length_le (by omega), List.take_of_length_le (by omega)]
      · rw [length_caret]
        exact hcolumn
      · intro _
        rw [length_caret]
        dsimp only
        omega
  · have hpieces : printedPieces line = [line] := if_neg hlong
    rw [if_neg hlong, caretPlace, if_neg hlong]
    constructor
    · rintro ⟨excerpt, heq, hline, index, hindex, -, hcolumn, -⟩
      cases heq
      rw [length_caret] at hcolumn
      rw [hpieces, List.length_singleton] at hindex
      refine ⟨hline, ?_⟩
      rw [← hcolumn]
      dsimp only
      omega
    · rintro ⟨hline, hcolumn⟩
      refine ⟨_, rfl, hline, 0, ?_, ?_, ?_, fun h => absurd h hlong⟩
      · simp [hpieces]
      · rw [hpieces]
        rfl
      · rw [length_caret]
        dsimp only
        omega

/-- The caret is in the column if the pieces reach it and it is not the last of a piece. -/
theorem caretPlace_eq_iff {length column : ℕ} (hcolumn : 0 < column) :
    caretPlace length column = column ↔
      (120 < length → column % 80 ≠ 0 ∧ 80 * (column / 80) < length) := by
  unfold caretPlace
  split <;> omega

/-- The caret is behind the column only at the start of a piece. -/
theorem caretPlace_eq_succ_iff {length column : ℕ} (hcolumn : 0 < column) :
    caretPlace length column = column + 1 ↔
      120 < length ∧ (column + 1) % 80 = 1 ∧ column + 1 ≤ length := by
  unfold caretPlace
  split <;> omega

theorem caretPlace_ne_one {length column : ℕ} (hcolumn : 1 < column) :
    caretPlace length column ≠ 1 := by
  unfold caretPlace
  split <;> omega

/-! ## The locations of positions -/

attribute [ext] SourceLocation

/-- The text ends with the only separator of Python that is not a line end. -/
inductive BehindSeparator : Text → Prop
  | intro {before : Text} {c : ℕ} (hc : isSeparator c)
      (hnone : before.countP isSeparator = 0) : BehindSeparator (before ++ [c])

theorem locationOfLines_column_pos (lines : List Text) :
    0 < (locationOfLines lines).column := by
  unfold locationOfLines
  split <;> exact Nat.succ_pos _

/-- Both locations behind a separator. -/
theorem locations_separator {before line : Text} {c : ℕ} (hends : EndsLines before)
    (hline : NoBoundary line) (hc : isSeparator c) :
    locationOfLines (splitLines (before ++ (line ++ [c]))) =
        { line := lineEnds before + before.countP isSeparator + 1
          column := line.length + 1 } ∧
      tokenLocation (before ++ (line ++ [c])) =
        { line := 1 + lineEnds before
          column := before.length + (line.length + 1) - lastLineStart before + 1 } := by
  have hboth := hc
  simp only [isSeparator, Bool.and_eq_true, Bool.not_eq_true'] at hboth
  have hpiece := splitLines_ended hline (Or.inr ⟨c, rfl, hboth.1⟩)
  have hin : InLine (line ++ [c]) := hline.inLine.append (inLine_nil.cons hboth.2)
  have hwhole : CutsNoLineEnd before (line ++ [c]) := by
    rintro ⟨-, hhead⟩
    cases hin 10 (List.mem_of_head? hhead)
  refine ⟨locationOfLines_append hends hwhole hpiece, ?_⟩
  rw [tokenLocation_inLine hin, List.length_append, List.length_singleton]

theorem BehindSeparator.locations {text : Text} (h : BehindSeparator text) :
    (locationOfLines (splitLines text)).line = (tokenLocation text).line ∧
      (locationOfLines (splitLines text)).column + 1 = (tokenLocation text).column := by
  cases h with
  | @intro text c hc hnone =>
      obtain ⟨before, line, rfl, hends, hline⟩ := exists_lastLine text
      rw [List.countP_append, hline.countP_eq_zero, Nat.add_zero] at hnone
      obtain ⟨hleft, hright⟩ := locations_separator hends hline hc
      rw [List.append_assoc, hleft, hright, hnone, lastLineStart_of_noSeparator hends hnone]
      exact ⟨by dsimp only; omega, by dsimp only; omega⟩

/-- When both locations have the same line, they agree, or the text ends with a separator,
or it ends a line. -/
theorem location_cases {text : Text}
    (h : (locationOfLines (splitLines text)).line = (tokenLocation text).line) :
    LocationsAgree text ∨ BehindSeparator text ∨
      (tokenLocation text).column = 1 ∧ (tokenLocation text).line ≠ 1 ∧
        1 < (locationOfLines (splitLines text)).column := by
  by_cases hagree : locationOfLines (splitLines text) = tokenLocation text
  · exact .inl ((locations_eq_iff text).mp hagree)
  refine .inr ?_
  have hcolumn : (locationOfLines (splitLines text)).column ≠ (tokenLocation text).column :=
    fun hcolumn => hagree (SourceLocation.ext h hcolumn)
  cases text using List.reverseRecOn with
  | nil => exact absurd rfl hagree
  | append_singleton text c =>
      by_cases hboundary : isLineBoundary c
      · by_cases hend : isLineEnd c
        · obtain ⟨front, ended, htext, hwhole, hended⟩ := exists_ended text hend
          have hpos := locationOfLines_column_pos (splitLines (text ++ [c]))
          have hplace := tokenLocation_ended hwhole hended
          rw [← htext] at hplace
          rw [hplace] at hcolumn ⊢
          exact .inr ⟨rfl, by simp, by dsimp only at hcolumn; omega⟩
        · obtain ⟨before, line, rfl, hends, hline⟩ := exists_lastLine text
          have hc : isSeparator c := by simp [isSeparator, hboundary, hend]
          obtain ⟨hleft, hright⟩ := locations_separator hends hline hc
          rw [List.append_assoc, hleft, hright] at h
          refine .inl (.intro hc ?_)
          rw [List.countP_append, hline.countP_eq_zero]
          dsimp only at h
          omega
      · rw [Bool.not_eq_true] at hboundary
        obtain ⟨before, line, htext, hends, hline⟩ := exists_lastLine (text ++ [c])
        have hsome : line ≠ [] := by
          rintro rfl
          rw [List.append_nil] at htext
          have hc := hends c (by rw [← htext]; simp)
          rw [hboundary] at hc
          cases hc
        have hwhole : CutsNoLineEnd before (line ++ []) := hline.cutsNoLineEnd_append hsome
        rw [List.append_nil] at hwhole
        rw [htext] at h hagree
        have hiff := locations_inLine_iff hends hline hsome
        rw [locationOfLines_append hends hwhole (splitLines_of_noBoundary hline hsome),
          tokenLocation_inLine hline.inLine] at h
        dsimp only at h
        exact absurd (hiff.mpr (by omega)) hagree

/-- In front of a line feed that a carriage return belongs to, only the column differs. -/
theorem location_of_cut {text : Text}
    (h : (locationOfLines (splitLines (text ++ [13]))).line = (tokenLocation text).line) :
    (locationOfLines (splitLines (text ++ [13]))).column = (tokenLocation text).column := by
  obtain ⟨before, line, rfl, hends, hline⟩ := exists_lastLine text
  have hpiece := splitLines_ended hline (.inr ⟨13, rfl, rfl⟩)
  have hcut : CutsNoLineEnd before (line ++ [13]) := by
    rintro ⟨-, hhead⟩
    cases line with
    | nil => cases hhead
    | cons c line =>
        obtain rfl : c = 10 := by simpa using hhead
        cases hline 10 List.mem_cons_self
  rw [List.append_assoc, locationOfLines_append hends hcut hpiece,
    tokenLocation_inLine hline.inLine] at h ⊢
  dsimp only at h ⊢
  rw [lastLineStart_of_noSeparator hends (by omega)]
  omega

/-! ## Marked positions -/

/-- The condition on the body in front of the position and behind it: it is not in front of
the line feed of `\r\n`; the lines of Python agree with the printed lines, and a long line
is printed with the piece of the column and the column is not its last; or the lines of
Python are one column behind, at the start of a piece. -/
def MarkedWhen (source : Source) (position : ℕ) : Prop :=
  let before := source.body.take position
  let length := ((printedLine source position).getD []).length
  let column := (printedPlace source position).column
  CutsNoLineEnd before (source.body.drop position) ∧
    (LocationsAgree before ∧
        (120 < length → column % 80 ≠ 0 ∧ 80 * (column / 80) < length) ∨
      BehindSeparator before ∧ 120 < length ∧ column % 80 = 1 ∧ column ≤ length)

theorem printedBody_eq (source : Source) (position : ℕ) :
    printedBody source = rjust [] source.columnOffset ++ source.body.take position ++
      source.body.drop position := by
  rw [List.append_assoc, List.take_append_drop]
  rfl

theorem CutsNoLineEnd.indented {before rest : Text} (columns : ℕ)
    (h : CutsNoLineEnd before rest) : CutsNoLineEnd (rjust [] columns ++ before) rest := by
  rintro ⟨hlast, hhead⟩
  cases before using List.reverseRecOn with
  | nil =>
      have hmem := List.mem_of_getLast? hlast
      simp [rjust] at hmem
  | append_singleton before c =>
      rw [← List.append_assoc, List.getLast?_concat] at hlast
      exact h ⟨by rw [List.getLast?_concat, hlast], hhead⟩

/-- The place and the printed line of a position that is not within a line end. -/
theorem exists_printedLine {source : Source} {position : ℕ}
    (hwhole : CutsNoLineEnd (source.body.take position) (source.body.drop position)) :
    printedPlace source position =
        { line := (tokenLocation (source.body.take position)).line
          column := (tokenLocation (source.body.take position)).column +
            if (tokenLocation (source.body.take position)).line = 1 then source.columnOffset
              else 0 } ∧
      ∃ line, printedLine source position = some line := by
  have hplace := @printedPlace_eq source position
  have hnot : placeIn (source.body.take position) (source.body.drop position) =
      tokenLocation (source.body.take position) := if_neg hwhole
  rw [hnot] at hplace
  refine ⟨hplace, ?_⟩
  obtain ⟨line, hline⟩ := exists_line (hwhole.indented source.columnOffset)
  rw [lineEnds_indented, ← printedBody_eq] at hline
  refine ⟨line, ?_⟩
  rw [printedLine, hplace]
  dsimp only [tokenLocation]
  rw [Nat.add_sub_cancel_left]
  exact hline

/-- The place and the printed line of a position within a line end. -/
theorem exists_cutLine {source : Source} {position : ℕ} {before rest : Text}
    (hbefore : source.body.take position = before ++ [13])
    (hrest : source.body.drop position = 10 :: rest) :
    printedPlace source position =
        { line := (tokenLocation before).line
          column := (tokenLocation before).column + 1 +
            if (tokenLocation before).line = 1 then source.columnOffset else 0 } ∧
      ∃ line, printedLine source position = some line ∧
        line.length + 1 = (tokenLocation before).column +
          if (tokenLocation before).line = 1 then source.columnOffset else 0 := by
  have hplace := @printedPlace_eq source position
  have hcut : placeIn (before ++ [13]) (10 :: rest) =
      { tokenLocation before with column := (tokenLocation before).column + 1 } := by
    rw [placeIn, if_pos ⟨List.getLast?_concat, rfl⟩, List.dropLast_concat]
  rw [hbefore, hrest, hcut] at hplace
  refine ⟨hplace, ?_⟩
  have hbody := printedBody_eq source position
  rw [hbefore, hrest, ← List.append_assoc, List.append_assoc _ [13]] at hbody
  obtain ⟨line, hline, hlength⟩ := line_of_ended (rjust [] source.columnOffset ++ before) rest
  have hindented := tokenLocation_indented source.columnOffset before
  refine ⟨line, ?_, ?_⟩
  · rw [printedLine, hplace, hbody]
    rw [lineEnds_indented] at hline
    dsimp only [tokenLocation]
    rw [Nat.add_sub_cancel_left]
    exact hline
  · rw [hlength]
    exact congrArg SourceLocation.column hindented

/-- The number of the line that is marked is that of the location. -/
theorem excerptAt_lineNum {source : Source} {location : SourceLocation} {excerpt : Excerpt}
    (h : excerptAt source location = some excerpt) :
    excerpt.lineNum = location.line + (source.locationOffset.line - 1) := by
  unfold excerptAt at h
  dsimp only at h
  split at h
  · cases h
  · split at h <;> cases h <;> rfl

/-- The position is marked if the location has its line and the caret is in its column. -/
theorem marksPosition_iff_caret {source : Source} {position : ℕ} {line : Text}
    (hline : printedLine source position = some line) :
    MarksPosition source position ↔
      (getLocation source.body position).line = (printedPlace source position).line ∧
        caretPlace line.length ((getLocation source.body position).column +
          if (getLocation source.body position).line = 1 then source.columnOffset else 0) =
            (printedPlace source position).column := by
  constructor
  · rintro ⟨text, excerpt, line', -, hexcerpt, hline', hmarks⟩
    cases hline.symm.trans hline'
    have hnumber := excerptAt_lineNum hexcerpt
    rw [hmarks.lineNum_eq] at hnumber
    have hsame := Nat.add_right_cancel hnumber
    rw [printedLine, hsame] at hline
    exact ⟨hsame.symm, ((marks_iff hline).mp ⟨excerpt, hexcerpt, hmarks⟩).2⟩
  · rintro ⟨hsame, hcaret⟩
    have hline' := hline
    rw [printedLine, ← hsame] at hline'
    obtain ⟨excerpt, hexcerpt, hmarks⟩ := (marks_iff hline').mpr ⟨by rw [hsame], hcaret⟩
    have hprinted : ∃ text,
        printSourceLocation source (getLocation source.body position) = some text := by
      rw [printSourceLocation, hexcerpt]
      exact ⟨_, rfl⟩
    obtain ⟨text, hprinted⟩ := hprinted
    exact ⟨text, excerpt, line, hprinted, hexcerpt, hline, hmarks⟩

/-- A location is printed and marks its position exactly under the condition. -/
theorem marksPosition_iff (source : Source) (position : ℕ) :
    MarksPosition source position ↔ MarkedWhen source position := by
  by_cases hwhole : CutsNoLineEnd (source.body.take position) (source.body.drop position)
  · obtain ⟨hplace, line, hline⟩ := exists_printedLine hwhole
    rw [marksPosition_iff_caret hline, MarkedWhen, hline, hplace, getLocation_eq]
    simp only [Option.getD_some, hwhole, true_and]
    generalize source.body.take position = before
    have hpos := locationOfLines_column_pos (splitLines before)
    constructor
    · rintro ⟨hsame, hcaret⟩
      rw [hsame] at hcaret
      rcases location_cases hsame with hagree | hbehind | ⟨hone, hline, hmore⟩
      · rw [(locations_eq_iff before).mpr hagree] at hcaret hpos
        exact .inl ⟨hagree, (caretPlace_eq_iff (by omega)).mp hcaret⟩
      · rw [← hbehind.locations.2, Nat.add_right_comm] at hcaret ⊢
        exact .inr ⟨hbehind, (caretPlace_eq_succ_iff (by omega)).mp hcaret⟩
      · rw [if_neg hline, hone] at hcaret
        exact absurd hcaret (caretPlace_ne_one (by omega))
    · rintro (⟨hagree, hcaret⟩ | ⟨hbehind, hcaret⟩)
      · have hsame := (locations_eq_iff before).mpr hagree
        rw [hsame] at hpos ⊢
        exact ⟨rfl, (caretPlace_eq_iff (by omega)).mpr hcaret⟩
      · obtain ⟨hsame, hcolumn⟩ := hbehind.locations
        rw [← hcolumn, Nat.add_right_comm] at hcaret ⊢
        rw [hsame]
        exact ⟨rfl, (caretPlace_eq_succ_iff (by omega)).mpr hcaret⟩
  · refine ⟨fun hmarks => ?_, fun h => absurd h.1 hwhole⟩
    obtain ⟨hlast, hhead⟩ := not_not.mp hwhole
    obtain ⟨before, hbefore⟩ := List.getLast?_eq_some_iff.mp hlast
    obtain ⟨rest, hrest⟩ := List.head?_eq_some_iff.mp hhead
    obtain ⟨hplace, line, hline, hlength⟩ := exists_cutLine hbefore hrest
    rw [marksPosition_iff_caret hline, hplace, getLocation_eq, hbefore] at hmarks
    obtain ⟨hsame, hcaret⟩ := hmarks
    dsimp only at hsame hcaret
    rw [hsame, location_of_cut hsame, Nat.add_right_comm _ 1] at hcaret
    have hpos : 0 < (tokenLocation before).column := Nat.succ_pos _
    have hle := (caretPlace_eq_succ_iff (by omega)).mp hcaret
    omega

/-- The position at the start of the second line is marked in the first. -/
theorem not_marksPosition :
    ¬ ∀ (source : Source) (position : ℕ), position ≤ source.body.length →
      MarksPosition source position := by
  intro h
  obtain ⟨text, excerpt, line, -, hexcerpt, -, hmarks⟩ :=
    h { body := str "a\nb" } 2 (by decide)
  have hnumber := (excerptAt_lineNum hexcerpt).symm.trans hmarks.lineNum_eq
  revert hnumber
  decide +kernel

end GraphqlCore.Language
