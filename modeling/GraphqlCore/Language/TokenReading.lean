import GraphqlCore.Language.BlockStringTokens

/-!
# What tokens take from the text

A cursor that moves over a text keeps track of its lines; each reader of the lexer moves
the cursor over the text of its token, and in front of it over characters that are
ignored.
-/

namespace GraphqlCore.Language

/-! ## Moving over text -/

/-- The cursor is moved over the text, and its line is kept track of. -/
structure Cursor.Moves (cursor : Cursor) (text : Text) (next : Cursor) : Prop where
  rest_eq : cursor.rest = text ++ next.rest
  position_eq : next.position = cursor.position + text.length
  line_eq : next.line = cursor.line + lineEnds text
  lineStart_eq : next.lineStart = lineStartBehind cursor.position cursor.lineStart text
  whole : CutsNoLineEnd text next.rest

namespace Cursor.Moves

variable {cursor mid next : Cursor} {text text' : Text}

protected theorem refl (cursor : Cursor) : cursor.Moves [] cursor where
  rest_eq := rfl
  position_eq := rfl
  line_eq := rfl
  lineStart_eq := rfl
  whole := by simp [CutsNoLineEnd]

protected theorem trans (h : cursor.Moves text mid) (h' : mid.Moves text' next) :
    cursor.Moves (text ++ text') next where
  rest_eq := by rw [h.rest_eq, h'.rest_eq, List.append_assoc]
  position_eq := by rw [h'.position_eq, h.position_eq, List.length_append, Nat.add_assoc]
  line_eq := by
    have hwhole : CutsNoLineEnd text text' := by
      rintro ⟨hlast, hhead⟩
      refine h.whole ⟨hlast, ?_⟩
      rw [h'.rest_eq, List.head?_append, hhead]
      rfl
    rw [h'.line_eq, h.line_eq, lineEnds_append hwhole, Nat.add_assoc]
  lineStart_eq := by
    rw [h'.lineStart_eq, h.lineStart_eq, h.position_eq, lineStartBehind_append]
  whole := by
    rintro ⟨hlast, hhead⟩
    cases text' using List.reverseRecOn with
    | nil =>
        rw [List.append_nil] at hlast
        refine h.whole ⟨hlast, ?_⟩
        rw [h'.rest_eq]
        exact hhead
    | append_singleton text' c =>
        refine h'.whole ⟨?_, hhead⟩
        simpa using hlast

/-- Within a line. -/
theorem advance {rest : Text} (hrest : cursor.rest = text ++ rest)
    (hline : ∀ c ∈ text, isLineEnd c = false) :
    cursor.Moves text (cursor.advance text.length rest) where
  rest_eq := hrest
  position_eq := rfl
  line_eq := by
    rw [lineEnds_eq_zero_iff.mpr hline]
    rfl
  lineStart_eq := by
    rw [lineStartBehind, if_pos (lineEnds_eq_zero_iff.mpr hline)]
    rfl
  whole := by
    rintro ⟨hlast, -⟩
    have hnot := hline 13 (List.mem_of_getLast? hlast)
    exact absurd hnot (by decide)

end Cursor.Moves

/-! ## Comments, numbers and names -/

/-- No code point of the text ends a line. -/
def InLine (text : Text) : Prop := ∀ c ∈ text, isLineEnd c = false

theorem InLine.append {text text' : Text} (h : InLine text) (h' : InLine text') :
    InLine (text ++ text') := fun c hc =>
  (List.mem_append.mp hc).elim (h c) (h' c)

theorem InLine.cons {c : ℕ} {text : Text} (hc : isLineEnd c = false) (h : InLine text) :
    InLine (c :: text) := List.forall_mem_cons.mpr ⟨hc, h⟩

theorem inLine_nil : InLine [] := fun _ h => nomatch h

theorem inLine_of_digits {text : Text} (h : ∀ c ∈ text, isDigit c) : InLine text := by
  intro c hc
  have hdigit := h c hc
  simp only [isDigit, Bool.and_eq_true, decide_eq_true_eq] at hdigit
  exact not_isLineEnd_iff.mpr (by omega)

theorem isNameContinue_of_start {c : ℕ} (h : isNameStart c) : isNameContinue c := by
  simp only [isNameStart, Bool.or_eq_true] at h
  simp only [isNameContinue, Bool.or_eq_true]
  exact h.elim (fun hletter => Or.inl (Or.inl hletter)) Or.inr

theorem inLine_of_name {text : Text} (h : ∀ c ∈ text, isNameContinue c) : InLine text := by
  intro c hc
  have hname := h c hc
  simp only [isNameContinue, isLetter, isDigit, Bool.or_eq_true, Bool.and_eq_true,
    decide_eq_true_eq] at hname
  exact not_isLineEnd_iff.mpr (by omega)

theorem readComment_spec (text : Text) :
    text = (readComment text).1 ++ (readComment text).2 ∧ InLine (readComment text).1 := by
  induction hlength : text.length using Nat.strongRecOn generalizing text with
  | _ length ih =>
      subst hlength
      match text with
      | [] => exact ⟨by rw [readComment]; rfl, by rw [readComment]; exact inLine_nil⟩
      | c :: rest =>
          by_cases hline : isLineEnd c
          · have hread : readComment (c :: rest) = ([], c :: rest) := by
              rw [readComment.eq_def]
              exact if_pos hline
            rw [hread]
            exact ⟨rfl, inLine_nil⟩
          rw [Bool.not_eq_true] at hline
          by_cases hscalar : isUnicodeScalarValue c
          · have hread : readComment (c :: rest) =
                (c :: (readComment rest).1, (readComment rest).2) := by
              rw [readComment.eq_def]
              simp [hline, hscalar]
            obtain ⟨htext, hin⟩ := ih rest.length (Nat.lt_succ_self _) rest rfl
            rw [hread]
            exact ⟨congrArg (c :: ·) htext, hin.cons hline⟩
          by_cases hpair : isSupplementaryCodePoint (c :: rest)
          · obtain ⟨d, rest, rfl⟩ : ∃ d rest', rest = d :: rest' := by
              cases rest with
              | nil => simp [isSupplementaryCodePoint] at hpair
              | cons d rest => exact ⟨d, rest, rfl⟩
            have hread : readComment (c :: d :: rest) =
                (c :: d :: (readComment rest).1, (readComment rest).2) := by
              rw [readComment.eq_def]
              simp [hline, hscalar, hpair]
            have hshorter : rest.length < (c :: d :: rest).length := by
              rw [List.length_cons, List.length_cons]
              omega
            obtain ⟨htext, hin⟩ := ih rest.length hshorter rest rfl
            simp only [isSupplementaryCodePoint, Bool.and_eq_true] at hpair
            have hd := not_lineEnd_of_surrogate (Or.inr hpair.2)
            rw [hread]
            exact ⟨congrArg (c :: d :: ·) htext, (hin.cons hd).cons hline⟩
          · have hread : readComment (c :: rest) = ([], c :: rest) := by
              rw [readComment.eq_def]
              cases rest <;> simp_all
            rw [hread]
            exact ⟨rfl, inLine_nil⟩

theorem readHexDigit_lineEnd {c : ℕ} {digit : ℕ} (h : readHexDigit c = some digit) :
    isLineEnd c = false := by
  rw [not_isLineEnd_iff]
  constructor <;> rintro rfl <;> cases h

theorem inLine_of_hexValue {digits : Text} {point value : ℕ}
    (h : hexValue point digits = some value) : InLine digits := by
  induction digits generalizing point with
  | nil => exact inLine_nil
  | cons c digits ih =>
      rw [hexValue_cons] at h
      obtain ⟨digit, hdigit, hdigits⟩ := Option.bind_eq_some_iff.mp h
      exact (ih hdigits).cons (readHexDigit_lineEnd hdigit)

theorem inLine_of_code {a b c d code : ℕ}
    (h : read16BitHexCode [a, b, c, d] = .ok (some code)) : InLine [a, b, c, d] := by
  have hcode : hexValue 0 [a, b, c, d] = some code := by
    simpa [read16BitHexCode, hexValue, Option.bind_eq_some_iff] using h
  exact inLine_of_hexValue hcode

theorem SpellsEscape.inLine {text : Text} {code : ℕ} (h : SpellsEscape text code) :
    InLine text := by
  have hslash : isLineEnd 92 = false := by decide
  have hunicode : isLineEnd 117 = false := by decide
  have hopen : isLineEnd 123 = false := by decide
  have hclose : InLine [125] := inLine_nil.cons (by decide)
  cases h with
  | @character c value h =>
      have hline : isLineEnd c = false := by
        rw [not_isLineEnd_iff]
        constructor <;> rintro rfl <;> cases h
      exact (inLine_nil.cons hline).cons hslash
  | fixedWidth hcode => exact ((inLine_of_code hcode).cons hunicode).cons hslash
  | surrogatePair hleading _ htrailing =>
      have htail := ((inLine_of_code htrailing).cons hunicode).cons hslash
      exact (((inLine_of_code hleading).append htail).cons hunicode).cons hslash
  | variableWidth hdigits =>
      have htail := (inLine_of_hexValue hdigits).append hclose
      exact ((htail.cons hopen).cons hunicode).cons hslash

theorem SpellsString.inLine {chars value : Text} (h : SpellsString chars value) :
    InLine chars := by
  induction h with
  | nil => exact inLine_nil
  | plain _ _ hline _ _ ih => exact ih.cons hline
  | surrogates hleading htrailing _ ih =>
      have hc := not_lineEnd_of_surrogate (Or.inl hleading)
      have hd := not_lineEnd_of_surrogate (Or.inr htrailing)
      exact (ih.cons hd).cons hc
  | escape hescape _ ih => exact hescape.inLine.append ih

/-- What reading a part of a number can end with. -/
inductive PartOutcome (text : Text) : Except SyntaxError (Text × Text) → Prop
  | read {part rest : Text} (htext : text = part ++ rest) (hin : InLine part) :
      PartOutcome text (.ok (part, rest))
  | invalid (position : ℕ) (description : Text) :
      PartOutcome text (.error (.syntaxError position description))

/-- A part with further text in front of it. -/
theorem PartOutcome.prepend {before text : Text} (hbefore : InLine before)
    {read : Except SyntaxError (Text × Text)} (h : PartOutcome text read) :
    PartOutcome (before ++ text) (read.map fun read => (before ++ read.1, read.2)) := by
  cases h with
  | @read part rest htext hin =>
      refine .read ?_ (hbefore.append hin)
      rw [htext, List.append_assoc]
  | invalid position description => exact .invalid position description

theorem readDigits_outcome (position : ℕ) (text : Text) :
    PartOutcome text (readDigits position text) := by
  cases text with
  | nil => exact .invalid _ _
  | cons c rest =>
      rw [readDigits]
      split
      · next hdigit =>
        refine .read (by rw [List.cons_append, List.takeWhile_append_dropWhile]) ?_
        apply inLine_of_digits
        exact List.forall_mem_cons.mpr ⟨hdigit, fun d hd => List.mem_takeWhile_imp hd⟩
      · exact .invalid _ _

theorem readIntegerPart_outcome (position : ℕ) (text : Text) :
    PartOutcome text (readIntegerPart position text) := by
  rw [readIntegerPart.eq_def]
  have hzero : InLine [48] := inLine_nil.cons (by decide)
  split
  · split
    · exact .invalid _ _
    · exact .read rfl hzero
  · exact .read rfl hzero
  · exact readDigits_outcome position text

theorem readIntegerPart_ne_nil {position : ℕ} {text part rest : Text}
    (h : readIntegerPart position text = .ok (part, rest)) : part ≠ [] := by
  rintro rfl
  rw [readIntegerPart.eq_def] at h
  split at h
  · split at h <;> cases h
  · cases h
  · rw [readDigits.eq_def] at h
    split at h
    · cases h
    · split at h <;> cases h

theorem readFractionalPart_outcome (position : ℕ) (text : Text) :
    PartOutcome text (readFractionalPart position text) := by
  rw [readFractionalPart.eq_def]
  split
  · next rest =>
    have hpoint : InLine [46] := inLine_nil.cons (by decide)
    have houtcome := (readDigits_outcome (position + 1) rest).prepend hpoint
    cases hread : readDigits (position + 1) rest <;> rw [hread] at houtcome <;> exact houtcome
  · exact .read rfl inLine_nil

theorem readExponentPart_outcome (position : ℕ) (text : Text) :
    PartOutcome text (readExponentPart position text) := by
  cases text with
  | nil => exact .read rfl inLine_nil
  | cons c rest =>
      rw [readExponentPart.eq_def]
      dsimp only
      split
      · next hc =>
        have hline : isLineEnd c = false := by
          simp only [Bool.or_eq_true, decide_eq_true_eq] at hc
          exact not_isLineEnd_iff.mpr (by omega)
        cases rest with
        | nil => exact .invalid _ _
        | cons d rest =>
            dsimp only
            split
            · next hd =>
              have hsign : isLineEnd d = false := by
                simp only [Bool.or_eq_true, decide_eq_true_eq] at hd
                exact not_isLineEnd_iff.mpr (by omega)
              have houtcome := (readDigits_outcome (position + 2) rest).prepend
                ((inLine_nil.cons hsign).cons hline)
              cases hread : readDigits (position + 2) rest <;> rw [hread] at houtcome <;>
                exact houtcome
            · have houtcome := (readDigits_outcome (position + 1) (d :: rest)).prepend
                (inLine_nil.cons hline)
              cases hread : readDigits (position + 1) (d :: rest) <;>
                rw [hread] at houtcome <;> exact houtcome
      · exact .read rfl inLine_nil

/-- What reading a number can end with. -/
inductive NumberOutcome (text : Text) : Except SyntaxError (Bool × Text × Text) → Prop
  | read (isFloat : Bool) {value rest : Text} (hsome : value ≠ [])
      (htext : text = value ++ rest) (hin : InLine value) :
      NumberOutcome text (.ok (isFloat, value, rest))
  | invalid (position : ℕ) (description : Text) :
      NumberOutcome text (.error (.syntaxError position description))

theorem readNumber_outcome (position : ℕ) (text : Text) :
    NumberOutcome text (readNumber position text) := by
  have hsign : text = (readSign text).1 ++ (readSign text).2 ∧ InLine (readSign text).1 := by
    rw [readSign.eq_def]
    split
    · exact ⟨rfl, inLine_nil.cons (by decide)⟩
    · exact ⟨rfl, inLine_nil⟩
  obtain ⟨htext, hin⟩ := hsign
  rw [readNumber]
  generalize readSign text = sign at htext hin
  obtain ⟨sign, afterSign⟩ := sign
  dsimp only at htext hin ⊢
  have hinteger := readIntegerPart_outcome (position + sign.length) afterSign
  generalize hread : readIntegerPart (position + sign.length) afterSign = integer at hinteger
  cases hinteger with
  | invalid => exact .invalid _ _
  | @read integer afterInteger hafterSign hinInteger =>
  have hsome := readIntegerPart_ne_nil hread
  simp only [bind, Except.bind]
  have hfraction := readFractionalPart_outcome (position + sign.length + integer.length)
    afterInteger
  generalize readFractionalPart (position + sign.length + integer.length) afterInteger =
    fraction at hfraction
  cases hfraction with
  | invalid => exact .invalid _ _
  | @read fraction afterFraction hafterInteger hinFraction =>
  dsimp only
  have hexponent := readExponentPart_outcome
    (position + sign.length + integer.length + fraction.length) afterFraction
  generalize readExponentPart (position + sign.length + integer.length + fraction.length)
    afterFraction = exponent at hexponent
  cases hexponent with
  | invalid => exact .invalid _ _
  | @read exponent rest hafterFraction hinExponent =>
  dsimp only
  have hall : text = sign ++ integer ++ fraction ++ exponent ++ rest := by
    rw [htext, hafterSign, hafterInteger, hafterFraction]
    simp only [List.append_assoc]
  have hsomeAll : sign ++ integer ++ fraction ++ exponent ≠ [] := by simp [hsome]
  have hinAll := ((hin.append hinInteger).append hinFraction).append hinExponent
  cases rest with
  | nil => exact .read _ hsomeAll hall hinAll
  | cons c rest =>
      dsimp only
      split
      · exact .invalid _ _
      · exact .read _ hsomeAll hall hinAll

/-! ## Tokens -/

/-- A string that the end of the source cuts off within an escape sequence. -/
def CutString (text : Text) : Prop :=
  ∃ chars value escape, text = 34 :: (chars ++ escape) ∧ SpellsString chars value ∧
    CutEscape escape

theorem CutString.readToken {text rest : Text} (h : CutString text) (htext : text = 34 :: rest)
    (cursor : Cursor) : readToken cursor 34 rest = .error .indexError := by
  obtain ⟨chars, value, escape, hchars, hspells, hcut⟩ := h
  obtain ⟨-, rfl⟩ := List.cons.inj (htext.symm.trans hchars)
  have hblock : (chars ++ escape).take 2 ≠ [34, 34] := by
    cases chars with
    | nil => cases hcut <;> simp
    | cons c chars =>
        have hc : c ≠ 34 := by simpa using hspells.head_ne_quote
        simp [hc]
  rw [Language.readToken, if_neg (by decide), if_pos rfl, if_neg hblock,
    readString_of_cut hspells hcut]
  rfl

/-- A comment is read as far as its line goes. -/
def CommentRead (cursor next : Cursor) : Prop :=
  ∃ rest, cursor.rest = 35 :: rest ∧ next.rest = (readComment rest).2

/-- What reading a token at the cursor can end with. -/
inductive TokenOutcome (cursor : Cursor) : Except SyntaxError (Token × Cursor) → Prop
  | read {kind : TokenKind} {text : Text} {value : Option Text} {next : Cursor}
      (hkind : kind ≠ .eof) (hcomment : kind = .comment → CommentRead cursor next)
      (hsome : text ≠ []) (hmoves : cursor.Moves text next) :
      TokenOutcome cursor (.ok (cursor.createToken kind text.length value, next))
  | cut (hcut : CutString cursor.rest) : TokenOutcome cursor (.error .indexError)
  | invalid (position : ℕ) (description : Text) :
      TokenOutcome cursor (.error (.syntaxError position description))

/-- A token within a line that is no comment. -/
theorem TokenOutcome.inLine {cursor : Cursor} {kind : TokenKind} {rest : Text}
    (text : Text) (value : Option Text) (hkind : kind ≠ .eof ∧ kind ≠ .comment)
    (hsome : text ≠ []) (hrest : cursor.rest = text ++ rest) (hin : InLine text) :
    TokenOutcome cursor (.ok (cursor.createToken kind text.length value,
      cursor.advance text.length rest)) :=
  .read hkind.1 (fun hcomment => absurd hcomment hkind.2) hsome (.advance hrest hin)

theorem kindForPunct_ne {c : ℕ} {kind : TokenKind} (h : kindForPunct c = some kind) :
    kind ≠ .eof ∧ kind ≠ .comment := by
  constructor <;> rintro rfl <;> rw [kindForPunct.eq_def] at h <;> split at h <;> cases h

theorem readPeriod_outcome {cursor : Cursor} {rest : Text} (hrest : cursor.rest = 46 :: rest) :
    TokenOutcome cursor (readPeriod cursor rest) := by
  cases rest with
  | nil => exact .invalid _ _
  | cons c rest =>
      rw [readPeriod]
      split
      · next hc =>
        subst hc
        split
        · next hhead =>
          obtain ⟨rest, rfl⟩ : ∃ rest', rest = 46 :: rest' := by
            cases rest with
            | nil => simp at hhead
            | cons d rest => exact ⟨rest, by simpa using hhead⟩
          have hin : InLine [46, 46, 46] := by
            simp [InLine, isLineEnd]
          exact .inLine [46, 46, 46] none (by decide) (by simp) hrest hin
        · exact .invalid _ _
      · split <;> exact .invalid _ _

theorem readBlockString_outcome {cursor : Cursor} {rest : Text}
    (hrest : cursor.rest = 34 :: 34 :: 34 :: rest) :
    TokenOutcome cursor (readBlockString cursor rest) := by
  have houtcome := readBlockLines_outcome (cursor.position + 3) cursor.lineStart rest
  rw [readBlockString]
  generalize readBlockLines (cursor.position + 3) cursor.lineStart rest = read at houtcome
  cases houtcome with
  | invalid => exact .invalid _ _
  | @complete read line rest lines htext hspells =>
      have hquotes : InLine [34, 34, 34] := by simp [InLine, isLineEnd]
      have hlength : 3 + read.length = (34 :: 34 :: 34 :: read : Text).length := by
        simp only [List.length_cons]
        omega
      have hmoves : cursor.Moves (34 :: 34 :: 34 :: read)
          { position := cursor.position + (3 + read.length)
            line := cursor.line + lines.length
            lineStart := lineStartBehind (cursor.position + 3) cursor.lineStart read
            rest := rest } :=
        { rest_eq := by rw [hrest, htext]; rfl
          position_eq := by rw [hlength]
          line_eq := by
            have hcut : CutsNoLineEnd [34, 34, 34] read := by simp [CutsNoLineEnd]
            have hlines := lineEnds_append hcut
            rw [lineEnds_eq_zero_iff.mpr hquotes, Nat.zero_add] at hlines
            rw [hspells.length_lines, ← hlines]
            rfl
          lineStart_eq :=
            (lineStartBehind_inLine cursor.position cursor.lineStart hquotes read).symm
          whole := by
            rintro ⟨hlast, -⟩
            have hquote : (34 :: 34 :: 34 :: read : Text).getLast? = some 34 := by
              simp [List.getLast?_cons, hspells.getLast?_eq]
            rw [hquote] at hlast
            cases hlast }
      simp only [bind, Except.bind, pure, Except.pure]
      rw [hlength] at hmoves ⊢
      exact .read (by decide) (fun hcomment => by cases hcomment) (by simp) hmoves

theorem readToken_outcome {cursor : Cursor} {c : ℕ} {rest : Text}
    (hrest : cursor.rest = c :: rest) (hline : isLineEnd c = false) :
    TokenOutcome cursor (readToken cursor c rest) := by
  rw [readToken]
  split
  · next hhash =>
    obtain ⟨htext, hin⟩ := readComment_spec rest
    have hall : cursor.rest = c :: (readComment rest).1 ++ (readComment rest).2 := by
      rw [hrest, List.cons_append, ← htext]
    have hcomment : CommentRead cursor
        (cursor.advance (c :: (readComment rest).1).length (readComment rest).2) :=
      ⟨rest, by rw [hrest, hhash], rfl⟩
    exact .read (by decide) (fun _ => hcomment) (List.cons_ne_nil _ _)
      (.advance hall (hin.cons hline))
  split
  · next hquote =>
    subst hquote
    split
    · next hblock =>
      have hopen : cursor.rest = 34 :: 34 :: 34 :: rest.drop 2 := by
        rw [hrest, ← List.take_append_drop 2 rest, hblock]
        rfl
      exact readBlockString_outcome hopen
    · have houtcome := readString_outcome (cursor.position + 1) rest
      generalize readString (cursor.position + 1) rest = read at houtcome
      cases houtcome with
      | invalid => exact .invalid _ _
      | @cut chars value escape htext hspells hcut =>
          exact .cut ⟨chars, value, escape, by rw [hrest, htext], hspells, hcut⟩
      | @complete chars value rest htext hspells =>
          have hlength : 1 + (chars.length + 1) = (34 :: (chars ++ [34]) : Text).length := by
            simp only [List.length_cons, List.length_append, List.length_nil]
            omega
          have hin : InLine (34 :: (chars ++ [34])) :=
            (hspells.inLine.append (inLine_nil.cons (by decide))).cons (by decide)
          have hall : cursor.rest = 34 :: (chars ++ [34]) ++ rest := by
            rw [hrest, htext]
            simp
          simp only [bind, Except.bind, pure, Except.pure]
          rw [hlength]
          exact .inLine _ _ (by decide) (by simp) hall hin
  split
  · next kind hkind =>
    exact .inLine [c] none (kindForPunct_ne hkind) (by simp) hrest
      (inLine_nil.cons hline)
  split
  · have houtcome := readNumber_outcome cursor.position (c :: rest)
    generalize readNumber cursor.position (c :: rest) = read at houtcome
    cases houtcome with
    | invalid => exact .invalid _ _
    | @read isFloat value rest hsome htext hin =>
        have hkind : (if isFloat then TokenKind.float else .int) ≠ .eof ∧
            (if isFloat then TokenKind.float else .int) ≠ .comment := by
          cases isFloat <;> decide
        simp only [bind, Except.bind, pure, Except.pure]
        exact .inLine _ _ hkind hsome (hrest.trans htext) hin
  split
  · next hname =>
    have hin : InLine (c :: rest.takeWhile isNameContinue) := by
      apply inLine_of_name
      exact List.forall_mem_cons.mpr
        ⟨isNameContinue_of_start hname, fun d hd => List.mem_takeWhile_imp hd⟩
    refine .inLine _ _ (by decide) (by simp) ?_ hin
    rw [hrest, List.cons_append, List.takeWhile_append_dropWhile]
  split
  · next hperiod =>
    subst hperiod
    exact readPeriod_outcome hrest
  · exact .invalid _ _

/-! ## Ignored text -/

/-- Text that is skipped in front of a token. -/
def IsIgnoredText (text : Text) : Prop := ∀ c ∈ text, isIgnored c ∨ isLineEnd c

theorem Cursor.Moves.newLine {cursor : Cursor} {piece rest : Text}
    (hrest : cursor.rest = piece ++ rest) (hone : lineEnds piece = 1)
    (hlast : ∃ c ∈ piece.getLast?, isLineEnd c) (hwhole : CutsNoLineEnd piece rest) :
    cursor.Moves piece (cursor.newLine piece.length rest) where
  rest_eq := hrest
  position_eq := rfl
  line_eq := by
    rw [hone]
    rfl
  lineStart_eq := by
    have hbehind := lineStartBehind_newLine cursor.position cursor.lineStart hlast []
    rw [List.append_nil] at hbehind
    rw [hbehind]
    rfl
  whole := hwhole

/-- The text from the next token on. -/
def skipIgnored (text : Text) : Text := text.dropWhile fun c => isIgnored c || isLineEnd c

theorem skipIgnored_append {skipped : Text} (h : IsIgnoredText skipped) (text : Text) :
    skipIgnored (skipped ++ text) = skipIgnored text :=
  List.dropWhile_append_of_pos fun c hc => by simpa using h c hc

theorem skipIgnored_cons_of_not {c : ℕ} (hignored : isIgnored c = false)
    (hline : isLineEnd c = false) (rest : Text) : skipIgnored (c :: rest) = c :: rest :=
  List.dropWhile_cons_of_neg (by simp [hignored, hline])

/-- What is read next behind text that is ignored: the end of file or a token. -/
def ReadBehind (cursor : Cursor) (read : Except SyntaxError (Token × Cursor)) : Prop :=
  ∃ skipped start, IsIgnoredText skipped ∧ cursor.Moves skipped start ∧
    start.rest = skipIgnored cursor.rest ∧
    (start.rest = [] ∧ read = .ok (start.createToken .eof 0, start) ∨
      ∃ c rest, start.rest = c :: rest ∧ isLineEnd c = false ∧ read = readToken start c rest)

theorem ReadBehind.skip {cursor mid : Cursor} {skipped : Text}
    {read : Except SyntaxError (Token × Cursor)} (hskipped : IsIgnoredText skipped)
    (hmoves : cursor.Moves skipped mid) (h : ReadBehind mid read) :
    ReadBehind cursor read := by
  obtain ⟨skipped', start, hskipped', hmoves', hstart, hread⟩ := h
  refine ⟨skipped ++ skipped', start, fun c hc => ?_, hmoves.trans hmoves', ?_, hread⟩
  · exact (List.mem_append.mp hc).elim (hskipped c) (hskipped' c)
  · rw [hstart, hmoves.rest_eq, skipIgnored_append hskipped]

theorem readNextToken_behind (cursor : Cursor) : ReadBehind cursor (readNextToken cursor) := by
  have hignoredText {c : ℕ} (h : isIgnored c ∨ isLineEnd c) : IsIgnoredText [c] := by
    simpa [IsIgnoredText] using h
  have hnone : IsIgnoredText [] := fun _ hc => nomatch hc
  fun_induction readNextToken cursor with
  | case1 cursor hrest =>
      exact ⟨[], cursor, hnone, .refl cursor, by rw [hrest]; rfl, Or.inl ⟨hrest, rfl⟩⟩
  | case2 cursor c rest hrest hignored ih =>
      have hline : isLineEnd c = false := by
        simp only [isIgnored, Bool.or_eq_true, decide_eq_true_eq] at hignored
        exact not_isLineEnd_iff.mpr (by omega)
      have hmoves : cursor.Moves [c] (cursor.advance 1 rest) :=
        .advance hrest (inLine_nil.cons hline)
      exact ih.skip (hignoredText (Or.inl hignored)) hmoves
  | case3 cursor rest hrest hignored ih =>
      have hmoves : cursor.Moves [10] (cursor.newLine 1 rest) :=
        .newLine hrest rfl ⟨10, rfl, rfl⟩ (by simp [CutsNoLineEnd])
      exact ih.skip (hignoredText (Or.inr rfl)) hmoves
  | case4 cursor rest hhead hrest _ _ ih =>
      obtain ⟨rest, rfl⟩ : ∃ rest', rest = 10 :: rest' := by
        cases rest with
        | nil => simp at hhead
        | cons c rest => exact ⟨rest, by simpa using hhead⟩
      have hmoves : cursor.Moves [13, 10] (cursor.newLine 2 rest) :=
        .newLine hrest rfl ⟨10, rfl, rfl⟩ (by simp [CutsNoLineEnd])
      exact ih.skip (by simp [IsIgnoredText, isLineEnd]) hmoves
  | case5 cursor rest hhead hrest _ _ ih =>
      have hmoves : cursor.Moves [13] (cursor.newLine 1 rest) :=
        .newLine hrest rfl ⟨13, rfl, rfl⟩ (by simpa [CutsNoLineEnd] using hhead)
      exact ih.skip (hignoredText (Or.inr rfl)) hmoves
  | case6 cursor c rest hrest hignored hfeed hreturn =>
      rw [Bool.not_eq_true] at hignored
      have hline : isLineEnd c = false := not_isLineEnd_iff.mpr ⟨hreturn, hfeed⟩
      have hstart : cursor.rest = skipIgnored cursor.rest := by
        rw [hrest, skipIgnored_cons_of_not hignored hline]
      exact ⟨[], cursor, hnone, .refl cursor, hstart, Or.inr ⟨c, rest, hrest, hline, rfl⟩⟩

/-- What reading the next token can end with: it is the end of file or a token behind
text that is ignored. -/
theorem readNextToken_outcome (cursor : Cursor) :
    ∃ skipped start, IsIgnoredText skipped ∧ cursor.Moves skipped start ∧
      start.rest = skipIgnored cursor.rest ∧
      (start.rest = [] ∧ readNextToken cursor = .ok (start.createToken .eof 0, start) ∨
        TokenOutcome start (readNextToken cursor)) := by
  obtain ⟨skipped, start, hskipped, hmoves, hstart, hread⟩ := readNextToken_behind cursor
  refine ⟨skipped, start, hskipped, hmoves, hstart, hread.imp_right ?_⟩
  rintro ⟨c, rest, hrest, hline, hread⟩
  rw [hread]
  exact readToken_outcome hrest hline

/-- A token that is not the end of file leaves less text to read. -/
theorem length_rest_lt_of_read {cursor next : Cursor} {token : Token}
    (h : readNextToken cursor = .ok (token, next)) (hkind : token.kind ≠ .eof) :
    next.rest.length < cursor.rest.length := by
  obtain ⟨skipped, start, -, hskip, -, hread⟩ := readNextToken_outcome cursor
  rw [h] at hread
  rcases hread with ⟨-, hread⟩ | hread
  · obtain ⟨rfl, -⟩ := Prod.mk.inj (Except.ok.inj hread)
    exact absurd rfl hkind
  · cases hread with
    | @read kind text value _ _ _ hsome hmoves =>
        have hpositive : 0 < text.length := List.length_pos_iff.mpr hsome
        rw [hskip.rest_eq, hmoves.rest_eq, List.length_append, List.length_append]
        omega

end GraphqlCore.Language
