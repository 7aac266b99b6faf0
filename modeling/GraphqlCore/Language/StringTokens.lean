import GraphqlCore.Language.Lexer

/-!
# The text of strings

What the text between the quotes of a string spells.  The relation `SpellsString` says
which texts are complete and what their value is, apart from how they are scanned;
`CutEscape` describes the escape sequences that the end of the source cuts off.
The scanner is shown to read exactly the texts of the relation, and to run over the
end of the source exactly at the escape sequences that are cut off.
-/

namespace GraphqlCore.Language

/-! ## Escape sequences -/

/-- The number that hexadecimal digits stand for. -/
def hexValue (point : ℕ) (digits : Text) : Option ℕ :=
  digits.foldlM (fun point c => (readHexDigit c).map (point * 16 + ·)) point

/-- A complete escape sequence and the code point it stands for. -/
inductive SpellsEscape : Text → ℕ → Prop
  | character {c value : ℕ} (h : escapedChar c = some value) : SpellsEscape [92, c] value
  | fixedWidth {a b c d code : ℕ} (hcode : read16BitHexCode [a, b, c, d] = .ok (some code))
      (hscalar : isUnicodeScalarValue code) : SpellsEscape [92, 117, a, b, c, d] code
  | surrogatePair {a b c d e f g h leading trailing : ℕ}
      (hleadingCode : read16BitHexCode [a, b, c, d] = .ok (some leading))
      (hleading : isLeadingSurrogate leading)
      (htrailingCode : read16BitHexCode [e, f, g, h] = .ok (some trailing))
      (htrailing : isTrailingSurrogate trailing) :
      SpellsEscape [92, 117, a, b, c, d, 92, 117, e, f, g, h]
        (decodeSurrogatePair leading trailing)
  | variableWidth {digits : Text} {point : ℕ} (hdigits : hexValue 0 digits = some point)
      (hsome : 0 < digits.length) (hlimit : digits.length ≤ 8)
      (hscalar : isUnicodeScalarValue point) :
      SpellsEscape (92 :: 117 :: 123 :: (digits ++ [125])) point

/-- An escape sequence that the end of the source cuts off. -/
inductive CutEscape : Text → Prop
  | backslash : CutEscape [92]
  | code {digits : Text} (hlength : digits.length < 4) (hbrace : digits.head? ≠ some 123) :
      CutEscape (92 :: 117 :: digits)
  | trailingCode {a b c d leading : ℕ} {digits : Text}
      (hcode : read16BitHexCode [a, b, c, d] = .ok (some leading))
      (hleading : isLeadingSurrogate leading) (hlength : digits.length < 4) :
      CutEscape (92 :: 117 :: a :: b :: c :: d :: 92 :: 117 :: digits)

theorem read16BitHexCode_append (a b c d : ℕ) (rest : Text) :
    read16BitHexCode (a :: b :: c :: d :: rest) = read16BitHexCode [a, b, c, d] := rfl

theorem read16BitHexCode_error_iff {text : Text} {error : SyntaxError} :
    read16BitHexCode text = .error error ↔ text.length < 4 ∧ error = .indexError := by
  match text with
  | [] | [_] | [_, _] | [_, _, _] => simp [read16BitHexCode, eq_comm]
  | _ :: _ :: _ :: _ :: _ =>
      simp only [read16BitHexCode, reduceCtorEq, List.length_cons, false_iff]
      omega

theorem exists_code_of_read {text : Text} {code : Option ℕ}
    (h : read16BitHexCode text = .ok code) :
    ∃ a b c d rest, text = a :: b :: c :: d :: rest := by
  match text with
  | [] | [_] | [_, _] | [_, _, _] => simp [read16BitHexCode] at h
  | a :: b :: c :: d :: rest => exact ⟨a, b, c, d, rest, rfl⟩

theorem readHexDigit_brace : readHexDigit 123 = none := rfl

/-- The first digit of a code is not a brace. -/
theorem ne_brace_of_code {a b c d code : ℕ}
    (h : read16BitHexCode [a, b, c, d] = .ok (some code)) : a ≠ 123 := by
  rintro rfl
  simp [read16BitHexCode, readHexDigit_brace] at h

theorem not_scalar_of_leading {c : ℕ} (h : isLeadingSurrogate c) :
    isUnicodeScalarValue c = false := by
  simp only [isLeadingSurrogate, Bool.and_eq_true, decide_eq_true_eq] at h
  simp only [isUnicodeScalarValue, Bool.or_eq_false_iff, Bool.and_eq_false_iff,
    decide_eq_false_iff_not]
  omega

theorem not_lineEnd_of_surrogate {c : ℕ} (h : isLeadingSurrogate c ∨ isTrailingSurrogate c) :
    isLineEnd c = false := by
  simp only [isLeadingSurrogate, isTrailingSurrogate, Bool.and_eq_true,
    decide_eq_true_eq] at h
  simp only [isLineEnd, Bool.or_eq_false_iff, decide_eq_false_iff_not]
  omega

theorem hexValue_cons (point c : ℕ) (digits : Text) :
    hexValue point (c :: digits) =
      (readHexDigit c).bind fun digit => hexValue (point * 16 + digit) digits := by
  rw [hexValue, List.foldlM_cons]
  cases readHexDigit c <;> rfl

theorem readBracedHex_of_digits {digits : Text} {limit point size value : ℕ}
    (hdigits : hexValue point digits = some value) (hsome : 0 < size + digits.length)
    (hlimit : digits.length < limit) (hscalar : isUnicodeScalarValue value) (rest : Text) :
    readBracedHex limit point size (digits ++ 125 :: rest) =
      some (value, size + digits.length) := by
  induction digits generalizing limit point size with
  | nil =>
      obtain ⟨limit, rfl⟩ : ∃ n, limit = n + 1 := ⟨limit - 1, by simp at hlimit; omega⟩
      obtain rfl : point = value := Option.some.inj hdigits
      have hsize : 0 < size := hsome
      simp [readBracedHex, hsize, hscalar]
  | cons c digits ih =>
      obtain ⟨limit, rfl⟩ : ∃ n, limit = n + 1 := ⟨limit - 1, by simp at hlimit; omega⟩
      rw [hexValue_cons] at hdigits
      obtain ⟨digit, hdigit, hdigits⟩ := Option.bind_eq_some_iff.mp hdigits
      have hbrace : c ≠ 125 := by
        rintro rfl
        cases hdigit
      rw [List.cons_append, readBracedHex, if_neg hbrace, hdigit]
      dsimp only
      rw [ih hdigits (by omega) (by simp at hlimit; omega), List.length_cons]
      congr 2
      omega

theorem digits_of_readBracedHex {limit point size value total : ℕ} {text : Text}
    (h : readBracedHex limit point size text = some (value, total)) :
    ∃ digits rest, text = digits ++ 125 :: rest ∧ hexValue point digits = some value ∧
      total = size + digits.length ∧ 0 < total ∧ digits.length < limit ∧
      isUnicodeScalarValue value := by
  induction limit generalizing point size text with
  | zero => simp [readBracedHex] at h
  | succ limit ih =>
      cases text with
      | nil => simp [readBracedHex] at h
      | cons c rest =>
          rw [readBracedHex] at h
          split at h
          · next hbrace =>
            split at h
            · next hvalid =>
              rw [Bool.and_eq_true, decide_eq_true_eq] at hvalid
              obtain ⟨rfl, rfl⟩ := Prod.mk.inj (Option.some.inj h)
              exact ⟨[], rest, by rw [hbrace]; rfl, rfl, rfl, hvalid.1, by simp, hvalid.2⟩
            · simp at h
          · split at h
            · simp at h
            · next digit hdigit =>
              obtain ⟨digits, rest', rfl, hdigits, rfl, hsome, hlimit, hscalar⟩ := ih h
              refine ⟨c :: digits, rest', rfl, ?_, by simp; omega, hsome, by simp; omega, hscalar⟩
              rw [hexValue_cons, hdigit]
              exact hdigits

theorem SpellsEscape.eq_cons {text : Text} {code : ℕ} (h : SpellsEscape text code) :
    ∃ c rest, text = 92 :: c :: rest := by
  cases h <;> exact ⟨_, _, rfl⟩

/-- A complete escape sequence is read. -/
theorem SpellsEscape.readEscape {text : Text} {code : ℕ} (h : SpellsEscape text code)
    (position : ℕ) (rest : Text) :
    readEscape position (text ++ rest) = .ok (code, text.length) := by
  cases h with
  | @character c value h =>
      have hc : c ≠ 117 := by
        rintro rfl
        simp [escapedChar] at h
      simp [Language.readEscape, hc, readEscapedCharacter, h]
  | @fixedWidth a b c d code hcode hscalar =>
      have ha := ne_brace_of_code hcode
      simp [Language.readEscape, ha, readEscapedUnicodeFixedWidth, read16BitHexCode_append,
        hcode, hscalar, bind, Except.bind, pure, Except.pure]
  | @surrogatePair a b c d e f g h leading trailing hleadingCode hleading htrailingCode
      htrailing =>
      have ha := ne_brace_of_code hleadingCode
      have hscalar := not_scalar_of_leading hleading
      simp [Language.readEscape, ha, readEscapedUnicodeFixedWidth, read16BitHexCode_append,
        hleadingCode, htrailingCode, hscalar, hleading, htrailing, bind, Except.bind, pure,
        Except.pure]
  | @variableWidth digits point hdigits hsome hlimit hscalar =>
      have hread : readBracedHex 9 0 0 (digits ++ 125 :: rest) =
          some (code, 0 + digits.length) :=
        readBracedHex_of_digits hdigits (by omega) (by omega) hscalar rest
      rw [Nat.zero_add] at hread
      simp [Language.readEscape, readEscapedUnicodeVariableWidth, hread]

/-- What reading an escape sequence can end with. -/
inductive EscapeOutcome (position : ℕ) (text : Text) : Except SyntaxError (ℕ × ℕ) → Prop
  | complete {escape rest : Text} {code : ℕ} (htext : text = escape ++ rest)
      (hspells : SpellsEscape escape code) :
      EscapeOutcome position text (.ok (code, escape.length))
  | cut (hcut : CutEscape text) : EscapeOutcome position text (.error .indexError)
  | invalid (description : Text) :
      EscapeOutcome position text (.error (.syntaxError position description))

theorem readEscapedUnicodeVariableWidth_outcome (position : ℕ) (tail : Text) :
    EscapeOutcome position (92 :: 117 :: 123 :: tail)
      (readEscapedUnicodeVariableWidth position (92 :: 117 :: 123 :: tail)) := by
  rw [readEscapedUnicodeVariableWidth]
  split
  · next value total hread =>
    obtain ⟨digits, rest, hdrop, hdigits, rfl, hsome, hlimit, hscalar⟩ :=
      digits_of_readBracedHex hread
    obtain rfl : tail = digits ++ 125 :: rest := hdrop
    have hspells := SpellsEscape.variableWidth hdigits (by omega) (by omega) hscalar
    have hsize : (92 :: 117 :: 123 :: (digits ++ [125]) : Text).length =
        0 + digits.length + 4 := by
      simp
    have htext : 92 :: 117 :: 123 :: (digits ++ 125 :: rest) =
        (92 :: 117 :: 123 :: (digits ++ [125])) ++ rest := by
      simp
    rw [← hsize]
    exact .complete htext hspells
  · exact .invalid _

theorem readEscapedUnicodeFixedWidth_outcome (position : ℕ) {tail : Text}
    (hbrace : tail.head? ≠ some 123) :
    EscapeOutcome position (92 :: 117 :: tail)
      (readEscapedUnicodeFixedWidth position (92 :: 117 :: tail)) := by
  rw [readEscapedUnicodeFixedWidth]
  cases hcode : read16BitHexCode tail with
  | error error =>
      obtain ⟨hlength, rfl⟩ := read16BitHexCode_error_iff.mp hcode
      simp only [List.drop_succ_cons, List.drop_zero, hcode, bind, Except.bind]
      exact .cut (.code hlength hbrace)
  | ok code =>
      obtain ⟨a, b, c, d, rest, rfl⟩ := exists_code_of_read hcode
      rw [read16BitHexCode_append] at hcode
      simp only [List.drop_succ_cons, List.drop_zero, read16BitHexCode_append, hcode, bind,
        Except.bind]
      cases code with
      | none => exact .invalid _
      | some code =>
          dsimp only
          split
          · next hscalar =>
            have htext : 92 :: 117 :: a :: b :: c :: d :: rest =
                [92, 117, a, b, c, d] ++ rest := rfl
            exact .complete htext (.fixedWidth hcode hscalar)
          · split
            · next hpair =>
              rw [Bool.and_eq_true, decide_eq_true_eq] at hpair
              obtain ⟨hleading, hnext⟩ := hpair
              obtain ⟨rest, rfl⟩ : ∃ rest', rest = 92 :: 117 :: rest' := by
                match rest with
                | [] | [_] => simp at hnext
                | x :: y :: rest' => exact ⟨rest', by simpa using hnext⟩
              simp only [List.drop_succ_cons, List.drop_zero]
              cases htrailingCode : read16BitHexCode rest with
              | error error =>
                  obtain ⟨hlength, rfl⟩ := read16BitHexCode_error_iff.mp htrailingCode
                  exact .cut (.trailingCode hcode hleading hlength)
              | ok trailing =>
                  obtain ⟨e, f, g, h, rest, rfl⟩ := exists_code_of_read htrailingCode
                  rw [read16BitHexCode_append] at htrailingCode
                  cases trailing with
                  | none => exact .invalid _
                  | some trailing =>
                      dsimp only
                      split
                      · next htrailing =>
                        have htext : 92 :: 117 :: a :: b :: c :: d :: 92 :: 117 :: e :: f ::
                            g :: h :: rest =
                            [92, 117, a, b, c, d, 92, 117, e, f, g, h] ++ rest := rfl
                        exact .complete htext
                          (.surrogatePair hcode hleading htrailingCode htrailing)
                      · exact .invalid _
            · exact .invalid _

theorem readEscapedCharacter_outcome (position : ℕ) {tail : Text}
    (hcode : tail.head? ≠ some 117) :
    EscapeOutcome position (92 :: tail) (readEscapedCharacter position (92 :: tail)) := by
  cases tail with
  | nil => exact .cut .backslash
  | cons c rest =>
      rw [readEscapedCharacter]
      simp only [List.getElem?_cons_succ, List.getElem?_cons_zero]
      split
      · next value hvalue =>
        have htext : 92 :: c :: rest = [92, c] ++ rest := rfl
        exact .complete htext (.character hvalue)
      · exact .invalid _

theorem readEscape_outcome (position : ℕ) (tail : Text) :
    EscapeOutcome position (92 :: tail) (readEscape position (92 :: tail)) := by
  rw [readEscape]
  split
  · next hcode =>
    obtain ⟨tail, rfl⟩ : ∃ rest, tail = 117 :: rest := by
      cases tail with
      | nil => simp at hcode
      | cons c rest => exact ⟨rest, by simpa using hcode⟩
    split
    · next hbrace =>
      obtain ⟨tail, rfl⟩ : ∃ rest, tail = 123 :: rest := by
        cases tail with
        | nil => simp at hbrace
        | cons c rest => exact ⟨rest, by simpa using hbrace⟩
      exact readEscapedUnicodeVariableWidth_outcome position tail
    · next hbrace =>
      apply readEscapedUnicodeFixedWidth_outcome
      cases tail with
      | nil => simp
      | cons c rest => simpa using hbrace
  · next hcode =>
    apply readEscapedCharacter_outcome
    cases tail with
    | nil => simp
    | cons c rest => simpa using hcode

/-- Behind an escape sequence that is cut off nothing is left to be read. -/
theorem CutEscape.readEscape {text : Text} (h : CutEscape text) (position : ℕ) :
    readEscape position text = .error .indexError := by
  cases h with
  | backslash => rfl
  | @code digits hlength hbrace =>
      have hcode := read16BitHexCode_error_iff.mpr ⟨hlength, rfl⟩
      rw [List.head?_eq_getElem?] at hbrace
      simp [Language.readEscape, readEscapedUnicodeFixedWidth, hcode, hbrace, bind,
        Except.bind]
  | @trailingCode a b c d leading digits hcode hleading hlength =>
      have htrailing := read16BitHexCode_error_iff.mpr ⟨hlength, rfl⟩
      have ha := ne_brace_of_code hcode
      have hscalar := not_scalar_of_leading hleading
      simp [Language.readEscape, ha, readEscapedUnicodeFixedWidth, read16BitHexCode_append,
        hcode, htrailing, hscalar, hleading, bind, Except.bind]

/-! ## Strings -/

/-- The text between the quotes of a string and the value it spells. -/
inductive SpellsString : Text → Text → Prop
  | nil : SpellsString [] []
  | plain {c : ℕ} {chars value : Text} (hquote : c ≠ 34) (hslash : c ≠ 92)
      (hline : isLineEnd c = false) (hscalar : isUnicodeScalarValue c)
      (h : SpellsString chars value) : SpellsString (c :: chars) (c :: value)
  | surrogates {c d : ℕ} {chars value : Text} (hleading : isLeadingSurrogate c)
      (htrailing : isTrailingSurrogate d) (h : SpellsString chars value) :
      SpellsString (c :: d :: chars) (c :: d :: value)
  | escape {escape chars value : Text} {code : ℕ} (hescape : SpellsEscape escape code)
      (h : SpellsString chars value) : SpellsString (escape ++ chars) (code :: value)

theorem SpellsString.append {chars chars' value value' : Text} (h : SpellsString chars value)
    (h' : SpellsString chars' value') : SpellsString (chars ++ chars') (value ++ value') := by
  induction h with
  | nil => exact h'
  | plain hquote hslash hline hscalar _ ih => exact .plain hquote hslash hline hscalar ih
  | surrogates hleading htrailing _ ih => exact .surrogates hleading htrailing ih
  | escape hescape _ ih =>
      rw [List.append_assoc]
      exact .escape hescape ih

/-- Reading a string whose first part is given: the rest is read behind that part. -/
theorem SpellsString.readString {chars value : Text} (h : SpellsString chars value)
    (position : ℕ) (rest : Text) :
    Language.readString position (chars ++ rest) =
      (Language.readString (position + chars.length) rest).map fun read =>
        (value ++ read.1, chars.length + read.2.1, read.2.2) := by
  induction h generalizing position with
  | nil =>
      simp only [List.nil_append, List.length_nil, Nat.add_zero, Nat.zero_add]
      cases Language.readString position rest <;> rfl
  | @plain c chars value hquote hslash hline hscalar _ ih =>
      have hposition : position + (c :: chars).length = position + 1 + chars.length := by
        rw [List.length_cons]
        omega
      rw [List.cons_append, Language.readString, if_neg hquote, if_neg hslash, hline,
        if_neg (by simp), if_pos hscalar, ih, hposition]
      cases Language.readString (position + 1 + chars.length) rest with
      | error error => rfl
      | ok read =>
          simp only [Except.map, bind, Except.bind, pure, Except.pure, List.cons_append,
            List.length_cons]
          congr 3
          omega
  | @surrogates c d chars value hleading htrailing _ ih =>
      have hposition : position + (c :: d :: chars).length = position + 2 + chars.length := by
        rw [List.length_cons, List.length_cons]
        omega
      have hscalar := not_scalar_of_leading hleading
      have hc := hleading
      simp only [isLeadingSurrogate, Bool.and_eq_true, decide_eq_true_eq] at hc
      have hline := not_lineEnd_of_surrogate (Or.inl hleading)
      rw [List.cons_append, Language.readString, if_neg (by omega), if_neg (by omega), hline,
        if_neg (by simp), hscalar, if_neg (by simp)]
      simp only [List.cons_append, isSupplementaryCodePoint, hleading, htrailing,
        Bool.and_self, if_true, List.drop_succ_cons, List.drop_zero, ih, hposition]
      cases Language.readString (position + 2 + chars.length) rest with
      | error error => rfl
      | ok read =>
          simp only [Except.map, bind, Except.bind, pure, Except.pure, List.length_cons]
          congr 3
          omega
  | @escape escape chars value code hescape _ ih =>
      have hread := hescape.readEscape position (chars ++ rest)
      obtain ⟨c, tail, rfl⟩ := hescape.eq_cons
      have hposition : position + (92 :: c :: tail ++ chars).length =
          position + (92 :: c :: tail).length + chars.length := by
        rw [List.length_append]
        omega
      have hdrop : (c :: tail ++ (chars ++ rest)).drop ((92 :: c :: tail).length - 1) =
          chars ++ rest := by
        simp
      rw [List.append_assoc, List.cons_append, Language.readString, if_neg (by decide),
        if_pos rfl, ← List.cons_append, hread, hposition]
      simp only [bind, Except.bind]
      rw [hdrop, ih]
      cases Language.readString (position + (92 :: c :: tail).length + chars.length) rest with
      | error error => rfl
      | ok read =>
          simp only [Except.map, pure, Except.pure, List.length_append]
          congr 3
          omega

/-- What reading the text of a string can end with. -/
inductive StringOutcome (text : Text) : Except SyntaxError (Text × ℕ × Text) → Prop
  | complete {chars value rest : Text} (htext : text = chars ++ 34 :: rest)
      (hspells : SpellsString chars value) :
      StringOutcome text (.ok (value, chars.length + 1, rest))
  | cut {chars value escape : Text} (htext : text = chars ++ escape)
      (hspells : SpellsString chars value) (hcut : CutEscape escape) :
      StringOutcome text (.error .indexError)
  | invalid (position : ℕ) (description : Text) :
      StringOutcome text (.error (.syntaxError position description))

theorem StringOutcome.prepend {chars value text : Text} (hspells : SpellsString chars value)
    {read : Except SyntaxError (Text × ℕ × Text)} (h : StringOutcome text read) :
    StringOutcome (chars ++ text) (read.map fun read =>
      (value ++ read.1, chars.length + read.2.1, read.2.2)) := by
  cases h with
  | @complete chars' value' rest htext hspells' =>
      have hall : chars ++ text = (chars ++ chars') ++ 34 :: rest := by
        rw [htext, List.append_assoc]
      have hcomplete := StringOutcome.complete hall (hspells.append hspells')
      rw [List.length_append, Nat.add_assoc] at hcomplete
      exact hcomplete
  | @cut chars' value' escape htext hspells' hcut =>
      have hall : chars ++ text = (chars ++ chars') ++ escape := by
        rw [htext, List.append_assoc]
      exact .cut hall (hspells.append hspells') hcut
  | invalid position description => exact .invalid position description

/-- One more character in front of what is read. -/
theorem StringOutcome.of_piece {piece value rest : Text} (hspells : SpellsString piece value)
    {position : ℕ}
    (h : StringOutcome rest (readString (position + piece.length) rest)) :
    StringOutcome (piece ++ rest) (readString position (piece ++ rest)) := by
  rw [hspells.readString]
  exact h.prepend hspells

theorem readString_outcome (position : ℕ) (text : Text) :
    StringOutcome text (readString position text) := by
  induction hlength : text.length using Nat.strongRecOn generalizing position text with
  | _ length ih =>
      subst hlength
      match text with
      | [] =>
          rw [readString]
          exact .invalid _ _
      | c :: tail =>
          by_cases hquote : c = 34
          · rw [readString, if_pos hquote, hquote]
            exact .complete rfl .nil
          by_cases hslash : c = 92
          · subst hslash
            have hescape := readEscape_outcome position tail
            generalize hread : readEscape position (92 :: tail) = read at hescape
            cases hescape with
            | @complete escape rest code htext hspells =>
                have hpiece : SpellsString (escape ++ []) [code] := .escape hspells .nil
                rw [List.append_nil] at hpiece
                rw [htext]
                obtain ⟨c', tail', rfl⟩ := hspells.eq_cons
                have hshorter : rest.length < (92 :: tail).length := by
                  rw [htext, List.length_append, List.length_cons]
                  omega
                exact .of_piece hpiece (ih _ hshorter _ _ rfl)
            | cut hcut =>
                rw [readString, if_neg hquote, if_pos rfl, hread]
                exact .cut (List.nil_append _).symm .nil hcut
            | invalid description =>
                rw [readString, if_neg hquote, if_pos rfl, hread]
                exact .invalid _ _
          by_cases hline : isLineEnd c
          · rw [readString, if_neg hquote, if_neg hslash, if_pos hline]
            exact .invalid _ _
          rw [Bool.not_eq_true] at hline
          by_cases hscalar : isUnicodeScalarValue c
          · have hpiece : SpellsString [c] [c] := .plain hquote hslash hline hscalar .nil
            exact .of_piece hpiece (ih _ (Nat.lt_succ_self _) _ _ rfl)
          by_cases hpair : isSupplementaryCodePoint (c :: tail)
          · obtain ⟨d, rest, rfl⟩ : ∃ d rest, tail = d :: rest := by
              cases tail with
              | nil => simp [isSupplementaryCodePoint] at hpair
              | cons d rest => exact ⟨d, rest, rfl⟩
            simp only [isSupplementaryCodePoint, Bool.and_eq_true] at hpair
            have hpiece : SpellsString [c, d] [c, d] := .surrogates hpair.1 hpair.2 .nil
            have hshorter : rest.length < (c :: d :: rest).length := by
              rw [List.length_cons, List.length_cons]
              omega
            exact .of_piece hpiece (ih _ hshorter _ _ rfl)
          · rw [readString, if_neg hquote, if_neg hslash, if_neg (by simp [hline]),
              if_neg hscalar, if_neg hpair]
            exact .invalid _ _

/-- A string is read up to its closing quote. -/
theorem readString_of_spells {chars value : Text} (h : SpellsString chars value)
    (position : ℕ) (rest : Text) :
    readString position (chars ++ 34 :: rest) = .ok (value, chars.length + 1, rest) := by
  have hclose : readString (position + chars.length) (34 :: rest) = .ok ([], 1, rest) := by
    rw [readString, if_pos rfl]
  rw [h.readString, hclose]
  simp [Except.map]

theorem readString_of_cut {chars value escape : Text} (h : SpellsString chars value)
    (hcut : CutEscape escape) (position : ℕ) :
    readString position (chars ++ escape) = .error .indexError := by
  have hstop : readString (position + chars.length) escape = .error .indexError := by
    have hread := hcut.readEscape (position + chars.length)
    cases hcut <;> rw [readString, if_neg (by decide), if_pos rfl, hread] <;> rfl
  rw [h.readString, hstop]
  rfl

theorem spells_of_readString {position length : ℕ} {text value rest : Text}
    (h : readString position text = .ok (value, length, rest)) :
    ∃ chars, text = chars ++ 34 :: rest ∧ SpellsString chars value ∧
      length = chars.length + 1 := by
  have houtcome := readString_outcome position text
  rw [h] at houtcome
  cases houtcome with
  | complete htext hspells => exact ⟨_, htext, hspells, rfl⟩

/-! ## The token of a string -/

theorem SpellsString.head_ne_quote {chars value : Text} (h : SpellsString chars value) :
    chars.head? ≠ some 34 := by
  cases h with
  | nil => simp
  | plain hquote => simpa using hquote
  | surrogates hleading =>
      simp only [isLeadingSurrogate, Bool.and_eq_true, decide_eq_true_eq] at hleading
      simp
      omega
  | escape hescape =>
      obtain ⟨c, rest, rfl⟩ := hescape.eq_cons
      simp

/-- The quotes of a string do not open a block string, unless it is an empty string with a
quote behind it. -/
theorem SpellsString.not_block {chars value rest : Text} (h : SpellsString chars value)
    (hopen : chars = [] → rest.head? ≠ some 34) :
    (chars ++ 34 :: rest).take 2 ≠ [34, 34] := by
  cases chars with
  | nil =>
      cases rest with
      | nil => simp
      | cons c rest => simpa using hopen rfl
  | cons c chars =>
      have hc : c ≠ 34 := by simpa using h.head_ne_quote
      simp [hc]

theorem readToken_of_spells {chars value rest : Text} (h : SpellsString chars value)
    (hopen : chars = [] → rest.head? ≠ some 34) (cursor : Cursor) :
    readToken cursor 34 (chars ++ 34 :: rest) =
      .ok (cursor.createToken .string (chars.length + 2) (some value),
        cursor.advance (chars.length + 2) rest) := by
  rw [readToken, if_neg (by decide), if_pos rfl, if_neg (h.not_block hopen),
    readString_of_spells h]
  have hlength : 1 + (chars.length + 1) = chars.length + 2 := by omega
  simp only [bind, Except.bind, pure, Except.pure, hlength]

end GraphqlCore.Language
