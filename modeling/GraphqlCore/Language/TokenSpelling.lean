import GraphqlCore.Data.Settles
import GraphqlCore.Language.Parser
import GraphqlCore.Language.PrintedStrings
import GraphqlCore.Language.TokenReading

/-!
# The text of tokens

`SpellsToken` relates the kind and the value of a token to the text it is read from,
whatever stands before and behind it, as long as the text behind it does not continue it.
-/

namespace GraphqlCore.Language

/-! ## Numbers -/

/-- A sequence of digits that is not empty. -/
structure SpellsDigits (text : Text) : Prop where
  ne_nil : text ≠ []
  digits : ∀ c ∈ text, isDigit c

def SpellsInteger (text : Text) : Prop := text = [48] ∨ SpellsDigits text ∧ text.head? ≠ some 48

def SpellsFraction (text : Text) : Prop :=
  text = [] ∨ ∃ digits, text = 46 :: digits ∧ SpellsDigits digits

def SpellsExponent (text : Text) : Prop :=
  text = [] ∨ ∃ c sign digits, text = c :: (sign ++ digits) ∧ (c = 69 ∨ c = 101) ∧
    (sign = [] ∨ sign = [43] ∨ sign = [45]) ∧ SpellsDigits digits

/-- The text of a number, and whether it is a float. -/
inductive SpellsNumber : Bool → Text → Prop
  | parts {sign integer fraction exponent : Text} (hsign : sign = [] ∨ sign = [45])
      (hinteger : SpellsInteger integer) (hfraction : SpellsFraction fraction)
      (hexponent : SpellsExponent exponent) :
      SpellsNumber (!(fraction.isEmpty && exponent.isEmpty))
        (sign ++ integer ++ fraction ++ exponent)

/-- The text does not continue a name, a number or a string. -/
def Separates (text : Text) : Prop :=
  ∀ c ∈ text.head?, isNameContinue c = false ∧ c ≠ 46 ∧ c ≠ 34

/-- No digit follows. -/
def NoDigit (text : Text) : Prop := ∀ c ∈ text.head?, isDigit c = false

theorem Separates.noDigit {text : Text} (h : Separates text) : NoDigit text := by
  intro c hc
  have hnot := (h c hc).1
  simp only [isNameContinue, Bool.or_eq_false_iff] at hnot
  exact hnot.1.2

theorem Separates.not_nameStart {text : Text} (h : Separates text) :
    ∀ c ∈ text.head?, isNameStart c = false := by
  intro c hc
  have hnot := (h c hc).1
  by_contra hstart
  rw [Bool.not_eq_false] at hstart
  rw [isNameContinue_of_start hstart] at hnot
  cases hnot

theorem readDigits_of_spells {digits rest : Text} (h : SpellsDigits digits)
    (hrest : NoDigit rest) (position : ℕ) :
    readDigits position (digits ++ rest) = .ok (digits, rest) := by
  obtain ⟨hsome, hdigits⟩ := h
  cases digits with
  | nil => exact absurd rfl hsome
  | cons c digits =>
      have htail : ∀ d ∈ digits, isDigit d := fun d hd =>
        hdigits d (List.mem_cons_of_mem _ hd)
      have htake : rest.takeWhile isDigit = [] := by
        cases rest with
        | nil => rfl
        | cons d rest => rw [List.takeWhile_cons, hrest d rfl]; rfl
      have hdrop : rest.dropWhile isDigit = rest := by
        cases rest with
        | nil => rfl
        | cons d rest => rw [List.dropWhile_cons, hrest d rfl]; rfl
      rw [List.cons_append, readDigits, if_pos (hdigits c List.mem_cons_self),
        List.takeWhile_append_of_pos htail, List.dropWhile_append_of_pos htail, htake, hdrop,
        List.append_nil]

theorem spells_of_readDigits {position : ℕ} {text digits rest : Text}
    (h : readDigits position text = .ok (digits, rest)) :
    text = digits ++ rest ∧ SpellsDigits digits := by
  cases text with
  | nil => cases h
  | cons c text =>
      rw [readDigits] at h
      split at h
      · rename_i hc
        obtain ⟨rfl, rfl⟩ := Prod.mk.inj (Except.ok.inj h)
        refine ⟨by rw [List.cons_append, List.takeWhile_append_dropWhile],
          List.cons_ne_nil _ _, ?_⟩
        exact List.forall_mem_cons.mpr ⟨hc, fun d hd => List.mem_takeWhile_imp hd⟩
      · cases h

theorem readIntegerPart_of_spells {integer rest : Text} (h : SpellsInteger integer)
    (hrest : NoDigit rest) (position : ℕ) :
    readIntegerPart position (integer ++ rest) = .ok (integer, rest) := by
  rcases h with rfl | ⟨hdigits, hzero⟩
  · cases rest with
    | nil => rfl
    | cons c rest =>
        rw [List.cons_append, List.nil_append, readIntegerPart, hrest c rfl]
        rfl
  · rw [← readDigits_of_spells hdigits hrest position]
    cases integer with
    | nil => exact absurd rfl hdigits.ne_nil
    | cons c integer =>
        have hc : c ≠ 48 := by simpa using hzero
        rw [List.cons_append, readIntegerPart.eq_def]
        split
        · rename_i heq
          exact absurd (List.cons.inj heq).1 hc
        · rename_i heq
          exact absurd (List.cons.inj heq).1 hc
        · rfl

theorem spells_of_readIntegerPart {position : ℕ} {text integer rest : Text}
    (h : readIntegerPart position text = .ok (integer, rest)) :
    text = integer ++ rest ∧ SpellsInteger integer := by
  rw [readIntegerPart.eq_def] at h
  split at h
  · split at h
    · cases h
    · obtain ⟨rfl, rfl⟩ := Prod.mk.inj (Except.ok.inj h)
      exact ⟨rfl, .inl rfl⟩
  · obtain ⟨rfl, rfl⟩ := Prod.mk.inj (Except.ok.inj h)
    exact ⟨rfl, .inl rfl⟩
  · rename_i hsome hnil
    obtain ⟨htext, hdigits⟩ := spells_of_readDigits h
    refine ⟨htext, ?_⟩
    by_cases hzero : integer.head? = some 48
    · left
      cases integer with
      | nil => cases hzero
      | cons c integer =>
          obtain rfl : c = 48 := by simpa using hzero
          cases hafter : integer ++ rest with
          | nil =>
              rw [List.cons_append, hafter] at htext
              exact absurd htext hnil
          | cons d after =>
              rw [List.cons_append, hafter] at htext
              exact absurd htext (hsome d after)
    · exact .inr ⟨hdigits, hzero⟩

theorem readFractionalPart_of_spells {fraction rest : Text} (h : SpellsFraction fraction)
    (hrest : NoDigit rest) (hperiod : rest.head? ≠ some 46) (position : ℕ) :
    readFractionalPart position (fraction ++ rest) = .ok (fraction, rest) := by
  rcases h with rfl | ⟨digits, rfl, hdigits⟩
  · rw [List.nil_append, readFractionalPart.eq_def]
    split
    · exact absurd rfl hperiod
    · rfl
  · rw [List.cons_append, readFractionalPart, readDigits_of_spells hdigits hrest]
    rfl

theorem spells_of_readFractionalPart {position : ℕ} {text fraction rest : Text}
    (h : readFractionalPart position text = .ok (fraction, rest)) :
    text = fraction ++ rest ∧ SpellsFraction fraction := by
  rw [readFractionalPart.eq_def] at h
  split at h
  · rename_i text
    obtain ⟨⟨digits, after⟩, hread, hresult⟩ := bind_eq_ok.mp h
    obtain ⟨rfl, rfl⟩ := Prod.mk.inj (Except.ok.inj hresult)
    obtain ⟨rfl, hdigits⟩ := spells_of_readDigits hread
    exact ⟨rfl, .inr ⟨digits, rfl, hdigits⟩⟩
  · obtain ⟨rfl, rfl⟩ := Prod.mk.inj (Except.ok.inj h)
    exact ⟨rfl, .inl rfl⟩

theorem readExponentPart_of_spells {exponent rest : Text} (h : SpellsExponent exponent)
    (hrest : NoDigit rest) (hletter : ∀ c ∈ rest.head?, c ≠ 69 ∧ c ≠ 101) (position : ℕ) :
    readExponentPart position (exponent ++ rest) = .ok (exponent, rest) := by
  rcases h with rfl | ⟨c, sign, digits, rfl, hc, hsign, hdigits⟩
  · cases rest with
    | nil => rfl
    | cons c rest =>
        rw [List.nil_append, readExponentPart.eq_def]
        exact if_neg (by simpa using hletter c rfl)
  · have hdigit : ∃ d tail, digits ++ rest = d :: tail ∧ isDigit d := by
      obtain ⟨hsome, hall⟩ := hdigits
      cases digits with
      | nil => exact absurd rfl hsome
      | cons d digits => exact ⟨d, _, rfl, hall d List.mem_cons_self⟩
    have hread (position : ℕ) := readDigits_of_spells hdigits hrest position
    rw [List.cons_append, List.append_assoc, readExponentPart.eq_def]
    dsimp only
    rw [if_pos (by simpa using hc)]
    rcases hsign with rfl | rfl | rfl
    · obtain ⟨d, tail, htail, hd⟩ := hdigit
      rw [List.nil_append, htail]
      have hplain : ¬ ((d = 43 || d = 45 : Bool) = true) := by
        simp only [isDigit, Bool.and_eq_true, decide_eq_true_eq] at hd
        simp only [Bool.or_eq_true, decide_eq_true_eq]
        omega
      dsimp only
      rw [if_neg hplain, ← htail, hread]
      rfl
    · rw [List.singleton_append]
      dsimp only
      rw [if_pos (by decide), hread]
      rfl
    · rw [List.singleton_append]
      dsimp only
      rw [if_pos (by decide), hread]
      rfl

theorem spells_of_readExponentPart {position : ℕ} {text exponent rest : Text}
    (h : readExponentPart position text = .ok (exponent, rest)) :
    text = exponent ++ rest ∧ SpellsExponent exponent := by
  cases text with
  | nil =>
      obtain ⟨rfl, rfl⟩ := Prod.mk.inj (Except.ok.inj h)
      exact ⟨rfl, .inl rfl⟩
  | cons c text =>
      rw [readExponentPart.eq_def] at h
      dsimp only at h
      split at h
      · rename_i hc
        have hletter : c = 69 ∨ c = 101 := by simpa using hc
        split at h
        · rename_i d text
          split at h
          · rename_i hd
            obtain ⟨⟨digits, after⟩, hread, hresult⟩ := bind_eq_ok.mp h
            obtain ⟨rfl, rfl⟩ := Prod.mk.inj (Except.ok.inj hresult)
            obtain ⟨rfl, hdigits⟩ := spells_of_readDigits hread
            have hsign : [d] = [] ∨ [d] = [43] ∨ [d] = [45] := by simpa using hd
            exact ⟨rfl, .inr ⟨c, [d], digits, rfl, hletter, hsign, hdigits⟩⟩
          · obtain ⟨⟨digits, after⟩, hread, hresult⟩ := bind_eq_ok.mp h
            obtain ⟨rfl, rfl⟩ := Prod.mk.inj (Except.ok.inj hresult)
            obtain ⟨htext, hdigits⟩ := spells_of_readDigits hread
            exact ⟨by rw [htext, List.cons_append],
              .inr ⟨c, [], digits, rfl, hletter, .inl rfl, hdigits⟩⟩
        · cases h
      · obtain ⟨rfl, rfl⟩ := Prod.mk.inj (Except.ok.inj h)
        exact ⟨rfl, .inl rfl⟩

/-- A number is read up to the text that does not continue it. -/
theorem readNumber_of_spells {isFloat : Bool} {text rest : Text} (h : SpellsNumber isFloat text)
    (hrest : Separates rest) (position : ℕ) :
    readNumber position (text ++ rest) = .ok (isFloat, text, rest) := by
  obtain ⟨hsign, hinteger, hfraction, hexponent⟩ := h
  rename_i sign integer fraction exponent
  have hexponentDigit : NoDigit (exponent ++ rest) := by
    rcases hexponent with rfl | ⟨c, _, _, rfl, hc, -, -⟩
    · exact hrest.noDigit
    · intro d hd
      obtain rfl : c = d := by simpa using hd
      rcases hc with rfl | rfl <;> rfl
  have hexponentPeriod : (exponent ++ rest).head? ≠ some 46 := by
    rcases hexponent with rfl | ⟨c, _, _, rfl, hc, -, -⟩
    · exact fun hhead => (hrest 46 hhead).2.1 rfl
    · rcases hc with rfl | rfl <;> simp
  have hfractionDigit : NoDigit (fraction ++ (exponent ++ rest)) := by
    rcases hfraction with rfl | ⟨_, rfl, -⟩
    · exact hexponentDigit
    · intro d hd
      obtain rfl : 46 = d := by simpa using hd
      rfl
  have hletter : ∀ c ∈ rest.head?, c ≠ 69 ∧ c ≠ 101 := by
    intro c hc
    have hstart := hrest.not_nameStart c hc
    constructor <;> rintro rfl <;> cases hstart
  have hreadSign : readSign (sign ++ (integer ++ (fraction ++ (exponent ++ rest)))) =
      (sign, integer ++ (fraction ++ (exponent ++ rest))) := by
    rcases hsign with rfl | rfl
    · have hhead : ∃ c tail, integer ++ (fraction ++ (exponent ++ rest)) = c :: tail ∧
          c ≠ 45 := by
        rcases hinteger with rfl | ⟨⟨hsome, hdigits⟩, -⟩
        · exact ⟨48, _, rfl, by decide⟩
        · cases integer with
          | nil => exact absurd rfl hsome
          | cons c integer =>
              refine ⟨c, _, rfl, ?_⟩
              rintro rfl
              cases hdigits 45 List.mem_cons_self
      obtain ⟨c, tail, htext, hc⟩ := hhead
      rw [List.nil_append, htext, readSign.eq_def]
      split
      · rename_i heq
        exact absurd (List.cons.inj heq).1 hc
      · rfl
    · rfl
  rw [readNumber, List.append_assoc, List.append_assoc, List.append_assoc, hreadSign]
  dsimp only
  rw [readIntegerPart_of_spells hinteger hfractionDigit]
  simp only [bind, Except.bind]
  rw [readFractionalPart_of_spells hfraction hexponentDigit hexponentPeriod]
  dsimp only
  rw [readExponentPart_of_spells hexponent hrest.noDigit hletter]
  dsimp only
  cases rest with
  | nil => rfl
  | cons c rest =>
      have hc : ¬ (c = 46 || isNameStart c : Bool) = true := by
        simp [hrest.not_nameStart c rfl, (hrest c rfl).2.1]
      dsimp only
      rw [if_neg hc]
      rfl

theorem spells_of_readNumber {position : ℕ} {isFloat : Bool} {text value rest : Text}
    (h : readNumber position text = .ok (isFloat, value, rest)) :
    text = value ++ rest ∧ SpellsNumber isFloat value := by
  have hsign : (readSign text).1 ++ (readSign text).2 = text ∧
      ((readSign text).1 = [] ∨ (readSign text).1 = [45]) := by
    rw [readSign.eq_def]
    split
    · exact ⟨rfl, .inr rfl⟩
    · exact ⟨rfl, .inl rfl⟩
  rw [readNumber] at h
  generalize readSign text = signed at h hsign
  obtain ⟨sign, afterSign⟩ := signed
  obtain ⟨htext, hsign⟩ := hsign
  obtain ⟨⟨integer, afterInteger⟩, hinteger, h⟩ := bind_eq_ok.mp h
  obtain ⟨⟨fraction, afterFraction⟩, hfraction, h⟩ := bind_eq_ok.mp h
  obtain ⟨⟨exponent, afterExponent⟩, hexponent, hfinish⟩ := bind_eq_ok.mp h
  obtain ⟨rfl, hspellsInteger⟩ := spells_of_readIntegerPart hinteger
  obtain ⟨rfl, hspellsFraction⟩ := spells_of_readFractionalPart hfraction
  obtain ⟨rfl, hspellsExponent⟩ := spells_of_readExponentPart hexponent
  have hresult : (!(fraction.isEmpty && exponent.isEmpty), sign ++ integer ++ fraction ++ exponent,
      afterExponent) = (isFloat, value, rest) := by
    dsimp only at hfinish
    split at hfinish
    · split at hfinish
      · cases hfinish
      · exact Except.ok.inj hfinish
    · exact Except.ok.inj hfinish
  simp only [Prod.mk.injEq] at hresult
  obtain ⟨rfl, rfl, rfl⟩ := hresult
  refine ⟨?_, .parts hsign hspellsInteger hspellsFraction hspellsExponent⟩
  rw [← htext]
  simp only [List.append_assoc]

/-! ## Tokens -/

/-- A token of the given kind and value is read from the text, unless it is a comment. -/
inductive SpellsToken : TokenKind → Option Text → Text → Prop
  | punctuator {c : ℕ} {kind : TokenKind} (h : kindForPunct c = some kind) :
      SpellsToken kind none [c]
  | spread : SpellsToken .spread none [46, 46, 46]
  | name {c : ℕ} {text : Text} (hstart : isNameStart c) (htext : ∀ d ∈ text, isNameContinue d) :
      SpellsToken .name (some (c :: text)) (c :: text)
  | number {isFloat : Bool} {text : Text} (h : SpellsNumber isFloat text) :
      SpellsToken (if isFloat then .float else .int) (some text) text
  | string {chars value : Text} (h : SpellsString chars value) :
      SpellsToken .string (some value) (34 :: (chars ++ [34]))
  | blockString {text line : Text} {lines : List Text} (h : SpellsBlock text line lines) :
      SpellsToken .blockString (some (joinLines (dedentBlockStringLines (line :: lines))))
        (34 :: 34 :: 34 :: text)

theorem isPunctuator_of_kindForPunct {c : ℕ} {kind : TokenKind} (h : kindForPunct c = some kind) :
    kind.isPunctuator ∧ kind ≠ .spread := by
  rw [kindForPunct.eq_def] at h
  split at h <;> simp only [Option.some.injEq, reduceCtorEq] at h <;> subst h <;>
    exact ⟨rfl, by decide⟩

theorem SpellsToken.kind_ne {kind : TokenKind} {value : Option Text} {text : Text}
    (h : SpellsToken kind value text) : kind ≠ .eof ∧ kind ≠ .comment := by
  cases h with
  | punctuator h =>
      have hpunct := (isPunctuator_of_kindForPunct h).1
      constructor <;> rintro rfl <;> cases hpunct
  | @number isFloat => cases isFloat <;> exact ⟨nofun, nofun⟩
  | spread | name | string | blockString => exact ⟨nofun, nofun⟩

/-- A punctuator does not continue the token in front of it. -/
theorem separates_of_kindForPunct {c : ℕ} {kind : TokenKind} (h : kindForPunct c = some kind)
    (rest : Text) : Separates (c :: rest) := by
  intro d hd
  obtain rfl : c = d := by simpa using hd
  rw [kindForPunct.eq_def] at h
  split at h <;> first | exact ⟨rfl, by decide, by decide⟩ | cases h

theorem separates_space (rest : Text) : Separates (32 :: rest) := by
  intro d hd
  obtain rfl : 32 = d := by simpa using hd
  exact ⟨rfl, by decide, by decide⟩

theorem separates_nil : Separates [] := fun _ h => nomatch h

/-- The first code point of a number. -/
theorem SpellsNumber.exists_cons {isFloat : Bool} {text : Text} (h : SpellsNumber isFloat text) :
    ∃ c rest, text = c :: rest ∧ (isDigit c ∨ c = 45) := by
  obtain ⟨hsign, hinteger, -, -⟩ := h
  rcases hsign with rfl | rfl
  · rcases hinteger with rfl | ⟨⟨hsome, hdigits⟩, -⟩
    · exact ⟨48, _, rfl, .inl rfl⟩
    · rename_i integer _ _
      cases integer with
      | nil => exact absurd rfl hsome
      | cons c integer => exact ⟨c, _, rfl, .inl (hdigits c List.mem_cons_self)⟩
  · exact ⟨45, _, rfl, .inr rfl⟩

/-- A token that is no comment starts with a code point that is not skipped. -/
theorem SpellsToken.exists_cons {kind : TokenKind} {value : Option Text} {text : Text}
    (h : SpellsToken kind value text) :
    ∃ c rest, text = c :: rest ∧ isIgnored c = false ∧ isLineEnd c = false := by
  have hplain {c : ℕ} (hc : isDigit c ∨ isNameStart c) :
      isIgnored c = false ∧ isLineEnd c = false := by
    simp only [isDigit, isNameStart, isLetter, Bool.or_eq_true, Bool.and_eq_true,
      decide_eq_true_eq] at hc
    simp only [isIgnored, isLineEnd, Bool.or_eq_false_iff, decide_eq_false_iff_not]
    omega
  cases h with
  | @punctuator c _ h =>
      refine ⟨c, [], rfl, ?_⟩
      rw [kindForPunct.eq_def] at h
      split at h <;> first | exact ⟨rfl, rfl⟩ | cases h
  | spread => exact ⟨46, _, rfl, rfl, rfl⟩
  | @name c text hstart htext => exact ⟨c, text, rfl, hplain (.inr hstart)⟩
  | number h =>
      obtain ⟨c, rest, rfl, hc⟩ := h.exists_cons
      rcases hc with hdigit | rfl
      · exact ⟨c, rest, rfl, hplain (.inl hdigit)⟩
      · exact ⟨45, rest, rfl, rfl, rfl⟩
  | string => exact ⟨34, _, rfl, rfl, rfl⟩
  | blockString => exact ⟨34, _, rfl, rfl, rfl⟩

theorem readNextToken_of_cons {cursor : Cursor} {c : ℕ} {rest : Text}
    (hrest : cursor.rest = c :: rest) (hignored : isIgnored c = false)
    (hline : isLineEnd c = false) : readNextToken cursor = readToken cursor c rest := by
  obtain ⟨hreturn, hfeed⟩ := not_isLineEnd_iff.mp hline
  rw [readNextToken]
  split
  · next h =>
    rw [hrest] at h
    cases h
  · next d tail h =>
    obtain ⟨rfl, rfl⟩ := List.cons.inj (h.symm.trans hrest)
    rw [if_neg (by simp [hignored]), if_neg hfeed, if_neg hreturn]

theorem readNextToken_of_space {cursor : Cursor} {rest : Text} (hrest : cursor.rest = 32 :: rest) :
    readNextToken cursor = readNextToken (cursor.advance 1 rest) := by
  rw [readNextToken]
  split
  · next h =>
    rw [hrest] at h
    cases h
  · next d tail h =>
    obtain ⟨rfl, rfl⟩ := List.cons.inj (h.symm.trans hrest)
    rw [if_pos (by decide)]

/-- The next cursor stands behind the text of a token. -/
structure ReadBefore (cursor : Cursor) (kind : TokenKind) (value : Option Text) (text rest : Text)
    (token : Token) (next : Cursor) : Prop where
  token_eq : token = cursor.createToken kind text.length value
  rest_eq : next.rest = rest
  position_eq : next.position = cursor.position + text.length

theorem isPunctuator_number (isFloat : Bool) :
    (if isFloat then TokenKind.float else .int).isPunctuator = false := by
  cases isFloat <;> rfl

/-- The token is read from its text, whatever stands behind it that does not continue it. -/
theorem SpellsToken.read {kind : TokenKind} {value : Option Text} {text rest : Text}
    (h : SpellsToken kind value text) (hrest : kind.isPunctuator = false → Separates rest)
    {cursor : Cursor} (hcursor : cursor.rest = text ++ rest) :
    ∃ token next, readNextToken cursor = .ok (token, next) ∧
      ReadBefore cursor kind value text rest token next := by
  obtain ⟨d, tail, htext, hignored, hline⟩ := h.exists_cons
  have hnext (c : ℕ) (tail' : Text) (htail : text ++ rest = c :: tail') :
      readNextToken cursor = readToken cursor c tail' := by
    obtain ⟨rfl, -⟩ := List.cons.inj ((congrArg (· ++ rest) htext).symm.trans htail)
    exact readNextToken_of_cons (hcursor.trans htail) hignored hline
  cases h with
  | @punctuator c _ h =>
      have hc : c ≠ 35 ∧ c ≠ 34 := by
        constructor <;> rintro rfl <;> cases h
      rw [hnext c rest rfl, readToken, if_neg hc.1, if_neg hc.2, h]
      exact ⟨_, _, rfl, rfl, rfl, rfl⟩
  | spread =>
      rw [hnext 46 (46 :: 46 :: rest) rfl]
      exact ⟨_, _, rfl, rfl, rfl, rfl⟩
  | @name c text hstart hcontinue =>
      have hrest := hrest rfl
      have hplain : c ≠ 35 ∧ c ≠ 34 ∧ isDigit c = false ∧ c ≠ 45 ∧ kindForPunct c = none := by
        have hrange := hstart
        simp only [isNameStart, isLetter, Bool.or_eq_true, Bool.and_eq_true,
          decide_eq_true_eq] at hrange
        refine ⟨by omega, by omega, ?_, by omega, ?_⟩
        · simp only [isDigit, Bool.and_eq_false_iff, decide_eq_false_iff_not]
          omega
        · rw [kindForPunct.eq_def]
          split <;> first | rfl | omega
      obtain ⟨hhash, hquote, hdigit, hminus, hnone⟩ := hplain
      have htake : rest.takeWhile isNameContinue = [] := by
        cases rest with
        | nil => rfl
        | cons d rest => rw [List.takeWhile_cons, (hrest d rfl).1]; rfl
      have hdrop : rest.dropWhile isNameContinue = rest := by
        cases rest with
        | nil => rfl
        | cons d rest => rw [List.dropWhile_cons, (hrest d rfl).1]; rfl
      rw [hnext c (text ++ rest) rfl, readToken, if_neg hhash, if_neg hquote, hnone]
      dsimp only
      rw [if_neg (by simp [hdigit, hminus]), if_pos hstart, List.takeWhile_append_of_pos hcontinue,
        List.dropWhile_append_of_pos hcontinue, htake, hdrop, List.append_nil]
      exact ⟨_, _, rfl, rfl, rfl, rfl⟩
  | @number isFloat text h =>
      obtain ⟨c, tail, rfl, hc⟩ := h.exists_cons
      have hplain : c ≠ 35 ∧ c ≠ 34 ∧ kindForPunct c = none := by
        have hrange : 48 ≤ c ∧ c ≤ 57 ∨ c = 45 := by
          simpa only [isDigit, Bool.and_eq_true, decide_eq_true_eq] using hc
        refine ⟨by omega, by omega, ?_⟩
        rw [kindForPunct.eq_def]
        split <;> first | rfl | omega
      obtain ⟨hhash, hquote, hnone⟩ := hplain
      have hread := readNumber_of_spells h (hrest (isPunctuator_number isFloat)) cursor.position
      rw [List.cons_append] at hread
      rw [hnext c (tail ++ rest) rfl, readToken, if_neg hhash, if_neg hquote, hnone]
      dsimp only
      rw [if_pos (by simpa using hc), hread]
      exact ⟨_, _, rfl, rfl, rfl, rfl⟩
  | @string chars value h =>
      have hopen : chars = [] → rest.head? ≠ some 34 := fun _ hhead =>
        (hrest rfl 34 hhead).2.2 rfl
      have hlength : (34 :: (chars ++ [34]) : Text).length = chars.length + 2 := by simp
      rw [hnext 34 (chars ++ 34 :: rest) (by simp), readToken_of_spells h hopen]
      refine ⟨_, _, rfl, ?_, rfl, ?_⟩ <;> rw [hlength]
      rfl
  | @blockString text line lines h =>
      have hread := readBlockLines_of_spells h (cursor.position + 3) cursor.lineStart rest
      rw [hnext 34 (34 :: 34 :: (text ++ rest)) rfl, readToken, if_neg (by decide), if_pos rfl,
        if_pos (by simp), readBlockString]
      simp only [List.drop_succ_cons, List.drop_zero, hread, bind, Except.bind, pure, Except.pure]
      have hlength : (34 :: 34 :: 34 :: text : Text).length = 3 + text.length := by
        simp only [List.length_cons]
        omega
      refine ⟨_, _, rfl, ?_, rfl, ?_⟩ <;> rw [hlength]
      rfl

/-- What is read that is no comment is a token with its text. -/
theorem spells_of_readToken {cursor next : Cursor} {c : ℕ} {rest : Text} {token : Token}
    (h : readToken cursor c rest = .ok (token, next)) (hkind : token.kind ≠ .comment) :
    ∃ text, c :: rest = text ++ next.rest ∧ SpellsToken token.kind token.value text ∧
      ReadBefore cursor token.kind token.value text next.rest token next := by
  rw [readToken] at h
  split at h
  · obtain ⟨rfl, -⟩ := Prod.mk.inj (Except.ok.inj h)
    exact absurd rfl hkind
  split at h
  · rename_i hquote
    subst hquote
    split at h
    · rename_i hblock
      rw [readBlockString] at h
      obtain ⟨block, hread, hresult⟩ := bind_eq_ok.mp h
      obtain ⟨rfl, rfl⟩ := Prod.mk.inj (Except.ok.inj hresult)
      have houtcome := readBlockLines_outcome (cursor.position + 3) cursor.lineStart (rest.drop 2)
      rw [hread] at houtcome
      cases houtcome with
      | @complete text line after lines htext hspells =>
          have hrest : rest = 34 :: 34 :: (text ++ after) := by
            rw [← List.take_append_drop 2 rest, hblock, htext]
            rfl
          have hlength : 3 + text.length = (34 :: 34 :: 34 :: text : Text).length := by
            simp only [List.length_cons]
            omega
          refine ⟨34 :: 34 :: 34 :: text, by rw [hrest]; rfl, .blockString hspells, ?_, rfl, ?_⟩
          · dsimp only
            rw [hlength]
            rfl
          · dsimp only
            rw [hlength]
    · obtain ⟨⟨value, length, after⟩, hread, hresult⟩ := bind_eq_ok.mp h
      obtain ⟨rfl, rfl⟩ := Prod.mk.inj (Except.ok.inj hresult)
      obtain ⟨chars, rfl, hspells, rfl⟩ := spells_of_readString hread
      have hlength : 1 + (chars.length + 1) = (34 :: (chars ++ [34]) : Text).length := by
        simp only [List.length_cons, List.length_append, List.length_nil]
        omega
      refine ⟨34 :: (chars ++ [34]), by simp [Cursor.advance], .string hspells, ?_, rfl, ?_⟩
      · rw [hlength]
        rfl
      · rw [hlength]
        rfl
  split at h
  · rename_i kind hpunct
    obtain ⟨rfl, rfl⟩ := Prod.mk.inj (Except.ok.inj h)
    exact ⟨[c], rfl, .punctuator hpunct, rfl, rfl, rfl⟩
  split at h
  · obtain ⟨⟨isFloat, value, after⟩, hread, hresult⟩ := bind_eq_ok.mp h
    obtain ⟨rfl, rfl⟩ := Prod.mk.inj (Except.ok.inj hresult)
    obtain ⟨htext, hspells⟩ := spells_of_readNumber hread
    exact ⟨value, htext, .number hspells, rfl, rfl, rfl⟩
  split at h
  · rename_i hstart
    obtain ⟨rfl, rfl⟩ := Prod.mk.inj (Except.ok.inj h)
    refine ⟨c :: rest.takeWhile isNameContinue, ?_,
      .name hstart fun d hd => List.mem_takeWhile_imp hd, rfl, rfl, rfl⟩
    exact congrArg (c :: ·) List.takeWhile_append_dropWhile.symm
  split at h
  · rename_i hperiod
    subst hperiod
    cases rest with
    | nil => cases h
    | cons d rest =>
        rw [readPeriod] at h
        split at h
        · rename_i hd
          subst hd
          split at h
          · rename_i hhead
            obtain ⟨rest, rfl⟩ : ∃ rest', rest = 46 :: rest' := by
              cases rest with
              | nil => cases hhead
              | cons e rest => exact ⟨rest, by simpa using hhead⟩
            obtain ⟨rfl, rfl⟩ := Prod.mk.inj (Except.ok.inj h)
            exact ⟨[46, 46, 46], rfl, .spread, rfl, rfl, rfl⟩
          · cases h
        · split at h <;> cases h
  · cases h

end GraphqlCore.Language
