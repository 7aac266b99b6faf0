import GraphqlCore.Language.Printer
import GraphqlCore.Language.SchemaCoordinates
import GraphqlCore.Language.TokenSpelling

/-!
# The tokens of printed values

A text is written in pieces: tokens, with blanks, commas and line feeds between them.  What
the printer makes of a value is written so, in one line or in several, and the lexer reads
the tokens back.
-/

namespace GraphqlCore.Language

/-! ## Written texts -/

/-- The kind and the value of a token. -/
abbrev Lexeme := TokenKind × Option Text

def Token.lexeme (token : Token) : Lexeme := (token.kind, token.value)

/-- The text consists of the tokens, in lines, with nothing but separators between them. -/
inductive Writes : Text → List Lexeme → Prop
  | nil : Writes [] []
  | blank {c : ℕ} {text : Text} {lexemes : List Lexeme} (hblank : c = 32 ∨ c = 44 ∨ c = 10)
      (h : Writes text lexemes) : Writes (c :: text) lexemes
  | token {kind : TokenKind} {value : Option Text} {front text : Text} {lexemes : List Lexeme}
      (hspells : SpellsToken kind value front) (hline : 10 ∉ front)
      (hrest : kind.isPunctuator = false → Separates text) (h : Writes text lexemes) :
      Writes (front ++ text) ((kind, value) :: lexemes)

section Writes

variable {text text' : Text} {lexemes lexemes' : List Lexeme} {kind : TokenKind}
  {value : Option Text} {c : ℕ}

theorem separates_blank (hblank : c = 32 ∨ c = 44 ∨ c = 10) (rest : Text) :
    Separates (c :: rest) := by
  intro d hd
  obtain rfl : c = d := by simpa using hd
  rcases hblank with rfl | rfl | rfl <;> exact ⟨rfl, by decide, by decide⟩

theorem Separates.append (h : Separates text) (h' : Separates text') :
    Separates (text ++ text') := by
  cases text with
  | nil => exact h'
  | cons c text => exact h

theorem Writes.append (h : Writes text lexemes) (h' : Writes text' lexemes')
    (hsep : Separates text') : Writes (text ++ text') (lexemes ++ lexemes') := by
  induction h with
  | nil => exact h'
  | blank hblank _ ih => exact .blank hblank ih
  | token hspells hline hrest _ ih =>
      rw [List.append_assoc]
      exact .token hspells hline (fun hkind => (hrest hkind).append hsep) ih

/-- A token alone. -/
theorem SpellsToken.writes (h : SpellsToken kind value text) (hline : 10 ∉ text) :
    Writes text [(kind, value)] := by
  have hwrites := Writes.token h hline (fun _ => separates_nil) .nil
  rwa [List.append_nil] at hwrites

theorem Writes.punct (hkind : kindForPunct c = some kind) (h : Writes text lexemes) :
    Writes (c :: text) ((kind, none) :: lexemes) := by
  have hline : 10 ∉ [c] := by
    rintro (_ | hmem)
    · cases hkind
    · rename_i hmem
      nomatch hmem
  exact .token (.punctuator hkind) hline
    (fun hplain => by simp [(isPunctuator_of_kindForPunct hkind).1] at hplain) h

theorem Writes.ne_nil (h : Writes text lexemes) (hne : lexemes ≠ []) : text ≠ [] := by
  cases h with
  | nil => exact absurd rfl hne
  | blank => exact List.cons_ne_nil _ _
  | token hspells =>
      obtain ⟨c, rest, rfl, -⟩ := hspells.exists_cons
      exact List.cons_ne_nil _ _

/-! ## Lines -/

theorem head?_indentLines (text : Text) : (indentLines text).head? = text.head? := by
  cases text with
  | nil => rfl
  | cons c text =>
      rw [indentLines, List.flatMap_cons]
      split
      · rename_i hc
        rw [hc]
        rfl
      · rfl

theorem indentLines_append (text text' : Text) :
    indentLines (text ++ text') = indentLines text ++ indentLines text' := List.flatMap_append

theorem indentLines_of_notMem (h : 10 ∉ text) : indentLines text = text := by
  induction text with
  | nil => rfl
  | cons c text ih =>
      obtain ⟨hc, htext⟩ := not_or.mp (mt List.mem_cons.mpr h)
      rw [indentLines, List.flatMap_cons, if_neg (Ne.symm hc)]
      exact congrArg (c :: ·) (ih htext)

/-- Indentation only adds blanks. -/
theorem Writes.indentLines (h : Writes text lexemes) : Writes (indentLines text) lexemes := by
  induction h with
  | nil => exact .nil
  | @blank c text lexemes hblank _ ih =>
      rw [Language.indentLines, List.flatMap_cons]
      split
      · exact .blank (.inr (.inr rfl)) (.blank (.inl rfl) (.blank (.inl rfl) ih))
      · exact .blank hblank ih
  | @token kind value front text lexemes hspells hline hrest _ ih =>
      rw [indentLines_append, indentLines_of_notMem hline]
      refine .token hspells hline (fun hkind c hc => hrest hkind c ?_) ih
      rwa [head?_indentLines] at hc

theorem Writes.indent (h : Writes text lexemes) : Writes (indent text) lexemes := by
  rw [Language.indent, wrap]
  split
  · rename_i hempty
    have hlines := h.indentLines
    rwa [List.isEmpty_iff.mp hempty] at hlines
  · rw [List.append_nil]
    exact .blank (.inl rfl) (.blank (.inl rfl) h.indentLines)

end Writes

/-! ## Joined texts -/

/-- The separators of values: a comma and a blank, or a line feed. -/
def IsSeparator (separator : Text) : Prop := separator = str ", " ∨ separator = str "\n"

theorem IsSeparator.writes {separator text : Text} {lexemes : List Lexeme}
    (hsep : IsSeparator separator) (h : Writes text lexemes) :
    Writes (separator ++ text) lexemes ∧ Separates (separator ++ text) := by
  rcases hsep with rfl | rfl
  · exact ⟨.blank (.inr (.inl rfl)) (.blank (.inl rfl) h), separates_blank (.inr (.inl rfl)) _⟩
  · exact ⟨.blank (.inr (.inr rfl)) h, separates_blank (.inr (.inr rfl)) _⟩

/-- The text is written, with a token in it. -/
def WritesSome (text : Text) (lexemes : List Lexeme) : Prop :=
  Writes text lexemes ∧ lexemes ≠ []

/-- The joined texts are written one behind the other. -/
theorem writes_join {separator : Text} (hsep : IsSeparator separator) {texts : List Text}
    {pieces : List (List Lexeme)} (h : List.Forall₂ WritesSome texts pieces) :
    Writes (join texts separator) pieces.flatten := by
  have hfilter : texts.filter (fun text => !text.isEmpty) = texts := by
    induction h with
    | nil => rfl
    | cons hpiece _ ih =>
        have htext := hpiece.1.ne_nil hpiece.2
        rw [List.filter_cons_of_pos (by simpa using htext), ih]
  rw [join, hfilter]
  clear hfilter
  induction h with
  | nil => exact .nil
  | @cons text piece texts pieces hpiece h ih =>
      cases h with
      | nil => simpa [List.intercalate_singleton] using hpiece.1
      | cons hnext h =>
          obtain ⟨hwrites, hseparates⟩ := hsep.writes ih
          rw [List.intercalate_cons_cons, List.append_assoc]
          exact hpiece.1.append hwrites hseparates

/-! ## The lexer -/

/-- The lexer passes by a blank. -/
theorem readNextToken_of_blank {c : ℕ} {rest : Text} (hblank : c = 32 ∨ c = 44 ∨ c = 10)
    {cursor : Cursor} (hrest : cursor.rest = c :: rest) :
    ∃ next : Cursor, next.rest = rest ∧ readNextToken cursor = readNextToken next := by
  rw [readNextToken]
  split
  · next h =>
    rw [hrest] at h
    cases h
  · next d tail h =>
    obtain ⟨rfl, rfl⟩ := List.cons.inj (h.symm.trans hrest)
    rcases hblank with rfl | rfl | rfl
    · exact ⟨cursor.advance 1 tail, rfl, rfl⟩
    · exact ⟨cursor.advance 1 tail, rfl, rfl⟩
    · exact ⟨cursor.newLine 1 tail, rfl, rfl⟩

theorem lexTokens_of_writes {text : Text} {lexemes : List Lexeme} (h : Writes text lexemes) :
    ∀ limit cursor, cursor.rest = text → text.length < limit → ∃ tokens eof,
      lexTokens limit cursor = (tokens ++ [eof], none) ∧ tokens.map Token.lexeme = lexemes ∧
        eof.kind = .eof := by
  induction h with
  | nil =>
      intro limit cursor hcursor hlimit
      obtain ⟨limit, rfl⟩ := Nat.exists_eq_add_one_of_ne_zero (Nat.ne_of_gt hlimit)
      rw [lexTokens, readNextToken_of_nil cursor hcursor]
      exact ⟨[], cursor.createToken .eof 0, rfl, rfl, rfl⟩
  | blank hblank _ ih =>
      intro limit cursor hcursor hlimit
      obtain ⟨next, hnext, hread⟩ := readNextToken_of_blank hblank hcursor
      obtain ⟨limit, rfl⟩ :=
        Nat.exists_eq_add_one_of_ne_zero (Nat.ne_of_gt (Nat.zero_lt_of_lt hlimit))
      rw [lexTokens, hread, ← lexTokens]
      exact ih _ next hnext (Nat.lt_of_succ_lt hlimit)
  | @token kind value front text lexemes hspells hline hrest _ ih =>
      intro limit cursor hcursor hlimit
      obtain ⟨token, next, hread, hbefore⟩ := hspells.read hrest hcursor
      obtain ⟨c, rest, hfront, -⟩ := hspells.exists_cons
      have hlength : text.length + 1 ≤ (front ++ text).length := by
        rw [hfront, List.length_append, List.length_cons]
        omega
      obtain ⟨limit, rfl⟩ :=
        Nat.exists_eq_add_one_of_ne_zero (Nat.ne_of_gt (Nat.zero_lt_of_lt hlimit))
      obtain ⟨tokens, eof, htokens, hlexemes, heof⟩ := ih limit next hbefore.rest_eq (by omega)
      have hkind : token.kind = kind := by rw [hbefore.token_eq]; rfl
      refine ⟨token :: tokens, eof, ?_, ?_, heof⟩
      · rw [lexTokens, hread]
        simp only [hkind, hspells.kind_ne.1, hspells.kind_ne.2, if_false, htokens, List.cons_append]
      · rw [List.map_cons, hlexemes, hbefore.token_eq]
        rfl

/-- The lexer reads the tokens that were written. -/
theorem lex_of_writes {text : Text} {lexemes : List Lexeme} (h : Writes text lexemes) :
    ∃ tokens eof, lex text = (tokens ++ [eof], none) ∧ tokens.map Token.lexeme = lexemes ∧
      eof.kind = .eof :=
  lexTokens_of_writes h _ _ rfl (Nat.lt_succ_self _)

/-! ## Values that can be written -/

/-- Surrogates only occur in pairs. -/
inductive IsPaired : Text → Prop
  | nil : IsPaired []
  | scalar {c : ℕ} {text : Text} (hscalar : isUnicodeScalarValue c) (h : IsPaired text) :
      IsPaired (c :: text)
  | surrogates {c d : ℕ} {text : Text} (hleading : isLeadingSurrogate c)
      (htrailing : isTrailingSurrogate d) (h : IsPaired text) : IsPaired (c :: d :: text)

/-- A name that is not one of the words for booleans and null. -/
def IsEnumName (name : Text) : Prop :=
  IsName name ∧ name ≠ str "true" ∧ name ≠ str "false" ∧ name ≠ str "null"

mutual

/-- A literal without variables that the printer writes as it is read. -/
def ValueNode.Writable : ValueNode → Prop
  | .variable _ => False
  | .int value _ => SpellsNumber false value
  | .float value _ => SpellsNumber true value
  | .string node => node.block = some false ∧ IsPaired node.value
  | .boolean _ _ => True
  | .null _ => True
  | .enum value _ => IsEnumName value
  | .list values _ => WritableValues values
  | .object fields _ => WritableFields fields

def WritableValues : List ValueNode → Prop
  | [] => True
  | value :: values => value.Writable ∧ WritableValues values

def WritableFields : List ObjectFieldNode → Prop
  | [] => True
  | ⟨name, value, _⟩ :: fields => IsName name.value ∧ value.Writable ∧ WritableFields fields

end

mutual

/-- A literal that the printer writes as it is read; a constant one is without variables. -/
def ValueNode.WritableIn (isConst : Bool) : ValueNode → Prop
  | .variable node => isConst = false ∧ IsName node.name.value
  | .int value _ => SpellsNumber false value
  | .float value _ => SpellsNumber true value
  | .string node => node.block = some false ∧ IsPaired node.value
  | .boolean _ _ => True
  | .null _ => True
  | .enum value _ => IsEnumName value
  | .list values _ => WritableValuesIn isConst values
  | .object fields _ => WritableFieldsIn isConst fields

def WritableValuesIn (isConst : Bool) : List ValueNode → Prop
  | [] => True
  | value :: values => value.WritableIn isConst ∧ WritableValuesIn isConst values

def WritableFieldsIn (isConst : Bool) : List ObjectFieldNode → Prop
  | [] => True
  | ⟨name, value, _⟩ :: fields =>
      IsName name.value ∧ value.WritableIn isConst ∧ WritableFieldsIn isConst fields

end

mutual

/-- Without variables a literal is a constant one. -/
theorem ValueNode.writableIn_of_writable {isConst : Bool} : ∀ value : ValueNode,
    value.Writable → value.WritableIn isConst
  | .variable _, h => h.elim
  | .int _ _, h => h
  | .float _ _, h => h
  | .string _, h => h
  | .boolean _ _, _ => trivial
  | .null _, _ => trivial
  | .enum _ _, h => h
  | .list values _, h => writableValuesIn_of_writable values h
  | .object fields _, h => writableFieldsIn_of_writable fields h

theorem writableValuesIn_of_writable {isConst : Bool} : ∀ values : List ValueNode,
    WritableValues values → WritableValuesIn isConst values
  | [], _ => trivial
  | value :: values, h =>
      ⟨value.writableIn_of_writable h.1, writableValuesIn_of_writable values h.2⟩

theorem writableFieldsIn_of_writable {isConst : Bool} : ∀ fields : List ObjectFieldNode,
    WritableFields fields → WritableFieldsIn isConst fields
  | [], _ => trivial
  | ⟨_, value, _⟩ :: fields, h =>
      ⟨h.1, value.writableIn_of_writable h.2.1, writableFieldsIn_of_writable fields h.2.2⟩

end

mutual

/-- The tokens of a literal. -/
def ValueNode.lexemes : ValueNode → List Lexeme
  | .variable node => [(.dollar, none), (.name, some node.name.value)]
  | .int value _ => [(.int, some value)]
  | .float value _ => [(.float, some value)]
  | .string node => [(if node.block = some true then .blockString else .string, some node.value)]
  | .boolean value _ => [(.name, some (if value then str "true" else str "false"))]
  | .null _ => [(.name, some (str "null"))]
  | .enum value _ => [(.name, some value)]
  | .list values _ => (.bracketL, none) :: ((valueLexemes values).flatten ++ [(.bracketR, none)])
  | .object fields _ => (.braceL, none) :: ((fieldLexemes fields).flatten ++ [(.braceR, none)])

def valueLexemes : List ValueNode → List (List Lexeme)
  | [] => []
  | value :: values => value.lexemes :: valueLexemes values

def fieldLexemes : List ObjectFieldNode → List (List Lexeme)
  | [] => []
  | ⟨name, value, _⟩ :: fields =>
      ((.name, some name.value) :: (.colon, none) :: value.lexemes) :: fieldLexemes fields

end

/-! ## Printed values -/

theorem escapeCodePoint_of_surrogate {c : ℕ} (h : isLeadingSurrogate c ∨ isTrailingSurrogate c) :
    escapeCodePoint c = [c] := by
  have hrange : 0xD800 ≤ c := by
    simp only [isLeadingSurrogate, isTrailingSurrogate, Bool.and_eq_true, decide_eq_true_eq] at h
    omega
  have hcontrol : (decide (c ≤ 0x1F) || (decide (0x7F ≤ c) && decide (c ≤ 0x9F))) = false := by
    simp
    omega
  rw [escapeCodePoint, if_neg (by omega), if_neg (by omega), if_neg (by omega),
    if_neg (by omega), if_neg (by omega), if_neg (by omega), if_neg (by omega), hcontrol]
  rfl

/-- A line feed is escaped. -/
theorem notMem_escapeCodePoint (c : ℕ) : 10 ∉ escapeCodePoint c := by
  rw [escapeCodePoint]
  split_ifs with hb ht hn hf hr hquote hslash hcontrol
  · decide
  · decide
  · decide
  · decide
  · decide
  · decide
  · decide
  · rw [escapeControl]
    simp only [List.mem_cons, List.not_mem_nil, or_false]
    split_ifs <;> omega
  · simpa using Ne.symm hn

theorem IsPaired.spells {text : Text} (h : IsPaired text) :
    SpellsString (text.flatMap escapeCodePoint) text := by
  induction h with
  | nil => exact .nil
  | scalar hscalar _ ih => exact (spells_escapeCodePoint hscalar).append ih
  | surrogates hleading htrailing _ ih =>
      rw [List.flatMap_cons, List.flatMap_cons, escapeCodePoint_of_surrogate (.inl hleading),
        escapeCodePoint_of_surrogate (.inr htrailing)]
      exact .surrogates hleading htrailing ih

theorem IsPaired.writes {text : Text} (h : IsPaired text) :
    Writes (printString text) [(.string, some text)] := by
  have hline : 10 ∉ printString text := by
    simp [printString, notMem_escapeCodePoint]
  exact (SpellsToken.string h.spells).writes hline

theorem IsName.writes {name : Text} (h : IsName name) : Writes name [(.name, some name)] := by
  obtain ⟨c, rest, rfl, hstart, hcontinue⟩ := h
  have hline : 10 ∉ c :: rest := by
    rintro (_ | ⟨_, hmem⟩)
    · nomatch hstart
    · nomatch hcontinue 10 hmem
  exact (SpellsToken.name hstart hcontinue).writes hline

theorem SpellsDigits.notMem {text : Text} (h : SpellsDigits text) : 10 ∉ text :=
  fun hmem => nomatch h.digits 10 hmem

theorem SpellsNumber.writes {isFloat : Bool} {text : Text} (h : SpellsNumber isFloat text) :
    Writes text [(if isFloat then .float else .int, some text)] := by
  have hline : 10 ∉ text := by
    obtain ⟨hsign, hinteger, hfraction, hexponent⟩ := h
    simp only [List.mem_append, not_or]
    refine ⟨⟨⟨?_, ?_⟩, ?_⟩, ?_⟩
    · rcases hsign with rfl | rfl <;> decide
    · rcases hinteger with rfl | ⟨hdigits, -⟩
      · decide
      · exact hdigits.notMem
    · rcases hfraction with rfl | ⟨digits, rfl, hdigits⟩
      · decide
      · simp [hdigits.notMem]
    · rcases hexponent with rfl | ⟨c, sign, digits, rfl, hc, hsign, hdigits⟩
      · decide
      · have hsign : 10 ∉ sign := by rcases hsign with rfl | rfl | rfl <;> decide
        have hc : 10 ≠ c := by omega
        simp [hdigits.notMem, hsign, hc]
  exact (SpellsToken.number h).writes hline

theorem writes_printListValue {texts : List Text} {pieces : List (List Lexeme)}
    (h : List.Forall₂ WritesSome texts pieces) : Writes (printListValue texts)
      ((.bracketL, none) :: (pieces.flatten ++ [(.bracketR, none)])) := by
  have hclose : kindForPunct 93 = some .bracketR := rfl
  have hopen : kindForPunct 91 = some .bracketL := rfl
  rw [printListValue]
  split
  · have hlines := (writes_join (.inr rfl) h).indent.append
      (.blank (.inr (.inr rfl)) (.punct hclose .nil)) (separates_blank (.inr (.inr rfl)) _)
    exact .punct hopen (.blank (.inr (.inr rfl)) hlines)
  · exact .punct hopen ((writes_join (.inl rfl) h).append (.punct hclose .nil)
      (separates_of_kindForPunct hclose []))

theorem writes_printObjectValue {texts : List Text} {pieces : List (List Lexeme)}
    (h : List.Forall₂ WritesSome texts pieces) : Writes (printObjectValue texts)
      ((.braceL, none) :: (pieces.flatten ++ [(.braceR, none)])) := by
  have hclose : kindForPunct 125 = some .braceR := rfl
  have hopen : kindForPunct 123 = some .braceL := rfl
  rw [printObjectValue]
  split
  · rename_i hlong
    have hfields := (writes_join (.inr rfl) h).indent
    have hsome : indent (join texts (str "\n")) ≠ [] := by
      cases h with
      | nil => exact absurd hlong (by decide)
      | cons hpiece => exact hfields.ne_nil (by simp [hpiece.2])
    have hlines := hfields.append (.blank (.inr (.inr rfl)) (.punct hclose .nil))
      (separates_blank (.inr (.inr rfl)) _)
    rw [block, wrap, if_neg (by simpa using hsome), List.append_assoc]
    exact .punct hopen (.blank (.inr (.inr rfl)) hlines)
  · exact .punct hopen (.blank (.inl rfl) ((writes_join (.inl rfl) h).append
      (.blank (.inl rfl) (.punct hclose .nil)) (separates_blank (.inl rfl) _)))

mutual

/-- What is printed for a literal is written with its tokens. -/
theorem writes_printValue {isConst : Bool} : ∀ value : ValueNode, value.WritableIn isConst →
    WritesSome (printValue value) value.lexemes
  | .variable node, h => by
      have hdollar : kindForPunct 36 = some .dollar := rfl
      exact ⟨.punct hdollar h.2.writes, nofun⟩
  | .int _ _, h => ⟨h.writes, nofun⟩
  | .float _ _, h => ⟨h.writes, nofun⟩
  | .string node, h => by
      have hblock : ¬node.block = some true := by rw [h.1]; nofun
      rw [printValue, printStringValue, ValueNode.lexemes, if_neg hblock, if_neg hblock]
      exact ⟨h.2.writes, nofun⟩
  | .boolean value _, _ => by
      refine ⟨?_, nofun⟩
      rw [printValue, ValueNode.lexemes]
      cases value with
      | true => exact IsName.writes ⟨116, str "rue", rfl, rfl, by decide⟩
      | false => exact IsName.writes ⟨102, str "alse", rfl, rfl, by decide⟩
  | .null _, _ => ⟨IsName.writes ⟨110, str "ull", rfl, rfl, by decide⟩, nofun⟩
  | .enum _ _, h => ⟨h.1.writes, nofun⟩
  | .list values _, h => ⟨writes_printListValue (writes_printValues values h), nofun⟩
  | .object fields _, h => ⟨writes_printObjectValue (writes_printObjectFields fields h), nofun⟩

theorem writes_printValues {isConst : Bool} : ∀ values : List ValueNode,
    WritableValuesIn isConst values →
      List.Forall₂ WritesSome (printValues values) (valueLexemes values)
  | [], _ => .nil
  | value :: values, h => .cons (writes_printValue value h.1) (writes_printValues values h.2)

theorem writes_printObjectFields {isConst : Bool} : ∀ fields : List ObjectFieldNode,
    WritableFieldsIn isConst fields →
      List.Forall₂ WritesSome (printObjectFields fields) (fieldLexemes fields)
  | [], _ => .nil
  | ⟨name, value, _⟩ :: fields, h => by
      have hcolon : kindForPunct 58 = some .colon := rfl
      have hrest := Writes.punct hcolon (.blank (.inl rfl) (writes_printValue value h.2.1).1)
      have hfield := h.1.writes.append hrest (separates_of_kindForPunct hcolon _)
      have htext : name.value ++ (58 :: 32 :: printValue value) =
          printName name ++ str ": " ++ printValue value := by
        rw [List.append_assoc]
        rfl
      rw [htext] at hfield
      exact .cons ⟨hfield, nofun⟩ (writes_printObjectFields fields h.2.2)

end

end GraphqlCore.Language
