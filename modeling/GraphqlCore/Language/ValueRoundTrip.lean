import GraphqlCore.Language.RegularParsers
import GraphqlCore.Language.WrittenValues

/-!
# Printed values are parsed again

A parser takes tokens if it returns from every state in front of them and advances just
behind them.  The parser of constant values takes the tokens of every literal that can be
written, and returns the literal but for the locations.
-/

namespace GraphqlCore.Language

/-! ## Locations -/

mutual

/-- The literal without locations. -/
def ValueNode.unlocated : ValueNode → ValueNode
  | .variable node => .variable { name := { value := node.name.value } }
  | .int value _ => .int value none
  | .float value _ => .float value none
  | .string node => .string { node with loc := none }
  | .boolean value _ => .boolean value none
  | .null _ => .null none
  | .enum value _ => .enum value none
  | .list values _ => .list (unlocatedValues values) none
  | .object fields _ => .object (unlocatedFields fields) none

def unlocatedValues : List ValueNode → List ValueNode
  | [] => []
  | value :: values => value.unlocated :: unlocatedValues values

def unlocatedFields : List ObjectFieldNode → List ObjectFieldNode
  | [] => []
  | ⟨name, value, _⟩ :: fields =>
      ⟨{ value := name.value }, value.unlocated, none⟩ :: unlocatedFields fields

end

/-! ## Parsers that take tokens -/

/-- The state stands in front of the tokens, and others follow them. -/
structure Fronts (s : ParserState) (lexemes : List Lexeme) (rest : List Token) : Prop where
  unlimited : s.options.maxTokens = none
  lexed : s.failure = none
  follows : rest ≠ []
  tokens : ∃ front, s.token :: s.tokens = front ++ rest ∧ front.map Token.lexeme = lexemes

def Takes {α : Type} (p : Parser α) (lexemes : List Lexeme) (Q : α → Prop) : Prop :=
  ∀ s rest, Fronts s lexemes rest → ∃ a t, p s = .ok (a, t) ∧ Q a ∧ Fronts t [] rest

section Takes

variable {α β : Type} {p : Parser α} {f : α → Parser β} {front back : List Lexeme}
  {Q : α → Prop} {R : β → Prop} {kind : TokenKind} {value : Option Text}

/-- The rule for sequences. -/
theorem Takes.bind (hp : Takes p front Q) (hf : ∀ a, Q a → Takes (f a) back R) :
    Takes (p >>= f) (front ++ back) R := by
  rintro s rest ⟨hmax, hlexed, hrest, tokens, htokens, hlexemes⟩
  obtain ⟨x, y, rfl, hx, hy⟩ := List.map_eq_append_iff.mp hlexemes
  rw [List.append_assoc] at htokens
  obtain ⟨a, t, hread, ha, hmax', hlexed', hne, z, hz, hnil⟩ :=
    hp s (y ++ rest) ⟨hmax, hlexed, by simp [hrest], x, htokens, hx⟩
  obtain rfl := List.map_eq_nil_iff.mp hnil
  obtain ⟨b, u, hrun, hb, hu⟩ := hf a ha t rest ⟨hmax', hlexed', hrest, y, hz, hy⟩
  exact ⟨b, u, by rw [bind_of_ok hread, hrun], hb, hu⟩

theorem Takes.pure {a : α} (h : Q a) : Takes (Pure.pure a : Parser α) [] Q :=
  fun s _ hs => ⟨a, s, rfl, h, hs⟩

theorem Takes.mono {Q' : α → Prop} (hp : Takes p front Q) (h : ∀ a, Q a → Q' a) :
    Takes p front Q' := fun s rest hs =>
  let ⟨a, t, hrun, ha, ht⟩ := hp s rest hs
  ⟨a, t, hrun, h a ha, ht⟩

/-- Nothing is taken by what comes behind. -/
theorem Takes.bind_nil (hp : Takes p front Q) (hf : ∀ a, Q a → Takes (f a) [] R) :
    Takes (p >>= f) front R := by
  have htakes := hp.bind hf
  rwa [List.append_nil] at htakes

theorem Takes.map {g : α → β} (hp : Takes p front Q) (h : ∀ a, Q a → R (g a)) :
    Takes (g <$> p) front R :=
  hp.bind_nil fun a ha => .pure (h a ha)

theorem Takes.token_bind {g : Token → Parser β}
    (h : ∀ token : Token, token.lexeme = (kind, value) →
      Takes (g token) ((kind, value) :: back) R) :
    Takes (Parser.token >>= g) ((kind, value) :: back) R := by
  rintro s rest ⟨hmax, hlexed, hrest, tokens, htokens, hlexemes⟩
  obtain ⟨first, others, rfl, hfirst, hothers⟩ := List.map_eq_cons_iff.mp hlexemes
  have htoken := (List.cons.inj htokens).1
  exact h s.token (htoken ▸ hfirst) s rest
    ⟨hmax, hlexed, hrest, first :: others, htokens, by rw [List.map_cons, hfirst, hothers]⟩

namespace Parser

theorem takes_advanceLexer (lexeme : Lexeme) : Takes advanceLexer [lexeme] fun _ => True := by
  rintro s rest ⟨hmax, hlexed, hrest, tokens, htokens, hlexemes⟩
  obtain ⟨first, others, rfl, hfirst, hothers⟩ := List.map_eq_cons_iff.mp hlexemes
  obtain rfl := List.map_eq_nil_iff.mp hothers
  obtain ⟨next, others, rfl⟩ := List.exists_cons_of_ne_nil hrest
  have hnext := (List.cons.inj htokens).2
  refine ⟨(), advanced s next, advanceLexer_of_ok (lookahead_cons hnext) hmax, trivial, hmax,
    hlexed, hrest, [], ?_, rfl⟩
  rw [List.nil_append, advanced, hnext]
  rfl

theorem takes_loc (startToken : Token) : Takes (loc startToken) [] fun _ => True := by
  intro s rest hs
  obtain ⟨location, hloc⟩ := loc_run (s := s) startToken
  exact ⟨location, s, hloc, trivial, hs⟩

theorem takes_expectToken : Takes (expectToken kind) [(kind, value)] fun token =>
    token.value = value := by
  refine Takes.token_bind fun token htoken => ?_
  obtain ⟨hkind, hvalue⟩ := Prod.mk.inj htoken
  rw [if_pos hkind]
  exact (takes_advanceLexer _).bind_nil fun _ _ => .pure hvalue

section Loops

variable {γ : Type} {parseFn : Parser α} {closeKind : TokenKind} {lexemes : γ → List Lexeme}
  {Q : γ → α → Prop}

/-- Items whose first token does not end them. -/
theorem takes_itemsUntil {items : List γ} (h : ∀ item ∈ items, Takes parseFn (lexemes item)
    (Q item))
    (hfirst : ∀ item ∈ items, ∃ kind value rest,
      lexemes item = (kind, value) :: rest ∧ kind ≠ closeKind) {bound : ℕ}
    (hbound : items.length < bound) :
    Takes (itemsUntil closeKind parseFn bound)
      ((items.map lexemes).flatten ++ [(closeKind, none)]) fun nodes =>
        List.Forall₂ Q items nodes := by
  induction items generalizing bound with
  | nil =>
      obtain ⟨bound, rfl⟩ := Nat.exists_eq_add_one_of_ne_zero (Nat.ne_of_gt hbound)
      rw [itemsUntil, expectOptionalToken_bind]
      refine Takes.token_bind fun token htoken => ?_
      rw [if_pos (Prod.mk.inj htoken).1]
      exact (takes_advanceLexer _).bind_nil fun _ _ => .pure .nil
  | cons item items ih =>
      obtain ⟨bound, rfl⟩ :=
        Nat.exists_eq_add_one_of_ne_zero (Nat.ne_of_gt (Nat.zero_lt_of_lt hbound))
      obtain ⟨hitem, hitems⟩ := List.forall_mem_cons.mp h
      obtain ⟨⟨kind, value, rest, hlexemes, hkind⟩, hothers⟩ := List.forall_mem_cons.mp hfirst
      have hnodes := hitem.bind fun node hnode => (ih hitems hothers
        (Nat.lt_of_succ_lt_succ hbound)).bind_nil fun nodes hnodes =>
          .pure (List.Forall₂.cons hnode hnodes)
      rw [itemsUntil, expectOptionalToken_bind, List.map_cons, List.flatten_cons,
        List.append_assoc]
      rw [hlexemes] at hnodes ⊢
      refine Takes.token_bind fun token htoken => ?_
      rw [if_neg (by rw [(Prod.mk.inj htoken).1]; exact hkind)]
      exact hnodes

theorem takes_any {openKind : TokenKind} {items : List γ}
    (h : ∀ item ∈ items, Takes parseFn (lexemes item) (Q item))
    (hfirst : ∀ item ∈ items, ∃ kind value rest,
      lexemes item = (kind, value) :: rest ∧ kind ≠ closeKind) {bound : ℕ}
    (hbound : items.length < bound) :
    Takes (any bound openKind parseFn closeKind)
      ((openKind, none) :: ((items.map lexemes).flatten ++ [(closeKind, none)])) fun nodes =>
        List.Forall₂ Q items nodes :=
  takes_expectToken.bind fun _ _ => takes_itemsUntil h hfirst hbound

end Loops

/-! ## Constant values -/

theorem takes_parseName {name : Text} :
    Takes parseName [(.name, some name)] fun node => node.value = name := by
  refine takes_expectToken.bind_nil fun token htoken =>
    (takes_loc token).bind_nil fun loc _ => .pure ?_
  rw [htoken]
  rfl

end Parser

end Takes

section Values

variable {bound : ℕ}

theorem valueLexemes_eq (values : List ValueNode) :
    valueLexemes values = values.map ValueNode.lexemes := by
  induction values with
  | nil => rfl
  | cons value values ih => rw [valueLexemes, ih, List.map_cons]

def ObjectFieldNode.lexemes (field : ObjectFieldNode) : List Lexeme :=
  (.name, some field.name.value) :: (.colon, none) :: field.value.lexemes

theorem fieldLexemes_eq (fields : List ObjectFieldNode) :
    fieldLexemes fields = fields.map ObjectFieldNode.lexemes := by
  induction fields with
  | nil => rfl
  | cons field fields ih =>
      obtain ⟨name, value, loc⟩ := field
      rw [fieldLexemes, ih, List.map_cons, ObjectFieldNode.lexemes]

/-- A literal does not start with a token that ends a list. -/
theorem exists_first_lexeme (value : ValueNode) : ∃ kind text rest,
    value.lexemes = (kind, text) :: rest ∧ kind ≠ .bracketR := by
  cases value with
  | string node =>
      refine ⟨_, _, [], rfl, ?_⟩
      split <;> nofun
  | _ => exact ⟨_, _, _, rfl, nofun⟩

/-- The literals that differ in their locations only. -/
def ValueNode.IsLike (value parsed : ValueNode) : Prop := parsed.unlocated = value.unlocated

def ObjectFieldNode.IsLike (field parsed : ObjectFieldNode) : Prop :=
  parsed.name.value = field.name.value ∧ field.value.IsLike parsed.value

theorem unlocatedValues_of_isLike {values nodes : List ValueNode}
    (h : List.Forall₂ ValueNode.IsLike values nodes) :
    unlocatedValues nodes = unlocatedValues values := by
  induction h with
  | nil => rfl
  | cons hvalue _ ih => rw [unlocatedValues, unlocatedValues, hvalue, ih]

theorem unlocatedFields_of_isLike {fields nodes : List ObjectFieldNode}
    (h : List.Forall₂ ObjectFieldNode.IsLike fields nodes) :
    unlocatedFields nodes = unlocatedFields fields := by
  induction h with
  | nil => rfl
  | @cons field node fields nodes hfield _ ih =>
      obtain ⟨name, value, loc⟩ := field
      obtain ⟨name', value', loc'⟩ := node
      obtain ⟨hname, hvalue⟩ := hfield
      rw [unlocatedFields, unlocatedFields, hvalue, ih, hname]

namespace Parser

theorem takes_parseObjectField {parseValue : Parser ValueNode} {field : ObjectFieldNode}
    (h : Takes parseValue field.value.lexemes field.value.IsLike) :
    Takes (parseObjectField parseValue) field.lexemes field.IsLike :=
  Takes.token_bind fun start _ => takes_parseName.bind fun _ hname =>
    takes_expectToken.bind fun _ _ => h.bind_nil fun _ hvalue =>
      (takes_loc start).map fun _ _ => ⟨hname, hvalue⟩

/-- A word is a boolean, null or the name of an enum value. -/
def namedValue (text : Text) (loc : Option Location) : ValueNode :=
  if text = str "true" then .boolean true loc
  else if text = str "false" then .boolean false loc
  else if text = str "null" then .null loc
  else .enum text loc

theorem takes_parseNamedValues {text : Text} : Takes parseNamedValues [(.name, some text)]
    fun parsed => ∃ loc, parsed = namedValue text loc := by
  refine Takes.token_bind fun token htoken => ?_
  have hvalue : token.value.getD [] = text := by rw [(Prod.mk.inj htoken).2]; rfl
  rw [hvalue]
  refine (takes_advanceLexer _).bind_nil fun _ _ => (takes_loc token).bind_nil fun loc _ => ?_
  have hnamed : (if text = str "true" then return .boolean true loc
      else if text = str "false" then return .boolean false loc
      else if text = str "null" then return .null loc
      else return .enum text loc : Parser ValueNode) = pure (namedValue text loc) := by
    unfold namedValue
    split_ifs <;> rfl
  rw [hnamed]
  exact .pure ⟨loc, rfl⟩

/-- A token of a value by itself. -/
theorem takes_leaf {β : Type} {kind : TokenKind} {text : Text} {mk : Text → Option Location → β}
    {Q : β → Prop} (h : ∀ loc, Q (mk text loc)) : Takes (do
      let token ← token
      advanceLexer
      mk (token.value.getD []) <$> loc token) [(kind, some text)] Q := by
  refine Takes.token_bind fun token htoken => ?_
  have hvalue : token.value.getD [] = text := by rw [(Prod.mk.inj htoken).2]; rfl
  rw [hvalue]
  exact (takes_advanceLexer _).bind_nil fun _ _ => (takes_loc token).map fun loc _ => h loc

theorem takes_parseStringLiteral {text : Text} : Takes parseStringLiteral [(.string, some text)]
    fun node => node.value = text ∧ node.block = some false := by
  refine Takes.token_bind fun token htoken => (takes_advanceLexer _).bind_nil fun _ _ =>
    (takes_loc token).bind_nil fun loc _ => .pure ?_
  rw [(Prod.mk.inj htoken).1, (Prod.mk.inj htoken).2]
  exact ⟨rfl, rfl⟩

/-- The items of a list are not more than their tokens. -/
theorem length_le_flatten {α : Type} {items : List α} {lexemes : α → List Lexeme}
    (h : ∀ item ∈ items, lexemes item ≠ []) :
    items.length ≤ (items.map lexemes).flatten.length := by
  induction items with
  | nil => exact le_rfl
  | cons item items ih =>
      obtain ⟨hitem, hitems⟩ := List.forall_mem_cons.mp h
      have hlength := List.length_pos_iff.mpr hitem
      have hrest := ih hitems
      rw [List.map_cons, List.flatten_cons, List.length_append, List.length_cons]
      omega

theorem takes_parseVariable {name : Text} : Takes parseVariable
    [(.dollar, none), (.name, some name)] fun node => node.name.value = name :=
  Takes.token_bind fun start _ => takes_expectToken.bind fun _ _ =>
    takes_parseName.bind_nil fun _ hname => (takes_loc start).bind_nil fun _ _ => .pure hname

mutual

/-- The tokens of a literal are taken by the parser of values. -/
theorem takes_parseValueLiteral {isConst : Bool} : ∀ value : ValueNode,
    value.WritableIn isConst → ∀ {bound : ℕ}, value.lexemes.length ≤ bound →
      Takes (parseValueLiteral bound isConst) value.lexemes value.IsLike
  | .variable node, h, bound + 1, _ => by
      refine Takes.token_bind fun token htoken => ?_
      rw [(Prod.mk.inj htoken).1, h.1]
      refine takes_parseVariable.map fun parsed hparsed => ?_
      rw [ValueNode.IsLike, ValueNode.unlocated, ValueNode.unlocated, hparsed]
  | .int text _, h, bound + 1, _ => by
      refine Takes.token_bind fun token htoken => ?_
      rw [(Prod.mk.inj htoken).1]
      exact takes_leaf fun _ => rfl
  | .float text _, h, bound + 1, _ => by
      refine Takes.token_bind fun token htoken => ?_
      rw [(Prod.mk.inj htoken).1]
      exact takes_leaf fun _ => rfl
  | .string node, h, bound + 1, _ => by
      have hblock : ¬node.block = some true := by rw [h.1]; nofun
      rw [ValueNode.lexemes, if_neg hblock]
      refine Takes.token_bind fun token htoken => ?_
      rw [(Prod.mk.inj htoken).1]
      refine takes_parseStringLiteral.map fun parsed hparsed => ?_
      rw [ValueNode.IsLike, ValueNode.unlocated, ValueNode.unlocated, hparsed.1, hparsed.2, h.1]
  | .boolean value _, h, bound + 1, _ => by
      refine Takes.token_bind fun token htoken => ?_
      rw [(Prod.mk.inj htoken).1]
      refine takes_parseNamedValues.mono ?_
      rintro _ ⟨loc, rfl⟩
      cases value <;> rfl
  | .null _, h, bound + 1, _ => by
      refine Takes.token_bind fun token htoken => ?_
      rw [(Prod.mk.inj htoken).1]
      refine takes_parseNamedValues.mono ?_
      rintro _ ⟨loc, rfl⟩
      rfl
  | .enum text _, h, bound + 1, _ => by
      refine Takes.token_bind fun token htoken => ?_
      rw [(Prod.mk.inj htoken).1]
      refine takes_parseNamedValues.mono ?_
      rintro _ ⟨loc, rfl⟩
      obtain ⟨-, htrue, hfalse, hnull⟩ := h
      rw [namedValue, if_neg htrue, if_neg hfalse, if_neg hnull]
      rfl
  | .list values _, h, bound + 1, hbound => by
      rw [ValueNode.lexemes, List.length_cons, List.length_append, List.length_singleton] at hbound
      have hitems := takes_parseValueLiterals values h (Nat.le_of_succ_le
        (Nat.le_of_succ_le_succ hbound))
      rw [valueLexemes_eq] at hbound
      have hlength : values.length ≤ (values.map ValueNode.lexemes).flatten.length := by
        refine length_le_flatten fun value _ => ?_
        obtain ⟨_, _, _, hfirst, -⟩ := exists_first_lexeme value
        rw [hfirst]
        exact List.cons_ne_nil _ _
      rw [ValueNode.lexemes, valueLexemes_eq]
      refine Takes.token_bind fun token htoken => ?_
      rw [(Prod.mk.inj htoken).1]
      refine Takes.bind_nil (takes_any hitems (fun value _ => exists_first_lexeme value)
        (by omega)) fun nodes hnodes => (takes_loc token).map fun loc _ => ?_
      rw [ValueNode.IsLike, ValueNode.unlocated, ValueNode.unlocated,
        unlocatedValues_of_isLike hnodes]
  | .object fields _, h, bound + 1, hbound => by
      rw [ValueNode.lexemes, List.length_cons, List.length_append, List.length_singleton] at hbound
      have hitems := takes_parseObjectFields fields h (Nat.le_of_succ_le
        (Nat.le_of_succ_le_succ hbound))
      rw [fieldLexemes_eq] at hbound
      have hlength : fields.length ≤ (fields.map ObjectFieldNode.lexemes).flatten.length :=
        length_le_flatten fun _ _ => List.cons_ne_nil _ _
      have hfirst : ∀ field ∈ fields, ∃ kind value rest,
          field.lexemes = (kind, value) :: rest ∧ kind ≠ .braceR :=
        fun field _ => ⟨.name, _, _, rfl, nofun⟩
      rw [ValueNode.lexemes, fieldLexemes_eq]
      refine Takes.token_bind fun token htoken => ?_
      rw [(Prod.mk.inj htoken).1]
      refine Takes.bind_nil (takes_any hitems hfirst (by omega))
        fun nodes hnodes => (takes_loc token).map fun loc _ => ?_
      rw [ValueNode.IsLike, ValueNode.unlocated, ValueNode.unlocated,
        unlocatedFields_of_isLike hnodes]

theorem takes_parseValueLiterals {isConst : Bool} : ∀ values : List ValueNode,
    WritableValuesIn isConst values → ∀ {bound : ℕ},
      (valueLexemes values).flatten.length ≤ bound →
        ∀ value ∈ values, Takes (parseValueLiteral bound isConst) value.lexemes value.IsLike
  | [], _, _, _, _, hmem => nomatch hmem
  | value :: values, h, bound, hbound, value', hmem => by
      rw [valueLexemes, List.flatten_cons, List.length_append] at hbound
      rcases List.mem_cons.mp hmem with heq | hmem
      · rw [heq]
        exact takes_parseValueLiteral value h.1 (by omega)
      · exact takes_parseValueLiterals values h.2 (by omega) value' hmem

theorem takes_parseObjectFields {isConst : Bool} : ∀ fields : List ObjectFieldNode,
    WritableFieldsIn isConst fields → ∀ {bound : ℕ},
      (fieldLexemes fields).flatten.length ≤ bound → ∀ field ∈ fields,
        Takes (parseObjectField (parseValueLiteral bound isConst)) field.lexemes field.IsLike
  | [], _, _, _, _, hmem => nomatch hmem
  | ⟨name, value, loc⟩ :: fields, h, bound, hbound, field, hmem => by
      rw [fieldLexemes, List.flatten_cons, List.length_append, List.length_cons,
        List.length_cons] at hbound
      rcases List.mem_cons.mp hmem with heq | hmem
      · rw [heq]
        exact takes_parseObjectField (takes_parseValueLiteral value h.2.1 (by omega))
      · exact takes_parseObjectFields fields h.2.2 (by omega) field hmem

end

/-- A node that takes up all tokens. -/
theorem whole_of_takes {α : Type} {parseFn : Parser α} {lexemes : List Lexeme} {Q : α → Prop}
    (h : Takes parseFn lexemes Q) {options : ParseOptions} (hmax : options.maxTokens = none)
    {tokens : List Token} {eof : Token} (hlexemes : tokens.map Token.lexeme = lexemes)
    (heof : eof.kind = .eof) :
    ∃ a t, whole parseFn (.initial options (tokens ++ [eof], none)) = .ok (a, t) ∧ Q a := by
  have hfronts : Fronts (.initial options (tokens ++ [eof], none)) ((.sof, none) :: lexemes)
      [eof] := by
    refine ⟨hmax, rfl, List.cons_ne_nil _ _, sofToken :: tokens, rfl, ?_⟩
    rw [List.map_cons, hlexemes]
    rfl
  have htakes : Takes (do
      let _ ← expectToken .sof
      parseFn) ((.sof, none) :: lexemes) Q := takes_expectToken.bind fun _ _ => h
  obtain ⟨a, t, hrun, ha, -, hlexed, -, front, htokens, hnil⟩ := htakes _ _ hfronts
  obtain rfl := List.map_eq_nil_iff.mp hnil
  obtain ⟨htoken, hrest⟩ := List.cons.inj htokens
  have hend : advanceLexer t = .ok ((), advanced t t.token) :=
    advanceLexer_of_eof (lookahead_end hrest hlexed) (htoken ▸ heof)
  have hexpect : expectToken .eof t = .ok (t.token, advanced t t.token) := by
    change (if t.token.kind = .eof then _ else _ : Parser Token) t = _
    rw [if_pos (htoken ▸ heof), bind_of_ok hend]
    rfl
  refine ⟨a, advanced t t.token, ?_, ha⟩
  unfold whole
  rw [← bind_assoc, bind_of_ok hrun, bind_of_ok hexpect]
  rfl

end Parser

/-- What is printed for a literal is parsed to the literal, but for the locations. -/
theorem parseConstValue_printValue (noLocation : Bool) (value : ValueNode) (h : value.Writable) :
    ∃ parsed, parseConstValue { noLocation } (printValue value) = .ok parsed ∧
      parsed.unlocated = value.unlocated := by
  have hwritable : value.WritableIn true := value.writableIn_of_writable h
  obtain ⟨tokens, eof, hlex, hlexemes, heof⟩ := lex_of_writes (writes_printValue value hwritable).1
  have hbound : value.lexemes.length ≤ (lex (printValue value)).1.length + 1 := by
    rw [hlex, List.length_append, ← hlexemes, List.length_map]
    omega
  have hmax : ({ noLocation } : ParseOptions).maxTokens = none := rfl
  obtain ⟨parsed, t, hrun, hlike⟩ := Parser.whole_of_takes
    (Parser.takes_parseValueLiteral value hwritable hbound) hmax hlexemes heof
  refine ⟨parsed, runParser_eq_ok.mpr ⟨t, ?_⟩, hlike⟩
  rw [← hlex] at hrun
  exact hrun

end Values

end GraphqlCore.Language
