import GraphqlCore.Language.ParsedLiterals
import GraphqlCore.Language.WritableNodes

/-!
# Parsed nodes can be written

From tokens without block strings, whose other strings have surrogates in pairs only, each parser
makes a node that can be written.
-/

namespace GraphqlCore.Language

/-! ## Tokens that can be written -/

/-- The value of the token is of its kind, and it is no block string. -/
structure Token.Writable (token : Token) : Prop where
  sound : token.Sound
  no_block : token.kind ≠ .blockString
  paired : token.kind = .string → IsPaired (token.value.getD [])

theorem Token.Writable.name {token : Token} (h : token.Writable) (hkind : token.kind = .name) :
    IsName (token.value.getD []) := h.sound.name hkind

theorem isUnicodeScalarValue_of_escapedChar {c value : ℕ} (h : escapedChar c = some value) :
    isUnicodeScalarValue value := by
  unfold escapedChar at h
  split at h <;> cases h <;> simp [isUnicodeScalarValue]

theorem isUnicodeScalarValue_decodeSurrogatePair {c d : ℕ} (hleading : isLeadingSurrogate c)
    (htrailing : isTrailingSurrogate d) : isUnicodeScalarValue (decodeSurrogatePair c d) := by
  have hc : 0xD800 ≤ c ∧ c ≤ 0xDBFF := by simpa [isLeadingSurrogate] using hleading
  have hd : 0xDC00 ≤ d ∧ d ≤ 0xDFFF := by simpa [isTrailingSurrogate] using htrailing
  have hvalue : 0xE000 ≤ decodeSurrogatePair c d ∧ decodeSurrogatePair c d ≤ 0x10FFFF := by
    unfold decodeSurrogatePair
    omega
  simp [isUnicodeScalarValue, hvalue]

theorem SpellsEscape.scalar {escape : Text} {code : ℕ} (h : SpellsEscape escape code) :
    isUnicodeScalarValue code := by
  cases h with
  | character h => exact isUnicodeScalarValue_of_escapedChar h
  | fixedWidth _ hscalar => exact hscalar
  | surrogatePair _ hleading _ htrailing =>
      exact isUnicodeScalarValue_decodeSurrogatePair hleading htrailing
  | variableWidth _ _ _ hscalar => exact hscalar

theorem SpellsString.isPaired {chars value : Text} (h : SpellsString chars value) :
    IsPaired value := by
  induction h with
  | nil => exact .nil
  | plain _ _ _ hscalar _ ih => exact .scalar hscalar ih
  | surrogates hleading htrailing _ ih => exact .surrogates hleading htrailing ih
  | escape hescape _ ih => exact .scalar hescape.scalar ih

theorem SpellsToken.isPaired {kind : TokenKind} {value : Option Text} {text : Text}
    (h : SpellsToken kind value text) (hkind : kind = .string) : IsPaired (value.getD []) := by
  cases h with
  | punctuator hpunct =>
      rw [hkind, kindForPunct.eq_def] at hpunct
      split at hpunct <;> cases hpunct
  | @number isFloat => cases isFloat <;> cases hkind
  | string hspells => exact hspells.isPaired
  | spread | name | blockString => cases hkind

theorem readNextToken_isPaired {cursor next : Cursor} {token : Token}
    (hread : readNextToken cursor = .ok (token, next)) (hkind : token.kind = .string) :
    IsPaired (token.value.getD []) := by
  obtain ⟨skipped, start, -, -, -, hbehind⟩ := readNextToken_behind cursor
  rw [hread] at hbehind
  obtain ⟨-, hend⟩ | ⟨c, rest, -, -, htoken⟩ := hbehind
  · obtain ⟨rfl, -⟩ := Prod.mk.inj (Except.ok.inj hend)
    cases hkind
  · have hcomment : token.kind ≠ .comment := by rw [hkind]; nofun
    obtain ⟨text, -, hspells, -⟩ := spells_of_readToken htoken.symm hcomment
    exact hspells.isPaired hkind

/-- The tokens of a source without block strings can be written. -/
theorem lex_writable {source : Text}
    (h : ∀ token ∈ (lex source).1, token.kind ≠ .blockString) :
    ∀ token ∈ (lex source).1, token.Writable := fun token htoken =>
  ⟨lexTokens_forall readNextToken_sound _ _ token htoken, h token htoken,
    lexTokens_forall readNextToken_isPaired _ _ token htoken⟩

/-! ## Parsers that make nodes -/

namespace Parser

/-- With these options, and in front of tokens that can be written. -/
structure Supplied (options : ParseOptions) (s : ParserState) : Prop where
  options_eq : s.options = options
  token : s.token.Writable
  tokens : ∀ token ∈ s.tokens, Token.Writable token

/-- From this state the parser returns what has the property. -/
def MakesAt {α : Type} (options : ParseOptions) (s : ParserState) (p : Parser α) (Q : α → Prop) :
    Prop :=
  Supplied options s → ∀ a t, p s = .ok (a, t) → Q a ∧ Supplied options t

def Makes {α : Type} (options : ParseOptions) (p : Parser α) (Q : α → Prop) : Prop :=
  ∀ s, MakesAt options s p Q

variable {options : ParseOptions} {bound : ℕ} {isConst : Bool}

section Makes

variable {α β : Type} {p : Parser α} {f : α → Parser β} {Q : α → Prop} {R : β → Prop}
  {kind openKind closeKind : TokenKind} {text : Text}

theorem MakesAt.bind {s : ParserState} (hp : MakesAt options s p Q)
    (hf : ∀ a, Q a → Makes options (f a) R) : MakesAt options s (p >>= f) R := by
  intro hs b u hrun
  obtain ⟨a, t, hpa, hfa⟩ := run_bind_eq_ok.mp hrun
  obtain ⟨ha, ht⟩ := hp hs a t hpa
  exact hf a ha t ht b u hfa

/-- The current token is read. -/
theorem MakesAt.token_bind {s : ParserState} {g : Token → Parser β}
    (h : s.token.Writable → MakesAt options s (g s.token) R) :
    MakesAt options s (token >>= g) R :=
  fun hs => h hs.token hs

theorem Makes.bind (hp : Makes options p Q) (hf : ∀ a, Q a → Makes options (f a) R) :
    Makes options (p >>= f) R :=
  fun s => (hp s).bind hf

theorem Makes.pure {a : α} (h : Q a) : Makes options (Pure.pure a : Parser α) Q := by
  rintro s hs _ _ ⟨⟩
  exact ⟨h, hs⟩

theorem Makes.map {g : α → β} (hp : Makes options p Q) (h : ∀ a, Q a → R (g a)) :
    Makes options (g <$> p) R :=
  hp.bind fun a ha => .pure (h a ha)

theorem Makes.ite {c : Prop} [Decidable c] {q : Parser α} (hp : c → Makes options p Q)
    (hq : ¬c → Makes options q Q) : Makes options (if c then p else q) Q := by
  split
  · next h => exact hp h
  · next h => exact hq h

theorem makes_raise {position : ℕ} {description : Text} :
    Makes options (raise position description : Parser α) Q := by
  intro s _ a t hrun
  cases hrun

theorem makes_exhausted : Makes options (exhausted : Parser α) Q := by
  intro s _ a t hrun
  cases hrun

theorem makes_token : Makes options token Token.Writable := by
  rintro s hs _ _ ⟨⟩
  exact ⟨hs.token, hs⟩

theorem makes_get : Makes options Action.get fun s => s.options = options := by
  rintro s hs _ _ ⟨⟩
  exact ⟨hs.options_eq, hs⟩

theorem makes_loc (startToken : Token) : Makes options (loc startToken) fun _ => True := by
  intro s hs location t hrun
  obtain ⟨location', hloc⟩ := loc_run (s := s) startToken
  obtain ⟨rfl, rfl⟩ := Prod.mk.inj (Except.ok.inj (hloc.symm.trans hrun))
  exact ⟨trivial, hs⟩

/-- The node is finished with its location. -/
theorem Makes.located {mk : Option Location → β} {startToken : Token}
    (h : ∀ location, R (mk location)) :
    Makes options (do return mk (← loc startToken)) R :=
  (makes_loc startToken).bind fun location _ => .pure (h location)

theorem makes_lookahead : Makes options lookahead Token.Writable := by
  intro s hs token t hrun
  cases htokens : s.tokens with
  | cons ahead tokens =>
      rw [lookahead_cons htokens] at hrun
      cases hrun
      exact ⟨hs.tokens token (htokens ▸ List.mem_cons_self), hs⟩
  | nil =>
      cases hfailure : s.failure with
      | none =>
          rw [lookahead_end htokens hfailure] at hrun
          cases hrun
          exact ⟨hs.token, hs⟩
      | some error =>
          rw [lookahead_failure htokens hfailure] at hrun
          cases hrun

theorem makes_advanceLexer : Makes options advanceLexer fun _ => True := by
  intro s hs _ t hrun
  obtain ⟨next, hlook, rfl⟩ := advanceLexer_eq_ok hrun
  exact ⟨trivial, hs.options_eq, (makes_lookahead s hs next s hlook).1,
    fun token htoken => hs.tokens token (List.mem_of_mem_tail htoken)⟩

theorem makes_peek : Makes options (peek kind) fun _ => True :=
  makes_token.bind fun _ _ => .pure trivial

theorem makesAt_expectToken {s : ParserState} : MakesAt options s (expectToken kind) fun token =>
    token = s.token ∧ token.kind = kind ∧ token.Writable :=
  MakesAt.token_bind fun htoken => Makes.ite (fun hkind => makes_advanceLexer.bind fun _ _ =>
    .pure ⟨rfl, hkind, htoken⟩) (fun _ => makes_raise) s

theorem makes_expectToken : Makes options (expectToken kind) fun token =>
    token.kind = kind ∧ token.Writable := by
  intro s hs token t hrun
  obtain ⟨⟨-, htoken⟩, ht⟩ := makesAt_expectToken hs token t hrun
  exact ⟨htoken, ht⟩

theorem makes_expectOptionalToken : Makes options (expectOptionalToken kind) fun _ => True :=
  makes_token.bind fun _ _ => .ite
    (fun _ => makes_advanceLexer.bind fun _ _ => .pure trivial) fun _ => .pure trivial

theorem makes_expectKeyword : Makes options (expectKeyword text) fun _ => True :=
  makes_token.bind fun _ _ => .ite (fun _ => makes_advanceLexer) fun _ => makes_raise

theorem makes_expectOptionalKeyword :
    Makes options (expectOptionalKeyword text) fun _ => True :=
  makes_token.bind fun _ _ => .ite
    (fun _ => makes_advanceLexer.bind fun _ _ => .pure trivial) fun _ => .pure trivial

theorem makes_orNone {condition : Bool} (h : Makes options p Q) :
    Makes options (orNone condition p) fun node => ∀ a ∈ node, Q a :=
  .ite (fun _ => h.map fun a ha b hb => Option.some.inj hb ▸ ha) fun _ => .pure (by simp)

theorem makes_itemsUntil (h : Makes options p Q) : ∀ bound,
    Makes options (itemsUntil closeKind p bound) fun nodes => ∀ node ∈ nodes, Q node
  | 0 => makes_exhausted
  | bound + 1 => makes_expectOptionalToken.bind fun _ _ => .ite
      (fun _ => .pure (List.forall_mem_nil _))
      fun _ => h.bind fun _ hnode => (makes_itemsUntil h bound).bind fun _ hnodes =>
        .pure (List.forall_mem_cons.mpr ⟨hnode, hnodes⟩)

/-- At least one node. -/
def SomeNodes (Q : α → Prop) (nodes : List α) : Prop := nodes ≠ [] ∧ ∀ node ∈ nodes, Q node

theorem makes_someUntil (h : Makes options p Q) :
    Makes options (someUntil bound p closeKind) (SomeNodes Q) :=
  h.bind fun _ hnode => (makes_itemsUntil h bound).bind fun _ hnodes =>
    .pure ⟨List.cons_ne_nil _ _, List.forall_mem_cons.mpr ⟨hnode, hnodes⟩⟩

theorem makes_any (h : Makes options p Q) :
    Makes options (any bound openKind p closeKind) fun nodes => ∀ node ∈ nodes, Q node :=
  makes_expectToken.bind fun _ _ => makes_itemsUntil h bound

theorem makes_many (h : Makes options p Q) :
    Makes options (many bound openKind p closeKind) (SomeNodes Q) :=
  makes_expectToken.bind fun _ _ => makes_someUntil h

theorem makes_optionalMany (h : Makes options p Q) :
    Makes options (optionalMany bound openKind p closeKind) (GivenNodes Q) :=
  makes_expectOptionalToken.bind fun _ _ => makes_orNone (makes_someUntil h)

end Makes

/-! ## Names, types and values -/

theorem makes_parseName : Makes options parseName NameNode.Writable :=
  makes_expectToken.bind fun _ htoken => .located fun _ => htoken.2.name htoken.1

theorem makes_parseNamedType : Makes options parseNamedType NamedTypeNode.Writable :=
  makes_token.bind fun _ _ => makes_parseName.bind fun _ hname => .located fun _ => hname

/-- A type that may be wrapped by Non-Null. -/
def TypeNode.Wrappable (type : TypeNode) : Prop :=
  type.Writable ∧ ∀ loc, (TypeNode.nonNull type loc).Writable

theorem makes_parseTypeReference : ∀ bound,
    Makes options (parseTypeReference bound) TypeNode.Writable
  | 0 => makes_exhausted
  | bound + 1 => by
      refine makes_token.bind fun start _ => ?_
      have hrest : ∀ type : TypeNode, TypeNode.Wrappable type → Makes options (do
          if ← expectOptionalToken .bang then TypeNode.nonNull type <$> loc start
          else return type) TypeNode.Writable := fun type htype =>
        makes_expectOptionalToken.bind fun _ _ => .ite
          (fun _ => (makes_loc start).map fun location _ => htype.2 location)
          fun _ => .pure htype.1
      have hlist : Makes options (do
          let innerType ← parseTypeReference bound
          let _ ← expectToken .bracketR
          TypeNode.list innerType <$> loc start) TypeNode.Wrappable :=
        (makes_parseTypeReference bound).bind fun type htype => makes_expectToken.bind
          fun _ _ => (makes_loc start).map fun _ _ => ⟨htype, fun _ => htype⟩
      have hnamed : Makes options (TypeNode.named <$> parseNamedType) TypeNode.Wrappable :=
        makes_parseNamedType.map fun _ hname => ⟨hname, fun _ => hname⟩
      exact makes_expectOptionalToken.bind fun _ _ => .ite (fun _ => hlist.bind hrest)
        fun _ => hnamed.bind hrest

theorem makes_parseVariable :
    Makes options parseVariable fun node => node.name.Writable :=
  makes_token.bind fun _ _ => makes_expectToken.bind fun _ _ => makes_parseName.bind
    fun _ hname => .located fun _ => hname

theorem makesAt_parseStringLiteral {s : ParserState} (hkind : s.token.kind = .string) :
    MakesAt options s parseStringLiteral StringValueNode.Writable := by
  refine MakesAt.token_bind fun htoken => ?_
  have hwritable : ∀ location, StringValueNode.Writable
      { value := s.token.value.getD [], block := some (decide (s.token.kind = .blockString))
        loc := location } := by
    rw [hkind]
    exact fun location => ⟨rfl, htoken.paired hkind⟩
  exact (makes_advanceLexer.bind fun _ _ => Makes.located hwritable) s

theorem makesAt_leaf {β : Type} {s : ParserState} {mk : Option Location → β} {R : β → Prop}
    (h : ∀ location, R (mk location)) : MakesAt options s (do
      advanceLexer
      mk <$> loc s.token) R :=
  (makes_advanceLexer.bind fun _ _ => (makes_loc s.token).map fun location _ => h location) s

theorem makesAt_parseNamedValues {s : ParserState} (hname : IsName (s.token.value.getD [])) :
    MakesAt options s parseNamedValues (ValueNode.WritableIn isConst) := by
  refine MakesAt.token_bind fun _ => ?_
  exact (makes_advanceLexer.bind fun _ _ => (makes_loc s.token).bind fun location _ =>
    .ite (fun _ => .pure trivial) fun htrue => .ite (fun _ => .pure trivial) fun hfalse =>
      .ite (fun _ => .pure trivial) fun hnull => .pure ⟨hname, htrue, hfalse, hnull⟩) s

theorem makes_parseVariableValue :
    Makes options (parseVariableValue isConst) (ValueNode.WritableIn isConst) := by
  cases isConst with
  | false => exact makes_parseVariable.map fun _ hname => ⟨rfl, hname⟩
  | true =>
      exact makes_expectToken.bind fun _ _ => makes_token.bind fun _ _ =>
        .ite (fun _ => makes_raise) fun _ => makes_raise

theorem makes_parseObjectField {parseValue : Parser ValueNode}
    (h : Makes options parseValue (ValueNode.WritableIn isConst)) :
    Makes options (parseObjectField parseValue) fun field =>
      IsName field.name.value ∧ field.value.WritableIn isConst :=
  makes_token.bind fun start _ => makes_parseName.bind fun _ hname =>
    makes_expectToken.bind fun _ _ => h.bind fun _ hvalue =>
      (makes_loc start).map fun _ _ => ⟨hname, hvalue⟩

theorem writableValuesIn_iff {values : List ValueNode} :
    WritableValuesIn isConst values ↔ ∀ value ∈ values, ValueNode.WritableIn isConst value := by
  induction values with
  | nil => simp [WritableValuesIn]
  | cons value values ih => rw [WritableValuesIn, ih, List.forall_mem_cons]

theorem writableFieldsIn_iff {fields : List ObjectFieldNode} :
    WritableFieldsIn isConst fields ↔
      ∀ field ∈ fields, IsName field.name.value ∧ field.value.WritableIn isConst := by
  induction fields with
  | nil => simp [WritableFieldsIn]
  | cons field fields ih =>
      obtain ⟨name, value, loc⟩ := field
      rw [WritableFieldsIn, ih, List.forall_mem_cons, and_assoc]

theorem makes_parseValueLiteral : ∀ bound,
    Makes options (parseValueLiteral bound isConst) (ValueNode.WritableIn isConst)
  | 0 => makes_exhausted
  | bound + 1 => by
      have hvalue := makes_parseValueLiteral bound
      refine fun s => MakesAt.token_bind fun htoken => ?_
      split
      · refine ((makes_any hvalue).bind fun values hvalues => (makes_loc s.token).map
          fun _ _ => ?_) s
        exact writableValuesIn_iff.mpr hvalues
      · refine ((makes_any (makes_parseObjectField hvalue)).bind fun fields hfields =>
          (makes_loc s.token).map fun _ _ => ?_) s
        exact writableFieldsIn_iff.mpr hfields
      · next hkind =>
        have hsound := htoken.sound
        rw [Token.Sound, hkind] at hsound
        exact MakesAt.token_bind fun _ => makesAt_leaf fun _ => hsound
      · next hkind =>
        have hsound := htoken.sound
        rw [Token.Sound, hkind] at hsound
        exact MakesAt.token_bind fun _ => makesAt_leaf fun _ => hsound
      · next hkind => exact (makesAt_parseStringLiteral hkind).bind fun node hnode => .pure hnode
      · next hkind => exact absurd hkind htoken.no_block
      · next hkind => exact makesAt_parseNamedValues (htoken.name hkind)
      · exact makes_parseVariableValue s
      · exact makes_raise s

theorem makes_parseDescription : Makes options parseDescription WritableDescription := by
  rw [parseDescription_eq]
  refine fun s => MakesAt.token_bind fun htoken => ?_
  by_cases hkind : s.token.kind = .string
  · rw [decide_eq_true hkind, Bool.true_or, orNone, if_pos rfl]
    refine (makesAt_parseStringLiteral hkind).bind fun node hnode => .pure ?_
    intro parsed hparsed
    exact Option.some.inj hparsed ▸ hnode
  · rw [decide_eq_false hkind, decide_eq_false htoken.no_block]
    exact Makes.pure (by simp [WritableDescription]) s

/-! ## Arguments and directives -/

theorem makes_parseArgument :
    Makes options (parseArgument bound isConst) (ArgumentNode.Writable isConst) :=
  makes_token.bind fun _ _ => makes_parseName.bind fun _ hname => makes_expectToken.bind
    fun _ _ => (makes_parseValueLiteral bound).bind fun _ hvalue => .located fun _ =>
      ⟨hname, hvalue⟩

theorem makes_parseArguments :
    Makes options (parseArguments bound isConst) (GivenNodes (ArgumentNode.Writable isConst)) :=
  makes_optionalMany makes_parseArgument

theorem makes_parseFragmentArgument :
    Makes options (parseFragmentArgument bound) FragmentArgumentNode.Writable :=
  makes_token.bind fun _ _ => makes_parseName.bind fun _ hname => makes_expectToken.bind
    fun _ _ => (makes_parseValueLiteral bound).bind fun _ hvalue => .located fun _ =>
      ⟨hname, hvalue⟩

theorem makes_parseFragmentArguments :
    Makes options (parseFragmentArguments bound) (GivenNodes FragmentArgumentNode.Writable) :=
  makes_optionalMany makes_parseFragmentArgument

theorem makes_parseDirective :
    Makes options (parseDirective bound isConst) (DirectiveNode.Writable isConst) :=
  makes_token.bind fun _ _ => makes_expectToken.bind fun _ _ => makes_parseName.bind
    fun _ hname => makes_parseArguments.bind fun _ harguments => .located fun _ =>
      ⟨hname, harguments⟩

theorem makes_directiveItems : ∀ steps,
    Makes options (directiveItems bound isConst steps) fun directives =>
      ∀ node ∈ directives, DirectiveNode.Writable isConst node
  | 0 => makes_exhausted
  | steps + 1 => makes_peek.bind fun _ _ => .ite
      (fun _ => makes_parseDirective.bind fun _ hnode => (makes_directiveItems steps).bind
        fun _ hnodes => .pure (List.forall_mem_cons.mpr ⟨hnode, hnodes⟩))
      fun _ => .pure (List.forall_mem_nil _)

theorem makes_parseDirectives :
    Makes options (parseDirectives bound isConst) (WritableDirectives isConst) := by
  refine (makes_directiveItems bound).bind fun directives hdirectives => .pure ?_
  cases directives with
  | nil => exact nofun
  | cons node directives =>
      intro list hlist
      obtain rfl := Option.some.inj hlist
      exact ⟨List.cons_ne_nil _ _, hdirectives⟩

/-! ## Selections -/

theorem makesAt_parseName {s : ParserState} : MakesAt options s parseName fun name =>
    name.Writable ∧ name.value = s.token.value.getD [] :=
  makesAt_expectToken.bind fun _ htoken => .located fun _ =>
    ⟨htoken.2.2.name htoken.2.1, by rw [htoken.1]⟩

/-- A fragment is not named like the keyword of its type condition. -/
theorem makes_parseFragmentName :
    Makes options parseFragmentName fun name => name.Writable ∧ name.value ≠ str "on" := by
  refine fun s => MakesAt.token_bind fun _ => ?_
  split
  · exact makes_raise s
  · next hvalue =>
    intro hs name t hrun
    obtain ⟨⟨hname, htext⟩, ht⟩ := makesAt_parseName hs name t hrun
    refine ⟨⟨hname, fun hon => hvalue ?_⟩, ht⟩
    rw [htext] at hon
    cases htoken : s.token.value with
    | none =>
        rw [htoken] at hon
        cases hon
    | some text =>
        rw [htoken] at hon
        exact congrArg some hon

theorem makes_parseTypeCondition : Makes options parseTypeCondition NamedTypeNode.Writable :=
  makes_expectKeyword.bind fun _ _ => makes_parseNamedType

theorem makes_parseAliasAndName : Makes options parseAliasAndName fun names =>
    (∀ node ∈ names.1, NameNode.Writable node) ∧ names.2.Writable :=
  makes_parseName.bind fun _ hname => makes_expectOptionalToken.bind fun _ _ => .ite
    (fun _ => makes_parseName.bind fun _ hname' => .pure
      ⟨fun _ hnode => Option.some.inj hnode ▸ hname, hname'⟩)
    fun _ => .pure ⟨by simp, hname⟩

theorem writableSelectionSet?_iff {selectionSet : Option SelectionSetNode} :
    WritableSelectionSet? options selectionSet ↔
      ∀ node ∈ selectionSet, SelectionSetNode.Writable options node := by
  cases selectionSet with
  | none => simp [WritableSelectionSet?]
  | some node => simp [WritableSelectionSet?]

theorem writableSelections_iff {selections : List SelectionNode} :
    WritableSelections options selections ↔
      ∀ selection ∈ selections, SelectionNode.Writable options selection := by
  induction selections with
  | nil => simp [WritableSelections]
  | cons selection selections ih => rw [WritableSelections, ih, List.forall_mem_cons]

section Selections

variable {parseSelections : Parser SelectionSetNode}

theorem makes_parseField (h : Makes options parseSelections (SelectionSetNode.Writable options)) :
    Makes options (parseField bound parseSelections) fun node =>
      (SelectionNode.field node).Writable options :=
  makes_token.bind fun start _ => makes_parseAliasAndName.bind fun _ hnames =>
    makes_parseArguments.bind fun _ harguments => makes_parseDirectives.bind fun _ hdirectives =>
      makes_peek.bind fun _ _ => (makes_orNone h).bind fun _ hset =>
        (makes_loc start).map fun _ _ => ⟨hnames.1, hnames.2, harguments, hdirectives,
          writableSelectionSet?_iff.mpr hset⟩

theorem makes_parseFragment
    (h : Makes options parseSelections (SelectionSetNode.Writable options)) :
    Makes options (parseFragment bound parseSelections) (SelectionNode.Writable options) := by
  refine makes_token.bind fun start _ => makes_expectToken.bind fun _ _ =>
    makes_expectOptionalKeyword.bind fun hasTypeCondition _ => makes_peek.bind fun _ _ =>
      .ite (fun _ => ?_) fun _ => ?_
  · refine makes_parseFragmentName.bind fun name hname => makes_get.bind fun s hoptions =>
      makes_peek.bind fun isOpen _ => ?_
    have hrest : ∀ arguments : Option (List FragmentArgumentNode),
        GivenNodes FragmentArgumentNode.Writable arguments →
        (options.experimentalFragmentArguments = false → arguments = none) →
        Makes options (do
          let directives ← parseDirectives bound false
          let loc ← loc start
          return SelectionNode.fragmentSpread
            { name := name, arguments := arguments, directives := directives, loc := loc })
          (SelectionNode.Writable options) := fun arguments harguments hexperimental =>
      makes_parseDirectives.bind fun _ hdirectives => (makes_loc start).bind fun _ _ =>
        .pure ⟨hname.1, hname.2, harguments, hexperimental, hdirectives⟩
    refine .ite (fun hopen => makes_parseFragmentArguments.bind fun arguments harguments =>
      hrest arguments harguments fun hexperimental => ?_) fun _ => ?_
    · rw [hoptions, hexperimental, Bool.and_false] at hopen
      cases hopen
    · exact (Makes.pure (Q := fun arguments => arguments = none) rfl).bind fun arguments hnone =>
        hrest arguments (by rw [hnone]; nofun) fun _ => hnone
  · exact (makes_orNone makes_parseNamedType).bind fun _ hcondition =>
      makes_parseDirectives.bind fun _ hdirectives => h.bind fun _ hset =>
        (makes_loc start).bind fun _ _ => .pure ⟨hcondition, hdirectives, hset⟩

theorem makes_parseSelection
    (h : Makes options parseSelections (SelectionSetNode.Writable options)) :
    Makes options (parseSelection bound parseSelections) (SelectionNode.Writable options) :=
  makes_peek.bind fun _ _ => .ite (fun _ => makes_parseFragment h)
    fun _ => (makes_parseField h).map fun _ hnode => hnode

end Selections

theorem makes_parseSelectionSet : ∀ bound,
    Makes options (parseSelectionSet bound) (SelectionSetNode.Writable options)
  | 0 => makes_exhausted
  | bound + 1 => makes_token.bind fun start _ =>
      (makes_many (makes_parseSelection (makes_parseSelectionSet bound))).bind
        fun _ hselections => (makes_loc start).map fun _ _ =>
          ⟨hselections.1, writableSelections_iff.mpr hselections.2⟩

/-! ## Executable definitions -/

theorem makes_parseOperationType : Makes options parseOperationType fun _ => True :=
  makes_expectToken.bind fun _ _ => .ite (fun _ => .pure trivial) fun _ =>
    .ite (fun _ => .pure trivial) fun _ => .ite (fun _ => .pure trivial) fun _ => makes_raise

theorem makes_parseDefaultValue : Makes options (parseDefaultValue bound) WritableDefault :=
  makes_expectOptionalToken.bind fun _ _ => makes_orNone (makes_parseValueLiteral bound)

theorem makes_parseVariableDefinition :
    Makes options (parseVariableDefinition bound) VariableDefinitionNode.Writable :=
  makes_token.bind fun _ _ => makes_parseDescription.bind fun _ hdescription =>
    makes_parseVariable.bind fun _ hvariable => makes_expectToken.bind fun _ _ =>
      (makes_parseTypeReference bound).bind fun _ htype => makes_parseDefaultValue.bind
        fun _ hvalue => makes_parseDirectives.bind fun _ hdirectives => .located fun _ =>
          ⟨hdescription, hvariable, htype, hvalue, hdirectives⟩

theorem makes_parseVariableDefinitions : Makes options (parseVariableDefinitions bound)
    (GivenNodes VariableDefinitionNode.Writable) :=
  makes_optionalMany makes_parseVariableDefinition

theorem givenNodes_none {α : Type} {P : α → Prop} : GivenNodes P none := nofun

theorem makes_parseOperationDefinition : Makes options (parseOperationDefinition bound)
    (OperationDefinitionNode.Writable options) :=
  makes_token.bind fun _ _ => makes_peek.bind fun _ _ => .ite
    (fun _ => (makes_parseSelectionSet bound).bind fun _ hset => .located fun _ =>
      ⟨by simp [WritableDescription], by simp, givenNodes_none, givenNodes_none, hset⟩)
    fun _ => makes_parseDescription.bind fun _ hdescription => makes_parseOperationType.bind
      fun _ _ => makes_peek.bind fun _ _ => (makes_orNone makes_parseName).bind fun _ hname =>
        makes_parseVariableDefinitions.bind fun _ hdefinitions => makes_parseDirectives.bind
          fun _ hdirectives => (makes_parseSelectionSet bound).bind fun _ hset =>
            .located fun _ => ⟨hdescription, hname, hdefinitions, hdirectives, hset⟩

theorem makes_parseFragmentDefinition : Makes options (parseFragmentDefinition bound)
    (FragmentDefinitionNode.Writable options) := by
  refine makes_token.bind fun start _ => makes_parseDescription.bind
    fun description hdescription => makes_expectKeyword.bind fun _ _ => makes_get.bind
      fun s hoptions => makes_parseFragmentName.bind fun name hname => ?_
  have hrest : ∀ variableDefinitions : Option (List VariableDefinitionNode),
      (if options.experimentalFragmentArguments then
        GivenNodes VariableDefinitionNode.Writable variableDefinitions
        else variableDefinitions = some []) → Makes options (do
        let typeCondition ← parseTypeCondition
        let directives ← parseDirectives bound false
        let selectionSet ← parseSelectionSet bound
        return ({ description := description, name := name
                  variableDefinitions := variableDefinitions
                  typeCondition := typeCondition, directives := directives
                  selectionSet := selectionSet, loc := ← loc start } :
          FragmentDefinitionNode)) (FragmentDefinitionNode.Writable options) :=
    fun variableDefinitions hdefinitions => makes_parseTypeCondition.bind fun _ hcondition =>
      makes_parseDirectives.bind fun _ hdirectives => (makes_parseSelectionSet bound).bind
        fun _ hset => .located fun _ => ⟨hdescription, hname.1, hname.2, hdefinitions, hcondition,
          hdirectives, hset⟩
  rw [hoptions]
  refine .ite (fun hexperimental => makes_parseVariableDefinitions.bind
    fun definitions hdefinitions => hrest definitions ?_) fun hexperimental => ?_
  · rw [if_pos hexperimental]
    exact hdefinitions
  · refine (Makes.pure (Q := fun definitions => definitions = some []) rfl).bind
      fun definitions hdefinitions => hrest definitions ?_
    rw [if_neg hexperimental]
    exact hdefinitions

end Parser

end GraphqlCore.Language
