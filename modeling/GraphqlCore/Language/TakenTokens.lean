import GraphqlCore.Language.TreeLexemes
import GraphqlCore.Language.WritableNodes

/-!
# Parsers that look ahead

A parser of something that may be left out looks at the token behind it.  `TakesBefore` states
which tokens a parser takes if the next one has a property; the rule for sequences asks for the
property of the token that is then ahead.
-/

namespace GraphqlCore.Language

/-! ## The token ahead -/

/-- The first token has the property, or the next one if there is none. -/
def Ahead (next : Lexeme → Prop) (lexemes : List Lexeme) (P : Lexeme → Prop) : Prop :=
  ∀ lexeme, next lexeme → ∀ first ∈ (lexemes ++ [lexeme]).head?, P first

section Ahead

variable {next next' P : Lexeme → Prop} {lexeme : Lexeme} {lexemes front back : List Lexeme}

theorem ahead_cons (h : P lexeme) : Ahead next (lexeme :: lexemes) P := by
  intro _ _ first hfirst
  obtain rfl : lexeme = first := by simpa using hfirst
  exact h

theorem ahead_nil (h : ∀ lexeme, next lexeme → P lexeme) : Ahead next [] P := by
  intro lexeme hlexeme first hfirst
  obtain rfl : lexeme = first := by simpa using hfirst
  exact h lexeme hlexeme

theorem ahead_append (hfront : ∀ first ∈ front.head?, P first) (hback : Ahead next back P) :
    Ahead next (front ++ back) P := by
  cases front with
  | nil => exact hback
  | cons first front => exact ahead_cons (hfront first rfl)

theorem Ahead.of_append_nil (h : Ahead next (lexemes ++ []) P) : Ahead next lexemes P := by
  rwa [List.append_nil] at h

theorem Ahead.imp {P' : Lexeme → Prop} (h : Ahead next lexemes P)
    (hP : ∀ lexeme, P lexeme → P' lexeme) : Ahead next lexemes P' :=
  fun lexeme hlexeme first hfirst => hP first (h lexeme hlexeme first hfirst)

theorem ahead_true : Ahead next lexemes fun _ => True := fun _ _ _ _ => trivial

end Ahead

/-- The token is none of these kinds. -/
def Avoids (kinds : List TokenKind) (lexeme : Lexeme) : Prop := lexeme.1 ∉ kinds

instance {kinds : List TokenKind} {lexeme : Lexeme} : Decidable (Avoids kinds lexeme) :=
  inferInstanceAs (Decidable (lexeme.1 ∉ kinds))

theorem Avoids.ne {kinds : List TokenKind} {lexeme : Lexeme} {kind : TokenKind}
    (h : Avoids kinds lexeme) (hkind : kind ∈ kinds) : lexeme.1 ≠ kind :=
  fun heq => h (heq ▸ hkind)

theorem Avoids.mono {kinds kinds' : List TokenKind} {lexeme : Lexeme} (h : Avoids kinds lexeme)
    (hsub : kinds' ⊆ kinds) : Avoids kinds' lexeme :=
  fun hmem => h (hsub hmem)

theorem avoids_word {kinds : List TokenKind} {text : Text} (h : TokenKind.name ∉ kinds) :
    Avoids kinds (word text) := h

/-! ## Taking tokens -/

/-- With these options, and with fewer tokens to come than the bound. -/
structure Ready (options : ParseOptions) (bound : ℕ) (s : ParserState) : Prop where
  proper : s.Proper
  options_eq : s.options = options
  lt_bound : s.tokens.length < bound

/-- What comes of a parser in front of the tokens, if the next one has a property.  The result
is compared with the tokens that follow. -/
def RunsBefore {α : Type} (options : ParseOptions) (bound : ℕ) (next : Lexeme → Prop)
    (p : Parser α) (lexemes : List Lexeme)
    (post : Token → List Token → Except ParseFailure (α × ParserState) → Prop) : Prop :=
  ∀ s token rest, Ready options bound s → Fronts s lexemes (token :: rest) →
    next token.lexeme → post token rest (p s)

/-- The parser returns, just behind the tokens. -/
def Took {α : Type} (options : ParseOptions) (bound : ℕ) (Q : α → Prop) (token : Token)
    (rest : List Token) (result : Except ParseFailure (α × ParserState)) : Prop :=
  ∃ a t, result = .ok (a, t) ∧ Q a ∧ Ready options bound t ∧ Fronts t [] (token :: rest)

abbrev TakesBefore {α : Type} (options : ParseOptions) (bound : ℕ) (next : Lexeme → Prop)
    (p : Parser α) (lexemes : List Lexeme) (Q : α → Prop) : Prop :=
  RunsBefore options bound next p lexemes (Took options bound Q)

section RunsBefore

variable {α β : Type} {options : ParseOptions} {bound : ℕ} {next next' : Lexeme → Prop}
  {p : Parser α} {f : α → Parser β} {lexemes front back : List Lexeme} {Q : α → Prop}
  {R : β → Prop} {kind : TokenKind} {value : Option Text}
  {post : Token → List Token → Except ParseFailure (β × ParserState) → Prop} {q : Parser β}

theorem Fronts.length_lt {s : ParserState} {token : Token} {rest : List Token}
    (h : Fronts s lexemes (token :: rest)) : lexemes.length ≤ s.tokens.length := by
  obtain ⟨tokens, htokens, hlexemes⟩ := h.tokens
  have hlength := congrArg List.length htokens
  rw [List.length_cons, List.length_append, List.length_cons] at hlength
  rw [← hlexemes, List.length_map]
  omega

/-- The tokens are fewer than the bound. -/
theorem RunsBefore.of_length
    (h : lexemes.length < bound → RunsBefore options bound next q lexemes post) :
    RunsBefore options bound next q lexemes post :=
  fun s token rest hs hfronts hnext =>
    h (hfronts.length_lt.trans_lt hs.lt_bound) s token rest hs hfronts hnext

theorem RunsBefore.zero : RunsBefore options 0 next q lexemes post :=
  fun _ _ _ hs => absurd hs.lt_bound (Nat.not_lt_zero _)

theorem RunsBefore.mono (h : RunsBefore options bound next q lexemes post)
    (hnext : ∀ lexeme, next' lexeme → next lexeme) :
    RunsBefore options bound next' q lexemes post :=
  fun s token rest hs hfronts hlexeme => h s token rest hs hfronts (hnext _ hlexeme)

/-- A parser that does not look ahead. -/
theorem Takes.before (h : Takes p lexemes Q) {k : ℕ} (hregular : Regular bound k p) :
    TakesBefore options bound next p lexemes Q := by
  intro s token rest hs hfronts _
  obtain ⟨a, t, hrun, ha, ht⟩ := h s _ hfronts
  have hlater := hregular.later hs.proper hs.lt_bound hfronts.unlimited hrun
  have hconsumed := hlater.consumed
  have hbound := hs.lt_bound
  exact ⟨a, t, hrun, ha, ⟨hlater.proper, hlater.options.trans hs.options_eq, by omega⟩, ht⟩

theorem RunsBefore.imp {Q' : α → Prop}
    (h : RunsBefore options bound next p lexemes (Took options bound Q))
    (hQ : ∀ a, Q a → Q' a) : TakesBefore options bound next p lexemes Q' := by
  intro s token rest hs hfronts hnext
  obtain ⟨a, t, hrun, ha, ht⟩ := h s token rest hs hfronts hnext
  exact ⟨a, t, hrun, hQ a ha, ht⟩

theorem RunsBefore.pure {a : α} (h : Q a) :
    TakesBefore options bound next (Pure.pure a : Parser α) [] Q :=
  fun s _ _ hs hfronts _ => ⟨a, s, rfl, h, hs, hfronts⟩

/-- What is behind the first part: the second part, or the next token. -/
theorem Fronts.split {s : ParserState} {token : Token} {rest : List Token}
    (h : Fronts s (front ++ back) (token :: rest)) (hahead : Ahead next back next')
    (hnext : next token.lexeme) :
    ∃ ahead others, Fronts s front (ahead :: others) ∧ next' ahead.lexeme ∧
      ∀ t, Fronts t [] (ahead :: others) → Fronts t back (token :: rest) := by
  obtain ⟨tokens, htokens, hlexemes⟩ := h.tokens
  obtain ⟨first, second, rfl, hfirst, hsecond⟩ := List.map_eq_append_iff.mp hlexemes
  rw [List.append_assoc] at htokens
  obtain ⟨ahead, others, hothers⟩ : ∃ ahead others, second ++ token :: rest = ahead :: others :=
    List.exists_cons_of_ne_nil (by simp)
  refine ⟨ahead, others, ⟨h.unlimited, h.lexed, List.cons_ne_nil _ _, first, hothers ▸ htokens,
    hfirst⟩, hahead token.lexeme hnext ahead.lexeme ?_, fun t ht => ?_⟩
  · have hhead := congrArg (fun list => (list.map Token.lexeme).head?) hothers
    rw [List.map_append, hsecond] at hhead
    cases back with
    | nil => simpa using hhead
    | cons lexeme back => simpa using hhead
  · obtain ⟨nothing, hrest, hnil⟩ := ht.tokens
    obtain rfl := List.map_eq_nil_iff.mp hnil
    exact ⟨ht.unlimited, ht.lexed, List.cons_ne_nil _ _, second, hrest.trans hothers.symm, hsecond⟩

/-- The rule for sequences. -/
theorem RunsBefore.bind (hp : RunsBefore options bound next' p front (Took options bound Q))
    (hahead : Ahead next back next')
    (hf : ∀ a, Q a → RunsBefore options bound next (f a) back post) :
    RunsBefore options bound next (p >>= f) (front ++ back) post := by
  intro s token rest hs hfronts hnext
  obtain ⟨ahead, others, hfront, hnext', hback⟩ := hfronts.split hahead hnext
  obtain ⟨a, t, hread, ha, ht, hbehind⟩ := hp s ahead others hs hfront hnext'
  rw [bind_of_ok hread]
  exact hf a ha t token rest ht (hback t hbehind) hnext

/-- The rule for sequences where the first part does not look ahead. -/
theorem RunsBefore.then
    (hp : RunsBefore options bound (fun _ => True) p front (Took options bound Q))
    (hf : ∀ a, Q a → RunsBefore options bound next (f a) back post) :
    RunsBefore options bound next (p >>= f) (front ++ back) post :=
  hp.bind ahead_true hf

/-- Nothing is taken by what comes behind. -/
theorem RunsBefore.bind_nil (hp : RunsBefore options bound next p front (Took options bound Q))
    (hf : ∀ a, Q a → RunsBefore options bound next (f a) [] post) :
    RunsBefore options bound next (p >>= f) front post := by
  have hruns := hp.bind (ahead_nil fun _ h => h) hf
  rwa [List.append_nil] at hruns

/-- Nothing is taken behind a part that looks ahead. -/
theorem RunsBefore.last (hp : RunsBefore options bound next' p front (Took options bound Q))
    (hnext : ∀ lexeme, next lexeme → next' lexeme)
    (hf : ∀ a, Q a → RunsBefore options bound next (f a) [] post) :
    RunsBefore options bound next (p >>= f) front post :=
  (hp.mono hnext).bind_nil hf

theorem RunsBefore.map {g : α → β}
    (hp : RunsBefore options bound next p front (Took options bound Q)) (h : ∀ a, Q a → R (g a)) :
    TakesBefore options bound next (g <$> p) front R :=
  hp.bind_nil fun a ha => .pure (h a ha)

/-- The node is finished with its location. -/
theorem RunsBefore.located {mk : Option Location → β} {startToken : Token}
    (h : ∀ location, R (mk location)) :
    TakesBefore options bound next (do return mk (← Parser.loc startToken)) [] R :=
  ((Parser.takes_loc startToken).before (Parser.regular_loc startToken)).bind_nil
    fun location _ => .pure (h location)

/-- The options are read. -/
theorem RunsBefore.get_bind {g : ParserState → Parser β}
    (h : ∀ s, s.options = options → RunsBefore options bound next (g s) lexemes post) :
    RunsBefore options bound next (Action.get >>= g) lexemes post :=
  fun s token rest hs hfronts hnext => h s hs.options_eq s token rest hs hfronts hnext

/-- The token ahead is read. -/
theorem RunsBefore.token_bind {g : Token → Parser β} {P : Lexeme → Prop}
    (hahead : Ahead next lexemes P)
    (h : ∀ token : Token, P token.lexeme → RunsBefore options bound next (g token) lexemes post) :
    RunsBefore options bound next (Parser.token >>= g) lexemes post := by
  intro s token rest hs hfronts hnext
  obtain ⟨tokens, htokens, hlexemes⟩ := hfronts.tokens
  refine h s.token (hahead token.lexeme hnext _ ?_) s token rest hs hfronts hnext
  rw [← hlexemes]
  cases tokens with
  | nil => exact congrArg (some ∘ Token.lexeme) (List.cons.inj htokens).1.symm
  | cons first tokens => exact congrArg (some ∘ Token.lexeme) (List.cons.inj htokens).1.symm

end RunsBefore

/-! ## Core parsing utility functions -/

namespace Parser

section Core

variable {β : Type} {options : ParseOptions} {bound : ℕ} {next : Lexeme → Prop}
  {lexemes : List Lexeme} {R : β → Prop} {kind : TokenKind} {value : Option Text} {text : Text}
  {post : Token → List Token → Except ParseFailure (β × ParserState) → Prop}

theorem before_advanceLexer (lexeme : Lexeme) :
    TakesBefore options bound next advanceLexer [lexeme] fun _ => True :=
  (takes_advanceLexer lexeme).before regular_advanceLexer

theorem before_expectToken {f : Token → Parser β} (hkind : kind ≠ .eof)
    (h : ∀ token : Token, token.value = value →
      RunsBefore options bound next (f token) lexemes post) :
    RunsBefore options bound next (expectToken kind >>= f) ((kind, value) :: lexemes) post :=
  (takes_expectToken.before (regular_expectToken hkind)).then h

/-- What follows a token that is there may have a smaller bound. -/
theorem before_advance_less {f : Unit → Parser β} (lexeme : Lexeme) (hlexeme : lexeme.1 ≠ .eof)
    (h : TakesBefore options bound next (f ()) lexemes R) :
    TakesBefore options (bound + 1) next (advanceLexer >>= f) (lexeme :: lexemes) R := by
  intro s token rest hs hfronts hnext
  obtain ⟨tokens, htokens, hlexemes⟩ := hfronts.tokens
  obtain ⟨first, others, rfl, hfirst, hothers⟩ := List.map_eq_cons_iff.mp hlexemes
  obtain ⟨⟨⟩, t, hread, -, ht⟩ := takes_advanceLexer lexeme s (others ++ token :: rest)
    ⟨hfronts.unlimited, hfronts.lexed, by simp, [first], by simpa using htokens,
      by rw [List.map_singleton, hfirst]⟩
  have hkind : s.token.kind ≠ .eof := by
    rw [(List.cons.inj htokens).1]
    exact fun heof => hlexeme (by rw [← hfirst]; exact heof)
  have hlater := regularAt_advanceLexer_one hkind hs.proper hs.lt_bound hfronts.unlimited
    s.tokenCounter le_rfl
  rw [hread] at hlater
  have hconsumed := hlater.1.consumed
  have hlt := hs.lt_bound
  obtain ⟨nothing, hrest, hnil⟩ := ht.tokens
  obtain rfl := List.map_eq_nil_iff.mp hnil
  obtain ⟨b, u, hrun, hb, hu, hend⟩ := h t token rest
    ⟨hlater.1.proper, hlater.1.options.trans hs.options_eq, by omega⟩
    ⟨ht.unlimited, ht.lexed, List.cons_ne_nil _ _, others, hrest, hothers⟩ hnext
  have hbound := hu.lt_bound
  exact ⟨b, u, by rw [bind_of_ok hread, hrun], hb, ⟨hu.proper, hu.options_eq, by omega⟩, hend⟩

theorem before_advance {f : Unit → Parser β} (lexeme : Lexeme)
    (h : RunsBefore options bound next (f ()) lexemes post) :
    RunsBefore options bound next (advanceLexer >>= f) (lexeme :: lexemes) post :=
  (before_advanceLexer lexeme).then fun _ _ => h

theorem before_expectToken_less {f : Token → Parser β} (hkind : kind ≠ .eof)
    (h : ∀ token : Token, TakesBefore options bound next (f token) lexemes R) :
    TakesBefore options (bound + 1) next (expectToken kind >>= f) ((kind, value) :: lexemes) R := by
  have hexpect : expectToken kind >>= f = token >>= fun current =>
      if current.kind = kind then advanceLexer >>= fun _ => f current
      else raise current.start (str "Expected " ++ getTokenKindDesc kind ++ str ", found " ++
        getTokenDesc current ++ str ".") >>= f := by
    unfold expectToken
    rw [bind_assoc]
    congr 1
    funext current
    split
    · rw [bind_assoc]
      simp only [pure_bind]
    · rfl
  rw [hexpect]
  refine RunsBefore.token_bind (P := fun lexeme => lexeme.1 = kind) (ahead_cons rfl)
    fun token htoken => ?_
  have htaken : token.kind = kind := htoken
  rw [if_pos htaken]
  exact before_advance_less (kind, value) hkind (h token)

/-- An optional token that is there. -/
theorem before_present {f : Bool → Parser β}
    (h : RunsBefore options bound next (f true) lexemes post) :
    RunsBefore options bound next (expectOptionalToken kind >>= f) ((kind, value) :: lexemes)
      post := by
  rw [expectOptionalToken_bind]
  refine RunsBefore.token_bind (P := fun lexeme => lexeme.1 = kind) (ahead_cons rfl)
    fun token htoken => ?_
  have htaken : token.kind = kind := htoken
  rw [if_pos htaken]
  exact before_advance (kind, value) h

theorem before_present_less {f : Bool → Parser β} (hkind : kind ≠ .eof)
    (h : TakesBefore options bound next (f true) lexemes R) :
    TakesBefore options (bound + 1) next (expectOptionalToken kind >>= f)
      ((kind, value) :: lexemes) R := by
  rw [expectOptionalToken_bind]
  refine RunsBefore.token_bind (P := fun lexeme => lexeme.1 = kind) (ahead_cons rfl)
    fun token htoken => ?_
  have htaken : token.kind = kind := htoken
  rw [if_pos htaken]
  exact before_advance_less (kind, value) hkind h

/-- An optional token that is missing. -/
theorem before_absent {f : Bool → Parser β}
    (hahead : Ahead next lexemes fun lexeme => lexeme.1 ≠ kind)
    (h : RunsBefore options bound next (f false) lexemes post) :
    RunsBefore options bound next (expectOptionalToken kind >>= f) lexemes post := by
  rw [expectOptionalToken_bind]
  refine RunsBefore.token_bind hahead fun token htoken => ?_
  have hother : ¬ token.kind = kind := htoken
  rw [if_neg hother]
  exact h

theorem before_expectKeyword {f : Unit → Parser β}
    (h : RunsBefore options bound next (f ()) lexemes post) :
    RunsBefore options bound next (expectKeyword text >>= f) (word text :: lexemes) post := by
  have hkeyword : TakesBefore options bound (fun _ => True) (expectKeyword text) [word text]
      fun _ => True := by
    refine RunsBefore.token_bind (P := fun lexeme => lexeme = word text) (ahead_cons rfl)
      fun token htoken => ?_
    obtain ⟨hkind, hvalue⟩ := Prod.mk.inj htoken
    rw [if_pos ⟨hkind, hvalue⟩]
    exact before_advanceLexer _
  exact hkeyword.then fun _ _ => h

theorem expectOptionalKeyword_bind {f : Bool → Parser β} :
    expectOptionalKeyword text >>= f = token >>= fun current =>
      if current.kind = .name ∧ current.value = some text then advanceLexer >>= fun _ => f true
      else f false := by
  unfold expectOptionalKeyword
  rw [bind_assoc]
  congr 1
  funext current
  split
  · rw [bind_assoc]
    simp only [pure_bind]
  · rw [pure_bind]

theorem before_presentKeyword {f : Bool → Parser β}
    (h : RunsBefore options bound next (f true) lexemes post) :
    RunsBefore options bound next (expectOptionalKeyword text >>= f) (word text :: lexemes)
      post := by
  rw [expectOptionalKeyword_bind]
  refine RunsBefore.token_bind (P := fun lexeme => lexeme = word text) (ahead_cons rfl)
    fun token htoken => ?_
  rw [if_pos ⟨(Prod.mk.inj htoken).1, (Prod.mk.inj htoken).2⟩]
  exact before_advance _ h

theorem before_absentKeyword {f : Bool → Parser β}
    (hahead : Ahead next lexemes fun lexeme => lexeme ≠ word text)
    (h : RunsBefore options bound next (f false) lexemes post) :
    RunsBefore options bound next (expectOptionalKeyword text >>= f) lexemes post := by
  rw [expectOptionalKeyword_bind]
  refine RunsBefore.token_bind hahead fun token htoken => ?_
  rw [if_neg fun h => htoken (Prod.ext h.1 h.2)]
  exact h

theorem peek_bind {f : Bool → Parser β} :
    peek kind >>= f = token >>= fun current => f (current.kind = kind) := by
  unfold peek
  rw [bind_assoc]
  simp only [pure_bind]

theorem before_peek {f : Bool → Parser β}
    (hahead : Ahead next lexemes fun lexeme => lexeme.1 = kind)
    (h : RunsBefore options bound next (f true) lexemes post) :
    RunsBefore options bound next (peek kind >>= f) lexemes post := by
  rw [peek_bind]
  refine RunsBefore.token_bind hahead fun token htoken => ?_
  have htaken : token.kind = kind := htoken
  rw [decide_eq_true htaken]
  exact h

theorem before_peek_not {f : Bool → Parser β}
    (hahead : Ahead next lexemes fun lexeme => lexeme.1 ≠ kind)
    (h : RunsBefore options bound next (f false) lexemes post) :
    RunsBefore options bound next (peek kind >>= f) lexemes post := by
  rw [peek_bind]
  refine RunsBefore.token_bind hahead fun token htoken => ?_
  have hother : ¬ token.kind = kind := htoken
  rw [decide_eq_false hother]
  exact h

end Core

section Lists

variable {α β : Type} {options : ParseOptions} {bound : ℕ} {next inside : Lexeme → Prop}
  {parseFn : Parser α} {openKind closeKind delimiterKind : TokenKind}
  {lexemesOf : α → List Lexeme} {u : α → β} {items : List α}

/-- How an item of a list starts: with a token that may follow an item, and does not end the
list. -/
def StartsItem (inside : Lexeme → Prop) (closeKind : TokenKind) (lexemes : List Lexeme) : Prop :=
  ∃ lexeme rest, lexemes = lexeme :: rest ∧ inside lexeme ∧ lexeme.1 ≠ closeKind

/-- What is ahead of an item: the next one, or the token that ends the list. -/
theorem ahead_items (hstarts : ∀ item ∈ items, StartsItem inside closeKind (lexemesOf item))
    (hclose : inside (closeKind, none)) :
    Ahead next ((items.map lexemesOf).flatten ++ [punct closeKind]) inside := by
  cases items with
  | nil => exact ahead_cons hclose
  | cons item items =>
      obtain ⟨first, tail, hfirst, hinside, -⟩ := hstarts item List.mem_cons_self
      rw [List.map_cons, List.flatten_cons, hfirst]
      exact ahead_cons hinside

theorem map_cons_eq {item node : α} {nodes : List α} (hnode : u node = u item)
    (hnodes : nodes.map u = items.map u) : (node :: nodes).map u = (item :: items).map u := by
  rw [List.map_cons, List.map_cons, hnode, hnodes]

theorem before_itemsUntil
    (h : ∀ item ∈ items, TakesBefore options bound inside parseFn (lexemesOf item)
      fun node => u node = u item)
    (hstarts : ∀ item ∈ items, StartsItem inside closeKind (lexemesOf item))
    (hclose : inside (closeKind, none)) {steps : ℕ} (hsteps : items.length < steps) :
    TakesBefore options bound next (itemsUntil closeKind parseFn steps)
      ((items.map lexemesOf).flatten ++ [punct closeKind])
      fun nodes => nodes.map u = items.map u := by
  induction items generalizing steps with
  | nil =>
      obtain ⟨steps, rfl⟩ := Nat.exists_eq_add_one_of_ne_zero (Nat.ne_of_gt hsteps)
      rw [itemsUntil]
      exact before_present (.pure rfl)
  | cons item items ih =>
      obtain ⟨steps, rfl⟩ :=
        Nat.exists_eq_add_one_of_ne_zero (Nat.ne_of_gt (Nat.zero_lt_of_lt hsteps))
      obtain ⟨hitem, hitems⟩ := List.forall_mem_cons.mp h
      obtain ⟨⟨lexeme, rest, hlexemes, -, hne⟩, hothers⟩ := List.forall_mem_cons.mp hstarts
      rw [itemsUntil, List.map_cons, List.flatten_cons, List.append_assoc]
      refine before_absent (by rw [hlexemes]; exact ahead_cons hne) ?_
      exact hitem.bind (ahead_items hothers hclose) fun node hnode => (ih hitems hothers
        (Nat.lt_of_succ_lt_succ hsteps)).bind_nil fun nodes hnodes =>
          .pure (map_cons_eq hnode hnodes)

/-- The tokens of items that start are not fewer than the items. -/
theorem length_le_of_startsItem
    (hstarts : ∀ item ∈ items, StartsItem inside closeKind (lexemesOf item)) :
    items.length ≤ (items.map lexemesOf).flatten.length := by
  refine length_le_flatten fun item hitem => ?_
  obtain ⟨lexeme, rest, hlexemes, -⟩ := hstarts item hitem
  rw [hlexemes]
  exact List.cons_ne_nil _ _

/-- At least one item, behind the token that opens the list. -/
theorem before_someUntil (hne : items ≠ [])
    (h : ∀ item ∈ items, TakesBefore options bound inside parseFn (lexemesOf item)
      fun node => u node = u item)
    (hstarts : ∀ item ∈ items, StartsItem inside closeKind (lexemesOf item))
    (hclose : inside (closeKind, none)) {steps : ℕ} (hsteps : bound ≤ steps) :
    TakesBefore options bound next (someUntil steps parseFn closeKind)
      ((items.map lexemesOf).flatten ++ [punct closeKind])
      fun nodes => nodes.map u = items.map u := by
  refine RunsBefore.of_length fun hlength => ?_
  have hcount := length_le_of_startsItem hstarts
  rw [List.length_append] at hlength
  obtain ⟨item, items, rfl⟩ := List.exists_cons_of_ne_nil hne
  obtain ⟨hitem, hitems⟩ := List.forall_mem_cons.mp h
  obtain ⟨-, hothers⟩ := List.forall_mem_cons.mp hstarts
  rw [List.map_cons, List.flatten_cons, List.append_assoc]
  have hshort : items.length < steps := by
    rw [List.length_cons] at hcount
    omega
  exact hitem.bind (ahead_items hothers hclose) fun node hnode =>
    (before_itemsUntil hitems hothers hclose hshort).bind_nil fun nodes hnodes =>
      .pure (map_cons_eq hnode hnodes)

/-- Nodes between two punctuators that may be left out. -/
theorem before_optionalMany {nodes : Option (List α)}
    (hne : ∀ items ∈ nodes, items ≠ [])
    (h : ∀ item ∈ nodes.getD [], TakesBefore options bound inside parseFn (lexemesOf item)
      fun node => u node = u item)
    (hstarts : ∀ item ∈ nodes.getD [], StartsItem inside closeKind (lexemesOf item))
    (hclose : inside (closeKind, none))
    (hnext : nodes = none → ∀ lexeme, next lexeme → lexeme.1 ≠ openKind)
    {steps : ℕ} (hsteps : bound ≤ steps) :
    TakesBefore options bound next (optionalMany steps openKind parseFn closeKind)
      (optionalBlock openKind closeKind ((nodes.getD []).map lexemesOf))
      fun parsed => parsed.map (List.map u) = nodes.map (List.map u) := by
  cases nodes with
  | none => exact before_absent (ahead_nil (hnext rfl)) (.pure rfl)
  | some items =>
      have hitems := hne items rfl
      have hblock : optionalBlock openKind closeKind (items.map lexemesOf) =
          blockLexemes openKind closeKind (items.map lexemesOf) :=
        if_neg (by simpa using hitems)
      rw [Option.getD_some, hblock]
      exact before_present
        ((before_someUntil hitems h hstarts hclose hsteps).map fun _ hnodes => congrArg some hnodes)

end Lists

end Parser

end GraphqlCore.Language
