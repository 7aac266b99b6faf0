import GraphqlCore.Language.DocumentParser
import Mathlib.Order.Nat

/-!
# Runs of the parser

What holds of every parser of the module `DocumentParser`: from a state whose
tokens end properly it does not exhaust a bound above the number of tokens to
come, it counts every token that it advances to, and with a limit on the number
of tokens it fails if it would count more, and does the same otherwise.
`Regular` states this, with a rule for each way to put parsers together.
-/

namespace GraphqlCore.Language

/-! ## Tokens that end properly -/

/-- Behind the last token there is an error, unless it is the end of the file. -/
def EndsProperly : Token → List Token → Option SyntaxError → Prop
  | token, [], none => token.kind = .eof
  | token, [], some _ => token.kind ≠ .eof
  | token, next :: tokens, failure =>
      token.kind ≠ .eof ∧ EndsProperly next tokens failure

/-- The number of tokens that are not the end of the file. -/
def countTokens (tokens : List Token) : ℕ := tokens.countP fun token => token.kind ≠ .eof

namespace ParserState

def Proper (s : ParserState) : Prop := EndsProperly s.token s.tokens s.failure

/-- The state with a limit on the number of tokens. -/
def limit (s : ParserState) (n : ℕ) : ParserState :=
  { s with options := { s.options with maxTokens := some n } }

/-- The second state comes behind the first, with at least so many tokens fewer
to come. -/
structure Later (least : ℕ) (s t : ParserState) : Prop where
  proper : t.Proper
  options : t.options = s.options
  consumed : t.tokens.length + least ≤ s.tokens.length
  counted : t.tokenCounter + countTokens t.tokens =
    s.tokenCounter + countTokens s.tokens
  grows : s.tokenCounter ≤ t.tokenCounter

variable {s t u : ParserState} {k l m : ℕ}

theorem Proper.kind_eq_eof (h : s.Proper) (hnil : s.tokens = []) (hnone : s.failure = none) :
    s.token.kind = .eof := by
  unfold Proper at h
  rw [hnil, hnone] at h
  exact h

/-- There are no tokens behind the end of the file. -/
theorem Proper.tokens_eq_nil (h : s.Proper) (heof : s.token.kind = .eof) :
    s.tokens = [] ∧ s.failure = none := by
  obtain ⟨options, token, lastToken, tokens, failure, counter⟩ := s
  cases tokens with
  | cons next tokens => exact absurd heof h.1
  | nil =>
      cases failure with
      | none => exact ⟨rfl, rfl⟩
      | some error => exact absurd heof h

theorem Later.refl (h : s.Proper) : Later 0 s s := ⟨h, rfl, le_rfl, rfl, le_rfl⟩

theorem Later.trans (h : Later k s t) (h' : Later l t u) (hm : m ≤ k + l) :
    Later m s u where
  proper := h'.proper
  options := h'.options.trans h.options
  consumed := by have := h.consumed; have := h'.consumed; omega
  counted := h'.counted.trans h.counted
  grows := h.grows.trans h'.grows

theorem Later.mono (h : Later k s t) (hm : m ≤ k) : Later m s t :=
  { h with consumed := by have := h.consumed; omega }

end ParserState

open ParserState

/-! ## Regular parsers -/

/-- Does the run raise an error? -/
def Raises {α : Type} (run : Except ParseFailure (α × ParserState)) : Prop :=
  ∃ error, run = .error (.raised error)

/-- What a parser does from a state without a limit, and from that state with
the limit `n`. -/
def Runs {α : Type} (least : ℕ) (s : ParserState) (n : ℕ) :
    (run limited : Except ParseFailure (α × ParserState)) → Prop
  | .ok (a, t), limited =>
      Later least s t ∧ (t.tokenCounter ≤ n → limited = .ok (a, t.limit n)) ∧
        (n < t.tokenCounter → Raises limited)
  | .error e, limited => (∃ error, e = .raised error) ∧ Raises limited

theorem Runs.ne_exhausted {α : Type} {least n : ℕ} {s : ParserState}
    {run limited : Except ParseFailure (α × ParserState)} (h : Runs least s n run limited) :
    run ≠ .error .exhausted ∧ limited ≠ .error .exhausted := by
  have hraises : ∀ {run : Except ParseFailure (α × ParserState)}, Raises run →
      run ≠ .error .exhausted := by
    rintro _ ⟨error, rfl⟩ hcontra
    cases hcontra
  cases run with
  | error e =>
      obtain ⟨⟨error, rfl⟩, hlimited⟩ := h
      exact ⟨fun hcontra => (nomatch hcontra), hraises hlimited⟩
  | ok r =>
      obtain ⟨-, hwithin, habove⟩ := h
      refine ⟨fun hcontra => (nomatch hcontra), ?_⟩
      by_cases hn : r.2.tokenCounter ≤ n
      · rw [hwithin hn]
        exact fun hcontra => nomatch hcontra
      · exact hraises (habove (not_le.mp hn))

/-- With the limit the parser returns just if it does so without and has not counted
more tokens. -/
theorem Runs.limited_eq_ok_iff {α : Type} {least n : ℕ} {s u : ParserState} {a : α}
    {run limited : Except ParseFailure (α × ParserState)} (h : Runs least s n run limited) :
    limited = .ok (a, u) ↔ ∃ t, run = .ok (a, t) ∧ t.tokenCounter ≤ n ∧ u = t.limit n := by
  cases run with
  | error e =>
      obtain ⟨-, error, rfl⟩ := h
      simp
  | ok r =>
      obtain ⟨b, t⟩ := r
      obtain ⟨-, hwithin, habove⟩ := h
      by_cases hn : t.tokenCounter ≤ n
      · rw [hwithin hn]
        constructor
        · intro heq
          cases heq
          exact ⟨t, rfl, hn, rfl⟩
        · rintro ⟨t', heq, -, rfl⟩
          cases heq
          rfl
      · obtain ⟨error, hraises⟩ := habove (not_le.mp hn)
        rw [hraises]
        constructor
        · intro heq
          cases heq
        · rintro ⟨t', heq, hn', -⟩
          cases heq
          exact absurd hn' hn

def RegularAt {α : Type} (bound least : ℕ) (p : Parser α) (s : ParserState) : Prop :=
  s.Proper → s.tokens.length < bound → s.options.maxTokens = none →
    ∀ n, s.tokenCounter ≤ n → Runs least s n (p s) (p (s.limit n))

/-- The parser behaves from every state with less than `bound` tokens to come,
and advances at least `least` times if it returns. -/
def Regular {α : Type} (bound least : ℕ) (p : Parser α) : Prop :=
  ∀ s, RegularAt bound least p s

variable {α β : Type} {p q : Parser α} {f : α → Parser β}
variable {s : ParserState} {bound b k l m : ℕ}

theorem bind_of_ok {a : α} {t : ParserState} (h : p s = .ok (a, t)) :
    (p >>= f) s = f a t := by
  change Action.bind p f s = _
  rw [Action.bind, h]

theorem bind_of_error {e : ParseFailure} (h : p s = .error e) :
    (p >>= f) s = .error e := by
  change Action.bind p f s = _
  rw [Action.bind, h]

theorem run_bind_eq_ok {b : β} {u : ParserState} :
    (p >>= f) s = .ok (b, u) ↔ ∃ a t, p s = .ok (a, t) ∧ f a t = .ok (b, u) := by
  cases h : p s with
  | error e => simp [bind_of_error h]
  | ok r =>
      obtain ⟨a, t⟩ := r
      simp [bind_of_ok h]

theorem runParser_eq_ok {options : ParseOptions} {parseFn : ℕ → Parser α}
    {lexed : List Token × Option SyntaxError} {a : α} : runParser options lexed parseFn = .ok a ↔
      ∃ t, parseFn (lexed.1.length + 1) (.initial options lexed) = .ok (a, t) := by
  unfold runParser
  cases parseFn (lexed.1.length + 1) (.initial options lexed) with
  | error e => simp [Except.map]
  | ok r =>
      obtain ⟨b, t⟩ := r
      simp [Except.map]

theorem runParser_eq_error {options : ParseOptions} {parseFn : ℕ → Parser α}
    {lexed : List Token × Option SyntaxError} {e : ParseFailure} :
    runParser options lexed parseFn = .error e ↔
      parseFn (lexed.1.length + 1) (.initial options lexed) = .error e := by
  unfold runParser
  cases parseFn (lexed.1.length + 1) (.initial options lexed) <;> simp [Except.map]

theorem Raises.bind (h : Raises (p s)) : Raises ((p >>= f) s) := by
  obtain ⟨error, h⟩ := h
  exact ⟨error, bind_of_error h⟩

/-- The rule for sequences: what comes behind may have a bound that is smaller
by the number of tokens that are consumed. -/
theorem RegularAt.seq (hp : RegularAt bound k p s) (hf : ∀ a, Regular b l (f a))
    (hb : bound ≤ b + k) (hm : m ≤ k + l) : RegularAt bound m (p >>= f) s := by
  intro hs hlength hmax n hn
  have hrun := hp hs hlength hmax n hn
  cases h : p s with
  | error e =>
      rw [h] at hrun
      obtain ⟨he, hlimited⟩ := hrun
      rw [bind_of_error h]
      exact ⟨he, hlimited.bind⟩
  | ok r =>
      obtain ⟨a, t⟩ := r
      rw [h] at hrun
      obtain ⟨hlater, hwithin, habove⟩ := hrun
      rw [bind_of_ok h]
      have hshort : t.tokens.length < b := by have := hlater.consumed; omega
      have hnone : t.options.maxTokens = none := by rw [hlater.options, hmax]
      have hrest := hf a t hlater.proper hshort hnone
      by_cases ht : t.tokenCounter ≤ n
      · have hrest := hrest n ht
        rw [bind_of_ok (hwithin ht)]
        cases h' : f a t with
        | error e => rwa [h'] at hrest
        | ok r =>
            rw [h'] at hrest
            exact ⟨hlater.trans hrest.1 hm, hrest.2⟩
      · -- The limit is passed by the first parser already.
        have hraises := (habove (not_le.mp ht)).bind (f := f)
        have hrest := hrest t.tokenCounter le_rfl
        cases h' : f a t with
        | error e =>
            rw [h'] at hrest
            exact ⟨hrest.1, hraises⟩
        | ok r =>
            rw [h'] at hrest
            have hlater' := hrest.1
            have := hlater'.grows
            exact ⟨hlater.trans hlater' hm, fun _ => by omega, fun _ => hraises⟩

theorem RegularAt.mono (h : RegularAt bound k p s) (hm : m ≤ k) :
    RegularAt bound m p s := by
  intro hs hlength hmax n hn
  have hrun := h hs hlength hmax n hn
  cases h' : p s with
  | error e => rwa [h'] at hrun
  | ok r =>
      rw [h'] at hrun
      exact ⟨hrun.1.mono hm, hrun.2⟩

theorem RegularAt.bind (hp : RegularAt bound k p s) (hf : ∀ a, Regular bound m (f a)) :
    RegularAt bound m (p >>= f) s :=
  hp.seq hf (by omega) (by omega)

theorem RegularAt.bind_one (hp : RegularAt bound 1 p s)
    (hf : ∀ a, Regular bound 0 (f a)) : RegularAt bound 1 (p >>= f) s :=
  hp.seq hf (by omega) (by omega)

namespace Regular

theorem zero (h : Regular bound k p) : Regular bound 0 p := fun s => (h s).mono (by omega)

theorem of_le (h : Regular bound k p) (hb : b ≤ bound) : Regular b k p :=
  fun s hs hlength => h s hs (by omega)

theorem bound_zero : Regular 0 k p := fun _ _ hlength => absurd hlength (by omega)

theorem bind (hp : Regular bound k p) (hf : ∀ a, Regular bound m (f a)) :
    Regular bound m (p >>= f) := fun s => (hp s).bind hf

theorem bind_one (hp : Regular bound 1 p) (hf : ∀ a, Regular bound 0 (f a)) :
    Regular bound 1 (p >>= f) := fun s => (hp s).bind_one hf

/-- Behind a token that is consumed, the bound may be smaller. -/
theorem bind_succ (hp : Regular (bound + 1) 1 p) (hf : ∀ a, Regular bound 0 (f a)) :
    Regular (bound + 1) 1 (p >>= f) :=
  fun s => (hp s).seq hf (by omega) (by omega)

theorem pure {a : α} : Regular bound 0 (Pure.pure a : Parser α) :=
  fun _ hs _ _ _ hn => ⟨Later.refl hs, fun _ => rfl, fun h => absurd hn (by omega)⟩

theorem map {g : α → β} (hp : Regular bound k p) : Regular bound k (g <$> p) :=
  fun s => (hp s).seq (fun _ => (pure : Regular bound 0 _)) (by omega) (by omega)

theorem ite {c : Prop} [Decidable c] (hp : Regular bound k p) (hq : Regular bound k q) :
    Regular bound k (if c then p else q) := by
  split
  · exact hp
  · exact hq

/-- The options that a parser reads are not its limit. -/
theorem get_bind {g : ParserState → Parser β} (hg : ∀ s, Regular bound k (g s))
    (hlimit : ∀ s n, g (s.limit n) = g s) : Regular bound k (Action.get >>= g) := by
  intro s hs hlength hmax n hn
  have hrun := hg s s hs hlength hmax n hn
  rw [← hlimit s n] at hrun
  have hself : (Action.get >>= g) s = g s s := rfl
  have hother : (Action.get >>= g) (s.limit n) = g (s.limit n) (s.limit n) := rfl
  rwa [hself, hother, ← hlimit s n]

theorem token_bind {g : Token → Parser β} (hg : ∀ s, RegularAt bound k (g s.token) s) :
    Regular bound k (Parser.token >>= g) := by
  intro s hs hlength hmax n hn
  exact hg s hs hlength hmax n hn

end Regular

/-! ## Core parsing utility functions -/

namespace Parser

variable {bound : ℕ} {α β : Type} {s : ParserState}

theorem regular_raise {k : ℕ} (position : ℕ) (description : Text) :
    Regular bound k (raise position description : Parser α) :=
  fun _ _ _ _ _ _ => ⟨⟨_, rfl⟩, _, rfl⟩

theorem regular_unexpected {k : ℕ} (atToken : Token) :
    Regular bound k (unexpected atToken : Parser α) := regular_raise _ _

theorem regular_token : Regular bound 0 token :=
  Regular.token_bind fun s => (Regular.pure (a := s.token)) s

theorem regular_peek (kind : TokenKind) : Regular bound 0 (peek kind) :=
  regular_token.bind fun _ => Regular.pure

theorem loc_run (startToken : Token) : ∃ location, loc startToken s = .ok (location, s) := by
  change ∃ location, (if s.options.noLocation then _ else _ : Parser _) s = _
  split
  · exact ⟨none, rfl⟩
  · exact ⟨some _, rfl⟩

theorem regular_loc (startToken : Token) : Regular bound 0 (loc startToken) :=
  Regular.get_bind (fun _ => Regular.ite Regular.pure Regular.pure) fun _ _ => rfl

theorem lookahead_cons {next : Token} {tokens : List Token}
    (h : s.tokens = next :: tokens) : lookahead s = .ok (next, s) := by
  obtain ⟨options, token, lastToken, _, failure, counter⟩ := s
  subst h
  rfl

theorem lookahead_failure {error : SyntaxError} (h : s.tokens = [])
    (hfailure : s.failure = some error) : lookahead s = .error (.raised error) := by
  obtain ⟨options, token, lastToken, _, _, counter⟩ := s
  subst h hfailure
  rfl

theorem lookahead_end (h : s.tokens = []) (hfailure : s.failure = none) :
    lookahead s = .ok (s.token, s) := by
  obtain ⟨options, token, lastToken, _, _, counter⟩ := s
  subst h hfailure
  rfl

theorem lookahead_cases (s : ParserState) :
    (∃ next, ∀ n, lookahead s = .ok (next, s) ∧
      lookahead (s.limit n) = .ok (next, s.limit n)) ∨
    ∀ n, Raises (lookahead s) ∧ Raises (lookahead (s.limit n)) := by
  cases htokens : s.tokens with
  | cons next tokens =>
      exact .inl ⟨next, fun n => ⟨lookahead_cons htokens,
        lookahead_cons (s := s.limit n) htokens⟩⟩
  | nil =>
      cases hfailure : s.failure with
      | none =>
          exact .inl ⟨s.token, fun n => ⟨lookahead_end htokens hfailure,
            lookahead_end (s := s.limit n) htokens hfailure⟩⟩
      | some error =>
          exact .inr fun n => ⟨⟨_, lookahead_failure htokens hfailure⟩, _,
            lookahead_failure (s := s.limit n) htokens hfailure⟩

theorem regular_lookahead : Regular bound 0 lookahead := by
  intro s hs _ _ n hn
  obtain ⟨next, hnext⟩ | hraises := lookahead_cases s
  · rw [(hnext n).1, (hnext n).2]
    exact ⟨Later.refl hs, fun _ => rfl, fun h => absurd hn (by omega)⟩
  · obtain ⟨⟨error, h⟩, hlimited⟩ := hraises n
    rw [h]
    exact ⟨⟨_, rfl⟩, hlimited⟩

/-- The state behind the current token, which is followed by `next`. -/
def advanced (s : ParserState) (next : Token) : ParserState :=
  { s with lastToken := s.token, token := next, tokens := s.tokens.tail
           tokenCounter := s.tokenCounter + countTokens [next] }

theorem advanceLexer_of_eof {next : Token} (h : lookahead s = .ok (next, s))
    (hkind : next.kind = .eof) : advanceLexer s = .ok ((), advanced s next) := by
  unfold advanceLexer
  rw [bind_of_ok h]
  change (if next.kind = .eof then _ else _ : Parser Unit) s = _
  rw [if_pos hkind]
  simp [advanced, countTokens, hkind]
  rfl

theorem advanceLexer_of_ne_eof {next : Token} (h : lookahead s = .ok (next, s))
    (hkind : next.kind ≠ .eof) :
    advanceLexer s = (match s.options.maxTokens with
      | none => pure ()
      | some maxTokens =>
          if maxTokens < s.tokenCounter + 1 then
            raise next.start (str "Document contains more than " ++
              printNat maxTokens ++ str " tokens. Parsing aborted.")
          else pure () : Parser Unit) (advanced s next) := by
  unfold advanceLexer
  rw [bind_of_ok h]
  change (if next.kind = .eof then _ else _ : Parser Unit) s = _
  rw [if_neg hkind]
  simp [advanced, countTokens, hkind]
  rfl

/-- Without a limit the parser advances to the next token. -/
theorem advanceLexer_of_ok {next : Token} (h : lookahead s = .ok (next, s))
    (hmax : s.options.maxTokens = none) :
    advanceLexer s = .ok ((), advanced s next) := by
  by_cases hkind : next.kind = .eof
  · exact advanceLexer_of_eof h hkind
  · rw [advanceLexer_of_ne_eof h hkind, hmax]
    rfl

/-- Every token that is advanced to is counted, and none is passed by. -/
theorem later_advanced {next : Token} (hs : s.Proper) (h : lookahead s = .ok (next, s)) :
    Later (if s.token.kind = .eof then 0 else 1) s (advanced s next) := by
  obtain ⟨options, token, lastToken, tokens, failure, counter⟩ := s
  cases tokens with
  | nil =>
      cases failure with
      | some error => cases h
      | none =>
          cases h
          have heof : token.kind = .eof := hs
          simp only [heof, if_true]
          refine ⟨heof, rfl, le_rfl, ?_, Nat.le_add_right _ _⟩
          simp [advanced, countTokens, heof]
  | cons next' tokens =>
      cases h
      have hne : token.kind ≠ .eof := hs.1
      simp only [hne, if_false]
      refine ⟨hs.2, rfl, le_rfl, ?_, Nat.le_add_right _ _⟩
      simp only [advanced, countTokens, List.tail_cons, List.countP_cons, List.countP_nil]
      omega

theorem regularAt_advanceLexer :
    RegularAt bound (if s.token.kind = .eof then 0 else 1) advanceLexer s := by
  intro hs _ hmax n hn
  obtain ⟨next, hnext⟩ | hraises := lookahead_cases s
  · obtain ⟨hlook, hlimited⟩ := hnext n
    have hlater := later_advanced hs hlook
    by_cases hkind : next.kind = .eof
    · rw [advanceLexer_of_eof hlook hkind, advanceLexer_of_eof hlimited hkind]
      have hcounter : (advanced s next).tokenCounter = s.tokenCounter := by
        simp [advanced, countTokens, hkind]
      exact ⟨hlater, fun _ => rfl, fun h => absurd hn (by omega)⟩
    · rw [advanceLexer_of_ne_eof hlook hkind, advanceLexer_of_ne_eof hlimited hkind, hmax]
      have hcounter : (advanced s next).tokenCounter = s.tokenCounter + 1 := by
        simp [advanced, countTokens, hkind]
      refine ⟨hlater, fun h => ?_, fun h => ?_⟩
      · change (if n < s.tokenCounter + 1 then _ else _ : Parser Unit) _ = _
        rw [if_neg (by omega)]
        rfl
      · change Raises ((if n < s.tokenCounter + 1 then _ else _ : Parser Unit) _)
        rw [if_pos (by omega)]
        exact ⟨_, rfl⟩
  · obtain ⟨⟨error, h⟩, error', h'⟩ := hraises n
    have hrun : advanceLexer s = .error (.raised error) := bind_of_error h
    have hlimited : advanceLexer (s.limit n) = .error (.raised error') := bind_of_error h'
    rw [hrun, hlimited]
    exact ⟨⟨_, rfl⟩, _, rfl⟩

theorem regular_advanceLexer : Regular bound 0 advanceLexer :=
  fun _ => regularAt_advanceLexer.mono (by omega)

theorem regularAt_advanceLexer_one (h : s.token.kind ≠ .eof) :
    RegularAt bound 1 advanceLexer s := by
  have hrun := @regularAt_advanceLexer bound s
  rwa [if_neg h] at hrun

theorem regular_expectToken {kind : TokenKind} (h : kind ≠ .eof) :
    Regular bound 1 (expectToken kind) := by
  refine Regular.token_bind fun s => ?_
  split
  · rename_i hkind
    refine (regularAt_advanceLexer_one ?_).bind_one fun _ => Regular.pure
    rw [hkind]
    exact h
  · exact regular_raise _ _ s

theorem regular_expectToken_eof : Regular bound 0 (expectToken .eof) :=
  regular_token.bind fun _ =>
    Regular.ite (regular_advanceLexer.bind fun _ => Regular.pure) (regular_raise _ _)

theorem expectOptionalToken_bind {kind : TokenKind} {f : Bool → Parser β} :
    expectOptionalToken kind >>= f = token >>= fun current =>
      if current.kind = kind then advanceLexer >>= fun _ => f true else f false := by
  unfold expectOptionalToken
  rw [bind_assoc]
  congr 1
  funext current
  split
  · rw [bind_assoc]
    simp only [pure_bind]
  · rw [pure_bind]

/-- What follows an optional token that is there may have a smaller bound. -/
theorem regular_optional {kind : TokenKind} {f : Bool → Parser β} {k : ℕ}
    (h : kind ≠ .eof) (htrue : Regular bound 0 (f true))
    (hfalse : Regular (bound + 1) k (f false)) (hk : k ≤ 1) :
    Regular (bound + 1) k (expectOptionalToken kind >>= f) := by
  rw [expectOptionalToken_bind]
  refine Regular.token_bind fun s => ?_
  split
  · rename_i hkind
    have hne : s.token.kind ≠ .eof := by rwa [hkind]
    exact (regularAt_advanceLexer_one hne).seq (fun _ => htrue) (by omega) (by omega)
  · exact hfalse s

theorem regular_expectOptionalToken (kind : TokenKind) :
    Regular bound 0 (expectOptionalToken kind) :=
  regular_token.bind fun _ =>
    Regular.ite (regular_advanceLexer.bind fun _ => Regular.pure) Regular.pure

theorem regular_expectKeyword (value : Text) : Regular bound 1 (expectKeyword value) := by
  refine Regular.token_bind fun s => ?_
  split
  · rename_i hname
    refine regularAt_advanceLexer_one ?_
    rw [hname.1]
    decide
  · exact regular_raise _ _ s

theorem regular_expectOptionalKeyword (value : Text) :
    Regular bound 0 (expectOptionalKeyword value) :=
  regular_token.bind fun _ =>
    Regular.ite (regular_advanceLexer.bind fun _ => Regular.pure) Regular.pure

theorem regular_orNone {condition : Bool} {parseFn : Parser α}
    (h : Regular bound 0 parseFn) : Regular bound 0 (orNone condition parseFn) :=
  Regular.ite h.map Regular.pure

section Loops

variable {parseFn : Parser α} {steps : ℕ}

theorem regular_itemsUntil {closeKind : TokenKind} :
    ∀ {bound steps : ℕ}, Regular bound 1 parseFn → bound ≤ steps →
      Regular bound 0 (itemsUntil closeKind parseFn steps)
  | 0, _, _, _ => Regular.bound_zero
  | bound + 1, steps + 1, h, hsteps =>
      (regular_expectOptionalToken closeKind).bind fun _ =>
        Regular.ite Regular.pure
          (h.bind_succ fun _ =>
            (regular_itemsUntil (h.of_le (by omega)) (by omega)).bind fun _ =>
              Regular.pure).zero

/-- The opening token is consumed before the items. -/
theorem regular_any {openKind closeKind : TokenKind} (hopen : openKind ≠ .eof)
    (h : Regular bound 1 parseFn) (hsteps : bound ≤ steps) :
    Regular (bound + 1) 1 (any steps openKind parseFn closeKind) :=
  (regular_expectToken hopen).bind_succ fun _ => regular_itemsUntil h hsteps

theorem regular_someUntil {closeKind : TokenKind} (h : Regular bound 1 parseFn)
    (hsteps : bound ≤ steps) :
    Regular bound 1 (someUntil steps parseFn closeKind) :=
  h.bind_one fun _ => (regular_itemsUntil h hsteps).bind fun _ => Regular.pure

theorem regular_optionalMany {openKind closeKind : TokenKind}
    (h : Regular bound 1 parseFn) :
    Regular bound 0 (optionalMany bound openKind parseFn closeKind) :=
  (regular_expectOptionalToken openKind).bind fun _ =>
    regular_orNone (regular_someUntil h le_rfl).zero

theorem regular_many {openKind closeKind : TokenKind} (hopen : openKind ≠ .eof)
    (h : Regular bound 1 parseFn) (hsteps : bound ≤ steps) :
    Regular (bound + 1) 1 (many steps openKind parseFn closeKind) :=
  (regular_expectToken hopen).bind_succ fun _ => (regular_someUntil h hsteps).zero

theorem regular_delimitedItems {delimiterKind : TokenKind} :
    ∀ {bound : ℕ}, Regular bound 1 parseFn →
      Regular bound 1 (delimitedItems delimiterKind parseFn bound)
  | 0, _ => Regular.bound_zero
  | bound + 1, h =>
      h.bind_succ fun _ => (regular_expectOptionalToken delimiterKind).bind fun _ =>
        Regular.ite
          ((regular_delimitedItems (h.of_le (by omega))).zero.bind fun _ => Regular.pure)
          Regular.pure

theorem regular_delimitedMany {delimiterKind : TokenKind} (h : Regular bound 1 parseFn) :
    Regular bound 1 (delimitedMany bound delimiterKind parseFn) :=
  (regular_expectOptionalToken delimiterKind).bind fun _ => regular_delimitedItems h

end Loops

end Parser

end GraphqlCore.Language
