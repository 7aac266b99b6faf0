import GraphqlCore.Language.RegularParsers

/-!
# The limit on the number of tokens

The tokens of a source end properly, so that parsing it never exhausts its bound.
A document is parsed with a limit on the number of tokens just if it is parsed
without one and does not have more.
-/

namespace GraphqlCore.Language

open ParserState

/-! ## The tokens of a source -/

theorem readTokens_of_ok {cursor next : Cursor} {token : Token}
    (h : readNextToken cursor = .ok (token, next)) :
    readTokens cursor = if token.kind = .eof then ([token], none)
      else (token :: (readTokens next).1, (readTokens next).2) := by
  rw [readTokens]
  split
  · simp_all
  · rename_i heq
    rw [h] at heq
    cases heq
    rfl

theorem readTokens_of_error {cursor : Cursor} {error : SyntaxError}
    (h : readNextToken cursor = .error error) : readTokens cursor = ([], some error) := by
  rw [readTokens]
  split <;> simp_all

/-- The parser reads the tokens that are linked, without the comments. -/
theorem lexTokens_eq {limit : ℕ} {cursor : Cursor} (h : cursor.rest.length < limit) :
    lexTokens limit cursor =
      ((readTokens cursor).1.filter fun token => token.kind ≠ .comment,
        (readTokens cursor).2) := by
  induction limit generalizing cursor with
  | zero => omega
  | succ limit ih =>
      rw [lexTokens]
      split
      · rename_i error hread
        rw [readTokens_of_error hread]
        rfl
      · rename_i token next hread
        rw [readTokens_of_ok hread]
        split
        · rename_i heof
          simp [heof]
        · rename_i hkind
          rw [ih (by have := length_rest_lt_of_read hread hkind; omega)]
          by_cases hcomment : token.kind = .comment
          · simp [hcomment]
          · simp [hcomment]

theorem lexTokens_proper {limit : ℕ} {cursor : Cursor} {token : Token}
    (h : cursor.rest.length < limit) (htoken : token.kind ≠ .eof) :
    EndsProperly token (lexTokens limit cursor).1 (lexTokens limit cursor).2 := by
  induction limit generalizing cursor token with
  | zero => omega
  | succ limit ih =>
      rw [lexTokens]
      split
      · exact htoken
      · rename_i token' next hread
        split
        · rename_i heof
          exact ⟨htoken, heof⟩
        · rename_i hkind
          have hnext : next.rest.length < limit := by
            have := length_rest_lt_of_read hread hkind
            omega
          dsimp only
          split
          · exact ih hnext htoken
          · exact ⟨htoken, ih hnext hkind⟩

/-- The number of tokens of a source, not counting the start and the end of the file
and comments. -/
def sourceTokens (source : Text) : ℕ :=
  (tokenChain source).1.countP fun token => token.kind ≠ .eof ∧ token.kind ≠ .comment

theorem countTokens_lex (source : Text) :
    countTokens (lex source).1 = sourceTokens source := by
  have htokens := @lexTokens_eq (source.length + 1) (Cursor.start source)
    (Nat.lt_succ_self _)
  change countTokens (lexTokens _ (Cursor.start source)).1 = _
  rw [htokens, countTokens, List.countP_filter]
  refine List.countP_congr fun token _ => ?_
  simp

/-! ## The end of a document -/

section Documents

variable {α : Type} {p : Parser α} {s t : ParserState} {a : α} {bound k n : ℕ}

theorem Regular.later (h : Regular bound k p) (hs : s.Proper)
    (hlength : s.tokens.length < bound) (hmax : s.options.maxTokens = none)
    (hrun : p s = .ok (a, t)) : Later k s t := by
  have hruns := h s hs hlength hmax s.tokenCounter le_rfl
  rw [hrun] at hruns
  exact hruns.1

theorem Parser.itemsUntil_eof {steps : ℕ} {nodes : List α} (h : Regular bound 1 p)
    (hs : s.Proper) (hlength : s.tokens.length < bound)
    (hmax : s.options.maxTokens = none)
    (hrun : itemsUntil .eof p steps s = .ok (nodes, t)) : t.token.kind = .eof := by
  induction steps generalizing s nodes with
  | zero => cases hrun
  | succ steps ih =>
      rw [itemsUntil, expectOptionalToken_bind] at hrun
      change (if s.token.kind = .eof then _ else _ : Parser (List α)) s = _ at hrun
      split at hrun
      · rename_i heof
        obtain ⟨hnil, hfailure⟩ := hs.tokens_eq_nil heof
        rw [bind_of_ok (advanceLexer_of_eof (lookahead_end hnil hfailure) heof)] at hrun
        cases hrun
        exact heof
      · simp only [Bool.false_eq_true, if_false] at hrun
        obtain ⟨node, u, hnode, hrun⟩ := run_bind_eq_ok.mp hrun
        obtain ⟨nodes, v, hrest, hrun⟩ := run_bind_eq_ok.mp hrun
        cases hrun
        have hlater := h.later hs hlength hmax hnode
        exact ih hlater.proper (by have := hlater.consumed; omega)
          (by rw [hlater.options, hmax]) hrest

/-- A document that is parsed has all tokens of the source counted. -/
theorem Parser.parseDocument_tokenCount {document : DocumentNode} (hs : s.Proper)
    (hlength : s.tokens.length < bound) (hmax : s.options.maxTokens = none)
    (hrun : parseDocument bound s = .ok (document, t)) :
    document.tokenCount = t.tokenCounter ∧
      t.tokenCounter = s.tokenCounter + countTokens s.tokens := by
  have hlater := regular_parseDocument.later hs hlength hmax hrun
  obtain ⟨start, s₁, hstart, hrun⟩ := run_bind_eq_ok.mp hrun
  cases hstart
  obtain ⟨definitions, s₂, hmany, hrun⟩ := run_bind_eq_ok.mp hrun
  obtain ⟨token, s₃, hsof, hmany⟩ := run_bind_eq_ok.mp hmany
  obtain ⟨first, s₄, hfirst, hmany⟩ := run_bind_eq_ok.mp hmany
  obtain ⟨rest, s₅, hrest, hmany⟩ := run_bind_eq_ok.mp hmany
  cases hmany
  obtain ⟨location, s₆, hloc, hrun⟩ := run_bind_eq_ok.mp hrun
  obtain ⟨location', hloc'⟩ := loc_run (s := s₂) s.token
  cases hloc.symm.trans hloc'
  cases hrun
  -- The last token that the document consumes is the end of the file.
  have hsofLater : Later 1 s s₃ :=
    (regular_expectToken (by decide)).later hs hlength hmax hsof
  have hshort : s₃.tokens.length < bound := by have := hsofLater.consumed; omega
  have hmax₃ : s₃.options.maxTokens = none := by rw [hsofLater.options, hmax]
  have hfirstLater : Later 1 s₃ s₄ :=
    regular_parseDefinition.later hsofLater.proper hshort hmax₃ hfirst
  have heof : t.token.kind = .eof :=
    itemsUntil_eof regular_parseDefinition hfirstLater.proper
      (by have := hfirstLater.consumed; omega) (by rw [hfirstLater.options, hmax₃]) hrest
  have hnil := (hlater.proper.tokens_eq_nil heof).1
  have hcounted := hlater.counted
  rw [hnil] at hcounted
  exact ⟨rfl, hcounted⟩

end Documents

/-! ## Parsing a source -/

section Sources

variable {α : Type} {bound least n : ℕ} {options : ParseOptions} {source : Text}

/-- The options with a limit on the number of tokens, if one is given. -/
def ParseOptions.withMaxTokens (options : ParseOptions) (maxTokens : Option ℕ) :
    ParseOptions :=
  { options with maxTokens := maxTokens }

theorem initial_proper (options : ParseOptions) (source : Text) :
    (ParserState.initial options (lex source)).Proper :=
  lexTokens_proper (Nat.lt_succ_self _) (fun h => nomatch h)

/-- What a parser of a source does without and with a limit. -/
theorem runs_initial {parseFn : ℕ → Parser α}
    (h : ∀ {bound : ℕ}, Regular bound least (parseFn bound)) (n : ℕ) :
    Runs least (.initial (options.withMaxTokens none) (lex source)) n
      (parseFn ((lex source).1.length + 1)
        (.initial (options.withMaxTokens none) (lex source)))
      (parseFn ((lex source).1.length + 1)
        (.initial (options.withMaxTokens (some n)) (lex source))) :=
  h _ (initial_proper _ _) (Nat.lt_succ_self _) rfl n (Nat.zero_le _)

/-- The bound is never exhausted. -/
theorem runParser_ne_exhausted {parseFn : ℕ → Parser α}
    (h : ∀ {bound : ℕ}, Regular bound least (parseFn bound)) :
    runParser options (lex source) parseFn ≠ .error .exhausted := by
  rw [Ne, runParser_eq_error]
  cases hmax : options.maxTokens with
  | none =>
      have hruns := @runs_initial _ _ options source _ h 0
      rw [ParseOptions.withMaxTokens, ← hmax] at hruns
      exact hruns.ne_exhausted.1
  | some n =>
      have hruns := @runs_initial _ _ options source _ h n
      rw [ParseOptions.withMaxTokens, ParseOptions.withMaxTokens, ← hmax] at hruns
      exact hruns.ne_exhausted.2

/-- With a limit on the number of tokens, a document is parsed just if it is parsed without
one and the source has no more tokens; its token count is their number. -/
theorem parse_withMaxTokens (options : ParseOptions) (source : Text) :
    (∀ n document, parse (options.withMaxTokens (some n)) source = .ok document ↔
        parse (options.withMaxTokens none) source = .ok document ∧
          sourceTokens source ≤ n) ∧
      (∀ document, parse (options.withMaxTokens none) source = .ok document →
        document.tokenCount = sourceTokens source) ∧
      parse options source ≠ .error .exhausted := by
  have hcount : ∀ {document t}, Parser.parseDocument ((lex source).1.length + 1)
      (.initial (options.withMaxTokens none) (lex source)) = .ok (document, t) →
      document.tokenCount = t.tokenCounter ∧ t.tokenCounter = sourceTokens source := by
    intro document t hrun
    have htokens := Parser.parseDocument_tokenCount (initial_proper _ source)
      (Nat.lt_succ_self _) rfl hrun
    rw [← countTokens_lex]
    exact ⟨htokens.1, by rw [htokens.2]; exact Nat.zero_add _⟩
  refine ⟨fun n document => ?_, fun document hparse => ?_,
    runParser_ne_exhausted Parser.regular_parseDocument⟩
  · have hruns := @runs_initial _ _ options source _
      Parser.regular_parseDocument n
    rw [parse, parse, runParser_eq_ok, runParser_eq_ok]
    constructor
    · rintro ⟨u, hrun⟩
      obtain ⟨t, hrun, hn, -⟩ := hruns.limited_eq_ok_iff.mp hrun
      exact ⟨⟨t, hrun⟩, by rw [← (hcount hrun).2]; exact hn⟩
    · rintro ⟨⟨t, hrun⟩, hn⟩
      rw [← (hcount hrun).2] at hn
      exact ⟨_, hruns.limited_eq_ok_iff.mpr ⟨t, hrun, hn, rfl⟩⟩
  · obtain ⟨t, hrun⟩ := runParser_eq_ok.mp hparse
    exact (hcount hrun).1.trans (hcount hrun).2

end Sources

end GraphqlCore.Language
