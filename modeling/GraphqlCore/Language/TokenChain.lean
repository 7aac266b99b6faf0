import GraphqlCore.Language.TokenReading

/-!
# The tokens of a source

`Lexer.advance` with its look ahead, the tokens that it links, comments included, and
what holds of all of them: where they stand, and how lexing ends.
-/

namespace GraphqlCore.Language

/-! ## The lexer -/

/-- At the start of a source. -/
def Cursor.start (body : Text) : Cursor :=
  { position := 0, line := 1, lineStart := 0, rest := body }

/-- The token in front of all others. -/
def sofToken : Token := { kind := .sof, start := 0, stop := 0, line := 0, column := 0 }

/-- The next token that is not a comment. -/
def lookahead (cursor : Cursor) : Except SyntaxError (Token × Cursor) :=
  match _h : readNextToken cursor with
  | .error error => .error error
  | .ok (token, next) =>
      if _hcomment : token.kind = .comment then lookahead next
      else .ok (token, next)
termination_by cursor.rest.length
decreasing_by exact length_rest_lt_of_read _h (by simp [_hcomment])

/-- The lexer between two calls, with the cursor behind its token. -/
structure Lexer where
  lastToken : Token
  token : Token
  cursor : Cursor

def Lexer.new (body : Text) : Lexer :=
  { lastToken := sofToken, token := sofToken, cursor := Cursor.start body }

def Lexer.advance (lexer : Lexer) : Except SyntaxError Lexer :=
  if lexer.token.kind = .eof then .ok { lexer with lastToken := lexer.token }
  else do
    let (token, cursor) ← lookahead lexer.cursor
    return { lastToken := lexer.token, token := token, cursor := cursor }

/-- The tokens from the cursor on, comments included, up to the end of file or up to an
error. -/
def readTokens (cursor : Cursor) : List Token × Option SyntaxError :=
  match _h : readNextToken cursor with
  | .error error => ([], some error)
  | .ok (token, next) =>
      if _hend : token.kind = .eof then ([token], none)
      else
        let (tokens, error) := readTokens next
        (token :: tokens, error)
termination_by cursor.rest.length
decreasing_by exact length_rest_lt_of_read _h _hend

/-- The tokens that are linked behind the start of file. -/
def tokenChain (body : Text) : List Token × Option SyntaxError := readTokens (Cursor.start body)

/-! ## Where tokens stand -/

/-- The token stands behind the given text and covers the text behind it. -/
structure Token.Covers (token : Token) (before text : Text) : Prop where
  start_eq : token.start = before.length
  stop_eq : token.stop = before.length + text.length
  line_eq : token.line = 1 + lineEnds before
  column_eq : token.column = before.length - lastLineStart before + 1
  kind_eq_eof_iff : token.kind = .eof ↔ text = []

/-- The cursor has moved over the start of the source. -/
theorem createToken_covers {body before : Text} {cursor : Cursor}
    (hat : (Cursor.start body).Moves before cursor) {kind : TokenKind} {text : Text}
    (hkind : kind = .eof ↔ text = []) (value : Option Text) :
    (cursor.createToken kind text.length value).Covers before text := by
  have hposition : cursor.position = before.length := hat.position_eq.trans (Nat.zero_add _)
  have hlineStart : cursor.lineStart = lastLineStart before := by
    have happend := lastLineStart_append [] before
    rw [List.nil_append] at happend
    rw [hat.lineStart_eq, happend]
    rfl
  have hle := lastLineStart_le before
  refine ⟨hposition, ?_, hat.line_eq, ?_, hkind⟩
  · exact congrArg (· + text.length) hposition
  · have hcolumn : 1 + before.length - lastLineStart before =
        before.length - lastLineStart before + 1 := by
      omega
    rw [← hcolumn, ← hposition, ← hlineStart]
    rfl

/-- One token is read: it stands behind text that is ignored. -/
theorem readNextToken_covers {body before : Text} {cursor next : Cursor} {token : Token}
    (hat : (Cursor.start body).Moves before cursor)
    (h : readNextToken cursor = .ok (token, next)) :
    ∃ skipped text, IsIgnoredText skipped ∧ token.Covers (before ++ skipped) text ∧
      (Cursor.start body).Moves (before ++ skipped ++ text) next ∧
      (token.kind = .eof → next.rest = []) := by
  obtain ⟨skipped, start, hskipped, hskip, -, hread⟩ := readNextToken_outcome cursor
  have hstart := hat.trans hskip
  rw [h] at hread
  rcases hread with ⟨hend, hread⟩ | hread
  · obtain ⟨rfl, rfl⟩ := Prod.mk.inj (Except.ok.inj hread)
    refine ⟨skipped, [], hskipped, createToken_covers hstart (iff_of_true rfl rfl) none,
      ?_, fun _ => hend⟩
    rw [List.append_nil]
    exact hstart
  · cases hread with
    | @read kind text value _ hkind _ hsome hmoves =>
        have hcovers := createToken_covers hstart (iff_of_false hkind hsome) value
        exact ⟨skipped, text, hskipped, hcovers, hstart.trans hmoves,
          fun heof => absurd heof hkind⟩

/-- The next token stands behind the token, with nothing but ignored text between them. -/
def Follows (body : Text) (token next : Token) : Prop :=
  token.stop ≤ next.start ∧ IsIgnoredText ((body.take next.start).drop token.stop)

theorem follows_of_covers {body before skipped text rest : Text} {previous token : Token}
    (hbody : body = before ++ skipped ++ rest) (hprevious : previous.stop = before.length)
    (hskipped : IsIgnoredText skipped) (hcovers : token.Covers (before ++ skipped) text) :
    Follows body previous token := by
  have hgap : (body.take token.start).drop previous.stop = skipped := by
    rw [hbody, hcovers.start_eq, hprevious, List.take_left, List.drop_left]
  refine ⟨?_, hgap ▸ hskipped⟩
  rw [hcovers.start_eq, hprevious, List.length_append]
  exact Nat.le_add_right _ _

/-- The tokens cover parts of the source, one behind the other. -/
structure Chained (body : Text) (previous : Token) (tokens : List Token) : Prop where
  follows : (previous :: tokens).IsChain (Follows body)
  covers : ∀ token ∈ tokens, ∃ before text, before ++ text <+: body ∧ token.Covers before text

theorem Chained.cons {body before skipped text rest : Text} {previous token : Token}
    {tokens : List Token} (hbody : body = before ++ skipped ++ text ++ rest)
    (hprevious : previous.stop = before.length) (hskipped : IsIgnoredText skipped)
    (hcovers : token.Covers (before ++ skipped) text) (h : Chained body token tokens) :
    Chained body previous (token :: tokens) where
  follows := by
    rw [List.append_assoc] at hbody
    exact .cons_cons (follows_of_covers hbody hprevious hskipped hcovers) h.follows
  covers := by
    refine List.forall_mem_cons.mpr ⟨⟨_, text, ?_, hcovers⟩, h.covers⟩
    exact ⟨rest, hbody.symm⟩

theorem readTokens_chained {body before : Text} {cursor : Cursor} {previous : Token}
    (hat : (Cursor.start body).Moves before cursor) (hprevious : previous.stop = before.length) :
    Chained body previous (readTokens cursor).1 := by
  fun_induction readTokens cursor generalizing before previous with
  | case1 => exact ⟨.singleton _, fun _ h => nomatch h⟩
  | case2 cursor token next hread hend =>
      obtain ⟨skipped, text, hskipped, hcovers, hnext, -⟩ := readNextToken_covers hat hread
      exact .cons hnext.rest_eq hprevious hskipped hcovers ⟨.singleton _, fun _ h => nomatch h⟩
  | case3 cursor token next hread hend tokens error htokens ih =>
      obtain ⟨skipped, text, hskipped, hcovers, hnext, -⟩ := readNextToken_covers hat hread
      have hstop : token.stop = (before ++ skipped ++ text).length := by
        rw [hcovers.stop_eq, ← List.length_append]
      have htail := ih hnext hstop
      rw [htokens] at htail
      exact .cons hnext.rest_eq hprevious hskipped hcovers htail

theorem Cursor.start_moves (body : Text) : (Cursor.start body).Moves [] (Cursor.start body) :=
  .refl _

theorem tokenChain_chained (body : Text) : Chained body sofToken (tokenChain body).1 :=
  readTokens_chained (Cursor.start_moves body) rfl

/-- A source that lexes is read up to its end. -/
theorem readTokens_last {body before : Text} {cursor : Cursor}
    (hat : (Cursor.start body).Moves before cursor) (h : (readTokens cursor).2 = none) :
    ∃ eof, (readTokens cursor).1.getLast? = some eof ∧ eof.kind = .eof ∧
      eof.start = body.length := by
  fun_induction readTokens cursor generalizing before with
  | case1 => cases h
  | case2 cursor token next hread hend =>
      obtain ⟨skipped, text, -, hcovers, hnext, hrest⟩ := readNextToken_covers hat hread
      have hbody : body = before ++ skipped ++ text ++ next.rest := hnext.rest_eq
      obtain rfl : text = [] := hcovers.kind_eq_eof_iff.mp hend
      rw [hrest hend, List.append_nil, List.append_nil] at hbody
      exact ⟨token, rfl, hend, by rw [hcovers.start_eq, hbody]⟩
  | case3 cursor token next hread hend tokens error htokens ih =>
      obtain ⟨skipped, text, -, -, hnext, -⟩ := readNextToken_covers hat hread
      rw [htokens] at ih
      obtain ⟨eof, hlast, hkind, hstart⟩ := ih hnext h
      refine ⟨eof, ?_, hkind, hstart⟩
      rw [List.getLast?_cons, hlast]
      rfl

/-- Every token of a source that lexes has the line and the column at which it stands, and
between the tokens there is nothing but ignored text. -/
theorem token_positions (body : Text) (tokens : List Token)
    (h : tokenChain body = (tokens, none)) :
    (∀ token ∈ tokens,
      token.line = 1 + lineEnds (body.take token.start) ∧
      token.column = token.start - lastLineStart (body.take token.start) + 1 ∧
      token.start ≤ token.stop ∧ token.stop ≤ body.length) ∧
    (sofToken :: tokens).IsChain (Follows body) ∧
    ∃ eof, tokens.getLast? = some eof ∧ eof.kind = .eof ∧ eof.start = body.length := by
  have hchained := tokenChain_chained body
  have hlast := readTokens_last (Cursor.start_moves body) (congrArg Prod.snd h)
  rw [tokenChain] at h hchained
  rw [h] at hchained hlast
  refine ⟨fun token htoken => ?_, hchained.follows, hlast⟩
  obtain ⟨before, text, ⟨rest, hbody⟩, hcovers⟩ := hchained.covers token htoken
  have htake : body.take token.start = before := by
    rw [← hbody, hcovers.start_eq, List.append_assoc, List.take_left]
  refine ⟨?_, ?_, ?_, ?_⟩
  · rw [htake, hcovers.line_eq]
  · rw [htake, hcovers.column_eq, hcovers.start_eq]
  · rw [hcovers.start_eq, hcovers.stop_eq]
    exact Nat.le_add_right _ _
  · rw [hcovers.stop_eq, ← hbody, List.length_append, List.length_append]
    exact Nat.le_add_right _ _

/-- Line ends within a block string and between tokens. -/
theorem token_positions_blockString :
    ∃ tokens, tokenChain (str "\"\"\"\n b\"\"\"\r\n c") = (tokens, none) ∧
      (∀ token ∈ tokens,
        token.line = 1 + lineEnds ((str "\"\"\"\n b\"\"\"\r\n c").take token.start) ∧
        token.column = token.start -
          lastLineStart ((str "\"\"\"\n b\"\"\"\r\n c").take token.start) + 1 ∧
        token.start ≤ token.stop ∧
        token.stop ≤ (str "\"\"\"\n b\"\"\"\r\n c").length) ∧
      (sofToken :: tokens).IsChain (Follows (str "\"\"\"\n b\"\"\"\r\n c")) ∧
      ∃ eof, tokens.getLast? = some eof ∧ eof.kind = .eof ∧
        eof.start = (str "\"\"\"\n b\"\"\"\r\n c").length := by
  have hlexes : tokenChain (str "\"\"\"\n b\"\"\"\r\n c") =
      ([{ kind := .blockString, start := 0, stop := 9, line := 1, column := 1
          value := some (str "b") },
        { kind := .name, start := 12, stop := 13, line := 3, column := 2
          value := some (str "c") },
        { kind := .eof, start := 13, stop := 13, line := 3, column := 3 }], none) := by
    decide +kernel
  exact ⟨_, hlexes, token_positions _ _ hlexes⟩

/-! ## How lexing ends -/

/-- The lexer after a number of calls of `advance`. -/
def Lexer.advances (lexer : Lexer) : ℕ → Except SyntaxError Lexer
  | 0 => .ok lexer
  | n + 1 => lexer.advances n >>= Lexer.advance

/-- The states of the lexer between calls of `advance`. -/
inductive Lexer.Reached (body : Text) : Lexer → Prop
  | start : Reached body (Lexer.new body)
  | advance {lexer next : Lexer} (h : Reached body lexer) (hadvance : lexer.advance = .ok next) :
      Reached body next

/-- Lexing reaches the end of file or raises a syntax error, it raises nothing else, and
every token but the end of file takes something from the text. -/
structure LexingTotal (body : Text) : Prop where
  ends : ∃ n, (∃ lexer, (Lexer.new body).advances n = .ok lexer ∧ lexer.token.kind = .eof) ∨
    ∃ position description,
      (Lexer.new body).advances n = .error (.syntaxError position description)
  raises : ∀ lexer error, Lexer.Reached body lexer → lexer.advance = .error error →
    ∃ position description, error = .syntaxError position description
  consumes : ∀ token ∈ (tokenChain body).1, token.kind ≠ .eof → token.start < token.stop

/-- Behind ignored text and comments, there is a string that the end of the source cuts
off within an escape sequence. -/
inductive CutAhead : Text → Prop
  | string {text : Text} (hcut : CutString (skipIgnored text)) : CutAhead text
  | comment {text rest : Text} (hskip : skipIgnored text = 35 :: rest)
      (h : CutAhead (readComment rest).2) : CutAhead text

theorem CutString.exists_cons {text : Text} (h : CutString text) : ∃ rest, text = 34 :: rest := by
  obtain ⟨chars, value, escape, rfl, -, -⟩ := h
  exact ⟨_, rfl⟩

theorem readNextToken_indexError_iff {cursor : Cursor} :
    readNextToken cursor = .error .indexError ↔ CutString (skipIgnored cursor.rest) := by
  constructor
  · intro h
    obtain ⟨skipped, start, -, -, hstart, hread⟩ := readNextToken_outcome cursor
    rw [h] at hread
    rcases hread with ⟨-, hread⟩ | hread
    · cases hread
    · cases hread with
      | cut hcut => exact hstart ▸ hcut
  · intro h
    obtain ⟨skipped, start, -, -, hstart, hread⟩ := readNextToken_behind cursor
    obtain ⟨rest, hrest⟩ := h.exists_cons
    rw [hrest] at hstart
    rcases hread with ⟨hend, -⟩ | ⟨c, rest', hc, -, hread⟩
    · rw [hstart] at hend
      cases hend
    · obtain ⟨rfl, rfl⟩ := List.cons.inj (hc.symm.trans hstart)
      rw [hread]
      exact h.readToken hrest start

/-- A comment that is read next. -/
theorem readNextToken_comment {cursor next : Cursor} {token : Token}
    (h : readNextToken cursor = .ok (token, next)) (hkind : token.kind = .comment) :
    ∃ rest, skipIgnored cursor.rest = 35 :: rest ∧ next.rest = (readComment rest).2 := by
  obtain ⟨skipped, start, -, -, hstart, hread⟩ := readNextToken_outcome cursor
  rw [h] at hread
  rcases hread with ⟨-, hread⟩ | hread
  · obtain ⟨rfl, -⟩ := Prod.mk.inj (Except.ok.inj hread)
    cases hkind
  · cases hread with
    | read _ hcomment =>
        obtain ⟨rest, hrest, hnext⟩ := hcomment hkind
        exact ⟨rest, hstart.symm.trans hrest, hnext⟩

theorem readNextToken_of_hash {cursor : Cursor} {rest : Text}
    (h : skipIgnored cursor.rest = 35 :: rest) :
    ∃ token next, readNextToken cursor = .ok (token, next) ∧ token.kind = .comment ∧
      next.rest = (readComment rest).2 := by
  obtain ⟨skipped, start, -, -, hstart, hread⟩ := readNextToken_behind cursor
  rw [h] at hstart
  rcases hread with ⟨hend, -⟩ | ⟨c, rest', hc, -, hread⟩
  · rw [hstart] at hend
    cases hend
  · obtain ⟨rfl, rfl⟩ := List.cons.inj (hc.symm.trans hstart)
    rw [hread, readToken, if_pos rfl]
    exact ⟨_, _, rfl, rfl, rfl⟩

theorem lookahead_indexError_iff {cursor : Cursor} :
    lookahead cursor = .error .indexError ↔ CutAhead cursor.rest := by
  constructor
  · intro h
    fun_induction lookahead cursor with
    | case1 cursor error hread =>
        obtain rfl := Except.error.inj h
        exact .string (readNextToken_indexError_iff.mp hread)
    | case2 cursor token next hread hcomment ih =>
        obtain ⟨rest, hskip, hnext⟩ := readNextToken_comment hread hcomment
        exact .comment hskip (hnext ▸ ih h)
    | case3 => cases h
  · intro h
    generalize htext : cursor.rest = text at h
    induction h generalizing cursor with
    | string hcut =>
        subst htext
        rw [lookahead]
        split
        · next error hread =>
          rw [readNextToken_indexError_iff.mpr hcut] at hread
          exact hread.symm
        · next token next hread =>
          rw [readNextToken_indexError_iff.mpr hcut] at hread
          cases hread
    | @comment text rest hskip _ ih =>
        subst htext
        obtain ⟨token, next, hread, hkind, hnext⟩ := readNextToken_of_hash hskip
        rw [lookahead]
        split
        · next hread' =>
          rw [hread] at hread'
          cases hread'
        · next token' next' hread' =>
          rw [hread] at hread'
          obtain ⟨rfl, rfl⟩ := Prod.mk.inj (Except.ok.inj hread')
          rw [dif_pos hkind]
          exact ih hnext

theorem length_rest_lt_of_lookahead {cursor next : Cursor} {token : Token}
    (h : lookahead cursor = .ok (token, next)) (hkind : token.kind ≠ .eof) :
    next.rest.length < cursor.rest.length := by
  fun_induction lookahead cursor with
  | case1 => cases h
  | case2 cursor comment mid hread hcomment ih =>
      have hmid := length_rest_lt_of_read hread (by simp [hcomment])
      exact (ih h).trans hmid
  | case3 cursor token' next' hread _ =>
      obtain ⟨rfl, rfl⟩ := Prod.mk.inj (Except.ok.inj h)
      exact length_rest_lt_of_read hread hkind

namespace Lexer

/-- What a call of `advance` in front of the end of file does. -/
theorem advance_of_ne {lexer : Lexer} (h : lexer.token.kind ≠ .eof) :
    lexer.advance = (lookahead lexer.cursor).map fun read =>
      { lastToken := lexer.token, token := read.1, cursor := read.2 } := by
  rw [advance, if_neg h]
  cases lookahead lexer.cursor <;> rfl

theorem advance_indexError_iff {lexer : Lexer} (h : lexer.token.kind ≠ .eof) :
    lexer.advance = .error .indexError ↔ CutAhead lexer.cursor.rest := by
  rw [advance_of_ne h, ← lookahead_indexError_iff]
  cases lookahead lexer.cursor <;> simp [Except.map]

theorem advances_succ (lexer : Lexer) (n : ℕ) :
    lexer.advances (n + 1) = lexer.advance >>= fun next => next.advances n := by
  induction n with
  | zero =>
      rw [advances]
      change lexer.advance = _
      cases lexer.advance <;> rfl
  | succ n ih =>
      rw [advances, ih]
      cases lexer.advance <;> rfl

/-- From every state in which no string is cut off ahead, and none will be, the lexer comes
to the end of file or to a syntax error. -/
theorem ends_of_reached {body : Text}
    (hcut : ∀ lexer, Reached body lexer → lexer.token.kind ≠ .eof → ¬ CutAhead lexer.cursor.rest)
    {lexer : Lexer} (hreached : Reached body lexer) :
    ∃ n, (∃ last, lexer.advances n = .ok last ∧ last.token.kind = .eof) ∨
      ∃ position description, lexer.advances n = .error (.syntaxError position description) := by
  induction hlength : lexer.cursor.rest.length using Nat.strongRecOn generalizing lexer with
  | _ length ih =>
      subst hlength
      by_cases hend : lexer.token.kind = .eof
      · exact ⟨0, Or.inl ⟨lexer, rfl, hend⟩⟩
      have hadvance := advance_of_ne hend
      cases hread : lookahead lexer.cursor with
      | error error =>
          rw [hread] at hadvance
          cases error with
          | indexError =>
              exact absurd (lookahead_indexError_iff.mp hread) (hcut lexer hreached hend)
          | syntaxError position description =>
              refine ⟨1, Or.inr ⟨position, description, ?_⟩⟩
              rw [advances_succ, hadvance]
              rfl
      | ok read =>
          obtain ⟨token, cursor⟩ := read
          rw [hread] at hadvance
          let next : Lexer := { lastToken := lexer.token, token := token, cursor := cursor }
          have hnext : lexer.advance = .ok next := hadvance
          by_cases hlast : token.kind = .eof
          · refine ⟨1, Or.inl ⟨next, ?_, hlast⟩⟩
            rw [advances_succ, hnext]
            rfl
          · have hshorter := length_rest_lt_of_lookahead hread hlast
            obtain ⟨n, hn⟩ := ih _ hshorter (hreached.advance hnext) rfl
            refine ⟨n + 1, ?_⟩
            rw [advances_succ, hnext]
            exact hn

end Lexer

theorem consumes_of_chained {body : Text} {previous : Token} {tokens : List Token}
    (h : Chained body previous tokens) :
    ∀ token ∈ tokens, token.kind ≠ .eof → token.start < token.stop := by
  intro token htoken hkind
  obtain ⟨before, text, -, hcovers⟩ := h.covers token htoken
  have hsome : text ≠ [] := fun hnil => hkind (hcovers.kind_eq_eof_iff.mpr hnil)
  have hpositive : 0 < text.length := List.length_pos_iff.mpr hsome
  rw [hcovers.start_eq, hcovers.stop_eq]
  omega

/-- Lexing is total up to syntax errors exactly for the sources in which the lexer never
comes to a string that the end of the source cuts off within an escape sequence. -/
theorem lexingTotal_iff (body : Text) :
    LexingTotal body ↔
      ∀ lexer, Lexer.Reached body lexer → lexer.token.kind ≠ .eof →
        ¬ CutAhead lexer.cursor.rest := by
  constructor
  · intro htotal lexer hreached hkind hcut
    have hraised := (Lexer.advance_indexError_iff hkind).mpr hcut
    obtain ⟨position, description, herror⟩ := htotal.raises lexer _ hreached hraised
    cases herror
  · intro hcut
    refine ⟨Lexer.ends_of_reached hcut .start, fun lexer error hreached herror => ?_,
      consumes_of_chained (tokenChain_chained body)⟩
    cases error with
    | syntaxError position description => exact ⟨position, description, rfl⟩
    | indexError =>
        have hkind : lexer.token.kind ≠ .eof := by
          intro hend
          rw [Lexer.advance, if_pos hend] at herror
          cases herror
        have hahead := (Lexer.advance_indexError_iff hkind).mp herror
        exact absurd hahead (hcut lexer hreached hkind)

/-- A quote and a backslash at the end of the source. -/
theorem not_lexingTotal_backslash : ¬ LexingTotal [34, 92] := by
  intro htotal
  have hcut : CutString (skipIgnored [34, 92]) := ⟨[], [], [92], rfl, .nil, .backslash⟩
  have hraised : (Lexer.new [34, 92]).advance = .error .indexError :=
    (Lexer.advance_indexError_iff (by decide)).mpr (.string hcut)
  obtain ⟨position, description, herror⟩ := htotal.raises _ _ .start hraised
  cases herror

end GraphqlCore.Language
