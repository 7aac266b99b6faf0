import GraphqlCore.Language.PrintedBlockStrings
import GraphqlCore.Language.TokenChain
import GraphqlCore.Language.TokenSpelling

/-!
# Stripping ignored characters

`strip_ignored_characters` puts the texts of the tokens next to each other, with a space
where two of them must not touch, and prints block strings anew.  Every token is read
from its text again; a block string has the same value exactly when the lines of Python
do not lead the printer astray.
-/

namespace GraphqlCore

open Language

/-! ## The function -/

/-- Between a token that is no punctuator and one of this kind there is a space. -/
def separator (wasLastAddedTokenNonPunctuator : Bool) (kind : TokenKind) : Text :=
  if wasLastAddedTokenNonPunctuator && (!kind.isPunctuator || kind = .spread) then [32] else []

/-- The text of the token in the source. -/
def tokenBody (body : Text) (token : Token) : Text := (body.take token.stop).drop token.start

def strippedBody (body : Text) (token : Token) : Text :=
  if token.kind = .blockString then printBlockString (token.value.getD []) true
  else tokenBody body token

/-- The loop over the tokens up to the end of file. -/
def stripTokens (body : Text) : Bool → List Token → Text
  | _, [] => []
  | wasLastAddedTokenNonPunctuator, token :: tokens =>
      if token.kind = .eof then []
      else
        let isNonPunctuator := !token.kind.isPunctuator
        separator wasLastAddedTokenNonPunctuator token.kind ++
          (strippedBody body token ++ stripTokens body isNonPunctuator tokens)

def stripIgnoredCharacters (body : Text) : Except SyntaxError Text :=
  match lex body with
  | (tokens, none) => .ok (stripTokens body false tokens)
  | (_, some error) => .error error

/-! ## The tokens of a source -/

/-- Each token is read from its text in the source. -/
inductive Tokenized (body : Text) : List Token → Prop
  | eof {token : Token} (hkind : token.kind = .eof) (hvalue : token.value = none) :
      Tokenized body [token]
  | cons {token : Token} {tokens : List Token}
      (hspells : SpellsToken token.kind token.value (tokenBody body token))
      (h : Tokenized body tokens) : Tokenized body (token :: tokens)

/-- The cursor stands behind the start of the source. -/
def Stands (body : Text) (cursor : Cursor) : Prop :=
  ∃ before, body = before ++ cursor.rest ∧ cursor.position = before.length

theorem stands_start (body : Text) : Stands body (Cursor.start body) := ⟨[], rfl, rfl⟩

theorem Stands.moves {body text : Text} {cursor next : Cursor} (h : Stands body cursor)
    (hmoves : cursor.Moves text next) : Stands body next := by
  obtain ⟨before, hbody, hposition⟩ := h
  refine ⟨before ++ text, ?_, ?_⟩
  · rw [hbody, hmoves.rest_eq, List.append_assoc]
  · rw [hmoves.position_eq, hposition, List.length_append]

theorem Stands.readBefore {body text rest : Text} {cursor next : Cursor} {kind : TokenKind}
    {value : Option Text} {token : Token} (h : Stands body cursor)
    (hread : ReadBefore cursor kind value text rest token next)
    (hrest : cursor.rest = text ++ rest) : Stands body next ∧ tokenBody body token = text := by
  obtain ⟨before, hbody, hposition⟩ := h
  constructor
  · refine ⟨before ++ text, ?_, ?_⟩
    · rw [hbody, hrest, hread.rest_eq, List.append_assoc]
    · rw [hread.position_eq, hposition, List.length_append]
  · have hstart : token.start = before.length := by rw [hread.token_eq, ← hposition]; rfl
    have hstop : token.stop = (before ++ text).length := by
      rw [hread.token_eq, List.length_append, ← hposition]
      rfl
    rw [tokenBody, hstart, hstop, hbody, hrest, ← List.append_assoc, List.take_left, List.drop_left]

/-- One token is read. -/
theorem readNextToken_stands {body : Text} {cursor next : Cursor} {token : Token}
    (h : Stands body cursor) (hread : readNextToken cursor = .ok (token, next)) :
    Stands body next ∧ (token.kind = .eof ∧ token.value = none ∨ token.kind = .comment ∨
      SpellsToken token.kind token.value (tokenBody body token)) := by
  obtain ⟨skipped, start, -, hmoves, -, hbehind⟩ := readNextToken_behind cursor
  have hstart := h.moves hmoves
  rw [hread] at hbehind
  rcases hbehind with ⟨-, hend⟩ | ⟨c, rest, hrest, hline, htoken⟩
  · obtain ⟨rfl, rfl⟩ := Prod.mk.inj (Except.ok.inj hend)
    exact ⟨hstart, .inl ⟨rfl, rfl⟩⟩
  · by_cases hcomment : token.kind = .comment
    · refine ⟨?_, .inr (.inl hcomment)⟩
      have houtcome := readToken_outcome hrest hline
      rw [← htoken] at houtcome
      cases houtcome with
      | read _ _ _ hmoves => exact hstart.moves hmoves
    · obtain ⟨text, htext, hspells, hbefore⟩ := spells_of_readToken htoken.symm hcomment
      obtain ⟨hnext, hbody⟩ := hstart.readBefore hbefore (hrest.trans htext)
      exact ⟨hnext, .inr (.inr (hbody ▸ hspells))⟩

theorem lexTokens_tokenized {body : Text} {limit : ℕ} {cursor : Cursor} {tokens : List Token}
    (hstands : Stands body cursor) (hlimit : cursor.rest.length < limit)
    (h : lexTokens limit cursor = (tokens, none)) : Tokenized body tokens := by
  induction limit generalizing cursor tokens with
  | zero => cases hlimit
  | succ limit ih =>
      rw [lexTokens] at h
      split at h
      · cases h
      · rename_i token next hread
        obtain ⟨hnext, hkinds⟩ := readNextToken_stands hstands hread
        split at h
        · rename_i hend
          obtain ⟨rfl, -⟩ := Prod.mk.inj h
          rcases hkinds with ⟨-, hvalue⟩ | hcomment | hspells
          · exact .eof hend hvalue
          · rw [hend] at hcomment
            cases hcomment
          · exact absurd hend hspells.kind_ne.1
        · rename_i hend
          have hshorter := length_rest_lt_of_read hread hend
          split at h
          rename_i tail error hlex
          split at h
          · exact ih hnext (by omega) (hlex.trans h)
          · rename_i hcomment
            obtain ⟨rfl, rfl⟩ := Prod.mk.inj h
            have htail := ih hnext (by omega) hlex
            rcases hkinds with ⟨hkind, -⟩ | hkind | hspells
            · exact absurd hkind hend
            · exact absurd hkind hcomment
            · exact .cons hspells htail

theorem lex_tokenized {body : Text} {tokens : List Token} (h : lex body = (tokens, none)) :
    Tokenized body tokens :=
  lexTokens_tokenized (stands_start body) (Nat.lt_succ_self _) h

/-! ## The stripped source -/

/-- A token as it is written into the stripped source: its kind, the value that is read
again, and its text. -/
structure Piece where
  kind : TokenKind
  value : Option Text
  text : Text

def Piece.Spelled (piece : Piece) : Prop := SpellsToken piece.kind piece.value piece.text

/-- The texts of the pieces with the spaces between them. -/
def render : Bool → List Piece → Text
  | _, [] => []
  | wasLastAddedTokenNonPunctuator, piece :: pieces =>
      separator wasLastAddedTokenNonPunctuator piece.kind ++
        (piece.text ++ render (!piece.kind.isPunctuator) pieces)

theorem separator_eq (after : Bool) (kind : TokenKind) :
    separator after kind = [] ∨ separator after kind = [32] := by
  rw [separator]
  split
  · exact .inr rfl
  · exact .inl rfl

/-- What is written behind a token that is no punctuator does not continue it. -/
theorem separates_render {pieces : List Piece} (h : ∀ piece ∈ pieces, piece.Spelled) :
    Separates (render true pieces) := by
  cases pieces with
  | nil => exact separates_nil
  | cons piece pieces =>
      rw [render, separator]
      split
      · exact separates_space _
      · rename_i htouches
        obtain ⟨kind, value, text⟩ := piece
        have hspells : SpellsToken kind value text := h _ List.mem_cons_self
        simp only [Bool.true_and, Bool.or_eq_true, Bool.not_eq_true', decide_eq_true_eq,
          not_or, Bool.not_eq_false] at htouches
        obtain ⟨hpunctuator, hspread⟩ := htouches
        cases hspells with
        | punctuator hkind => exact separates_of_kindForPunct hkind _
        | spread => exact absurd rfl hspread
        | number => rw [isPunctuator_number] at hpunctuator; cases hpunctuator
        | name | string | blockString => cases hpunctuator

/-- The token of a piece that is read again. -/
structure ReadAgain (stripped : Text) (piece : Piece) (token : Token) : Prop where
  kind_eq : token.kind = piece.kind
  value_eq : token.value = piece.value
  body_eq : tokenBody stripped token = piece.text

theorem readNextToken_separator (after : Bool) (kind : TokenKind) {cursor : Cursor} {rest : Text}
    {stripped : Text} (hstands : Stands stripped cursor)
    (hrest : cursor.rest = separator after kind ++ rest) :
    ∃ start, readNextToken cursor = readNextToken start ∧ start.rest = rest ∧
      Stands stripped start := by
  rcases separator_eq after kind with hnone | hspace
  · rw [hnone] at hrest
    exact ⟨cursor, rfl, hrest, hstands⟩
  · rw [hspace] at hrest
    have hmoves : cursor.Moves [32] (cursor.advance 1 rest) :=
      .advance hrest (by decide)
    exact ⟨cursor.advance 1 rest, readNextToken_of_space hrest, rfl, hstands.moves hmoves⟩

/-- Every piece is read again. -/
theorem lexTokens_render {stripped : Text} {after : Bool} {pieces : List Piece} {limit : ℕ}
    {cursor : Cursor} (hpieces : ∀ piece ∈ pieces, piece.Spelled)
    (hstands : Stands stripped cursor) (hrest : cursor.rest = render after pieces)
    (hlimit : cursor.rest.length < limit) :
    ∃ tokens eof, lexTokens limit cursor = (tokens ++ [eof], none) ∧ eof.kind = .eof ∧
      eof.value = none ∧ List.Forall₂ (ReadAgain stripped) pieces tokens := by
  induction pieces generalizing after limit cursor with
  | nil =>
      obtain ⟨limit, rfl⟩ : ∃ n, limit = n + 1 := ⟨limit - 1, by omega⟩
      refine ⟨[], cursor.createToken .eof 0, ?_, rfl, rfl, .nil⟩
      rw [lexTokens, readNextToken_of_nil cursor hrest]
      rfl
  | cons piece pieces ih =>
      obtain ⟨limit, rfl⟩ : ∃ n, limit = n + 1 := ⟨limit - 1, by omega⟩
      obtain ⟨hpiece, htail⟩ := List.forall_mem_cons.mp hpieces
      obtain ⟨start, hskip, hstart, hstands⟩ :=
        readNextToken_separator after piece.kind hstands hrest
      have hseparates : piece.kind.isPunctuator = false →
          Separates (render (!piece.kind.isPunctuator) pieces) := by
        intro hkind
        rw [hkind]
        exact separates_render htail
      obtain ⟨token, next, hread, hbefore⟩ := hpiece.read hseparates hstart
      obtain ⟨hnext, hbody⟩ := hstands.readBefore hbefore hstart
      have hkind : token.kind = piece.kind := by rw [hbefore.token_eq]; rfl
      have hvalue : token.value = piece.value := by rw [hbefore.token_eq]; rfl
      rw [← hskip] at hread
      obtain ⟨hend, hcomment⟩ := hpiece.kind_ne
      rw [← hkind] at hend hcomment
      have hshorter := length_rest_lt_of_read hread hend
      obtain ⟨tokens, eof, hlex, heof, hnone, hall⟩ :=
        @ih _ limit next htail hnext hbefore.rest_eq (by omega)
      refine ⟨token :: tokens, eof, ?_, heof, hnone, .cons ⟨hkind, hvalue, hbody⟩ hall⟩
      rw [lexTokens, hread]
      dsimp only
      rw [if_neg hend, hlex]
      dsimp only
      rw [if_neg hcomment]
      rfl

theorem lex_render {pieces : List Piece} (hpieces : ∀ piece ∈ pieces, piece.Spelled) :
    ∃ tokens eof, lex (render false pieces) = (tokens ++ [eof], none) ∧ eof.kind = .eof ∧
      eof.value = none ∧ List.Forall₂ (ReadAgain (render false pieces)) pieces tokens :=
  lexTokens_render hpieces (stands_start _) rfl (Nat.lt_succ_self _)

/-! ## Block strings -/

theorem indentRest_zero (text : Text) : indentRest 0 text = text := by
  induction text with
  | nil => rfl
  | cons c text ih =>
      by_cases hc : c = 10
      · subst hc
        rw [indentRest_lineFeed, ih]
        rfl
      · rw [indentRest_cons hc, ih]

theorem linesAgree_nil (minimize : Bool) : LinesAgree [] minimize :=
  ⟨fun _ h => (nomatch h), fun _ h => nomatch h⟩

/-- The value of a block string is printed as a block string, which has the same value
exactly when the lines of Python do not lead the printer astray. -/
theorem spells_printBlockString {text line : Text} {lines : List Text} {value : Text}
    (h : SpellsBlock text line lines)
    (hvalue : joinLines (dedentBlockStringLines (line :: lines)) = value) :
    ∃ text line lines, printBlockString value true = 34 :: 34 :: 34 :: text ∧
      SpellsBlock text line lines ∧
      (joinLines (dedentBlockStringLines (line :: lines)) = value ↔ LinesAgree value true) := by
  have hlines := h.valueLines
  generalize dedentBlockStringLines (line :: lines) = valueLines at hlines hvalue
  subst hvalue
  cases hlines with
  | nil => exact ⟨_, _, _, rfl, .close, iff_of_true rfl (linesAgree_nil true)⟩
  | @cons first others hlines hprintable =>
      have hsplit := splitOn_joinLines fun line hline => (hlines line hline).noFeed
      have htext := blockText_joinLines fun line hline => (hlines line hline).text
      generalize joinLines (first :: others) = value at hsplit htext
      have hsome : value ≠ [] := by
        rintro rfl
        obtain ⟨rfl, -⟩ := List.cons.inj hsplit
        cases hprintable.firstLine
      have hiff := lexes_printed_iff_linesAgree 0 true hsome htext hsplit hprintable
      obtain ⟨text, blank, hprinted, -, hspells⟩ := spells_printed 0 true htext hsplit
      rw [indentRest_zero] at hiff hprinted
      rw [hprinted] at hiff
      split at hspells
      · exact ⟨text, _, _, hprinted, hspells, (lexesAsBlockString_iff hspells).symm.trans hiff⟩
      · exact ⟨text, _, _, hprinted, hspells, (lexesAsBlockString_iff hspells).symm.trans hiff⟩

/-! ## What is preserved -/

/-- The lines of Python agree with the lines of the lexer in the value of the token, if it
is a block string. -/
def BlockLinesAgree (token : Token) : Prop :=
  token.kind = .blockString → LinesAgree (token.value.getD []) true

/-- The piece that is written for a token. -/
structure Strips (body : Text) (token : Token) (piece : Piece) : Prop where
  kind_eq : piece.kind = token.kind
  text_eq : piece.text = strippedBody body token
  spelled : piece.Spelled
  value_eq_iff : piece.value = token.value ↔ BlockLinesAgree token

theorem exists_strips {body : Text} {token : Token}
    (h : SpellsToken token.kind token.value (tokenBody body token)) :
    ∃ piece, Strips body token piece := by
  by_cases hblock : token.kind = .blockString
  · have hbody : strippedBody body token = printBlockString (token.value.getD []) true :=
      if_pos hblock
    generalize hkind : token.kind = kind at h
    generalize htoken : token.value = value at h
    generalize tokenBody body token = text at h
    cases h with
    | @blockString text line lines hspells =>
        obtain ⟨printed, line', lines', hprinted, hread, hiff⟩ :=
          spells_printBlockString hspells rfl
        rw [htoken] at hbody
        refine ⟨⟨.blockString, some (joinLines (dedentBlockStringLines (line' :: lines'))),
          34 :: 34 :: 34 :: printed⟩, hkind.symm, hprinted.symm.trans hbody.symm,
          .blockString hread, ?_⟩
        rw [htoken, Option.some.injEq, hiff, BlockLinesAgree, htoken]
        exact ⟨fun h _ => h, fun h => h hkind⟩
    | @punctuator _ _ hpunctuator =>
        rw [hkind] at hblock
        subst hblock
        cases (isPunctuator_of_kindForPunct hpunctuator).1
    | @number isFloat =>
        rw [hkind] at hblock
        cases isFloat <;> cases hblock
    | spread | name | string => exact absurd (hkind.symm.trans hblock) nofun
  · have hbody : strippedBody body token = tokenBody body token := if_neg hblock
    refine ⟨⟨token.kind, token.value, tokenBody body token⟩, rfl, hbody.symm, h, ?_⟩
    exact iff_of_true rfl fun hkind => absurd hkind hblock

theorem stripTokens_eq {body : Text} {tokens : List Token} (h : Tokenized body tokens) :
    ∃ front eof pieces, tokens = front ++ [eof] ∧ eof.kind = .eof ∧ eof.value = none ∧
      List.Forall₂ (Strips body) front pieces ∧
      ∀ after, stripTokens body after tokens = render after pieces := by
  induction h with
  | @eof token hkind hvalue =>
      refine ⟨[], token, [], rfl, hkind, hvalue, .nil, fun after => ?_⟩
      rw [stripTokens, if_pos hkind]
      rfl
  | @cons token tokens hspells h ih =>
      obtain ⟨front, eof, pieces, rfl, hkind, hvalue, hall, hstripped⟩ := ih
      obtain ⟨piece, hpiece⟩ := exists_strips hspells
      refine ⟨token :: front, eof, piece :: pieces, rfl, hkind, hvalue, .cons hpiece hall,
        fun after => ?_⟩
      rw [stripTokens, if_neg hspells.kind_ne.1, render, hpiece.kind_eq, hpiece.text_eq]
      dsimp only
      rw [hstripped]

theorem spelled_of_strips {body : Text} {tokens : List Token} {pieces : List Piece}
    (h : List.Forall₂ (Strips body) tokens pieces) : ∀ piece ∈ pieces, piece.Spelled := by
  induction h with
  | nil => exact fun _ h => nomatch h
  | cons hpiece _ ih => exact List.forall_mem_cons.mpr ⟨hpiece.spelled, ih⟩

/-- The kind and the value of a token. -/
def tokenContent (token : Token) : TokenKind × Option Text := (token.kind, token.value)

/-- The stripped source lexes without error, its tokens have the same kinds and values, and
it is not changed when it is stripped again. -/
def KeepsTokens (body : Text) (tokens : List Token) : Prop :=
  ∃ stripped tokens', stripIgnoredCharacters body = .ok stripped ∧
    lex stripped = (tokens', none) ∧ tokens'.map tokenContent = tokens.map tokenContent ∧
    stripIgnoredCharacters stripped = .ok stripped

/-- The tokens are read again with the same contents exactly when the lines of all block
strings agree. -/
theorem contents_eq_iff {body stripped : Text} {tokens tokens' : List Token}
    {pieces : List Piece} (hstrips : List.Forall₂ (Strips body) tokens pieces)
    (hread : List.Forall₂ (ReadAgain stripped) pieces tokens') :
    tokens'.map tokenContent = tokens.map tokenContent ↔
      ∀ token ∈ tokens, BlockLinesAgree token := by
  induction hstrips generalizing tokens' with
  | nil =>
      cases hread
      exact iff_of_true rfl fun _ h => nomatch h
  | cons hpiece _ ih =>
      cases hread with
      | cons htoken hread =>
          rw [List.map_cons, List.map_cons, List.cons.injEq, ih hread, List.forall_mem_cons,
            tokenContent, tokenContent, Prod.mk.injEq, htoken.kind_eq, htoken.value_eq,
            hpiece.value_eq_iff, and_iff_right hpiece.kind_eq]

/-- The tokens that are read again are written as they stand. -/
theorem stripTokens_again {body stripped : Text} {tokens tokens' : List Token} {eof : Token}
    {pieces : List Piece} (hstrips : List.Forall₂ (Strips body) tokens pieces)
    (hread : List.Forall₂ (ReadAgain stripped) pieces tokens')
    (hagree : ∀ token ∈ tokens, BlockLinesAgree token) (heof : eof.kind = .eof) (after : Bool) :
    stripTokens stripped after (tokens' ++ [eof]) = render after pieces := by
  induction hstrips generalizing tokens' after with
  | nil =>
      cases hread
      rw [List.nil_append, stripTokens, if_pos heof]
      rfl
  | @cons token piece tokens pieces hpiece _ ih =>
      cases hread with
      | @cons _ token' _ tokens' htoken hread =>
          obtain ⟨htokenAgrees, hagree⟩ := List.forall_mem_cons.mp hagree
          have hvalue := hpiece.value_eq_iff.mpr htokenAgrees
          have hbody : strippedBody stripped token' = piece.text := by
            rw [strippedBody]
            split
            · rename_i hblock
              rw [htoken.kind_eq, hpiece.kind_eq] at hblock
              rw [htoken.value_eq, hvalue, hpiece.text_eq, strippedBody, if_pos hblock]
            · exact htoken.body_eq
          have hend : token'.kind ≠ .eof := by
            rw [htoken.kind_eq]
            exact hpiece.spelled.kind_ne.1
          rw [List.cons_append, stripTokens, if_neg hend, render]
          dsimp only
          rw [hbody, htoken.kind_eq, ih hread hagree]

/-- Stripping keeps the tokens of a source exactly when, in the value of each block string,
the lines of Python do not lead the printer astray. -/
theorem stripIgnoredCharacters_iff (body : Text) (tokens : List Token)
    (hlex : lex body = (tokens, none)) :
    KeepsTokens body tokens ↔ ∀ token ∈ tokens, BlockLinesAgree token := by
  obtain ⟨front, eof, pieces, rfl, heof, hnone, hstrips, hrender⟩ :=
    stripTokens_eq (lex_tokenized hlex)
  obtain ⟨front', eof', hlex', heof', hnone', hread⟩ := lex_render (spelled_of_strips hstrips)
  have hstripped : stripIgnoredCharacters body = .ok (render false pieces) := by
    rw [stripIgnoredCharacters, hlex]
    exact congrArg Except.ok (hrender false)
  have hcontent : tokenContent eof' = tokenContent eof := by
    rw [tokenContent, tokenContent, heof, heof', hnone, hnone']
  have hcontents : (front' ++ [eof']).map tokenContent = (front ++ [eof]).map tokenContent ↔
      ∀ token ∈ front ++ [eof], BlockLinesAgree token := by
    have hend : BlockLinesAgree eof := fun hkind => by
      rw [heof] at hkind
      cases hkind
    rw [List.map_append, List.map_append, List.map_singleton, List.map_singleton, hcontent,
      List.append_cancel_right_eq, contents_eq_iff hstrips hread, List.forall_mem_append,
      List.forall_mem_singleton, and_iff_left hend]
  constructor
  · rintro ⟨stripped, tokens', hstripped', hlex'', hsame, -⟩
    obtain rfl := Except.ok.inj (hstripped.symm.trans hstripped')
    obtain ⟨rfl, -⟩ := Prod.mk.inj (hlex'.symm.trans hlex'')
    exact hcontents.mp hsame
  · intro hagree
    refine ⟨render false pieces, front' ++ [eof'], hstripped, hlex', hcontents.mpr hagree, ?_⟩
    rw [stripIgnoredCharacters, hlex']
    have hfront : ∀ token ∈ front, BlockLinesAgree token := fun token hmem =>
      hagree token (List.mem_append_left _ hmem)
    exact congrArg Except.ok (stripTokens_again hstrips hread hfront heof' false)

/-- A string, a block string, a comment and a spread behind a name. -/
theorem stripIgnoredCharacters_query :
    KeepsTokens (str "\x7b a (b: \"c\", d: \"\"\"\n  e\n\"\"\") # f\n g ... h \x7d")
        (lex (str "\x7b a (b: \"c\", d: \"\"\"\n  e\n\"\"\") # f\n g ... h \x7d")).1 ↔
      ∀ token ∈ (lex (str "\x7b a (b: \"c\", d: \"\"\"\n  e\n\"\"\") # f\n g ... h \x7d")).1,
        BlockLinesAgree token :=
  stripIgnoredCharacters_iff _ _ (Prod.ext rfl (by decide +kernel))

/-- A block string of one line, with a line separator in it. -/
def separatedBlock : Text := [34, 34, 34, 32, 97, 0x2028, 32, 98, 34, 34, 34]

/-- The space in front of a line separator is lost: the value is printed on a line of its
own. -/
theorem not_keepsTokens :
    ∃ tokens, lex separatedBlock = (tokens, none) ∧ ¬ KeepsTokens separatedBlock tokens := by
  refine ⟨(lex separatedBlock).1, Prod.ext rfl (by decide +kernel), ?_⟩
  rintro ⟨stripped, tokens, hstripped, hlex, hsame, -⟩
  have hprinted : (stripIgnoredCharacters separatedBlock).toOption =
      some [34, 34, 34, 10, 32, 97, 0x2028, 32, 98, 34, 34, 34] := by
    decide +kernel
  rw [hstripped] at hprinted
  obtain rfl : stripped = [34, 34, 34, 10, 32, 97, 0x2028, 32, 98, 34, 34, 34] :=
    Option.some.inj hprinted
  have hvalues : (lex [34, 34, 34, 10, 32, 97, 0x2028, 32, 98, 34, 34, 34]).1.map tokenContent ≠
      (lex separatedBlock).1.map tokenContent := by
    decide +kernel
  rw [hlex] at hvalues
  exact hvalues hsame

end GraphqlCore
