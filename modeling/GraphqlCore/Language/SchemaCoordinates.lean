import GraphqlCore.Language.ParserRuns
import GraphqlCore.Language.Printer

/-!
# Schema coordinates

`parse_schema_coordinate` of `language/parser.py` with the lexer of
`language/schema_coordinate_lexer.py`, and the printing of schema coordinates.
A text is parsed just if it is of one of the five forms, and printing the node gives
the text back.
-/

namespace GraphqlCore.Language

/-! ## Nodes -/

structure TypeCoordinateNode where
  name : NameNode
  loc : Option Location := none

structure MemberCoordinateNode where
  name : NameNode
  memberName : NameNode
  loc : Option Location := none

structure ArgumentCoordinateNode where
  name : NameNode
  fieldName : NameNode
  argumentName : NameNode
  loc : Option Location := none

structure DirectiveCoordinateNode where
  name : NameNode
  loc : Option Location := none

structure DirectiveArgumentCoordinateNode where
  name : NameNode
  argumentName : NameNode
  loc : Option Location := none

inductive SchemaCoordinateNode
  | type (node : TypeCoordinateNode)
  | member (node : MemberCoordinateNode)
  | argument (node : ArgumentCoordinateNode)
  | directive (node : DirectiveCoordinateNode)
  | directiveArgument (node : DirectiveArgumentCoordinateNode)

/-! ## The lexer -/

namespace SchemaCoordinateLexer

def kindForPunct (c : ℕ) : Option TokenKind :=
  match c with
  | 46 => some .dot
  | 40 => some .parenL
  | 41 => some .parenR
  | 58 => some .colon
  | 64 => some .atSign
  | _ => none

/-- Punctuators and names are read only, and no ignored characters. -/
def readNextToken (cursor : Cursor) : Except SyntaxError (Token × Cursor) :=
  match cursor.rest with
  | [] => .ok (cursor.createToken .eof 0, cursor)
  | c :: rest =>
      match kindForPunct c with
      | some kind => .ok (cursor.createToken kind 1, cursor.advance 1 rest)
      | none =>
          if isNameStart c then
            let value := c :: rest.takeWhile isNameContinue
            .ok (cursor.createToken .name value.length (some value),
              cursor.advance value.length (rest.dropWhile isNameContinue))
          else
            .error (.syntaxError cursor.position
              (str "Invalid character: " ++ printCodePointAt (c :: rest) ++ str "."))

/-- The tokens up to the end of the source or up to an error. -/
def lexTokens : ℕ → Cursor → List Token × Option SyntaxError
  | 0, _ => ([], none)
  | limit + 1, cursor =>
      match readNextToken cursor with
      | .error error => ([], some error)
      | .ok (token, next) =>
          if token.kind = .eof then ([token], none)
          else
            let (tokens, error) := lexTokens limit next
            (token :: tokens, error)

def lex (source : Text) : List Token × Option SyntaxError :=
  lexTokens (source.length + 1) (Cursor.start source)

end SchemaCoordinateLexer

/-! ## The parser -/

namespace Parser

/-- The member behind a dot, which a directive does not have. -/
def parseMemberName (ofDirective : Bool) : Parser (Option NameNode) := do
  if ofDirective then return none
  else orNone (← expectOptionalToken .dot) parseName

/-- The argument in parentheses, which a type does not have. -/
def parseArgumentName (expected : Bool) : Parser (Option NameNode) := do
  if expected then do
    if ← expectOptionalToken .parenL then do
      let argumentName ← parseName
      let _ ← expectToken .colon
      let _ ← expectToken .parenR
      return some argumentName
    else return none
  else return none

/-- The node of the names that are read. -/
def schemaCoordinateNode (ofDirective : Bool) (name : NameNode)
    (memberName argumentName : Option NameNode) (loc : Option Location) :
    SchemaCoordinateNode :=
  match ofDirective, memberName, argumentName with
  | true, _, some argumentName =>
      .directiveArgument { name := name, argumentName := argumentName, loc := loc }
  | true, _, none => .directive { name := name, loc := loc }
  | false, some memberName, some argumentName =>
      .argument { name := name, fieldName := memberName, argumentName := argumentName
                  loc := loc }
  | false, some memberName, none =>
      .member { name := name, memberName := memberName, loc := loc }
  | false, none, _ => .type { name := name, loc := loc }

def parseSchemaCoordinate : Parser SchemaCoordinateNode := do
  let start ← token
  let ofDirective ← expectOptionalToken .atSign
  let name ← parseName
  let memberName ← parseMemberName ofDirective
  let argumentName ← parseArgumentName (ofDirective || memberName.isSome)
  return schemaCoordinateNode ofDirective name memberName argumentName (← loc start)

end Parser

def parseSchemaCoordinate (options : ParseOptions) (source : Text) :
    Except ParseFailure SchemaCoordinateNode :=
  runParser options (SchemaCoordinateLexer.lex source) fun _ =>
    Parser.whole Parser.parseSchemaCoordinate

/-! ## The printer -/

def printSchemaCoordinate : SchemaCoordinateNode → Text
  | .type node => printName node.name
  | .member node => join [printName node.name, wrap (str ".") (printName node.memberName)]
  | .argument node =>
      join [printName node.name, wrap (str ".") (printName node.fieldName),
        wrap (str "(") (printName node.argumentName) (str ":)")]
  | .directive node => str "@" ++ printName node.name
  | .directiveArgument node =>
      str "@" ++ printName node.name ++
        wrap (str "(") (printName node.argumentName) (str ":)")

/-! ## The five forms -/

/-- The kind of a node. -/
inductive CoordinateKind
  | type
  | member
  | argument
  | directive
  | directiveArgument
  deriving DecidableEq

def SchemaCoordinateNode.kind : SchemaCoordinateNode → CoordinateKind
  | .type _ => .type
  | .member _ => .member
  | .argument _ => .argument
  | .directive _ => .directive
  | .directiveArgument _ => .directiveArgument

/-- A letter or an underscore, then letters, digits and underscores. -/
def IsName (name : Text) : Prop :=
  ∃ c rest, name = c :: rest ∧ isNameStart c ∧ ∀ d ∈ rest, isNameContinue d

/-- Is the text a coordinate of the given kind? -/
inductive IsCoordinate : CoordinateKind → Text → Prop
  | type {name : Text} (h : IsName name) : IsCoordinate .type name
  | member {name memberName : Text} (h : IsName name) (hmember : IsName memberName) :
      IsCoordinate .member (name ++ str "." ++ memberName)
  | argument {name fieldName argumentName : Text} (h : IsName name)
      (hfield : IsName fieldName) (hargument : IsName argumentName) :
      IsCoordinate .argument (name ++ str "." ++ fieldName ++ str "(" ++ argumentName ++
        str ":)")
  | directive {name : Text} (h : IsName name) : IsCoordinate .directive (str "@" ++ name)
  | directiveArgument {name argumentName : Text} (h : IsName name)
      (hargument : IsName argumentName) :
      IsCoordinate .directiveArgument (str "@" ++ name ++ str "(" ++ argumentName ++
        str ":)")

/-- The kinds of the tokens of a coordinate. -/
def CoordinateKind.tokens : CoordinateKind → List TokenKind
  | .type => [.name]
  | .member => [.name, .dot, .name]
  | .argument => [.name, .dot, .name, .parenL, .name, .colon, .parenR]
  | .directive => [.atSign, .name]
  | .directiveArgument => [.atSign, .name, .parenL, .name, .colon, .parenR]

/-! ## What the lexer reads -/

namespace SchemaCoordinateLexer

/-- The text that a token of a coordinate covers. -/
def tokenText (token : Token) : Text :=
  match token.value with
  | some value => value
  | none => if token.kind = .eof then [] else token.kind.value

/-- Just the names have a value. -/
def HasValue (token : Token) : Prop :=
  if token.kind = .name then ∃ name, token.value = some name ∧ IsName name
  else token.value = none

theorem kindForPunct_text {c : ℕ} {kind : TokenKind} (h : kindForPunct c = some kind) :
    kind ≠ .name ∧ kind ≠ .eof ∧ kind.value = [c] := by
  unfold kindForPunct at h
  split at h <;> first | cases h; exact ⟨by decide, by decide, rfl⟩ | cases h

/-- A token covers the text that is read. -/
theorem readNextToken_text {cursor next : Cursor} {token : Token}
    (h : readNextToken cursor = .ok (token, next)) :
    HasValue token ∧ tokenText token ++ next.rest = cursor.rest ∧
      (token.kind = .eof → cursor.rest = []) ∧
      (token.kind ≠ .eof → next.rest.length < cursor.rest.length) := by
  unfold readNextToken at h
  split at h
  · rename_i hrest
    cases h
    rw [hrest]
    exact ⟨rfl, rfl, fun _ => rfl, fun hne => (hne rfl).elim⟩
  · rename_i c rest hrest
    rw [hrest]
    split at h
    · rename_i kind hpunct
      cases h
      obtain ⟨hname, heof, hvalue⟩ := kindForPunct_text hpunct
      refine ⟨?_, ?_, fun hkind => (heof hkind).elim, fun _ => ?_⟩
      · simp [HasValue, Cursor.createToken, hname]
      · simp [tokenText, Cursor.createToken, Cursor.advance, heof, hvalue]
      · simp [Cursor.advance]
    · split at h
      · rename_i hstart
        cases h
        refine ⟨?_, ?_, (fun hkind => by cases hkind), fun _ => ?_⟩
        · exact ⟨_, rfl, c, _, rfl, hstart, fun d hd => List.mem_takeWhile_imp hd⟩
        · simp [tokenText, Cursor.createToken, Cursor.advance]
        · have := List.length_dropWhile_le isNameContinue rest
          simp only [Cursor.advance, List.length_cons]
          omega
      · cases h

theorem lexTokens_values {limit : ℕ} {cursor : Cursor} :
    ∀ token ∈ (lexTokens limit cursor).1, HasValue token := by
  induction limit generalizing cursor with
  | zero => exact fun _ h => nomatch h
  | succ limit ih =>
      rw [lexTokens]
      split
      · exact fun _ h => nomatch h
      · rename_i token next hread
        have hvalue := (readNextToken_text hread).1
        split
        · exact List.forall_mem_singleton.mpr hvalue
        · exact List.forall_mem_cons.mpr ⟨hvalue, ih⟩

/-- The tokens cover the text. -/
theorem lexTokens_text {limit : ℕ} {cursor : Cursor} (hlimit : cursor.rest.length < limit)
    (h : (lexTokens limit cursor).2 = none) :
    (lexTokens limit cursor).1.flatMap tokenText = cursor.rest := by
  induction limit generalizing cursor with
  | zero => omega
  | succ limit ih =>
      rw [lexTokens] at h ⊢
      split at h
      · cases h
      · rename_i token next hread
        obtain ⟨-, htext, hnil, hless⟩ := readNextToken_text hread
        split at h
        · rename_i heof
          rw [if_pos heof]
          rw [hnil heof] at htext ⊢
          obtain ⟨htoken, -⟩ := List.append_eq_nil_iff.mp htext
          simp [htoken]
        · rename_i hkind
          rw [if_neg hkind]
          have hshort := hless hkind
          have hrest := @ih next (by omega) h
          rw [List.flatMap_cons, hrest, htext]

theorem lexTokens_proper {limit : ℕ} {cursor : Cursor} {token : Token}
    (hlimit : cursor.rest.length < limit) (htoken : token.kind ≠ .eof) :
    EndsProperly token (lexTokens limit cursor).1 (lexTokens limit cursor).2 := by
  induction limit generalizing cursor token with
  | zero => omega
  | succ limit ih =>
      rw [lexTokens]
      split
      · exact htoken
      · rename_i token' next hread
        split
        · rename_i heof
          exact ⟨htoken, heof⟩
        · rename_i hkind
          have hless := (readNextToken_text hread).2.2.2 hkind
          exact ⟨htoken, ih (by omega) hkind⟩

/-- A text that the lexer does not read is a syntax error. -/
theorem lexTokens_failure {limit : ℕ} {cursor : Cursor} {error : SyntaxError}
    (h : (lexTokens limit cursor).2 = some error) :
    ∃ position description, error = .syntaxError position description := by
  induction limit generalizing cursor with
  | zero => cases h
  | succ limit ih =>
      rw [lexTokens] at h
      split at h
      · rename_i error' hread
        cases h
        unfold readNextToken at hread
        repeat' split at hread
        all_goals first | cases hread; exact ⟨_, _, rfl⟩ | cases hread
      · split at h
        · cases h
        · exact ih h

/-! ## Texts that are lexed -/

/-- The lexer reads tokens of these kinds from the text. -/
def Lexes (text : Text) (kinds : List TokenKind) : Prop :=
  ∀ limit cursor, cursor.rest = text → text.length < limit →
    ∃ tokens, lexTokens limit cursor = (tokens, none) ∧ tokens.map Token.kind = kinds

theorem Lexes.of_read {text rest : Text} {kind : TokenKind} {kinds : List TokenKind}
    (hkind : kind ≠ .eof) (h : Lexes rest kinds)
    (hread : ∀ cursor : Cursor, cursor.rest = text → ∃ token next,
      readNextToken cursor = .ok (token, next) ∧ token.kind = kind ∧ next.rest = rest) :
    Lexes text (kind :: kinds) := by
  intro limit cursor hcursor hlimit
  obtain ⟨token, next, hnext, rfl, hrest⟩ := hread cursor hcursor
  have hless := (readNextToken_text hnext).2.2.2 hkind
  rw [hcursor, hrest] at hless
  obtain ⟨limit, rfl⟩ : ∃ l, limit = l + 1 := ⟨limit - 1, by omega⟩
  obtain ⟨tokens, htokens, hkinds⟩ := h limit next hrest (by omega)
  refine ⟨token :: tokens, ?_, by rw [List.map_cons, hkinds]⟩
  rw [lexTokens, hnext]
  simp only [if_neg hkind, htokens]

theorem lexes_nil : Lexes [] [.eof] := by
  intro limit cursor hcursor hlimit
  obtain ⟨limit, rfl⟩ : ∃ l, limit = l + 1 := ⟨limit - 1, by omega⟩
  have hread : readNextToken cursor = .ok (cursor.createToken .eof 0, cursor) := by
    rw [readNextToken, hcursor]
  refine ⟨[cursor.createToken .eof 0], ?_, rfl⟩
  rw [lexTokens, hread]
  rfl

theorem Lexes.punct {c : ℕ} {rest : Text} {kind : TokenKind} {kinds : List TokenKind}
    (hkind : kindForPunct c = some kind) (h : Lexes rest kinds) :
    Lexes (c :: rest) (kind :: kinds) := by
  refine h.of_read (kindForPunct_text hkind).2.1 fun cursor hcursor => ?_
  refine ⟨cursor.createToken kind 1, cursor.advance 1 rest, ?_, rfl, rfl⟩
  rw [readNextToken, hcursor]
  simp only [hkind]

/-- Names are read up to a character that does not continue them. -/
theorem Lexes.name {name rest : Text} {kinds : List TokenKind} (hname : IsName name)
    (hrest : ∀ c, rest.head? = some c → isNameContinue c = false) (h : Lexes rest kinds) :
    Lexes (name ++ rest) (.name :: kinds) := by
  obtain ⟨c, tail, rfl, hstart, htail⟩ := hname
  refine h.of_read (by decide) fun cursor hcursor => ?_
  have hpunct : kindForPunct c = none := by
    cases hc : kindForPunct c with
    | none => rfl
    | some kind =>
        have hcases : c = 46 ∨ c = 40 ∨ c = 41 ∨ c = 58 ∨ c = 64 := by
          unfold kindForPunct at hc
          split at hc <;> simp_all
        rcases hcases with rfl | rfl | rfl | rfl | rfl <;> cases hstart
  have htake : (tail ++ rest).takeWhile isNameContinue = tail := by
    rw [List.takeWhile_append_of_pos htail]
    cases rest with
    | nil => simp
    | cons d rest => simp [hrest d rfl]
  have hdrop : (tail ++ rest).dropWhile isNameContinue = rest := by
    rw [List.dropWhile_append_of_pos htail]
    cases rest with
    | nil => rfl
    | cons d rest => simp [hrest d rfl]
  refine ⟨cursor.createToken .name (tail.length + 1) (some (c :: tail)),
    cursor.advance (tail.length + 1) rest, ?_, rfl, rfl⟩
  rw [readNextToken, hcursor]
  simp only [List.cons_append, hpunct, hstart, if_true, htake, hdrop, List.length_cons]

theorem Lexes.name_last {name : Text} (hname : IsName name) : Lexes name [.name, .eof] := by
  have h := Lexes.name hname (by simp) lexes_nil
  rwa [List.append_nil] at h

/-- A name in front of a punctuator. -/
theorem Lexes.name_punct {name rest : Text} {c : ℕ} {kind : TokenKind}
    {kinds : List TokenKind} (hname : IsName name) (hkind : kindForPunct c = some kind)
    (hc : isNameContinue c = false) (h : Lexes rest kinds) :
    Lexes (name ++ c :: rest) (.name :: kind :: kinds) :=
  Lexes.name hname (fun _ hd => Option.some.inj hd ▸ hc) (h.punct hkind)

/-- The argument of a coordinate, behind the opening parenthesis. -/
theorem lexes_argument {name : Text} (hname : IsName name) :
    Lexes (name ++ [58, 41]) [.name, .colon, .parenR, .eof] :=
  Lexes.name_punct hname rfl rfl (lexes_nil.punct rfl)

/-- The lexer reads every coordinate. -/
theorem lexes_coordinate {kind : CoordinateKind} {text : Text}
    (h : IsCoordinate kind text) : Lexes text (kind.tokens ++ [.eof]) := by
  cases h with
  | type h => exact Lexes.name_last h
  | @member name memberName h hmember =>
      have hlexes := Lexes.name_punct (c := 46) h rfl rfl (Lexes.name_last hmember)
      rwa [← List.singleton_append, ← List.append_assoc] at hlexes
  | @argument name fieldName argumentName h hfield hargument =>
      have hlexes := Lexes.name_punct (c := 46) h rfl rfl
        (Lexes.name_punct (c := 40) hfield rfl rfl (lexes_argument hargument))
      have htext : name ++ 46 :: (fieldName ++ 40 :: (argumentName ++ [58, 41])) =
          name ++ str "." ++ fieldName ++ str "(" ++ argumentName ++ str ":)" := by
        simp [str]
      rwa [htext] at hlexes
  | directive h => exact (Lexes.name_last h).punct rfl
  | @directiveArgument name argumentName h hargument =>
      have hlexes := (Lexes.name_punct (c := 40) h rfl rfl
        (lexes_argument hargument)).punct (c := 64) rfl
      have htext : 64 :: (name ++ 40 :: (argumentName ++ [58, 41])) =
          str "@" ++ name ++ str "(" ++ argumentName ++ str ":)" := by
        simp [str]
      rwa [htext] at hlexes

end SchemaCoordinateLexer

/-! ## Parsing the tokens of a coordinate -/

namespace Parser

open SchemaCoordinateLexer

theorem exists_of_kinds {tokens : List Token} {kind : TokenKind} {kinds : List TokenKind}
    (h : tokens.map Token.kind = kind :: kinds) :
    ∃ start stop line column value rest,
      tokens = ⟨kind, start, stop, line, column, value⟩ :: rest ∧
        rest.map Token.kind = kinds := by
  obtain ⟨token, rest, rfl, rfl, hrest⟩ := List.map_eq_cons_iff.mp h
  exact ⟨_, _, _, _, _, rest, rfl, hrest⟩

/-- The tokens of a coordinate are parsed. -/
theorem parseSchemaCoordinate_of_kinds {kind : CoordinateKind} {options : ParseOptions}
    {tokens : List Token} (hmax : options.maxTokens = none)
    (h : tokens.map Token.kind = kind.tokens ++ [.eof]) :
    ∃ node t, whole parseSchemaCoordinate (.initial options (tokens, none)) =
      .ok (node, t) ∧ node.kind = kind := by
  obtain ⟨noLocation, maxTokens, a, b⟩ := options
  cases hmax
  cases kind with
  | type =>
      obtain ⟨_, _, _, _, _, l₁, rfl, h₁⟩ := exists_of_kinds h
      obtain ⟨_, _, _, _, _, l₂, rfl, h₂⟩ := exists_of_kinds h₁
      cases List.map_eq_nil_iff.mp h₂
      cases noLocation <;> exact ⟨_, _, rfl, rfl⟩
  | member =>
      obtain ⟨_, _, _, _, _, l₁, rfl, h₁⟩ := exists_of_kinds h
      obtain ⟨_, _, _, _, _, l₂, rfl, h₂⟩ := exists_of_kinds h₁
      obtain ⟨_, _, _, _, _, l₃, rfl, h₃⟩ := exists_of_kinds h₂
      obtain ⟨_, _, _, _, _, l₄, rfl, h₄⟩ := exists_of_kinds h₃
      cases List.map_eq_nil_iff.mp h₄
      cases noLocation <;> exact ⟨_, _, rfl, rfl⟩
  | argument =>
      obtain ⟨_, _, _, _, _, l₁, rfl, h₁⟩ := exists_of_kinds h
      obtain ⟨_, _, _, _, _, l₂, rfl, h₂⟩ := exists_of_kinds h₁
      obtain ⟨_, _, _, _, _, l₃, rfl, h₃⟩ := exists_of_kinds h₂
      obtain ⟨_, _, _, _, _, l₄, rfl, h₄⟩ := exists_of_kinds h₃
      obtain ⟨_, _, _, _, _, l₅, rfl, h₅⟩ := exists_of_kinds h₄
      obtain ⟨_, _, _, _, _, l₆, rfl, h₆⟩ := exists_of_kinds h₅
      obtain ⟨_, _, _, _, _, l₇, rfl, h₇⟩ := exists_of_kinds h₆
      obtain ⟨_, _, _, _, _, l₈, rfl, h₈⟩ := exists_of_kinds h₇
      cases List.map_eq_nil_iff.mp h₈
      cases noLocation <;> exact ⟨_, _, rfl, rfl⟩
  | directive =>
      obtain ⟨_, _, _, _, _, l₁, rfl, h₁⟩ := exists_of_kinds h
      obtain ⟨_, _, _, _, _, l₂, rfl, h₂⟩ := exists_of_kinds h₁
      obtain ⟨_, _, _, _, _, l₃, rfl, h₃⟩ := exists_of_kinds h₂
      cases List.map_eq_nil_iff.mp h₃
      cases noLocation <;> exact ⟨_, _, rfl, rfl⟩
  | directiveArgument =>
      obtain ⟨_, _, _, _, _, l₁, rfl, h₁⟩ := exists_of_kinds h
      obtain ⟨_, _, _, _, _, l₂, rfl, h₂⟩ := exists_of_kinds h₁
      obtain ⟨_, _, _, _, _, l₃, rfl, h₃⟩ := exists_of_kinds h₂
      obtain ⟨_, _, _, _, _, l₄, rfl, h₄⟩ := exists_of_kinds h₃
      obtain ⟨_, _, _, _, _, l₅, rfl, h₅⟩ := exists_of_kinds h₄
      obtain ⟨_, _, _, _, _, l₆, rfl, h₆⟩ := exists_of_kinds h₅
      obtain ⟨_, _, _, _, _, l₇, rfl, h₇⟩ := exists_of_kinds h₆
      cases List.map_eq_nil_iff.mp h₇
      cases noLocation <;> exact ⟨_, _, rfl, rfl⟩

/-- The text of the tokens to come. -/
def restText (s : ParserState) : Text := (s.token :: s.tokens).flatMap tokenText

/-- Between two steps: the tokens end properly, and behind them there is at most a
syntax error. -/
structure Ready (s : ParserState) : Prop where
  proper : s.Proper
  max : s.options.maxTokens = none
  failure : ∀ error, s.failure = some error →
    ∃ position description, error = .syntaxError position description
  values : ∀ token ∈ s.token :: s.tokens, HasValue token

def IsSyntaxError (e : ParseFailure) : Prop :=
  ∃ position description, e = .raised (.syntaxError position description)

/-- The text is read from the first state to the second. -/
structure Reads (text : Text) (s u : ParserState) : Prop where
  ready : Ready u
  text_eq : restText s = text ++ restText u
  failure : u.failure = s.failure

section Steps

variable {s t u : ParserState} {text text' : Text} {kind : TokenKind}

theorem Reads.refl (h : Ready s) : Reads [] s s := ⟨h, rfl, rfl⟩

theorem Reads.trans (h : Reads text s t) (h' : Reads text' t u) :
    Reads (text ++ text') s u :=
  ⟨h'.ready, by rw [h.text_eq, h'.text_eq, List.append_assoc], h'.failure.trans h.failure⟩

theorem ends_advanceLexer {Q : Unit → ParserState → Prop} (hs : Ready s)
    (hkind : s.token.kind ≠ .eof) (hQ : ∀ u, Reads (tokenText s.token) s u → Q () u) :
    Action.Ends advanceLexer s Q IsSyntaxError := by
  cases htokens : s.tokens with
  | nil =>
      cases hfailure : s.failure with
      | none => exact absurd (hs.proper.kind_eq_eof htokens hfailure) hkind
      | some error =>
          obtain ⟨position, description, rfl⟩ := hs.failure error hfailure
          have hrun : advanceLexer s = .error _ :=
            bind_of_error (lookahead_failure htokens hfailure)
          rw [Action.Ends, hrun]
          exact ⟨position, description, rfl⟩
  | cons next tokens =>
      have hlook := lookahead_cons htokens
      rw [Action.ends_of_ok (advanceLexer_of_ok hlook hs.max)]
      have hvalues : ∀ token ∈ next :: s.tokens.tail, HasValue token := by
        rw [htokens]
        exact fun token htoken => hs.values token (by
          rw [htokens]
          exact List.mem_cons_of_mem _ htoken)
      refine hQ _ ⟨⟨(later_advanced hs.proper hlook).proper, hs.max, hs.failure, hvalues⟩,
        ?_, rfl⟩
      simp [restText, advanced, htokens]

theorem ends_expectToken {Q : Token → ParserState → Prop} (hs : Ready s)
    (hkind : kind ≠ .eof)
    (hQ : s.token.kind = kind → ∀ u, Reads (tokenText s.token) s u → Q s.token u) :
    Action.Ends (expectToken kind) s Q IsSyntaxError := by
  change Action.Ends (if s.token.kind = kind then _ else _ : Parser Token) s Q _
  rw [Action.ends_ite]
  refine ⟨fun hkind' => ?_, fun _ => ⟨_, _, rfl⟩⟩
  rw [Action.ends_bind]
  exact ends_advanceLexer hs (by rwa [hkind']) fun u hu => hQ hkind' u hu

/-- The text of a token without a value is that of its kind. -/
theorem tokenText_of_kind (hs : Ready s) (hkind : s.token.kind = kind) (heof : kind ≠ .eof)
    (hname : kind ≠ .name) : tokenText s.token = kind.value := by
  have hvalue := hs.values _ List.mem_cons_self
  rw [HasValue, hkind, if_neg hname] at hvalue
  rw [tokenText, hvalue, hkind]
  exact if_neg heof

theorem ends_expectPunct {Q : Token → ParserState → Prop} (hs : Ready s)
    (heof : kind ≠ .eof) (hname : kind ≠ .name)
    (hQ : ∀ u, Reads kind.value s u → Q s.token u) :
    Action.Ends (expectToken kind) s Q IsSyntaxError :=
  ends_expectToken hs heof fun hkind u hu =>
    hQ u (by rwa [tokenText_of_kind hs hkind heof hname] at hu)

theorem ends_expectOptionalPunct {Q : Bool → ParserState → Prop} (hs : Ready s)
    (heof : kind ≠ .eof) (hname : kind ≠ .name)
    (htrue : ∀ u, Reads kind.value s u → Q true u) (hfalse : Q false s) :
    Action.Ends (expectOptionalToken kind) s Q IsSyntaxError := by
  change Action.Ends (if s.token.kind = kind then _ else _ : Parser Bool) s Q _
  rw [Action.ends_ite]
  refine ⟨fun hkind => ?_, fun _ => hfalse⟩
  rw [Action.ends_bind]
  refine ends_advanceLexer hs (by rwa [hkind]) fun u hu => htrue u ?_
  rwa [tokenText_of_kind hs hkind heof hname] at hu

theorem ends_expectEof {Q : Token → ParserState → Prop} (hs : Ready s)
    (hQ : restText s = [] → s.failure = none → ∀ u, Q s.token u) :
    Action.Ends (expectToken .eof) s Q IsSyntaxError := by
  change Action.Ends (if s.token.kind = .eof then _ else _ : Parser Token) s Q _
  rw [Action.ends_ite]
  refine ⟨fun heof => ?_, fun _ => ⟨_, _, rfl⟩⟩
  obtain ⟨hnil, hnone⟩ := hs.proper.tokens_eq_nil heof
  have hvalue := hs.values _ List.mem_cons_self
  rw [HasValue, heof, if_neg (by decide)] at hvalue
  rw [Action.ends_bind,
    Action.ends_of_ok (advanceLexer_of_ok (lookahead_end hnil hnone) hs.max)]
  refine hQ ?_ hnone _
  simp [restText, hnil, tokenText, hvalue, heof]

theorem ends_token {Q : Token → ParserState → Prop} {E : ParseFailure → Prop} :
    Action.Ends token s Q E ↔ Q s.token s := Iff.rfl

theorem ends_loc {Q : Option Location → ParserState → Prop} {E : ParseFailure → Prop}
    (startToken : Token) (hQ : ∀ location, Q location s) :
    Action.Ends (loc startToken) s Q E := by
  obtain ⟨location, hrun⟩ := loc_run (s := s) startToken
  rw [Action.ends_of_ok hrun]
  exact hQ location

theorem ends_parseName {Q : NameNode → ParserState → Prop} (hs : Ready s)
    (hQ : ∀ u (name : NameNode), IsName name.value → Reads name.value s u → Q name u) :
    Action.Ends parseName s Q IsSyntaxError := by
  rw [parseName, Action.ends_bind]
  refine ends_expectToken hs (by decide) fun hkind u hu => ?_
  rw [Action.ends_bind]
  refine ends_loc _ fun location => ?_
  have hvalue := hs.values _ List.mem_cons_self
  rw [HasValue, if_pos hkind] at hvalue
  obtain ⟨name, hname, hisName⟩ := hvalue
  rw [tokenText, hname] at hu
  simp only [hname, Option.getD_some]
  exact hQ u _ hisName hu

/-- The text of a member behind a dot. -/
def memberText : Option NameNode → Text
  | some name => str "." ++ name.value
  | none => []

/-- The text of an argument in parentheses. -/
def argumentText : Option NameNode → Text
  | some name => str "(" ++ name.value ++ str ":)"
  | none => []

theorem ends_parseMemberName {ofDirective : Bool} {Q : Option NameNode → ParserState → Prop}
    (hs : Ready s)
    (hQ : ∀ u memberName, (∀ name ∈ memberName, ofDirective = false ∧ IsName name.value) →
      Reads (memberText memberName) s u → Q memberName u) :
    Action.Ends (parseMemberName ofDirective) s Q IsSyntaxError := by
  have hnone : Q none s := hQ s none (fun _ h => nomatch h) (Reads.refl hs)
  cases ofDirective with
  | true => exact hnone
  | false =>
      rw [parseMemberName, if_neg (by decide), Action.ends_bind]
      refine ends_expectOptionalPunct hs (by decide) (by decide) (fun t ht => ?_) hnone
      rw [orNone, if_pos rfl, Action.ends_map]
      refine ends_parseName ht.ready fun u name hname hu => ?_
      refine hQ u (some name) (fun name' hmem => ?_) (ht.trans hu)
      cases hmem
      exact ⟨rfl, hname⟩

theorem ends_parseArgumentName {expected : Bool} {Q : Option NameNode → ParserState → Prop}
    (hs : Ready s)
    (hQ : ∀ u argumentName, (∀ name ∈ argumentName, expected = true ∧ IsName name.value) →
      Reads (argumentText argumentName) s u → Q argumentName u) :
    Action.Ends (parseArgumentName expected) s Q IsSyntaxError := by
  have hnone : Q none s := hQ s none (fun _ h => nomatch h) (Reads.refl hs)
  cases expected with
  | false => exact hnone
  | true =>
      rw [parseArgumentName, if_pos rfl, Action.ends_bind]
      refine ends_expectOptionalPunct hs (by decide) (by decide) (fun s₁ h₁ => ?_) hnone
      rw [if_pos rfl, Action.ends_bind]
      refine ends_parseName h₁.ready fun s₂ name hname h₂ => ?_
      rw [Action.ends_bind]
      refine ends_expectPunct h₂.ready (by decide) (by decide) fun s₃ h₃ => ?_
      rw [Action.ends_bind]
      refine ends_expectPunct h₃.ready (by decide) (by decide) fun s₄ h₄ => ?_
      refine hQ s₄ (some name) (fun name' hmem => ?_) ?_
      · cases hmem
        exact ⟨rfl, hname⟩
      · have htext := ((h₁.trans h₂).trans h₃).trans h₄
        rwa [List.append_assoc _ _ (TokenKind.value .parenR)] at htext

theorem wrap_name {name : NameNode} {start stop : Text} (h : IsName name.value) :
    wrap start (printName name) stop = start ++ name.value ++ stop := by
  obtain ⟨c, rest, hvalue, -, -⟩ := h
  rw [wrap, printName, hvalue]
  rfl

theorem intercalate_nil_left (strings : List Text) :
    ([] : Text).intercalate strings = strings.flatten := by
  induction strings with
  | nil => rfl
  | cons string strings ih =>
      by_cases hnil : strings = []
      · simp [hnil]
      · rw [List.intercalate_cons_of_ne_nil hnil, ih]
        simp

/-- Texts that are not empty are joined without a separator. -/
theorem join_eq_flatten {strings : List Text} (h : ∀ string ∈ strings, string ≠ []) :
    join strings = strings.flatten := by
  have hfilter : strings.filter (fun s => !s.isEmpty) = strings :=
    List.filter_eq_self.mpr fun string hmem => by simp [h string hmem]
  rw [join, hfilter, intercalate_nil_left]

/-- A node stands for the text that is read, which is a coordinate of its kind. -/
theorem coordinate_of_parts {ofDirective : Bool} {name : NameNode}
    {memberName argumentName : Option NameNode} (loc : Option Location)
    (hname : IsName name.value)
    (hmember : ∀ name ∈ memberName, ofDirective = false ∧ IsName name.value)
    (hargument : ∀ name ∈ argumentName,
      (ofDirective || memberName.isSome) = true ∧ IsName name.value) :
    let node := schemaCoordinateNode ofDirective name memberName argumentName loc
    let text := (if ofDirective then str "@" else []) ++ name.value ++
      memberText memberName ++ argumentText argumentName
    IsCoordinate node.kind text ∧ printSchemaCoordinate node = text := by
  intro node text
  have hname' : name.value ≠ [] := by
    obtain ⟨c, rest, hvalue, -⟩ := hname
    simp [hvalue]
  cases ofDirective with
  | true =>
      cases memberName with
      | some memberName => cases (hmember _ rfl).1
      | none =>
          cases argumentName with
          | none =>
              have htext : text = str "@" ++ name.value := by simp [text, memberText, argumentText]
              rw [htext]
              exact ⟨.directive hname, rfl⟩
          | some argumentName =>
              have hargument := (hargument _ rfl).2
              have htext : text = str "@" ++ name.value ++ str "(" ++ argumentName.value ++
                  str ":)" := by simp [text, memberText, argumentText]
              rw [htext]
              refine ⟨.directiveArgument hname hargument, ?_⟩
              change str "@" ++ name.value ++ wrap (str "(") (printName argumentName) _ = _
              rw [wrap_name hargument]
              simp
  | false =>
      cases memberName with
      | none =>
          cases argumentName with
          | some argumentName => cases (hargument _ rfl).1
          | none =>
              have htext : text = name.value := by simp [text, memberText, argumentText]
              rw [htext]
              exact ⟨.type hname, rfl⟩
      | some memberName =>
          have hmember := (hmember _ rfl).2
          cases argumentName with
          | none =>
              have htext : text = name.value ++ str "." ++ memberName.value := by
                simp [text, memberText, argumentText]
              rw [htext]
              refine ⟨.member hname hmember, ?_⟩
              change join [name.value, wrap (str ".") (printName memberName)] = _
              rw [wrap_name hmember, join_eq_flatten (by simp [hname', str])]
              simp
          | some argumentName =>
              have hargument := (hargument _ rfl).2
              have htext : text = name.value ++ str "." ++ memberName.value ++ str "(" ++
                  argumentName.value ++ str ":)" := by
                simp [text, memberText, argumentText]
              rw [htext]
              refine ⟨.argument hname hmember hargument, ?_⟩
              change join [name.value, wrap (str ".") (printName memberName),
                wrap (str "(") (printName argumentName) (str ":)")] = _
              rw [wrap_name hmember, wrap_name hargument,
                join_eq_flatten (by simp [hname', str])]
              simp

end Steps

/-- A coordinate that is parsed covers the text of the tokens. -/
theorem ends_whole_parseSchemaCoordinate {s : ParserState} (hs : Ready s)
    (hsof : s.token.kind = .sof) :
    Action.Ends (whole parseSchemaCoordinate) s
      (fun node _ => s.failure = none ∧ IsCoordinate node.kind (s.tokens.flatMap tokenText) ∧
        printSchemaCoordinate node = s.tokens.flatMap tokenText) IsSyntaxError := by
  rw [whole, Action.ends_bind]
  refine ends_expectPunct hs (by decide) (by decide) fun s₁ h₁ => ?_
  have htext : s.tokens.flatMap tokenText = restText s₁ := by
    have heq := h₁.text_eq
    rw [restText, List.flatMap_cons,
      tokenText_of_kind hs hsof (by decide) (by decide)] at heq
    exact List.append_cancel_left heq
  rw [Action.ends_bind, parseSchemaCoordinate, Action.ends_bind, ends_token]
  have hrest : ∀ (ofDirective : Bool) (s₂ : ParserState),
      Reads (if ofDirective then str "@" else []) s₁ s₂ → Action.Ends (do
        let name ← parseName
        let memberName ← parseMemberName ofDirective
        let argumentName ← parseArgumentName (ofDirective || memberName.isSome)
        return schemaCoordinateNode ofDirective name memberName argumentName
          (← loc s₁.token)) s₂ (fun node s' => Action.Ends (do
            let _ ← expectToken .eof
            return node) s' (fun node _ => s.failure = none ∧
              IsCoordinate node.kind (s.tokens.flatMap tokenText) ∧
              printSchemaCoordinate node = s.tokens.flatMap tokenText) IsSyntaxError)
        IsSyntaxError := by
    intro ofDirective s₂ h₂
    rw [Action.ends_bind]
    refine ends_parseName h₂.ready fun s₃ name hname h₃ => ?_
    rw [Action.ends_bind]
    refine ends_parseMemberName h₃.ready fun s₄ memberName hmember h₄ => ?_
    rw [Action.ends_bind]
    refine ends_parseArgumentName h₄.ready fun s₅ argumentName hargument h₅ => ?_
    rw [Action.ends_bind]
    refine ends_loc _ fun location => ?_
    rw [Action.ends_pure, Action.ends_bind]
    refine ends_expectEof h₅.ready fun hnil hnone u => ?_
    have hreads := ((h₂.trans h₃).trans h₄).trans h₅
    have hparts := coordinate_of_parts location hname hmember hargument
    rw [htext, hreads.text_eq, hnil, List.append_nil]
    exact ⟨by rw [← h₁.failure, ← hreads.failure, hnone], hparts⟩
  rw [Action.ends_bind]
  refine ends_expectOptionalPunct h₁.ready (by decide) (by decide) (fun s₂ h₂ => ?_) ?_
  · exact hrest true s₂ h₂
  · exact hrest false s₁ (Reads.refl h₁.ready)

end Parser

/-! ## The round trip -/

open SchemaCoordinateLexer in
theorem initial_ready {options : ParseOptions} {source : Text}
    (hmax : options.maxTokens = none) :
    Parser.Ready (.initial options (SchemaCoordinateLexer.lex source)) where
  proper := SchemaCoordinateLexer.lexTokens_proper (Nat.lt_succ_self _)
    fun h => nomatch h
  max := hmax
  failure := fun _ h => lexTokens_failure h
  values := List.forall_mem_cons.mpr ⟨rfl, lexTokens_values⟩

/-- A text is parsed just if it is a schema coordinate of the kind of the node, the node
is printed as the text, and any other text is a syntax error. -/
theorem parseSchemaCoordinate_iff (noLocation : Bool) (source : Text) :
    let run := parseSchemaCoordinate { noLocation := noLocation } source
    (∀ kind, (∃ node, run = .ok node ∧ node.kind = kind) ↔ IsCoordinate kind source) ∧
      (∀ node, run = .ok node → printSchemaCoordinate node = source) ∧
      ∀ failure, run = .error failure →
        ∃ position description, failure = .raised (.syntaxError position description) := by
  intro run
  have hends := Parser.ends_whole_parseSchemaCoordinate
    (@initial_ready { noLocation := noLocation } source rfl) rfl
  have hok : ∀ node, run = .ok node →
      IsCoordinate node.kind source ∧ printSchemaCoordinate node = source := by
    intro node hrun
    obtain ⟨t, hrun⟩ := runParser_eq_ok.mp hrun
    rw [Action.ends_of_ok hrun] at hends
    obtain ⟨hnone, hnode⟩ := hends
    have htext := @SchemaCoordinateLexer.lexTokens_text _ (Cursor.start source)
      (Nat.lt_succ_self _) hnone
    have htokens : (ParserState.initial { noLocation := noLocation }
        (SchemaCoordinateLexer.lex source)).tokens.flatMap
          SchemaCoordinateLexer.tokenText = source := htext
    rwa [htokens] at hnode
  refine ⟨fun kind => ⟨?_, fun hkind => ?_⟩, fun node hrun => (hok node hrun).2,
    fun failure hrun => ?_⟩
  · rintro ⟨node, hrun, rfl⟩
    exact (hok node hrun).1
  · obtain ⟨tokens, htokens, hkinds⟩ := SchemaCoordinateLexer.lexes_coordinate hkind _
      (Cursor.start source) rfl (Nat.lt_succ_self _)
    have hlex : SchemaCoordinateLexer.lex source = (tokens, none) := htokens
    obtain ⟨node, t, hrun, hnode⟩ := @Parser.parseSchemaCoordinate_of_kinds
      kind { noLocation := noLocation } tokens rfl hkinds
    refine ⟨node, runParser_eq_ok.mpr ⟨t, ?_⟩, hnode⟩
    rw [hlex]
    exact hrun
  · have hrun := runParser_eq_error.mp hrun
    rw [Action.Ends, hrun] at hends
    exact hends

end GraphqlCore.Language
