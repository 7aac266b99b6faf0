import GraphqlCore.Language.TakenDefinitions

/-!
# The parser takes the tokens of executable documents

The parser of definitions finds its method by the keyword.  An operation or a fragment ends with
the brace of its selection set, so that any definition may follow.
-/

namespace GraphqlCore.Language

namespace Parser

variable {options : ParseOptions} {bound : ℕ} {next : Lexeme → Prop} {lexemes : List Lexeme}
  {β : Type} {post : Token → List Token → Except ParseFailure (β × ParserState) → Prop}

/-! ## Methods of definitions -/

/-- The token behind the current one is read. -/
theorem before_lookahead {first second : Lexeme} {g : Token → Parser β}
    (h : ∀ token : Token, token.lexeme = second →
      RunsBefore options bound next (g token) (first :: second :: lexemes) post) :
    RunsBefore options bound next (lookahead >>= g) (first :: second :: lexemes) post := by
  intro s token rest hs hfronts hnext
  obtain ⟨tokens, htokens, hlexemes⟩ := hfronts.tokens
  obtain ⟨current, others, rfl, -, hothers⟩ := List.map_eq_cons_iff.mp hlexemes
  obtain ⟨ahead, others, rfl, hahead, -⟩ := List.map_eq_cons_iff.mp hothers
  have hlook : lookahead s = .ok (ahead, s) := lookahead_cons (List.cons.inj htokens).2
  rw [bind_of_ok hlook]
  exact h ahead hahead s token rest hs hfronts hnext

theorem peekDescription_bind {f : Bool → Parser β} :
    peekDescription >>= f = token >>= fun current =>
      f (current.kind = .string || current.kind = .blockString) :=
  rfl

/-- The method for a keyword. -/
def IsMethod (bound : ℕ) (keyword : Text) (method : Parser DefinitionNode) : Prop :=
  (typeSystemDefinitionMethods bound).lookup keyword = some method ∨
    (typeSystemDefinitionMethods bound).lookup keyword = none ∧
      (executableDefinitionMethods bound).lookup keyword = some method

/-- The parser of a definition, where its keyword is known. -/
def parseKeyword (bound : ℕ) (hasDescription : Bool) (keywordToken : Token) :
    Parser DefinitionNode :=
  if hasDescription ∧ keywordToken.kind = .braceL then do
    raise (← token).start (str "Unexpected description, " ++
      str "descriptions are not supported on shorthand queries.")
  else if keywordToken.kind = .name then
    match (typeSystemDefinitionMethods bound).lookup (keywordToken.value.getD []),
        (executableDefinitionMethods bound).lookup (keywordToken.value.getD []) with
    | some method, _ => method
    | none, some method => method
    | none, none =>
        if hasDescription then do
          raise (← token).start (str "Unexpected description, " ++
            str "only GraphQL definitions support descriptions.")
        else if keywordToken.value.getD [] = str "extend" then parseTypeSystemExtension bound
        else unexpected keywordToken
  else unexpected keywordToken

theorem parseDefinition_eq : parseDefinition bound = peek .braceL >>= fun isShorthand =>
    if isShorthand then DefinitionNode.operation <$> parseOperationDefinition bound
    else peekDescription >>= fun hasDescription =>
      if hasDescription then lookahead >>= parseKeyword bound hasDescription
      else token >>= parseKeyword bound hasDescription :=
  rfl

theorem parseKeyword_eq {hasDescription : Bool} {keywordToken : Token} {keyword : Text}
    {method : Parser DefinitionNode} (hmethod : IsMethod bound keyword method)
    (htoken : keywordToken.lexeme = word keyword) :
    parseKeyword bound hasDescription keywordToken = method := by
  obtain ⟨hkind, hvalue⟩ := Prod.mk.inj htoken
  have hbrace : ¬ (hasDescription = true ∧ keywordToken.kind = .braceL) := by
    rw [hkind]
    nofun
  rw [parseKeyword, if_neg hbrace, if_pos hkind, hvalue, Option.getD_some]
  obtain hlookup | ⟨hlookup, hlookup'⟩ := hmethod
  · rw [hlookup]
  · rw [hlookup, hlookup']

/-- A definition is read with the method for its keyword. -/
theorem before_method {description : Option StringValueNode} {keyword : Text}
    {method : Parser DefinitionNode}
    {post : Token → List Token → Except ParseFailure (DefinitionNode × ParserState) → Prop}
    (hdescription : WritableDescription description) (hmethod : IsMethod bound keyword method)
    (h : RunsBefore options bound next method
      (itemLexemes (descriptionItems description) ++ (word keyword :: lexemes)) post) :
    RunsBefore options bound next (parseDefinition bound)
      (itemLexemes (descriptionItems description) ++ (word keyword :: lexemes)) post := by
  rw [parseDefinition_eq]
  refine before_peek_not (ahead_description hdescription nofun (ahead_cons nofun)) ?_
  rw [if_neg Bool.false_ne_true, peekDescription_bind]
  cases description with
  | none =>
      have hlexemes : itemLexemes (descriptionItems none) ++ (word keyword :: lexemes) =
          word keyword :: lexemes := by
        simp [descriptionItems]
      rw [hlexemes] at h ⊢
      refine RunsBefore.token_bind (P := fun lexeme => lexeme = word keyword) (ahead_cons rfl)
        fun current hcurrent => ?_
      have hkind : current.kind = .name := (Prod.mk.inj hcurrent).1
      rw [hkind]
      refine RunsBefore.token_bind (P := fun lexeme => lexeme = word keyword) (ahead_cons rfl)
        fun keywordToken htoken => ?_
      rw [parseKeyword_eq hmethod htoken]
      exact h
  | some node =>
      have hlexemes : itemLexemes (descriptionItems (some node)) ++ (word keyword :: lexemes) =
          (.string, some node.value) :: word keyword :: lexemes := by
        simp [descriptionItems, lexemes_stringValue (hdescription node rfl)]
      rw [hlexemes] at h ⊢
      refine RunsBefore.token_bind (P := fun lexeme => lexeme.1 = .string) (ahead_cons rfl)
        fun current hcurrent => ?_
      have hkind : current.kind = .string := hcurrent
      rw [hkind]
      refine before_lookahead fun keywordToken htoken => ?_
      rw [parseKeyword_eq hmethod htoken]
      exact h

/-- An operation is read with the method for its keyword, or without one. -/
theorem before_operation {node : OperationDefinitionNode} (h : node.Writable options) :
    TakesBefore options bound next (parseDefinition bound) node.sourceTree.lexemes
      fun parsed => parsed.unlocated = (DefinitionNode.operation node).unlocated := by
  have hoperation : TakesBefore options bound next
      (DefinitionNode.operation <$> parseOperationDefinition bound) node.sourceTree.lexemes
      fun parsed => parsed.unlocated = (DefinitionNode.operation node).unlocated :=
    (before_parseOperationDefinition h).map fun _ hparsed =>
      congrArg DefinitionNode.operation hparsed
  rw [lexemes_operation] at hoperation ⊢
  split
  · next hshort =>
    rw [if_pos hshort] at hoperation
    refine before_peek (Ahead.of_append_nil (ahead_selectionSet _ ?_)) hoperation
    rfl
  · next hshort =>
    rw [if_neg hshort] at hoperation
    rw [OperationDefinitionNode.startLexemes, List.append_assoc] at hoperation ⊢
    refine before_method h.description (.inr ?_) hoperation
    cases node.operation with
    | query => exact ⟨rfl, rfl⟩
    | mutation => exact ⟨rfl, rfl⟩
    | subscription => exact ⟨rfl, rfl⟩

/-- The tokens of a definition are taken before any token. -/
theorem before_parseDefinition {definition : DefinitionNode} (h : definition.Writable options) :
    TakesBefore options bound next (parseDefinition bound) definition.sourceTree.lexemes
      fun parsed => parsed.unlocated = definition.unlocated := by
  cases definition with
  | operation node => exact before_operation h
  | fragment node =>
      rw [DefinitionNode.sourceTree, lexemes_fragmentDefinition]
      refine before_method h.description (.inr ⟨rfl, rfl⟩) ?_
      rw [← lexemes_fragmentDefinition]
      exact (before_parseFragmentDefinition h).map fun _ hparsed =>
        congrArg DefinitionNode.fragment hparsed
  | _ => cases h

theorem exists_first_described {description : Option StringValueNode} {keyword : Text}
    (h : WritableDescription description) :
    ∃ lexeme rest, itemLexemes (descriptionItems description) ++ (word keyword :: lexemes) =
      lexeme :: rest ∧ lexeme.1 ≠ .eof := by
  cases description with
  | none => exact ⟨word keyword, lexemes, by simp [descriptionItems], by simp [word]⟩
  | some node =>
      exact ⟨(.string, some node.value), word keyword :: lexemes, by
        simp [descriptionItems, lexemes_stringValue (h node rfl)], by simp⟩

/-- A definition starts with a description, a keyword or a brace. -/
theorem exists_first {definition : DefinitionNode} (h : definition.Writable options) :
    ∃ lexeme rest, definition.sourceTree.lexemes = lexeme :: rest ∧ lexeme.1 ≠ .eof := by
  cases definition with
  | operation node =>
      rw [DefinitionNode.sourceTree, lexemes_operation]
      split
      · obtain ⟨selections, loc⟩ := node.selectionSet
        rw [lexemes_selectionSet]
        exact ⟨_, _, rfl, nofun⟩
      · rw [OperationDefinitionNode.startLexemes, List.append_assoc]
        exact exists_first_described h.description
  | fragment node =>
      rw [DefinitionNode.sourceTree, lexemes_fragmentDefinition]
      exact exists_first_described h.description
  | _ => cases h

/-! ## Documents -/

/-- The tokens of definitions. -/
def definitionLexemes (definitions : List DefinitionNode) : List Lexeme :=
  (definitions.map fun definition => definition.sourceTree.lexemes).flatten

/-- The next token is the end of the file. -/
def IsEnd (lexeme : Lexeme) : Prop := lexeme.1 = .eof

/-- The definitions are returned, but for the locations. -/
def Ended (definitions : List DefinitionNode) (_ : Token) (_ : List Token)
    (result : Except ParseFailure (List DefinitionNode × ParserState)) : Prop :=
  ∃ nodes t, result = .ok (nodes, t) ∧
    nodes.map DefinitionNode.unlocated = definitions.map DefinitionNode.unlocated

section Documents

variable {definition : DefinitionNode} {definitions : List DefinitionNode} {steps : ℕ}

theorem definitionLexemes_cons : definitionLexemes (definition :: definitions) =
    definition.sourceTree.lexemes ++ definitionLexemes definitions := by
  rw [definitionLexemes, List.map_cons, List.flatten_cons]
  rfl

/-- One definition in front of the others. -/
theorem ended_cons (h : definition.Writable options)
    (hrest : RunsBefore options bound IsEnd (itemsUntil .eof (parseDefinition bound) steps)
      (definitionLexemes definitions) (Ended definitions)) :
    RunsBefore options bound IsEnd (someUntil steps (parseDefinition bound) .eof)
      (definitionLexemes (definition :: definitions)) (Ended (definition :: definitions)) := by
  rw [definitionLexemes_cons]
  refine (before_parseDefinition h).then fun node hnode s token rest hs hfronts hnext => ?_
  obtain ⟨nodes, t, hrun, hnodes⟩ := hrest s token rest hs hfronts hnext
  exact ⟨node :: nodes, t, by rw [bind_of_ok hrun]; rfl, map_cons_eq hnode hnodes⟩

/-- At the end of the file there are no more definitions. -/
theorem ended_nil : RunsBefore options bound IsEnd
    (itemsUntil .eof (parseDefinition bound) (steps + 1)) (definitionLexemes []) (Ended []) := by
  intro s token rest hs hfronts hnext
  obtain ⟨front, htokens, hnil⟩ := hfronts.tokens
  obtain rfl := List.map_eq_nil_iff.mp hnil
  have htoken : s.token.kind = .eof := by
    rw [(List.cons.inj htokens).1]
    exact hnext
  have hlook : lookahead s = .ok (s.token, s) :=
    lookahead_end (hs.proper.tokens_eq_nil htoken).1 hfronts.lexed
  refine ⟨[], advanced s s.token, ?_, rfl⟩
  rw [itemsUntil, expectOptionalToken_bind]
  change (if s.token.kind = .eof then _ else _ : Parser _) s = _
  rw [if_pos htoken, bind_of_ok (advanceLexer_of_eof hlook htoken)]
  rfl

theorem ended_definitions
    (h : ∀ definition ∈ definitions, DefinitionNode.Writable options definition)
    (hsteps : definitions.length < steps) :
    RunsBefore options bound IsEnd (itemsUntil .eof (parseDefinition bound) steps)
      (definitionLexemes definitions) (Ended definitions) := by
  induction definitions generalizing steps with
  | nil =>
      obtain ⟨steps, rfl⟩ := Nat.exists_eq_add_one_of_ne_zero (Nat.ne_of_gt hsteps)
      exact ended_nil
  | cons definition definitions ih =>
      obtain ⟨steps, rfl⟩ :=
        Nat.exists_eq_add_one_of_ne_zero (Nat.ne_of_gt (Nat.zero_lt_of_lt hsteps))
      obtain ⟨hdefinition, hothers⟩ := List.forall_mem_cons.mp h
      have hahead : Ahead IsEnd (definitionLexemes (definition :: definitions))
          fun lexeme => lexeme.1 ≠ .eof := by
        obtain ⟨lexeme, rest, hstart, hlexeme⟩ := exists_first hdefinition
        rw [definitionLexemes_cons, hstart]
        exact ahead_cons hlexeme
      refine before_absent hahead ?_
      exact ended_cons hdefinition (ih hothers (Nat.lt_of_succ_lt_succ hsteps))

end Documents

end Parser

end GraphqlCore.Language
