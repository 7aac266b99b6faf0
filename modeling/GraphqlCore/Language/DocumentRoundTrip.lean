import GraphqlCore.Language.ParsedNodes
import GraphqlCore.Language.TakenDocuments
import GraphqlCore.Language.TokenLimit
import GraphqlCore.Language.WrittenNodes

/-!
# The round trip of executable documents

What is printed for operations and fragments that were parsed is parsed to the same document,
but for the locations.
-/

namespace GraphqlCore.Language

namespace Parser

variable {options : ParseOptions} {bound : ℕ} {definitions : List DefinitionNode}
  {tokens : List Token}

/-! ## Documents in front of their tokens -/

/-- The parser of a source reads the token in front of it, and then those of the source. -/
theorem initial_fronts (eof : Token) {lexemes : List Lexeme} (hmax : options.maxTokens = none)
    (hlexemes : tokens.map Token.lexeme = lexemes) :
    Fronts (.initial options (tokens ++ [eof], none)) (punct .sof :: lexemes) [eof] := by
  refine ⟨hmax, rfl, List.cons_ne_nil _ _, sofToken :: tokens, rfl, ?_⟩
  rw [List.map_cons, hlexemes]
  rfl

/-- The document of definitions that are returned. -/
theorem parseDocument_run {s t : ParserState} {nodes : List DefinitionNode}
    (h : many bound .sof (parseDefinition bound) .eof s = .ok (nodes, t)) :
    ∃ document, parseDocument bound s = .ok (document, t) ∧ document.definitions = nodes := by
  obtain ⟨location, hloc⟩ := loc_run (s := t) s.token
  refine ⟨⟨nodes, location, t.tokenCounter⟩, ?_, rfl⟩
  have htoken : token s = .ok (s.token, s) := rfl
  rw [parseDocument, bind_of_ok htoken, bind_of_ok h, bind_of_ok hloc]
  rfl

theorem definitions_of_run {s t : ParserState} {document : DocumentNode}
    (h : parseDocument bound s = .ok (document, t)) :
    many bound .sof (parseDefinition bound) .eof s = .ok (document.definitions, t) := by
  obtain ⟨start, u, hstart, h⟩ := run_bind_eq_ok.mp h
  cases hstart
  obtain ⟨nodes, u, hnodes, h⟩ := run_bind_eq_ok.mp h
  obtain ⟨location, hloc⟩ := loc_run (s := u) s.token
  rw [bind_of_ok hloc] at h
  cases h
  exact hnodes

/-- There are no more definitions than tokens. -/
theorem length_le_definitionLexemes
    (h : ∀ definition ∈ definitions, DefinitionNode.Writable options definition) :
    definitions.length ≤ (definitionLexemes definitions).length := by
  induction definitions with
  | nil => exact Nat.le_refl 0
  | cons definition definitions ih =>
      obtain ⟨hdefinition, hothers⟩ := List.forall_mem_cons.mp h
      obtain ⟨lexeme, rest, hfirst, -⟩ := exists_first hdefinition
      have hle := ih hothers
      rw [definitionLexemes_cons, List.length_append, hfirst, List.length_cons, List.length_cons]
      omega

/-- The definitions of a document are returned. -/
theorem ended_many (hne : definitions ≠ [])
    (h : ∀ definition ∈ definitions, DefinitionNode.Writable options definition) :
    RunsBefore options bound IsEnd (many bound .sof (parseDefinition bound) .eof)
      (punct .sof :: definitionLexemes definitions) (Ended definitions) := by
  have hle := length_le_definitionLexemes h
  obtain ⟨definition, definitions, rfl⟩ := List.exists_cons_of_ne_nil hne
  obtain ⟨hdefinition, hothers⟩ := List.forall_mem_cons.mp h
  refine before_expectToken nofun fun _ _ => RunsBefore.of_length fun hlength => ?_
  refine ended_cons hdefinition (ended_definitions hothers ?_)
  rw [List.length_cons] at hle
  omega

/-! ## Definitions that were parsed -/

/-- Executable definitions can be written, and so can the tokens behind them. -/
def MakesExecutable (options : ParseOptions) (p : Parser DefinitionNode) : Prop :=
  ∀ s, Supplied options s → ∀ definition t, p s = .ok (definition, t) → definition.isExecutable →
    definition.Writable options ∧ Supplied options t

/-- The parser returns no operations and no fragments. -/
def ReturnsTypeSystem (p : Parser DefinitionNode) : Prop :=
  ∀ s definition t, p s = .ok (definition, t) → definition.isExecutable = false

section Makes

variable {p : Parser DefinitionNode} {α : Type}

theorem Makes.executable (h : Makes options p (DefinitionNode.Writable options)) :
    MakesExecutable options p :=
  fun s hs definition t hrun _ => h s hs definition t hrun

theorem ReturnsTypeSystem.executable (h : ReturnsTypeSystem p) : MakesExecutable options p := by
  intro s _ definition t hrun hexecutable
  rw [h s definition t hrun] at hexecutable
  cases hexecutable

theorem MakesExecutable.bind {q : Parser α} {f : α → Parser DefinitionNode} {Q : α → Prop}
    (hq : Makes options q Q) (hf : ∀ a, Q a → MakesExecutable options (f a)) :
    MakesExecutable options (q >>= f) := by
  intro s hs definition t hrun hexecutable
  obtain ⟨a, u, hread, hrest⟩ := run_bind_eq_ok.mp hrun
  obtain ⟨ha, hu⟩ := hq s hs a u hread
  exact hf a ha u hu definition t hrest hexecutable

theorem returns_map {q : Parser α} {g : α → DefinitionNode}
    (h : ∀ a, (g a).isExecutable = false) : ReturnsTypeSystem (g <$> q) := by
  intro s definition t hrun
  obtain ⟨a, u, -, hpure⟩ := run_bind_eq_ok.mp hrun
  cases hpure
  exact h a

theorem returns_bind {q : Parser α} {f : α → Parser DefinitionNode}
    (hf : ∀ a, ReturnsTypeSystem (f a)) : ReturnsTypeSystem (q >>= f) := by
  intro s definition t hrun
  obtain ⟨a, u, -, hrest⟩ := run_bind_eq_ok.mp hrun
  exact hf a u definition t hrest

/-- A method that is looked up is one of the methods. -/
theorem forall_lookup {P : Parser DefinitionNode → Prop}
    {methods : List (Text × Parser DefinitionNode)} {name : Text} {method : Parser DefinitionNode}
    (h : ∀ entry ∈ methods, P entry.2) (hlookup : methods.lookup name = some method) :
    P method := by
  obtain ⟨before, after, heq, _⟩ := List.lookup_eq_some_iff.mp hlookup
  exact h (name, method) (by rw [heq]; simp)

theorem returns_typeSystemDefinitionMethods :
    ∀ entry ∈ typeSystemDefinitionMethods bound, ReturnsTypeSystem entry.2 := by
  simp only [typeSystemDefinitionMethods, List.forall_mem_cons, List.not_mem_nil, false_implies,
    implies_true, and_true]
  exact ⟨returns_map fun _ => rfl, returns_map fun _ => rfl, returns_map fun _ => rfl,
    returns_map fun _ => rfl, returns_map fun _ => rfl, returns_map fun _ => rfl,
    returns_map fun _ => rfl, returns_map fun _ => rfl⟩

theorem returns_typeExtensionMethods :
    ∀ entry ∈ typeExtensionMethods bound, ReturnsTypeSystem entry.2 := by
  simp only [typeExtensionMethods, List.forall_mem_cons, List.not_mem_nil, false_implies,
    implies_true, and_true]
  exact ⟨returns_map fun _ => rfl, returns_map fun _ => rfl, returns_map fun _ => rfl,
    returns_map fun _ => rfl, returns_map fun _ => rfl, returns_map fun _ => rfl,
    returns_map fun _ => rfl⟩

theorem returns_raise {position : ℕ} {description : Text} :
    ReturnsTypeSystem (raise position description) := by
  intro s definition t hrun
  cases hrun

theorem returns_parseTypeSystemExtension :
    ReturnsTypeSystem (parseTypeSystemExtension bound) := by
  refine returns_bind fun keywordToken => ?_
  split
  · split
    · next method hmethod => exact forall_lookup returns_typeExtensionMethods hmethod
    · refine returns_bind fun s => ?_
      split
      · exact returns_map fun _ => rfl
      · exact returns_raise
  · exact returns_raise

theorem makes_executableDefinitionMethods : ∀ entry ∈ executableDefinitionMethods bound,
    Makes options entry.2 (DefinitionNode.Writable options) := by
  simp only [executableDefinitionMethods, List.forall_mem_cons, List.not_mem_nil,
    false_implies, implies_true, and_true]
  exact ⟨makes_parseOperationDefinition.map fun _ h => h,
    makes_parseOperationDefinition.map fun _ h => h,
    makes_parseOperationDefinition.map fun _ h => h,
    makes_parseFragmentDefinition.map fun _ h => h⟩

theorem makes_parseKeyword {hasDescription : Bool} {keywordToken : Token} :
    MakesExecutable options (parseKeyword bound hasDescription keywordToken) := by
  unfold parseKeyword
  split
  · exact (returns_bind fun _ => returns_raise).executable
  · split
    · split
      · next method _ hmethod =>
        exact (forall_lookup returns_typeSystemDefinitionMethods hmethod).executable
      · next method _ hmethod =>
        exact Makes.executable (forall_lookup
          (P := fun p => Makes options p (DefinitionNode.Writable options))
          makes_executableDefinitionMethods hmethod)
      · split
        · exact (returns_bind fun _ => returns_raise).executable
        · split
          · exact returns_parseTypeSystemExtension.executable
          · exact returns_raise.executable
    · exact returns_raise.executable

theorem makes_parseDefinition : MakesExecutable options (parseDefinition bound) := by
  have hdescription : Makes options peekDescription fun _ => True :=
    makes_peek.bind fun _ _ => makes_peek.bind fun _ _ => .pure trivial
  rw [parseDefinition_eq]
  refine .bind makes_peek fun isShorthand _ => ?_
  split
  · exact Makes.executable (makes_parseOperationDefinition.map fun _ h => h)
  · refine .bind hdescription fun hasDescription _ => ?_
    split
    · exact .bind makes_lookahead fun _ _ => makes_parseKeyword
    · exact .bind makes_token fun _ _ => makes_parseKeyword

theorem makes_definitions {steps : ℕ} {s t : ParserState} (hs : Supplied options s)
    (hrun : itemsUntil .eof (parseDefinition bound) steps s = .ok (definitions, t))
    (hexecutable : ∀ definition ∈ definitions, definition.isExecutable) :
    ∀ definition ∈ definitions, DefinitionNode.Writable options definition := by
  induction steps generalizing s definitions with
  | zero => cases hrun
  | succ steps ih =>
      obtain ⟨isEnd, u, hoptional, hrun⟩ := run_bind_eq_ok.mp hrun
      obtain ⟨-, hu⟩ := makes_expectOptionalToken s hs isEnd u hoptional
      cases isEnd with
      | true =>
          cases hrun
          exact List.forall_mem_nil _
      | false =>
          obtain ⟨definition, v, hdefinition, hrun⟩ := run_bind_eq_ok.mp hrun
          obtain ⟨others, w, hothers, hrun⟩ := run_bind_eq_ok.mp hrun
          cases hrun
          obtain ⟨hfirst, hexecutable⟩ := List.forall_mem_cons.mp hexecutable
          obtain ⟨hwritable, hv⟩ := makes_parseDefinition u hu definition v hdefinition hfirst
          exact List.forall_mem_cons.mpr ⟨hwritable, ih hv hothers hexecutable⟩

/-- The definitions of an executable document can be written. -/
theorem makes_executableDefinitions {s t : ParserState} (hs : Supplied options s)
    (hrun : many bound .sof (parseDefinition bound) .eof s = .ok (definitions, t))
    (hexecutable : ∀ definition ∈ definitions, definition.isExecutable) :
    definitions ≠ [] ∧
      ∀ definition ∈ definitions, DefinitionNode.Writable options definition := by
  obtain ⟨start, u, hstart, hrun⟩ := run_bind_eq_ok.mp hrun
  obtain ⟨-, hu⟩ := makes_expectToken s hs start u hstart
  obtain ⟨definition, v, hdefinition, hrun⟩ := run_bind_eq_ok.mp hrun
  obtain ⟨others, w, hothers, hrun⟩ := run_bind_eq_ok.mp hrun
  cases hrun
  obtain ⟨hfirst, hexecutable⟩ := List.forall_mem_cons.mp hexecutable
  obtain ⟨hwritable, hv⟩ := makes_parseDefinition u hu definition v hdefinition hfirst
  exact ⟨List.cons_ne_nil _ _,
    List.forall_mem_cons.mpr ⟨hwritable, makes_definitions hv hothers hexecutable⟩⟩

end Makes

end Parser

/-! ## The round trip -/

section Documents

variable {options : ParseOptions} {document : DocumentNode} {source : Text}

/-- A document of operations and fragments that can be written is printed and parsed to itself,
but for the locations. -/
theorem parse_printDocument_of_writable (hmax : options.maxTokens = none)
    (hne : document.definitions ≠ [])
    (h : ∀ definition ∈ document.definitions, DefinitionNode.Writable options definition) :
    ∃ parsed, parse options (printDocument document) = .ok parsed ∧
      parsed.unlocated = document.unlocated := by
  obtain ⟨tokens, eof, hlex, hlexemes, heof⟩ := lex_of_writes (writes_printDocument h)
  have hfronts := Parser.initial_fronts eof hmax hlexemes
  rw [← hlex] at hfronts
  obtain ⟨nodes, t, hrun, hnodes⟩ := Parser.ended_many hne h _ _ _
    ⟨initial_proper options _, rfl, Nat.lt_succ_self _⟩ hfronts heof
  obtain ⟨parsed, hdocument, rfl⟩ := Parser.parseDocument_run hrun
  exact ⟨parsed, runParser_eq_ok.mpr ⟨t, hdocument⟩,
    congrArg (fun nodes => { definitions := nodes : DocumentNode }) hnodes⟩

/-- A document of operations and fragments that was parsed from a source without block strings
is printed and parsed to itself, but for the locations. -/
theorem parse_printDocument (hmax : options.maxTokens = none)
    (hblock : ∀ token ∈ (lex source).1, token.kind ≠ .blockString)
    (hparse : parse options source = .ok document)
    (hexecutable : ∀ definition ∈ document.definitions, definition.isExecutable) :
    ∃ parsed, parse options (printDocument document) = .ok parsed ∧
      parsed.unlocated = document.unlocated := by
  obtain ⟨t, hrun⟩ := runParser_eq_ok.mp hparse
  have hsof : sofToken.Writable := ⟨trivial, nofun, nofun⟩
  obtain ⟨hne, hwritable⟩ := Parser.makes_executableDefinitions
    ⟨rfl, hsof, lex_writable hblock⟩ (Parser.definitions_of_run hrun) hexecutable
  exact parse_printDocument_of_writable hmax hne hwritable

/-- A document with a property that can be tested. -/
theorem exists_of_parse {P : DocumentNode → Bool}
    (h : (parse options source).toOption.any P = true) :
    ∃ document, parse options source = .ok document ∧ P document := by
  cases hparse : parse options source with
  | error failure =>
      rw [hparse] at h
      cases h
  | ok document =>
      rw [hparse] at h
      exact ⟨document, rfl, h⟩

/-- A query with a variable, and a fragment. -/
theorem parse_printDocument_query :
    ∃ document, parse {} (str "query ($a: [B!] = [1]) { c(d: $a) ...E } fragment E on F { g }") =
        .ok document ∧
      ∃ parsed, parse {} (printDocument document) = .ok parsed ∧
        parsed.unlocated = document.unlocated := by
  have hsource : (parse {} (str "query ($a: [B!] = [1]) { c(d: $a) ...E } fragment E on F { g }")
      ).toOption.any fun document => document.definitions.all DefinitionNode.isExecutable := by
    decide +kernel
  obtain ⟨document, hparse, hexecutable⟩ := exists_of_parse hsource
  exact ⟨document, hparse, parse_printDocument rfl (by decide +kernel) hparse
    (List.all_eq_true.mp hexecutable)⟩

end Documents

end GraphqlCore.Language
