import GraphqlCore.Language.TakenTokens

/-!
# Parsers take the tokens of nodes

Each parser takes the tokens of a node that can be written, if the token behind them is none that
it would read as well, and returns the node but for the locations.
-/

namespace GraphqlCore.Language

namespace Parser

variable {options : ParseOptions} {bound steps : ℕ} {next : Lexeme → Prop} {isConst : Bool}
  {lexemes : List Lexeme} {β : Type}
  {post : Token → List Token → Except ParseFailure (β × ParserState) → Prop}

/-! ## Names, types and values -/

theorem before_parseName (node : NameNode) :
    TakesBefore options bound next parseName [word node.value] fun parsed =>
      parsed.unlocated = node.unlocated :=
  (takes_parseName.before regular_parseName).imp fun parsed hvalue => by
    rw [NameNode.unlocated, NameNode.unlocated, hvalue]

theorem before_parseNamedType (node : NamedTypeNode) :
    TakesBefore options bound next parseNamedType [word node.name.value] fun parsed =>
      parsed.unlocated = node.unlocated :=
  RunsBefore.token_bind ahead_true fun start _ => (before_parseName node.name).bind_nil
    fun name hname => .located fun _ => by
      rw [NamedTypeNode.unlocated, NamedTypeNode.unlocated, hname]

/-- What a type reference goes on with behind its type: a bang, if it is there. -/
def parseBang (start : Token) (type : TypeNode) : Parser TypeNode := do
  if ← expectOptionalToken .bang then TypeNode.nonNull type <$> loc start
  else return type

theorem parseTypeReference_eq :
    parseTypeReference (bound + 1) = token >>= fun start =>
      expectOptionalToken .bracketL >>= fun isList =>
        (if isList then (do
            let innerType ← parseTypeReference bound
            let _ ← expectToken .bracketR
            TypeNode.list innerType <$> loc start)
          else TypeNode.named <$> parseNamedType) >>= parseBang start := by
  rw [parseTypeReference]
  congr 1
  funext start
  congr 1
  funext isList
  split <;> simp [parseBang]

section Types

variable {start : Token} {parsed type : TypeNode}

theorem before_parseBang_absent (hnext : ∀ lexeme, next lexeme → lexeme.1 ≠ .bang)
    (h : parsed.unlocated = type.unlocated) :
    TakesBefore options bound next (parseBang start parsed) [] fun parsed =>
      parsed.unlocated = type.unlocated :=
  before_absent (ahead_nil hnext) (.pure h)

theorem before_parseBang_present {loc : Option Location}
    (h : parsed.unlocated = type.unlocated) :
    TakesBefore options bound next (parseBang start parsed) [punct .bang] fun parsed =>
      parsed.unlocated = (TypeNode.nonNull type loc).unlocated :=
  before_present (.map ((takes_loc start).before (regular_loc start)) fun _ _ => by
    rw [TypeNode.unlocated, TypeNode.unlocated, h])

/-- A name, and what comes behind it. -/
theorem before_namedReference {node : NamedTypeNode} {Q : TypeNode → Prop}
    (h : ∀ start parsed, parsed.unlocated = (TypeNode.named node).unlocated →
      TakesBefore options bound next (parseBang start parsed) lexemes Q) :
    TakesBefore options bound next (parseTypeReference bound) (word node.name.value :: lexemes)
      Q := by
  cases bound with
  | zero => exact RunsBefore.zero
  | succ bound =>
      rw [parseTypeReference_eq]
      refine RunsBefore.token_bind ahead_true fun start _ =>
        before_absent (ahead_cons nofun) ?_
      exact ((before_parseNamedType node).map fun _ hparsed => by
        rw [TypeNode.unlocated, TypeNode.unlocated, hparsed]).then fun parsed hparsed =>
          h start parsed hparsed

/-- A type in brackets, and what comes behind it. -/
theorem before_listReference {loc : Option Location} {Q : TypeNode → Prop}
    (htype : ∀ bound, TakesBefore options bound (Avoids [.bang]) (parseTypeReference bound)
      type.sourceTree.lexemes fun parsed => parsed.unlocated = type.unlocated)
    (h : ∀ bound start parsed, parsed.unlocated = (TypeNode.list type loc).unlocated →
      TakesBefore options bound next (parseBang start parsed) lexemes Q) :
    TakesBefore options bound next (parseTypeReference bound)
      ((TypeNode.list type loc).sourceTree.lexemes ++ lexemes) Q := by
  cases bound with
  | zero => exact RunsBefore.zero
  | succ bound =>
      have hlexemes : (TypeNode.list type loc).sourceTree.lexemes ++ lexemes =
          punct .bracketL :: ((type.sourceTree.lexemes ++ [punct .bracketR]) ++ lexemes) := by
        simp [TypeNode.sourceTree]
      rw [parseTypeReference_eq, hlexemes]
      refine RunsBefore.token_bind ahead_true fun start _ => before_present_less nofun ?_
      rw [if_pos rfl]
      refine RunsBefore.then (RunsBefore.bind (htype bound) (ahead_cons (by decide))
        fun inner hinner => before_expectToken nofun fun _ _ => .map
          ((takes_loc start).before (regular_loc start)) fun _ _ => ?_)
        fun parsed hparsed => h bound start parsed hparsed
      rw [TypeNode.unlocated, TypeNode.unlocated, hinner]

theorem before_parseTypeReference : ∀ type : TypeNode, type.Writable → ∀ bound,
    TakesBefore options bound (Avoids [.bang]) (parseTypeReference bound)
      type.sourceTree.lexemes fun parsed => parsed.unlocated = type.unlocated
  | .named node, _, bound => by
      rw [TypeNode.sourceTree, lexemes_namedType]
      exact before_namedReference fun start parsed =>
        before_parseBang_absent fun _ hnext => hnext.ne (by decide)
  | .list type loc, h, bound => by
      rw [← List.append_nil (TypeNode.list type loc).sourceTree.lexemes]
      exact before_listReference (before_parseTypeReference type h)
        fun bound start parsed => before_parseBang_absent fun _ hnext => hnext.ne (by decide)
  | .nonNull (.named node) loc, _, bound => by
      have hlexemes : (TypeNode.nonNull (.named node) loc).sourceTree.lexemes =
          [word node.name.value, punct .bang] := by simp [TypeNode.sourceTree]
      rw [hlexemes]
      exact before_namedReference fun start parsed => before_parseBang_present
  | .nonNull (.list type loc) loc', h, bound => by
      have hlexemes : (TypeNode.nonNull (.list type loc) loc').sourceTree.lexemes =
          (TypeNode.list type loc).sourceTree.lexemes ++ [punct .bang] := by
        simp [TypeNode.sourceTree]
      rw [hlexemes]
      exact before_listReference (before_parseTypeReference type h)
        fun bound start parsed => before_parseBang_present

end Types

theorem before_parseVariable (node : VariableNode) :
    TakesBefore options bound next parseVariable node.sourceTree.lexemes fun parsed =>
      parsed.unlocated = node.unlocated := by
  have hlexemes : node.sourceTree.lexemes = [punct .dollar, word node.name.value] := by
    simp [VariableNode.sourceTree]
  rw [hlexemes]
  exact (takes_parseVariable.before regular_parseVariable).imp fun parsed hvalue => by
    rw [VariableNode.unlocated, VariableNode.unlocated, NameNode.unlocated, NameNode.unlocated,
      hvalue]

theorem before_parseValueLiteral {value : ValueNode} (h : value.WritableIn isConst)
    (hsteps : bound ≤ steps) :
    TakesBefore options bound next (parseValueLiteral steps isConst) value.sourceTree.lexemes
      fun parsed => parsed.unlocated = value.unlocated := by
  refine RunsBefore.of_length fun hlength => ?_
  rw [lexemes_value] at hlength ⊢
  exact ((takes_parseValueLiteral value h (by omega)).before
    (regular_parseValueLiteral.of_le hsteps)).imp fun _ hparsed => hparsed

theorem lexemes_stringValue {node : StringValueNode} (h : node.Writable) :
    node.sourceTree.lexemes = [(.string, some node.value)] := by
  have hblock : ¬ node.block = some true := by simp [h.1]
  simp [StringValueNode.sourceTree, hblock]

theorem before_parseStringLiteral {node : StringValueNode} (h : node.Writable) :
    TakesBefore options bound next parseStringLiteral node.sourceTree.lexemes fun parsed =>
      parsed.unlocated = node.unlocated := by
  rw [lexemes_stringValue h]
  refine RunsBefore.token_bind (P := fun lexeme => lexeme = (.string, some node.value))
    (ahead_cons rfl) fun token htoken => before_advance _ (.located fun loc => ?_)
  obtain ⟨hkind, hvalue⟩ := Prod.mk.inj htoken
  rw [StringValueNode.unlocated, StringValueNode.unlocated, hkind, hvalue, h.1]
  rfl

/-- The token is no string. -/
abbrev NoString : Lexeme → Prop := Avoids [.string, .blockString]

/-- A description, if there is one. -/
theorem before_parseDescription {description : Option StringValueNode}
    {f : Option StringValueNode → Parser β} (h : WritableDescription description)
    (hahead : Ahead next lexemes NoString)
    (hf : ∀ parsed, parsed.map StringValueNode.unlocated =
      description.map StringValueNode.unlocated → RunsBefore options bound next (f parsed)
        lexemes post) :
    RunsBefore options bound next (parseDescription >>= f)
      (itemLexemes (descriptionItems description) ++ lexemes) post := by
  rw [parseDescription_eq, bind_assoc]
  cases description with
  | none =>
      have hlexemes : itemLexemes (descriptionItems none) ++ lexemes = lexemes := by
        simp [descriptionItems]
      rw [hlexemes]
      refine RunsBefore.token_bind hahead fun token htoken => ?_
      have hstring : token.kind ≠ .string := htoken.ne (by decide)
      have hblock : token.kind ≠ .blockString := htoken.ne (by decide)
      rw [decide_eq_false hstring, decide_eq_false hblock]
      exact hf none rfl
  | some node =>
      have hnode := h node rfl
      have hlexemes : itemLexemes (descriptionItems (some node)) =
          node.sourceTree.lexemes := by
        simp [descriptionItems]
      rw [hlexemes]
      have hahead' : Ahead next (node.sourceTree.lexemes ++ lexemes) fun lexeme =>
          lexeme.1 = .string := by
        rw [lexemes_stringValue hnode]
        exact ahead_cons rfl
      refine RunsBefore.token_bind hahead' fun token htoken => ?_
      have hstring : token.kind = .string := htoken
      have hsome : TakesBefore options bound (fun _ => True) (some <$> parseStringLiteral)
          node.sourceTree.lexemes fun parsed =>
            parsed.map StringValueNode.unlocated = some node.unlocated :=
        (before_parseStringLiteral hnode).map fun _ hparsed => congrArg some hparsed
      rw [decide_eq_true hstring]
      exact hsome.then hf

/-! ## Arguments and directives -/

theorem lexemes_argument (node : ArgumentNode) : node.sourceTree.lexemes =
    word node.name.value :: punct .colon :: node.value.sourceTree.lexemes := by
  simp [ArgumentNode.sourceTree]

theorem before_parseArgument {node : ArgumentNode} (h : node.Writable isConst)
    (hsteps : bound ≤ steps) :
    TakesBefore options bound next (parseArgument steps isConst) node.sourceTree.lexemes
      fun parsed => parsed.unlocated = node.unlocated := by
  rw [lexemes_argument]
  exact RunsBefore.token_bind ahead_true fun start _ =>
    (before_parseName node.name).then fun name hname => before_expectToken nofun fun _ _ =>
      (before_parseValueLiteral h.2 hsteps).bind_nil fun value hvalue => .located fun _ => by
        rw [ArgumentNode.unlocated, ArgumentNode.unlocated, hname, hvalue]

theorem lexemes_fragmentArgument (node : FragmentArgumentNode) : node.sourceTree.lexemes =
    word node.name.value :: punct .colon :: node.value.sourceTree.lexemes := by
  simp [FragmentArgumentNode.sourceTree]

theorem before_parseFragmentArgument {node : FragmentArgumentNode} (h : node.Writable)
    (hsteps : bound ≤ steps) :
    TakesBefore options bound next (parseFragmentArgument steps) node.sourceTree.lexemes
      fun parsed => parsed.unlocated = node.unlocated := by
  rw [lexemes_fragmentArgument]
  exact RunsBefore.token_bind ahead_true fun start _ =>
    (before_parseName node.name).then fun name hname => before_expectToken nofun fun _ _ =>
      (before_parseValueLiteral h.2 hsteps).bind_nil fun value hvalue => .located fun _ => by
        rw [FragmentArgumentNode.unlocated, FragmentArgumentNode.unlocated, hname, hvalue]

/-- The lexemes of nodes between punctuators. -/
theorem lexemes_block {α : Type} {openKind closeKind : TokenKind} {tree : α → SourceTree}
    {nodes : Option (List α)} :
    itemLexemes (blockItems openKind closeKind (treesOf tree nodes)) =
      optionalBlock openKind closeKind ((nodes.getD []).map fun node => (tree node).lexemes) := by
  rw [itemLexemes_blockItems, treesOf, List.map_map]
  rfl

theorem before_parseArguments {arguments : Option (List ArgumentNode)}
    (h : GivenNodes (ArgumentNode.Writable isConst) arguments) (hsteps : bound ≤ steps) :
    TakesBefore options bound (Avoids [.parenL]) (parseArguments steps isConst)
      (itemLexemes (blockItems .parenL .parenR (treesOf ArgumentNode.sourceTree arguments)))
      fun parsed => parsed.map (List.map ArgumentNode.unlocated) =
        arguments.map (List.map ArgumentNode.unlocated) := by
  have hnodes : ∀ node ∈ arguments.getD [], TakesBefore options bound (fun _ => True)
      (parseArgument steps isConst) node.sourceTree.lexemes
      fun parsed => parsed.unlocated = node.unlocated :=
    fun node hnode => before_parseArgument (h.forall_mem node hnode) hsteps
  rw [lexemes_block]
  exact before_optionalMany h.ne_nil hnodes
    (fun node _ => ⟨_, _, lexemes_argument node, trivial, by nofun⟩) trivial
    (fun _ _ hnext => hnext.ne (by decide)) hsteps

theorem before_parseFragmentArguments {arguments : Option (List FragmentArgumentNode)}
    (h : GivenNodes FragmentArgumentNode.Writable arguments) (hsteps : bound ≤ steps) :
    TakesBefore options bound (Avoids [.parenL]) (parseFragmentArguments steps)
      (itemLexemes (blockItems .parenL .parenR
        (treesOf FragmentArgumentNode.sourceTree arguments)))
      fun parsed => parsed.map (List.map FragmentArgumentNode.unlocated) =
        arguments.map (List.map FragmentArgumentNode.unlocated) := by
  have hnodes : ∀ node ∈ arguments.getD [], TakesBefore options bound (fun _ => True)
      (parseFragmentArgument steps) node.sourceTree.lexemes
      fun parsed => parsed.unlocated = node.unlocated :=
    fun node hnode => before_parseFragmentArgument (h.forall_mem node hnode) hsteps
  rw [lexemes_block]
  exact before_optionalMany h.ne_nil hnodes
    (fun node _ => ⟨_, _, lexemes_fragmentArgument node, trivial, by nofun⟩) trivial
    (fun _ _ hnext => hnext.ne (by decide)) hsteps

theorem lexemes_directive (node : DirectiveNode) : node.sourceTree.lexemes =
    punct .atSign :: word node.name.value ::
      itemLexemes (blockItems .parenL .parenR
        (treesOf ArgumentNode.sourceTree node.arguments)) := by
  simp [DirectiveNode.sourceTree]

theorem before_parseDirective {node : DirectiveNode} (h : node.Writable isConst)
    (hsteps : bound ≤ steps) :
    TakesBefore options bound (Avoids [.parenL]) (parseDirective steps isConst)
      node.sourceTree.lexemes fun parsed => parsed.unlocated = node.unlocated := by
  rw [lexemes_directive]
  exact RunsBefore.token_bind ahead_true fun start _ => before_expectToken nofun fun _ _ =>
    (before_parseName node.name).then fun name hname =>
      (before_parseArguments h.arguments hsteps).bind_nil fun arguments harguments =>
        .located fun _ => by
          rw [DirectiveNode.unlocated, DirectiveNode.unlocated, hname, harguments]

/-- Neither directives nor arguments. -/
abbrev NoDirective : Lexeme → Prop := Avoids [.atSign, .parenL]

theorem before_directiveItems {directives : List DirectiveNode}
    (h : ∀ node ∈ directives, DirectiveNode.Writable isConst node) (hsteps : bound ≤ steps)
    {count : ℕ} (hcount : directives.length < count) :
    TakesBefore options bound NoDirective (directiveItems steps isConst count)
      (directives.map fun node => node.sourceTree.lexemes).flatten
      fun parsed =>
        parsed.map DirectiveNode.unlocated = directives.map DirectiveNode.unlocated := by
  induction directives generalizing count with
  | nil =>
      obtain ⟨count, rfl⟩ := Nat.exists_eq_add_one_of_ne_zero (Nat.ne_of_gt hcount)
      rw [directiveItems]
      exact before_peek_not (ahead_nil fun _ hnext => hnext.ne (by decide)) (.pure rfl)
  | cons node directives ih =>
      obtain ⟨count, rfl⟩ :=
        Nat.exists_eq_add_one_of_ne_zero (Nat.ne_of_gt (Nat.zero_lt_of_lt hcount))
      obtain ⟨hnode, hothers⟩ := List.forall_mem_cons.mp h
      have hahead : Ahead NoDirective
          (directives.map fun node => node.sourceTree.lexemes).flatten (Avoids [.parenL]) := by
        cases directives with
        | nil => exact ahead_nil fun _ hnext => hnext.mono (by decide)
        | cons second directives =>
            rw [List.map_cons, List.flatten_cons, lexemes_directive]
            exact ahead_cons (by decide)
      rw [directiveItems, List.map_cons, List.flatten_cons]
      refine before_peek (by rw [lexemes_directive]; exact ahead_cons rfl) ?_
      exact (before_parseDirective hnode hsteps).bind hahead
        fun parsed hparsed => (ih hothers (Nat.lt_of_succ_lt_succ hcount)).bind_nil
          fun others hothers => .pure (map_cons_eq hparsed hothers)

theorem before_parseDirectives {directives : Option (List DirectiveNode)}
    (h : WritableDirectives isConst directives) (hsteps : bound ≤ steps) :
    TakesBefore options bound NoDirective (parseDirectives steps isConst)
      (itemLexemes (appliedDirectives directives))
      fun parsed => unlocatedDirectives parsed = unlocatedDirectives directives := by
  have hlexemes : itemLexemes (appliedDirectives directives) =
      ((directives.getD []).map fun node => node.sourceTree.lexemes).flatten := by
    rw [appliedDirectives, itemLexemes_nodeItems, treesOf, List.map_map]
    rfl
  rw [hlexemes]
  refine RunsBefore.of_length fun hlength => ?_
  have hcount : (directives.getD []).length < steps := by
    refine lt_of_le_of_lt (length_le_flatten fun node _ => ?_) (hlength.trans_le hsteps)
    rw [lexemes_directive]
    exact List.cons_ne_nil _ _
  refine (before_directiveItems h.forall_mem hsteps hcount).bind_nil fun parsed hparsed =>
    .pure ?_
  cases directives with
  | none =>
      obtain rfl := List.map_eq_nil_iff.mp hparsed
      rfl
  | some list =>
      have hne : parsed ≠ [] := by
        rintro rfl
        exact h.ne_nil list rfl (List.map_eq_nil_iff.mp hparsed.symm)
      rw [if_neg (by simpa using hne)]
      exact congrArg some hparsed

/-! ## Selections -/

theorem before_parseAliasAndName {fieldAlias : Option NameNode} {name : NameNode} :
    TakesBefore options bound (Avoids [.colon]) parseAliasAndName
      (itemLexemes (aliasItems fieldAlias name)) fun parsed =>
        parsed.1.map NameNode.unlocated = fieldAlias.map NameNode.unlocated ∧
        parsed.2.unlocated = name.unlocated := by
  cases fieldAlias with
  | none =>
      have hlexemes : itemLexemes (aliasItems none name) = [word name.value] ++ [] := by
        simp [aliasItems]
      rw [hlexemes]
      exact (before_parseName name).then fun parsed hparsed =>
        before_absent (ahead_nil fun _ hnext => hnext.ne (by decide)) (.pure ⟨rfl, hparsed⟩)
  | some node =>
      have hlexemes : itemLexemes (aliasItems (some node) name) =
          [word node.value, punct .colon, word name.value] := by
        simp [aliasItems]
      rw [hlexemes]
      exact (before_parseName node).then fun parsed hparsed => before_present
        ((before_parseName name).bind_nil fun parsed' hparsed' =>
          .pure ⟨congrArg some hparsed, hparsed'⟩)

/-- What a field, a fragment spread or a directive would read as well. -/
abbrev NoField : Lexeme → Prop := Avoids [.colon, .parenL, .atSign, .braceL]

theorem unlocated_field {fieldAlias : Option NameNode} {name : NameNode}
    {arguments : Option (List ArgumentNode)} {directives : Option (List DirectiveNode)}
    {selectionSet : Option SelectionSetNode} {loc : Option Location} :
    (SelectionNode.field ⟨fieldAlias, name, arguments, directives, selectionSet, loc⟩).unlocated =
      .field ⟨fieldAlias.map NameNode.unlocated, name.unlocated,
        arguments.map (List.map ArgumentNode.unlocated), unlocatedDirectives directives,
        selectionSet.map SelectionSetNode.unlocated, none⟩ := by
  cases selectionSet with
  | none => rw [SelectionNode.unlocated, Option.map_none]
  | some selectionSet => rw [SelectionNode.unlocated, Option.map_some]

theorem lexemes_field {fieldAlias : Option NameNode} {name : NameNode}
    {arguments : Option (List ArgumentNode)} {directives : Option (List DirectiveNode)}
    {selectionSet : Option SelectionSetNode} {loc : Option Location} :
    (SelectionNode.field ⟨fieldAlias, name, arguments, directives, selectionSet,
      loc⟩).sourceTree.lexemes =
      itemLexemes (aliasItems fieldAlias name) ++
        (itemLexemes (blockItems .parenL .parenR (treesOf ArgumentNode.sourceTree arguments)) ++
          (itemLexemes (appliedDirectives directives) ++
            (selectionSet.map fun node => node.sourceTree.lexemes).getD [])) := by
  cases selectionSet with
  | none => simp [SelectionNode.sourceTree]
  | some selectionSet => simp [SelectionNode.sourceTree]

theorem lexemes_selectionSet (selections : List SelectionNode) (loc : Option Location) :
    (SelectionSetNode.mk selections loc).sourceTree.lexemes =
      blockLexemes .braceL .braceR (selections.map fun node => node.sourceTree.lexemes) := by
  simp [SelectionSetNode.sourceTree, blockLexemes, selectionTrees_eq, Function.comp_def]

theorem ahead_selectionSet (selectionSet : SelectionSetNode) {P : Lexeme → Prop}
    (h : P (punct .braceL)) : Ahead next (selectionSet.sourceTree.lexemes ++ lexemes) P := by
  obtain ⟨selections, loc⟩ := selectionSet
  rw [lexemes_selectionSet]
  exact ahead_cons h

/-- Directives in front of something that is no argument and no directive. -/
theorem ahead_directives {directives : Option (List DirectiveNode)} {P : Lexeme → Prop}
    (hsign : P (punct .atSign)) (h : Ahead next lexemes P) :
    Ahead next (itemLexemes (appliedDirectives directives) ++ lexemes) P := by
  refine ahead_append ?_ h
  cases directives with
  | none => exact fun _ hfirst => absurd hfirst (by simp)
  | some list =>
      cases list with
      | nil => exact fun _ hfirst => absurd hfirst (by simp [appliedDirectives])
      | cons node list =>
          intro first hfirst
          rw [appliedDirectives, itemLexemes_nodeItems, treesOf, Option.getD_some, List.map_cons,
            List.map_cons, List.flatten_cons, lexemes_directive] at hfirst
          obtain rfl := Option.some.inj hfirst
          exact hsign

theorem ahead_block {α : Type} {openKind closeKind : TokenKind} {tree : α → SourceTree}
    {nodes : Option (List α)} {P : Lexeme → Prop} (hopen : P (punct openKind))
    (h : Ahead next lexemes P) :
    Ahead next (itemLexemes (blockItems openKind closeKind (treesOf tree nodes)) ++ lexemes) P := by
  rw [itemLexemes_blockItems, optionalBlock]
  split
  · exact h
  · exact ahead_cons hopen

theorem ahead_givenBlock {α : Type} {openKind closeKind : TokenKind} {tree : α → SourceTree}
    {node : α} {nodes : List α} {P : Lexeme → Prop} (hopen : P (punct openKind)) :
    Ahead next (itemLexemes (blockItems openKind closeKind (treesOf tree (some (node :: nodes)))) ++
      lexemes) P := by
  rw [itemLexemes_blockItems]
  exact ahead_cons hopen

/-- The tokens of a selection set that may be missing. -/
def selectionSetLexemes (selectionSet : Option SelectionSetNode) : List Lexeme :=
  (selectionSet.map fun node => node.sourceTree.lexemes).getD []

theorem ahead_selectionSet? (selectionSet : Option SelectionSetNode) {P : Lexeme → Prop}
    (hopen : P (punct .braceL)) (hnext : ∀ lexeme, next lexeme → P lexeme) :
    Ahead next (selectionSetLexemes selectionSet) P := by
  cases selectionSet with
  | none => exact ahead_nil hnext
  | some node =>
      rw [selectionSetLexemes, Option.map_some, Option.getD_some]
      exact (ahead_selectionSet node hopen).of_append_nil

theorem before_selectionSet? {selectionSet : Option SelectionSetNode}
    {p : Parser SelectionSetNode} {f : Option SelectionSetNode → Parser β}
    (h : ∀ node ∈ selectionSet, TakesBefore options bound next p node.sourceTree.lexemes
      fun parsed => parsed.unlocated = node.unlocated)
    (hnext : ∀ lexeme, next lexeme → lexeme.1 ≠ .braceL)
    (hf : ∀ parsed, parsed.map SelectionSetNode.unlocated =
      selectionSet.map SelectionSetNode.unlocated →
        RunsBefore options bound next (f parsed) [] post) :
    RunsBefore options bound next (peek .braceL >>= fun isOpen => orNone isOpen p >>= f)
      (selectionSetLexemes selectionSet) post := by
  cases selectionSet with
  | none => exact before_peek_not (ahead_nil hnext) (hf none rfl)
  | some node =>
      have hahead : Ahead next (selectionSetLexemes (some node)) fun lexeme =>
          lexeme.1 = .braceL := by
        rw [selectionSetLexemes, Option.map_some, Option.getD_some]
        refine (ahead_selectionSet node ?_).of_append_nil
        rfl
      have hsome : TakesBefore options bound next (some <$> p) (selectionSetLexemes (some node))
          fun parsed => parsed.map SelectionSetNode.unlocated = some node.unlocated :=
        (h node rfl).map fun _ hparsed => congrArg some hparsed
      exact before_peek hahead (hsome.bind_nil hf)

theorem before_parseField {fieldAlias : Option NameNode} {name : NameNode}
    {arguments : Option (List ArgumentNode)} {directives : Option (List DirectiveNode)}
    {selectionSet : Option SelectionSetNode} {loc : Option Location}
    {p : Parser SelectionSetNode} (hsteps : bound ≤ steps)
    (harguments : GivenNodes (ArgumentNode.Writable false) arguments)
    (hdirectives : WritableDirectives false directives)
    (hset : ∀ node ∈ selectionSet, TakesBefore options bound NoField p node.sourceTree.lexemes
      fun parsed => parsed.unlocated = node.unlocated) :
    TakesBefore options bound NoField (SelectionNode.field <$> parseField steps p)
      (SelectionNode.field ⟨fieldAlias, name, arguments, directives, selectionSet,
        loc⟩).sourceTree.lexemes
      fun parsed => parsed.unlocated = (SelectionNode.field
        ⟨fieldAlias, name, arguments, directives, selectionSet, loc⟩).unlocated := by
  have hsigns : Ahead NoField (selectionSetLexemes selectionSet) NoDirective :=
    ahead_selectionSet? selectionSet (by decide) fun _ hnext => hnext.mono (by decide)
  have hparens : Ahead NoField (itemLexemes (appliedDirectives directives) ++
      selectionSetLexemes selectionSet) (Avoids [.parenL]) :=
    ahead_directives (by decide) (hsigns.imp fun _ h => h.mono (by decide))
  have hcolon : Ahead NoField (itemLexemes (blockItems .parenL .parenR
      (treesOf ArgumentNode.sourceTree arguments)) ++ (itemLexemes (appliedDirectives directives) ++
        selectionSetLexemes selectionSet)) (Avoids [.colon]) :=
    ahead_block (by decide) (ahead_directives (by decide)
      (ahead_selectionSet? selectionSet (by decide) fun _ hnext => hnext.mono (by decide)))
  rw [lexemes_field]
  refine RunsBefore.map (Q := fun parsed => (SelectionNode.field parsed).unlocated = _)
    (RunsBefore.token_bind ahead_true fun start _ =>
      before_parseAliasAndName.bind hcolon fun names hnames =>
        (before_parseArguments harguments hsteps).bind hparens fun parsed hparsed =>
          (before_parseDirectives hdirectives hsteps).bind hsigns fun parsed' hparsed' =>
            before_selectionSet? hset (fun _ hnext => hnext.ne (by decide)) fun set hset' =>
              .map ((takes_loc start).before (regular_loc start)) fun _ _ => ?_)
    fun _ h => h
  rw [unlocated_field, unlocated_field, hnames.1, hnames.2, hparsed, hparsed', hset']

theorem before_parseFragmentName {node : NameNode} (h : node.value ≠ str "on") :
    TakesBefore options bound next parseFragmentName [word node.value] fun parsed =>
      parsed.unlocated = node.unlocated := by
  refine RunsBefore.token_bind (P := fun lexeme => lexeme = word node.value) (ahead_cons rfl)
    fun token htoken => ?_
  have hvalue : ¬ token.value = some (str "on") := by
    rw [(Prod.mk.inj htoken).2]
    exact fun heq => h (Option.some.inj heq)
  rw [if_neg hvalue]
  exact before_parseName node

/-- Arguments of a fragment spread are read with the option only. -/
theorem before_spreadArguments {arguments : Option (List FragmentArgumentNode)}
    {f : Option (List FragmentArgumentNode) → Parser β}
    (h : GivenNodes FragmentArgumentNode.Writable arguments)
    (hexperimental : options.experimentalFragmentArguments = false → arguments = none)
    (hsteps : bound ≤ steps) (hahead : Ahead next lexemes (Avoids [.parenL]))
    (hf : ∀ parsed, parsed.map (List.map FragmentArgumentNode.unlocated) =
      arguments.map (List.map FragmentArgumentNode.unlocated) →
        RunsBefore options bound next (f parsed) lexemes post) :
    RunsBefore options bound next (Action.get >>= fun s => peek .parenL >>= fun isOpen =>
        if isOpen && s.options.experimentalFragmentArguments
          then parseFragmentArguments steps >>= f else pure none >>= f)
      (itemLexemes (blockItems .parenL .parenR
        (treesOf FragmentArgumentNode.sourceTree arguments)) ++ lexemes) post := by
  refine RunsBefore.get_bind fun s hoptions => ?_
  rw [hoptions]
  cases hnode : arguments with
  | none =>
      have hlexemes : itemLexemes (blockItems .parenL .parenR
          (treesOf FragmentArgumentNode.sourceTree none)) ++ lexemes = lexemes := by
        simp [treesOf, blockItems]
      rw [hlexemes]
      refine before_peek_not (hahead.imp fun _ h => h.ne (by decide)) ?_
      exact hf none (by rw [hnode])
  | some list =>
      obtain ⟨node, rest, rfl⟩ := List.exists_cons_of_ne_nil (h.ne_nil list hnode)
      have hexperimental' : options.experimentalFragmentArguments = true := by
        cases hoption : options.experimentalFragmentArguments with
        | true => rfl
        | false => exact absurd (hexperimental hoption) (by simp [hnode])
      rw [hexperimental']
      refine before_peek (ahead_givenBlock rfl) ?_
      rw [← hnode]
      exact (before_parseFragmentArguments h hsteps).bind hahead hf

/-- The tokens of a type condition that may be missing. -/
def typeConditionLexemes (typeCondition : Option NamedTypeNode) : List Lexeme :=
  itemLexemes ((typeCondition.map typeConditionItems).getD [])

theorem lexemes_fragmentSpread (node : FragmentSpreadNode) : node.sourceTree.lexemes =
    punct .spread :: word node.name.value :: (itemLexemes (blockItems .parenL .parenR
      (treesOf FragmentArgumentNode.sourceTree node.arguments)) ++
        itemLexemes (appliedDirectives node.directives)) := by
  simp [FragmentSpreadNode.sourceTree]

theorem before_fragmentSpread {node : FragmentSpreadNode} {p : Parser SelectionSetNode}
    (h : node.Writable options) (hsteps : bound ≤ steps) :
    TakesBefore options bound NoField (parseFragment steps p) node.sourceTree.lexemes
      fun parsed => parsed.unlocated = (SelectionNode.fragmentSpread node).unlocated := by
  rw [lexemes_fragmentSpread]
  refine RunsBefore.token_bind ahead_true fun start _ => before_expectToken nofun fun _ _ =>
    before_absentKeyword (ahead_cons fun heq => ?_) (before_peek (ahead_cons rfl) ?_)
  · exact h.name_ne (Option.some.inj (Prod.mk.inj heq).2)
  rw [Bool.not_false, Bool.true_and, if_pos rfl]
  refine (before_parseFragmentName h.name_ne).then fun name hname =>
    before_spreadArguments h.arguments h.experimental hsteps ?_ fun arguments harguments => ?_
  · exact (ahead_directives (by decide)
      (ahead_nil fun _ hnext => hnext.mono (by decide))).of_append_nil
  · refine (before_parseDirectives h.directives hsteps).last (fun _ hnext => hnext.mono (by decide))
      fun directives hdirectives => ((takes_loc start).before (regular_loc start)).bind_nil
        fun loc _ => .pure ?_
    rw [SelectionNode.unlocated, SelectionNode.unlocated, FragmentSpreadNode.unlocated,
      FragmentSpreadNode.unlocated, hname, harguments, hdirectives]

theorem lexemes_inlineFragment {typeCondition : Option NamedTypeNode}
    {directives : Option (List DirectiveNode)} {selectionSet : SelectionSetNode}
    {loc : Option Location} : (SelectionNode.inlineFragment
        ⟨typeCondition, directives, selectionSet, loc⟩).sourceTree.lexemes =
      punct .spread :: (typeConditionLexemes typeCondition ++
        (itemLexemes (appliedDirectives directives) ++ selectionSet.sourceTree.lexemes)) := by
  simp [SelectionNode.sourceTree, typeConditionLexemes]

theorem before_inlineFragment {typeCondition : Option NamedTypeNode}
    {directives : Option (List DirectiveNode)} {selectionSet : SelectionSetNode}
    {loc : Option Location} {p : Parser SelectionSetNode} (hsteps : bound ≤ steps)
    (hdirectives : WritableDirectives false directives)
    (hset : TakesBefore options bound next p selectionSet.sourceTree.lexemes fun parsed =>
      parsed.unlocated = selectionSet.unlocated) :
    TakesBefore options bound next (parseFragment steps p)
      (SelectionNode.inlineFragment ⟨typeCondition, directives, selectionSet,
        loc⟩).sourceTree.lexemes
      fun parsed => parsed.unlocated = (SelectionNode.inlineFragment
        ⟨typeCondition, directives, selectionSet, loc⟩).unlocated := by
  have hbrace : Ahead next selectionSet.sourceTree.lexemes NoDirective :=
    (ahead_selectionSet selectionSet (by decide)).of_append_nil
  have hrest : ∀ start parsed, parsed.map NamedTypeNode.unlocated =
      typeCondition.map NamedTypeNode.unlocated → TakesBefore options bound next (do
        let directives ← parseDirectives steps false
        let selectionSet ← p
        let loc ← Parser.loc start
        return SelectionNode.inlineFragment ⟨parsed, directives, selectionSet, loc⟩)
      (itemLexemes (appliedDirectives directives) ++ selectionSet.sourceTree.lexemes) fun parsed =>
        parsed.unlocated = (SelectionNode.inlineFragment
          ⟨typeCondition, directives, selectionSet, loc⟩).unlocated := by
    intro start parsed hparsed
    refine (before_parseDirectives hdirectives hsteps).bind hbrace fun parsed' hparsed' =>
      hset.bind_nil fun set hset' => ((takes_loc start).before (regular_loc start)).bind_nil
        fun _ _ => .pure ?_
    rw [SelectionNode.unlocated, SelectionNode.unlocated, hparsed, hparsed', hset']
  rw [lexemes_inlineFragment]
  refine RunsBefore.token_bind ahead_true fun start _ => before_expectToken nofun fun _ _ => ?_
  cases typeCondition with
  | none =>
      have hahead : Ahead next (itemLexemes (appliedDirectives directives) ++
          selectionSet.sourceTree.lexemes) (Avoids [.name]) :=
        ahead_directives (by decide) (ahead_selectionSet selectionSet (by decide)).of_append_nil
      refine before_absentKeyword (hahead.imp ?_) (before_peek_not
        (hahead.imp fun _ h => h.ne (by decide)) ?_)
      · rintro lexeme h rfl
        exact h.ne (List.mem_singleton_self _) rfl
      · exact hrest start none rfl
  | some node =>
      have hcondition : typeConditionLexemes (some node) =
          [word (str "on"), word node.name.value] := by
        simp [typeConditionLexemes, typeConditionItems]
      rw [hcondition]
      have hsome : TakesBefore options bound (fun _ => True) (some <$> parseNamedType)
          [word node.name.value] fun parsed =>
            parsed.map NamedTypeNode.unlocated = some node.unlocated :=
        (before_parseNamedType node).map fun _ hparsed => congrArg some hparsed
      exact before_presentKeyword (before_peek (ahead_cons rfl)
        (hsome.then fun parsed hparsed => hrest start parsed hparsed))

/-- A field starts with a name. -/
theorem lexemes_field_cons {fieldAlias : Option NameNode} {name : NameNode}
    {arguments : Option (List ArgumentNode)} {directives : Option (List DirectiveNode)}
    {selectionSet : Option SelectionSetNode} {loc : Option Location} :
    ∃ text rest, (SelectionNode.field ⟨fieldAlias, name, arguments, directives, selectionSet,
      loc⟩).sourceTree.lexemes = word text :: rest := by
  rw [lexemes_field]
  cases fieldAlias with
  | none => exact ⟨name.value, _, by rw [aliasItems, itemLexemes_child, lexemes_name]; rfl⟩
  | some node => exact ⟨node.value, _, by rw [aliasItems, itemLexemes_child, lexemes_name]; rfl⟩

/-- The other selections start with three dots. -/
theorem lexemes_selection_cons (selection : SelectionNode) :
    ∃ lexeme rest, selection.sourceTree.lexemes = lexeme :: rest ∧
      (lexeme.1 = .name ∨ lexeme.1 = .spread) := by
  cases selection with
  | field node =>
      obtain ⟨fieldAlias, name, arguments, directives, selectionSet, loc⟩ := node
      obtain ⟨text, rest, hlexemes⟩ := lexemes_field_cons
      exact ⟨word text, rest, hlexemes, .inl rfl⟩
  | fragmentSpread node =>
      exact ⟨_, _, by rw [SelectionNode.sourceTree, lexemes_fragmentSpread], .inr rfl⟩
  | inlineFragment node =>
      obtain ⟨typeCondition, directives, selectionSet, loc⟩ := node
      exact ⟨_, _, lexemes_inlineFragment, .inr rfl⟩

theorem startsItem_selection (selection : SelectionNode) :
    StartsItem NoField .braceR selection.sourceTree.lexemes := by
  obtain ⟨lexeme, rest, hlexemes, hkind⟩ := lexemes_selection_cons selection
  obtain ⟨kind, value⟩ := lexeme
  refine ⟨_, rest, hlexemes, ?_⟩
  obtain rfl | rfl := hkind
  · exact ⟨by simp [Avoids], nofun⟩
  · exact ⟨by simp [Avoids], nofun⟩

/-- A field is read where there are no three dots. -/
theorem before_fieldSelection {p : Parser SelectionSetNode} {Q : SelectionNode → Prop}
    {text : Text} {rest : List Lexeme} (hlexemes : lexemes = word text :: rest)
    (h : TakesBefore options bound next (SelectionNode.field <$> parseField steps p) lexemes Q) :
    TakesBefore options bound next (parseSelection steps p) lexemes Q :=
  before_peek_not (by rw [hlexemes]; exact ahead_cons nofun) h

theorem before_spreadSelection {p : Parser SelectionSetNode} {Q : SelectionNode → Prop}
    {rest : List Lexeme} (hlexemes : lexemes = punct .spread :: rest)
    (h : TakesBefore options bound next (parseFragment steps p) lexemes Q) :
    TakesBefore options bound next (parseSelection steps p) lexemes Q :=
  before_peek (by rw [hlexemes]; exact ahead_cons rfl) h

mutual

/-- The tokens of a selection are taken, with selection sets of a smaller bound. -/
theorem before_parseSelection : ∀ selection : SelectionNode, selection.Writable options →
    ∀ bound steps, bound ≤ steps →
      TakesBefore options bound NoField (parseSelection steps (parseSelectionSet bound))
        selection.sourceTree.lexemes fun parsed => parsed.unlocated = selection.unlocated
  | .field ⟨fieldAlias, name, arguments, directives, none, loc⟩, h, bound, steps, hsteps => by
      obtain ⟨text, rest, hlexemes⟩ := lexemes_field_cons
      exact before_fieldSelection hlexemes
        (before_parseField hsteps h.2.2.1 h.2.2.2.1 (by simp))
  | .field ⟨fieldAlias, name, arguments, directives, some selectionSet, loc⟩, h, bound, steps,
      hsteps => by
      have hset := before_parseSelectionSet selectionSet h.2.2.2.2 bound
      obtain ⟨text, rest, hlexemes⟩ := lexemes_field_cons
      refine before_fieldSelection hlexemes
        (before_parseField hsteps h.2.2.1 h.2.2.2.1 fun node hnode => ?_)
      obtain rfl := Option.some.inj hnode
      exact hset.mono fun _ _ => trivial
  | .fragmentSpread node, h, bound, steps, hsteps => by
      rw [SelectionNode.sourceTree]
      exact before_spreadSelection (lexemes_fragmentSpread node) (before_fragmentSpread h hsteps)
  | .inlineFragment ⟨typeCondition, directives, selectionSet, loc⟩, h, bound, steps, hsteps => by
      have hset := before_parseSelectionSet selectionSet h.2.2 bound
      exact before_spreadSelection lexemes_inlineFragment
        (before_inlineFragment hsteps h.2.1 (hset.mono fun _ _ => trivial))

theorem before_parseSelectionSet : ∀ selectionSet : SelectionSetNode,
    selectionSet.Writable options → ∀ bound,
      TakesBefore options bound (fun _ => True) (parseSelectionSet bound)
        selectionSet.sourceTree.lexemes fun parsed => parsed.unlocated = selectionSet.unlocated
  | ⟨selections, loc⟩, h, bound => by
      have hselections := before_parseSelections selections h.2
      cases bound with
      | zero => exact RunsBefore.zero
      | succ bound =>
          rw [lexemes_selectionSet, parseSelectionSet]
          refine RunsBefore.token_bind ahead_true fun start _ => ?_
          rw [many, bind_assoc]
          refine before_expectToken_less nofun fun _ => (before_someUntil h.1
            (fun selection hmem => hselections selection hmem bound (bound + 1) (Nat.le_succ _))
            (fun selection _ => startsItem_selection selection) (by decide)
            (Nat.le_succ _)).bind_nil fun parsed hparsed =>
              .map ((takes_loc start).before (regular_loc start)) fun _ _ => ?_
          rw [SelectionSetNode.unlocated, SelectionSetNode.unlocated, unlocatedSelections_eq,
            unlocatedSelections_eq, hparsed]

theorem before_parseSelections : ∀ selections : List SelectionNode,
    WritableSelections options selections → ∀ selection ∈ selections, ∀ bound steps,
      bound ≤ steps → TakesBefore options bound NoField
        (parseSelection steps (parseSelectionSet bound)) selection.sourceTree.lexemes
          fun parsed => parsed.unlocated = selection.unlocated
  | [], _ => List.forall_mem_nil _
  | selection :: selections, h => List.forall_mem_cons.mpr
      ⟨before_parseSelection selection h.1, before_parseSelections selections h.2⟩

end

end Parser

end GraphqlCore.Language
