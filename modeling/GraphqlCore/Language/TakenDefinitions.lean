import GraphqlCore.Language.TakenNodes
import GraphqlCore.Language.WrittenNodes

/-!
# Parsers take the tokens of definitions

The operations and fragments first.  A type definition or an extension ends with a list that may
be missing: what is in front of it is read in the same way, whatever is read then.
-/

namespace GraphqlCore.Language

namespace Parser

variable {options : ParseOptions} {bound : ℕ} {next : Lexeme → Prop} {lexemes : List Lexeme}
  {β : Type} {post : Token → List Token → Except ParseFailure (β × ParserState) → Prop}

/-! ## Executable definitions -/

theorem before_parseOperationType (operation : OperationType) :
    TakesBefore options bound next parseOperationType [word operation.keyword] fun parsed =>
      parsed = operation := by
  refine before_expectToken nofun fun token hvalue => ?_
  rw [hvalue]
  cases operation with
  | query => exact .pure rfl
  | mutation => exact .pure rfl
  | subscription => exact .pure rfl

theorem before_parseDefaultValue {defaultValue : Option ValueNode}
    (h : WritableDefault defaultValue) :
    TakesBefore options bound (Avoids [.equals]) (parseDefaultValue bound)
      (itemLexemes (defaultItems defaultValue)) fun parsed =>
        parsed.map ValueNode.unlocated = defaultValue.map ValueNode.unlocated := by
  cases defaultValue with
  | none => exact before_absent (ahead_nil fun _ hnext => hnext.ne (by decide)) (.pure rfl)
  | some value =>
      have hlexemes : itemLexemes (defaultItems (some value)) =
          punct .equals :: value.sourceTree.lexemes := by
        simp [defaultItems]
      rw [hlexemes]
      exact before_present
        ((before_parseValueLiteral (h value rfl) le_rfl).map fun _ hparsed => congrArg some hparsed)

theorem ahead_default {defaultValue : Option ValueNode} {P : Lexeme → Prop}
    (hequals : P (punct .equals)) (h : Ahead next lexemes P) :
    Ahead next (itemLexemes (defaultItems defaultValue) ++ lexemes) P := by
  cases defaultValue with
  | none => simpa [defaultItems] using h
  | some value =>
      rw [defaultItems, itemLexemes_punct]
      exact ahead_cons hequals

/-- What a type, a default value or a directive would read as well. -/
abbrev NoTyped : Lexeme → Prop := Avoids [.bang, .equals, .atSign, .parenL]

theorem ahead_directives_nil {directives : Option (List DirectiveNode)} {P : Lexeme → Prop}
    (hsign : P (punct .atSign)) (hnext : ∀ lexeme, next lexeme → P lexeme) :
    Ahead next (itemLexemes (appliedDirectives directives)) P :=
  (ahead_directives hsign (ahead_nil hnext)).of_append_nil

/-- A type, and the default value and the directives behind it. -/
theorem before_typed {type : TypeNode} {defaultValue : Option ValueNode}
    {directives : Option (List DirectiveNode)}
    {f : TypeNode → Option ValueNode → Option (List DirectiveNode) → Parser β}
    (htype : type.Writable) (hdefault : WritableDefault defaultValue)
    (hdirectives : WritableDirectives true directives)
    (hf : ∀ parsed parsed' parsed'', parsed.unlocated = type.unlocated →
      parsed'.map ValueNode.unlocated = defaultValue.map ValueNode.unlocated →
      unlocatedDirectives parsed'' = unlocatedDirectives directives →
        RunsBefore options bound NoTyped (f parsed parsed' parsed'') [] post) :
    RunsBefore options bound NoTyped (do
        let type ← parseTypeReference bound
        let defaultValue ← parseDefaultValue bound
        let directives ← parseConstDirectives bound
        f type defaultValue directives)
      (type.sourceTree.lexemes ++ (itemLexemes (defaultItems defaultValue) ++
        itemLexemes (appliedDirectives directives))) post :=
  (before_parseTypeReference type htype bound).bind
    (ahead_default (by decide) (ahead_directives_nil (by decide) fun _ h => h.mono (by decide)))
    fun _ hparsed => (before_parseDefaultValue hdefault).bind
      (ahead_directives_nil (by decide) fun _ h => h.mono (by decide)) fun _ hparsed' =>
        (before_parseDirectives hdirectives le_rfl).last (fun _ h => h.mono (by decide))
          fun _ hparsed'' => hf _ _ _ hparsed hparsed' hparsed''

theorem lexemes_variableDefinition (node : VariableDefinitionNode) : node.sourceTree.lexemes =
    itemLexemes (descriptionItems node.description) ++ (node.variableNode.sourceTree.lexemes ++
      (punct .colon :: (node.type.sourceTree.lexemes ++
        (itemLexemes (defaultItems node.defaultValue) ++
          itemLexemes (appliedDirectives node.directives))))) := by
  simp [VariableDefinitionNode.sourceTree]

theorem lexemes_variable (node : VariableNode) :
    node.sourceTree.lexemes = [punct .dollar, word node.name.value] := by
  simp [VariableNode.sourceTree]

theorem before_parseVariableDefinition {node : VariableDefinitionNode} (h : node.Writable) :
    TakesBefore options bound NoTyped (parseVariableDefinition bound) node.sourceTree.lexemes
      fun parsed => parsed.unlocated = node.unlocated := by
  rw [lexemes_variableDefinition]
  refine RunsBefore.token_bind ahead_true fun start _ =>
    before_parseDescription h.description ?_ fun description hdescription =>
      (before_parseVariable node.variableNode).then fun variableNode hvariable =>
        before_expectToken nofun fun _ _ => before_typed h.type h.defaultValue h.directives
          fun type value directives htype hvalue hdirectives => .located fun _ => ?_
  · rw [lexemes_variable]
    exact ahead_cons (by decide)
  · rw [VariableDefinitionNode.unlocated, VariableDefinitionNode.unlocated, hdescription, hvariable,
      htype, hvalue, hdirectives]

/-- What is described starts with its description, or as it starts without one. -/
theorem ahead_description {description : Option StringValueNode} {P : Lexeme → Prop}
    (h : WritableDescription description) (hstring : ∀ value, P (.string, value))
    (hahead : Ahead next lexemes P) :
    Ahead next (itemLexemes (descriptionItems description) ++ lexemes) P := by
  cases description with
  | none => simpa [descriptionItems] using hahead
  | some node =>
      have hlexemes : itemLexemes (descriptionItems (some node)) ++ lexemes =
          (.string, some node.value) :: lexemes := by
        simp [descriptionItems, lexemes_stringValue (h node rfl)]
      rw [hlexemes]
      exact ahead_cons (hstring _)

theorem startsItem_described {description : Option StringValueNode} {inside : Lexeme → Prop}
    {closeKind : TokenKind} (h : WritableDescription description)
    (hstring : ∀ value, inside (.string, value)) (hclose : closeKind ≠ .string)
    (hstarts : StartsItem inside closeKind lexemes) :
    StartsItem inside closeKind (itemLexemes (descriptionItems description) ++ lexemes) := by
  cases description with
  | none => simpa [descriptionItems] using hstarts
  | some node =>
      have hlexemes : itemLexemes (descriptionItems (some node)) ++ lexemes =
          (.string, some node.value) :: lexemes := by
        simp [descriptionItems, lexemes_stringValue (h node rfl)]
      exact ⟨_, _, hlexemes, hstring _, hclose.symm⟩

theorem before_parseVariableDefinitions {definitions : Option (List VariableDefinitionNode)}
    (h : GivenNodes VariableDefinitionNode.Writable definitions) :
    TakesBefore options bound (Avoids [.parenL]) (parseVariableDefinitions bound)
      (itemLexemes (blockItems .parenL .parenR
        (treesOf VariableDefinitionNode.sourceTree definitions)))
      fun parsed => parsed.map (List.map VariableDefinitionNode.unlocated) =
        definitions.map (List.map VariableDefinitionNode.unlocated) := by
  rw [lexemes_block]
  refine before_optionalMany h.ne_nil
    (fun node hnode => before_parseVariableDefinition (h.forall_mem node hnode))
    (fun node hnode => ?_) (by decide) (fun _ _ hnext => hnext.ne (by decide)) le_rfl
  rw [lexemes_variableDefinition, lexemes_variable]
  exact startsItem_described (h.forall_mem node hnode).description (by simp [Avoids]) nofun
    ⟨_, _, rfl, by decide, nofun⟩

/-- A name that may be missing. -/
theorem before_name? {name : Option NameNode} {f : Option NameNode → Parser β}
    (hahead : Ahead next lexemes (Avoids [.name]))
    (hf : ∀ parsed, parsed.map NameNode.unlocated = name.map NameNode.unlocated →
      RunsBefore options bound next (f parsed) lexemes post) :
    RunsBefore options bound next (peek .name >>= fun isName => orNone isName parseName >>= f)
      ((name.map fun name => [word name.value]).getD [] ++ lexemes) post := by
  cases name with
  | none => exact before_peek_not (hahead.imp fun _ h => h.ne (by decide)) (hf none rfl)
  | some name =>
      have hsome : TakesBefore options bound (fun _ => True) (some <$> parseName)
          [word name.value] fun parsed => parsed.map NameNode.unlocated = some name.unlocated :=
        (before_parseName name).map fun _ hparsed => congrArg some hparsed
      exact before_peek (ahead_cons rfl) (hsome.then hf)

/-- A query without its keyword has a selection set only. -/
theorem unlocated_of_isShorthand {node : OperationDefinitionNode}
    (h : (DefinitionNode.operation node).isShorthand) :
    node.unlocated = { operation := .query, selectionSet := node.selectionSet.unlocated } := by
  obtain ⟨operation, description, name, variableDefinitions, directives, selectionSet, loc⟩ := node
  unfold DefinitionNode.isShorthand at h
  split at h
  · next heq =>
    cases heq
    rfl
  · cases h

theorem before_parseOperationDefinition {node : OperationDefinitionNode}
    (h : node.Writable options) :
    TakesBefore options bound next (parseOperationDefinition bound) node.sourceTree.lexemes
      fun parsed => parsed.unlocated = node.unlocated := by
  have hset : TakesBefore options bound next (parseSelectionSet bound)
      node.selectionSet.sourceTree.lexemes fun parsed =>
        parsed.unlocated = node.selectionSet.unlocated :=
    (before_parseSelectionSet node.selectionSet h.selectionSet bound).mono fun _ _ => trivial
  have hbrace : ∀ {P : Lexeme → Prop}, P (punct .braceL) →
      Ahead next node.selectionSet.sourceTree.lexemes P :=
    fun hP => (ahead_selectionSet _ hP).of_append_nil
  rw [lexemes_operation]
  split
  · next hshort =>
    refine RunsBefore.token_bind ahead_true fun start _ => before_peek (hbrace rfl)
      (hset.bind_nil fun set hparsed => .located fun _ => ?_)
    rw [unlocated_of_isShorthand hshort, OperationDefinitionNode.unlocated, hparsed]
    rfl
  · next hshort =>
    have hlexemes : node.startLexemes ++ node.selectionSet.sourceTree.lexemes =
        itemLexemes (descriptionItems node.description) ++ (word node.operation.keyword ::
          ((node.name.map fun name => [word name.value]).getD [] ++
            (itemLexemes (blockItems .parenL .parenR
              (treesOf VariableDefinitionNode.sourceTree node.variableDefinitions)) ++
                (itemLexemes (appliedDirectives node.directives) ++
                  node.selectionSet.sourceTree.lexemes)))) := by
      simp [OperationDefinitionNode.startLexemes]
    rw [hlexemes]
    refine RunsBefore.token_bind ahead_true fun start _ => before_peek_not
      (ahead_description h.description (by simp) (ahead_cons (by simp [word]))) ?_
    refine before_parseDescription h.description (ahead_cons (avoids_word (by decide)))
      fun description hdescription => (before_parseOperationType node.operation).then
        fun operation hoperation => before_name?
          (ahead_block (by decide) (ahead_directives (by decide) (hbrace (by decide))))
          fun name hname => (before_parseVariableDefinitions h.variableDefinitions).bind
            (ahead_directives (by decide) (hbrace (by decide))) fun definitions hdefinitions =>
              (before_parseDirectives h.directives le_rfl).bind (hbrace (by decide))
                fun directives hdirectives => hset.bind_nil fun set hset' => .located fun _ => ?_
    rw [OperationDefinitionNode.unlocated, OperationDefinitionNode.unlocated, hoperation,
      hdescription, hname, hdefinitions, hdirectives, hset']

/-- Variables of a fragment are read with the option only. -/
theorem before_fragmentVariables {definitions : Option (List VariableDefinitionNode)}
    {f : Option (List VariableDefinitionNode) → Parser β} {s : ParserState}
    (h : if options.experimentalFragmentArguments then
      GivenNodes VariableDefinitionNode.Writable definitions else definitions = some [])
    (hoptions : s.options = options) (hahead : Ahead next lexemes (Avoids [.parenL]))
    (hf : ∀ parsed, parsed.map (List.map VariableDefinitionNode.unlocated) =
      definitions.map (List.map VariableDefinitionNode.unlocated) →
        RunsBefore options bound next (f parsed) lexemes post) :
    RunsBefore options bound next (if s.options.experimentalFragmentArguments
        then parseVariableDefinitions bound >>= f else pure (some []) >>= f)
      (itemLexemes (blockItems .parenL .parenR
        (treesOf VariableDefinitionNode.sourceTree definitions)) ++ lexemes) post := by
  rw [hoptions]
  split
  · next hexperimental =>
    rw [if_pos hexperimental] at h
    exact (before_parseVariableDefinitions h).bind hahead hf
  · next hexperimental =>
    rw [if_neg hexperimental] at h
    rw [h] at hf ⊢
    rw [pure_bind]
    exact hf (some []) rfl

theorem lexemes_fragmentDefinition (node : FragmentDefinitionNode) : node.sourceTree.lexemes =
    itemLexemes (descriptionItems node.description) ++ (word (str "fragment") ::
      word node.name.value :: (itemLexemes (blockItems .parenL .parenR
        (treesOf VariableDefinitionNode.sourceTree node.variableDefinitions)) ++
          (word (str "on") :: word node.typeCondition.name.value ::
            (itemLexemes (appliedDirectives node.directives) ++
              node.selectionSet.sourceTree.lexemes)))) := by
  simp [FragmentDefinitionNode.sourceTree, typeConditionItems]

theorem before_parseFragmentDefinition {node : FragmentDefinitionNode}
    (h : node.Writable options) :
    TakesBefore options bound next (parseFragmentDefinition bound) node.sourceTree.lexemes
      fun parsed => parsed.unlocated = node.unlocated := by
  have hset : TakesBefore options bound next (parseSelectionSet bound)
      node.selectionSet.sourceTree.lexemes fun parsed =>
        parsed.unlocated = node.selectionSet.unlocated :=
    (before_parseSelectionSet node.selectionSet h.selectionSet bound).mono fun _ _ => trivial
  rw [lexemes_fragmentDefinition]
  refine RunsBefore.token_bind ahead_true fun start _ => before_parseDescription h.description
    (ahead_cons (avoids_word (by decide))) fun description hdescription => before_expectKeyword
      (RunsBefore.get_bind fun s hoptions => (before_parseFragmentName h.name_ne).then
        fun name hname => before_fragmentVariables h.variableDefinitions hoptions
          (ahead_cons (avoids_word (by decide))) fun definitions hdefinitions => ?_)
  have hcondition : TakesBefore options bound (fun _ => True) parseTypeCondition
      [word (str "on"), word node.typeCondition.name.value] fun parsed =>
        parsed.unlocated = node.typeCondition.unlocated :=
    before_expectKeyword (before_parseNamedType node.typeCondition)
  refine hcondition.then fun condition hcondition =>
    (before_parseDirectives h.directives le_rfl).bind
      (ahead_selectionSet _ (by decide)).of_append_nil fun directives hdirectives =>
        hset.bind_nil fun set hset' => .located fun _ => ?_
  rw [FragmentDefinitionNode.unlocated, FragmentDefinitionNode.unlocated, hdescription, hname,
    hdefinitions, hcondition, hdirectives, hset']

end Parser

end GraphqlCore.Language
