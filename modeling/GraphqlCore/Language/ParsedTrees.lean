import GraphqlCore.Language.ParsedItems

/-!
# Parsed documents are nested

One lemma for each parsing method: the node that it returns is spelled by the tokens that it
passes by.  So the locations of a document nest, as its tokens are in order.
-/

namespace GraphqlCore.Language

namespace Parser

variable {bound : ℕ} {isConst : Bool} {s : ParserState}

/-! ## Names, types and values -/

theorem reads_parseName : ReadsNode parseName NameNode.sourceTree :=
  fun _ => readsAt_expectToken (by decide) (.node (by simp) fun _ => rfl)

theorem reads_parseNamedType : ReadsNode parseNamedType NamedTypeNode.sourceTree :=
  Scans.token_bind fun _ => .bind reads_parseName fun _ => .node (by simp) fun _ => rfl

theorem reads_parseTypeReference : ∀ bound, ReadsNode (parseTypeReference bound) TypeNode.sourceTree
  | 0 => reads_exhausted
  | bound + 1 => by
      refine Scans.token_bind fun start => ?_
      have hrest : ∀ {before : List SourceItem} {type : TypeNode},
          before = [.child type.sourceTree] → ReadsFrom start before (do
            if ← expectOptionalToken .bang then TypeNode.nonNull type <$> loc start.token
            else return type) fun type => [.child type.sourceTree] := by
        rintro _ type rfl
        refine .bind (reads_expectOptionalToken (by decide)) fun found => ?_
        cases found with
        | true => exact .node (by simp) fun _ => rfl
        | false => exact .pure rfl
      refine .bind (reads_expectOptionalToken (by decide)) fun found => ?_
      cases found with
      | true =>
          have hlist : ReadsFrom start [punctItem .bracketL] (do
              let innerType ← parseTypeReference bound
              let _ ← expectToken .bracketR
              TypeNode.list innerType <$> loc start.token) fun type => [.child type.sourceTree] :=
            .bind (reads_parseTypeReference bound) fun _ =>
              .bind (reads_expectToken (by decide)) fun _ => .node (by simp) fun _ => rfl
          exact .seq hlist fun _ => hrest rfl
      | false => exact .bind (reads_parseNamedType.map fun _ => rfl) fun _ => hrest rfl

theorem reads_parseVariable : ReadsNode parseVariable VariableNode.sourceTree :=
  Scans.token_bind fun _ => .bind (reads_expectToken (by decide)) fun _ =>
    .bind reads_parseName fun _ => .node (by simp) fun _ => rfl

theorem readsAt_parseStringLiteral (h : s.token.kind = .string ∨ s.token.kind = .blockString) :
    ReadsAt s parseStringLiteral fun node => [.child node.sourceTree] := by
  have hkind : s.token.kind =
      if decide (s.token.kind = .blockString) = true then .blockString else .string := by
    rcases h with h | h <;> rw [h] <;> rfl
  refine .advance (token_is hkind) (by split <;> decide) (.node (by simp) fun _ => ?_)
  simp [StringValueNode.sourceTree]

theorem reads_peekDescription : Scans peekDescription fun _ => [] :=
  (reads_peek _).bind fun _ _ => .bind (reads_peek _) fun _ => .pure rfl

theorem reads_parseDescription : Scans parseDescription descriptionItems := by
  rw [parseDescription_eq]
  refine fun s => ReadsAt.token_bind ?_
  unfold orNone
  split
  · rename_i h
    simp only [Bool.or_eq_true, decide_eq_true_eq] at h
    exact (readsAt_parseStringLiteral h).map fun _ => rfl
  · exact Scans.pure rfl s

theorem readsAt_parseNamedValues (h : s.token.kind = .name) :
    ReadsAt s parseNamedValues fun value => [.child value.sourceTree] := by
  refine .advance (token_is h) (by decide) ?_
  by_cases htrue : s.token.value.getD [] = str "true"
  · simp only [if_pos htrue]
    rw [htrue]
    exact .node (by simp) fun _ => rfl
  by_cases hfalse : s.token.value.getD [] = str "false"
  · simp only [if_neg htrue, if_pos hfalse]
    rw [hfalse]
    exact .node (by simp) fun _ => rfl
  by_cases hnull : s.token.value.getD [] = str "null"
  · simp only [if_neg htrue, if_neg hfalse, if_pos hnull]
    rw [hnull]
    exact .node (by simp) fun _ => rfl
  · simp only [if_neg htrue, if_neg hfalse, if_neg hnull]
    exact .node (by simp) fun _ => rfl

theorem reads_parseVariableValue : ReadsNode (parseVariableValue isConst) ValueNode.sourceTree := by
  refine Scans.ite ?_ (reads_parseVariable.map fun _ => rfl)
  exact .bind (reads_expectToken (by decide)) fun _ _ =>
    .bind reads_token fun _ => .ite (readsFrom_raise _ _) (readsFrom_raise _ _)

theorem reads_parseObjectField {parseValue : Parser ValueNode}
    (h : ReadsNode parseValue ValueNode.sourceTree) :
    ReadsNode (parseObjectField parseValue) ObjectFieldNode.sourceTree :=
  Scans.token_bind fun _ => .bind reads_parseName fun _ =>
    .bind (reads_expectToken (by decide)) fun _ => .bind h fun _ => .node (by simp) fun _ => rfl

theorem reads_parseValueLiteral :
    ∀ bound, ReadsNode (parseValueLiteral bound isConst) ValueNode.sourceTree
  | 0 => reads_exhausted
  | bound + 1 => by
      have hvalue : ReadsNode (parseValueLiteral bound isConst) ValueNode.sourceTree :=
        reads_parseValueLiteral bound
      unfold parseValueLiteral
      refine fun s => ReadsAt.token_bind ?_
      cases hkind : s.token.kind <;> dsimp only
      case bracketL =>
        refine ReadsFrom.start (.bind (reads_any (by decide) (by decide) hvalue _) fun values => ?_)
        exact .node (by simp) fun _ => by simp [ValueNode.sourceTree, valueTrees_eq]
      case braceL =>
        refine ReadsFrom.start (.bind (reads_any (by decide) (by decide)
          (reads_parseObjectField hvalue) _) fun fields => ?_)
        exact .node (by simp) fun _ => by simp [ValueNode.sourceTree, objectFieldTrees_eq]
      case int => exact .advance (token_is hkind) (by decide) (.node (by simp) fun _ => rfl)
      case float => exact .advance (token_is hkind) (by decide) (.node (by simp) fun _ => rfl)
      case string => exact (readsAt_parseStringLiteral (.inl hkind)).map fun _ => rfl
      case blockString => exact (readsAt_parseStringLiteral (.inr hkind)).map fun _ => rfl
      case name => exact readsAt_parseNamedValues hkind
      case dollar => exact reads_parseVariableValue s
      all_goals exact reads_unexpected s.token s

/-! ## Arguments and directives -/

theorem reads_parseArgument : ReadsNode (parseArgument bound isConst) ArgumentNode.sourceTree :=
  Scans.token_bind fun _ => .bind reads_parseName fun _ =>
    .bind (reads_expectToken (by decide)) fun _ => .bind (reads_parseValueLiteral bound) fun _ =>
      .node (by simp) fun _ => rfl

theorem reads_parseArguments : Scans (parseArguments bound isConst) fun arguments =>
    blockItems .parenL .parenR (treesOf ArgumentNode.sourceTree arguments) :=
  reads_optionalMany (by decide) (by decide) reads_parseArgument bound

theorem reads_parseFragmentArgument :
    ReadsNode (parseFragmentArgument bound) FragmentArgumentNode.sourceTree :=
  Scans.token_bind fun _ => .bind reads_parseName fun _ =>
    .bind (reads_expectToken (by decide)) fun _ => .bind (reads_parseValueLiteral bound) fun _ =>
      .node (by simp) fun _ => rfl

theorem reads_parseFragmentArguments : Scans (parseFragmentArguments bound) fun arguments =>
    blockItems .parenL .parenR (treesOf FragmentArgumentNode.sourceTree arguments) :=
  reads_optionalMany (by decide) (by decide) reads_parseFragmentArgument bound

theorem reads_parseDirective : ReadsNode (parseDirective bound isConst) DirectiveNode.sourceTree :=
  Scans.token_bind fun _ => .bind (reads_expectToken (by decide)) fun _ =>
    .bind reads_parseName fun _ => .bind reads_parseArguments fun _ =>
      .node (by simp) fun _ => rfl

theorem reads_directiveItems (steps : ℕ) : Scans (directiveItems bound isConst steps)
    fun directives => nodeItems (directives.map DirectiveNode.sourceTree) := by
  induction steps with
  | zero => exact reads_exhausted
  | succ steps ih =>
      refine .bind (reads_peek .atSign) fun _ found => .ite ?_ (.pure rfl)
      exact .bind reads_parseDirective fun _ => .bind ih fun _ => .pure rfl

theorem reads_parseDirectives : Scans (parseDirectives bound isConst) appliedDirectives :=
  (reads_directiveItems bound).bind fun _ directives => .pure (by cases directives <;> rfl)

/-! ## Operations and fragments -/

theorem reads_parseOperationType :
    Scans parseOperationType fun operation => [wordItem operation.keyword] := by
  refine fun s => readsAt_expectToken (by decide) ?_
  split
  · rename_i hquery
    rw [hquery]
    exact .pure rfl
  split
  · rename_i hmutation
    rw [hmutation]
    exact .pure rfl
  split
  · rename_i hsubscription
    rw [hsubscription]
    exact .pure rfl
  · exact readsFrom_raise _ _

theorem reads_parseDefaultValue : Scans (parseDefaultValue bound) defaultItems := by
  refine (reads_expectOptionalToken (by decide)).bind fun _ found => ?_
  cases found with
  | false => exact .pure rfl
  | true => exact .map (.last (reads_parseValueLiteral bound) fun _ => rfl) fun _ => rfl

theorem reads_parseVariableDefinition :
    ReadsNode (parseVariableDefinition bound) VariableDefinitionNode.sourceTree :=
  Scans.token_bind fun _ => .bind reads_parseDescription fun _ =>
    .bind reads_parseVariable fun _ => .bind (reads_expectToken (by decide)) fun _ =>
      .bind (reads_parseTypeReference bound) fun _ => .bind reads_parseDefaultValue fun _ =>
        .bind reads_parseDirectives fun _ =>
          .node (by simp) fun _ => by simp [VariableDefinitionNode.sourceTree]

theorem reads_parseVariableDefinitions : Scans (parseVariableDefinitions bound) fun definitions =>
    blockItems .parenL .parenR (treesOf VariableDefinitionNode.sourceTree definitions) :=
  reads_optionalMany (by decide) (by decide) reads_parseVariableDefinition bound

theorem reads_parseFragmentName : ReadsNode parseFragmentName NameNode.sourceTree :=
  fun s => ReadsAt.token_bind (Scans.ite (reads_unexpected _) reads_parseName s)

theorem reads_parseTypeCondition : Scans parseTypeCondition typeConditionItems :=
  (reads_expectKeyword _).bind fun _ _ => .last reads_parseNamedType fun _ => rfl

theorem reads_parseAliasAndName : Scans parseAliasAndName fun names =>
    aliasItems names.1 names.2 := by
  refine .bind reads_parseName fun _ nameOrAlias => 
    .bind (reads_expectOptionalToken (by decide)) fun found => ?_
  cases found with
  | false => exact .pure rfl
  | true => exact .bind reads_parseName fun _ => .pure rfl

section Selections

variable {parseSelections : Parser SelectionSetNode}

theorem reads_parseField (h : ReadsNode parseSelections SelectionSetNode.sourceTree) :
    ReadsNode (parseField bound parseSelections) fun node =>
      (SelectionNode.field node).sourceTree := by
  refine Scans.token_bind fun _ => .bind reads_parseAliasAndName fun (fieldAlias, name) =>
    .bind reads_parseArguments fun _ => .bind reads_parseDirectives fun _ =>
      .bind (reads_peek _) fun _ => .bind (reads_maybe h) fun selectionSet => ?_
  refine .node ?_ fun _ => ?_
  · cases fieldAlias <;> simp [aliasItems]
  · cases selectionSet <;> simp [SelectionNode.sourceTree, maybeNode, nodeItems]

theorem reads_parseFragment (h : ReadsNode parseSelections SelectionSetNode.sourceTree) :
    ReadsNode (parseFragment bound parseSelections) SelectionNode.sourceTree := by
  refine Scans.token_bind fun start => .bind (reads_expectToken (by decide)) fun _ =>
    .bind (reads_expectOptionalKeyword _) fun hasTypeCondition =>
      .bind (reads_peek _) fun found => ?_
  cases hasTypeCondition with
  | true =>
      simp only [orNone, Bool.not_true, Bool.false_and, Bool.false_eq_true, if_false, if_true,
        bind_map_left]
      exact .bind reads_parseNamedType fun _ => .bind reads_parseDirectives fun _ =>
        .bind h fun _ => .node (by simp) fun _ => rfl
  | false =>
      have hspread : ∀ (name : NameNode) (arguments : Option (List FragmentArgumentNode)),
          ReadsFrom start (punctItem .spread :: .child name.sourceTree ::
            blockItems .parenL .parenR (treesOf FragmentArgumentNode.sourceTree arguments)) (do
              let directives ← parseDirectives bound false
              let loc ← loc start.token
              return SelectionNode.fragmentSpread
                { name := name, arguments := arguments, directives := directives, loc := loc })
            fun node => [.child node.sourceTree] := fun _ _ =>
        .bind reads_parseDirectives fun _ => .node (by simp) fun _ => rfl
      simp only [orNone, Bool.not_false, Bool.true_and, Bool.false_eq_true, if_false, pure_bind]
      refine .ite (.bind reads_parseFragmentName fun name => .get fun t =>
        .bind (reads_peek _) fun _ => .ite ?_ ?_) ?_
      · exact .bind reads_parseFragmentArguments fun arguments => hspread name arguments
      · exact hspread name none
      · exact .bind reads_parseDirectives fun _ => .bind h fun _ =>
          .node (by simp) fun _ => rfl

theorem reads_parseSelection (h : ReadsNode parseSelections SelectionSetNode.sourceTree) :
    ReadsNode (parseSelection bound parseSelections) SelectionNode.sourceTree :=
  (reads_peek _).bind fun _ _ =>
    .ite (.last (reads_parseFragment h) fun _ => rfl)
      (.last ((reads_parseField h).map fun _ => rfl) fun _ => rfl)

end Selections

theorem reads_parseSelectionSet :
    ∀ bound, ReadsNode (parseSelectionSet bound) SelectionSetNode.sourceTree
  | 0 => reads_exhausted
  | bound + 1 => by
      have hselection : ReadsNode (parseSelection (bound + 1) (parseSelectionSet bound))
          SelectionNode.sourceTree := reads_parseSelection (reads_parseSelectionSet bound)
      refine Scans.token_bind fun _ => .bind (reads_many (by decide) (by decide) hselection _)
        fun selections => .node (by simp) fun _ => ?_
      rw [SelectionSetNode.sourceTree, selectionTrees_eq]
      rfl

/-- The keyword of an operation is there where more than the selections are. -/
theorem spellItems_keywordItem {noLocation : Bool} {before items : List SourceItem}
    {tokens : List Token} (node : OperationDefinitionNode)
    (h : SpellItems noLocation (before ++ (wordItem node.operation.keyword :: items)) tokens) :
    SpellItems noLocation (before ++ (node.keywordItem :: items)) tokens := by
  unfold OperationDefinitionNode.keywordItem
  split
  · rename_i hoperation _ _ _ _
    rw [hoperation] at h
    exact h.relax
  · exact h

theorem reads_parseOperationDefinition :
    ReadsNode (parseOperationDefinition bound) OperationDefinitionNode.sourceTree := by
  refine Scans.token_bind fun _ => .bind (reads_peek _) fun _ => .ite ?_ ?_
  · refine .bind (reads_parseSelectionSet bound) fun selectionSet => ?_
    exact .node_relax (by simp) (fun _ => .absent) fun _ => rfl
  · refine .bind reads_parseDescription fun description =>
      .bind reads_parseOperationType fun operation => .bind (reads_peek _) fun _ =>
        .bind (reads_maybe reads_parseName) fun name =>
          .bind reads_parseVariableDefinitions fun variableDefinitions =>
            .bind reads_parseDirectives fun directives =>
              .bind (reads_parseSelectionSet bound) fun selectionSet => ?_
    let node : OperationDefinitionNode := ⟨operation, description, name, variableDefinitions,
      directives, selectionSet, none⟩
    exact .node_relax (by simp) (fun _ h => spellItems_keywordItem node (by simpa using h))
      fun _ => rfl

theorem reads_parseFragmentDefinition :
    ReadsNode (parseFragmentDefinition bound) FragmentDefinitionNode.sourceTree := by
  refine Scans.token_bind fun start => .bind reads_parseDescription fun description =>
    .bind (reads_expectKeyword _) fun _ => .get fun t =>
      .bind reads_parseFragmentName fun name => ?_
  have hrest : ∀ definitions, ReadsFrom start (descriptionItems description ++
      (wordItem (str "fragment") :: .child name.sourceTree :: blockItems .parenL .parenR
        (treesOf VariableDefinitionNode.sourceTree definitions))) (do
      let typeCondition ← parseTypeCondition
      let directives ← parseDirectives bound false
      let selectionSet ← parseSelectionSet bound
      return ({ description := description, name := name, variableDefinitions := definitions
                typeCondition := typeCondition, directives := directives
                selectionSet := selectionSet, loc := ← loc start.token } :
        FragmentDefinitionNode)) fun node => [.child node.sourceTree] := fun _ =>
    .bind reads_parseTypeCondition fun _ => .bind reads_parseDirectives fun _ =>
      .bind (reads_parseSelectionSet bound) fun _ =>
        .node (by simp) fun _ => by simp [FragmentDefinitionNode.sourceTree]
  refine .ite ?_ ?_
  · exact .bind reads_parseVariableDefinitions fun definitions => by
      simpa using hrest definitions
  · simpa using hrest (some [])

/-! ## Type system definitions -/

theorem reads_parseOperationTypeDefinition :
    ReadsNode parseOperationTypeDefinition OperationTypeDefinitionNode.sourceTree :=
  Scans.token_bind fun _ => .bind reads_parseOperationType fun _ =>
    .bind (reads_expectToken (by decide)) fun _ => .bind reads_parseNamedType fun _ =>
      .node (by simp) fun _ => rfl

theorem reads_parseSchemaDefinition :
    ReadsNode (parseSchemaDefinition bound) SchemaDefinitionNode.sourceTree :=
  Scans.token_bind fun _ => .bind reads_parseDescription fun _ =>
    .bind (reads_expectKeyword _) fun _ => .bind reads_parseDirectives fun _ =>
      .bind (reads_many (by decide) (by decide) reads_parseOperationTypeDefinition bound) fun _ =>
        .node (by simp) fun _ => by simp [SchemaDefinitionNode.sourceTree]

theorem reads_parseScalarTypeDefinition :
    ReadsNode (parseScalarTypeDefinition bound) ScalarTypeDefinitionNode.sourceTree :=
  Scans.token_bind fun _ => .bind reads_parseDescription fun _ =>
    .bind (reads_expectKeyword _) fun _ => .bind reads_parseName fun _ =>
      .bind reads_parseDirectives fun _ =>
        .node (by simp) fun _ => by simp [ScalarTypeDefinitionNode.sourceTree, namedItems]

theorem reads_parseInputValueDef :
    ReadsNode (parseInputValueDef bound) InputValueDefinitionNode.sourceTree :=
  Scans.token_bind fun _ => .bind reads_parseDescription fun _ => .bind reads_parseName fun _ =>
    .bind (reads_expectToken (by decide)) fun _ => .bind (reads_parseTypeReference bound) fun _ =>
      .bind reads_parseDefaultValue fun _ => .bind reads_parseDirectives fun _ =>
        .node (by simp) fun _ => by simp [InputValueDefinitionNode.sourceTree]

theorem reads_parseArgumentDefs : Scans (parseArgumentDefs bound) argumentDefItems :=
  reads_optionalMany (by decide) (by decide) reads_parseInputValueDef bound

theorem reads_parseFieldDefinition :
    ReadsNode (parseFieldDefinition bound) FieldDefinitionNode.sourceTree :=
  Scans.token_bind fun _ => .bind reads_parseDescription fun _ => .bind reads_parseName fun _ =>
    .bind reads_parseArgumentDefs fun _ => .bind (reads_expectToken (by decide)) fun _ =>
      .bind (reads_parseTypeReference bound) fun _ => .bind reads_parseDirectives fun _ =>
        .node (by simp) fun _ => by simp [FieldDefinitionNode.sourceTree]

theorem reads_parseFieldsDefinition : Scans (parseFieldsDefinition bound) fieldDefItems :=
  reads_optionalMany (by decide) (by decide) reads_parseFieldDefinition bound

theorem reads_parseImplementsInterfaces :
    Scans (parseImplementsInterfaces bound) interfaceItems := by
  refine (reads_expectOptionalKeyword _).bind fun s found => ?_
  have hclause : ReadsFrom s [wordItem (str "implements")] (delimitedMany bound .amp parseNamedType)
      fun interfaces => interfaceItems (some interfaces) :=
    reads_delimitedMany (by decide) reads_parseNamedType bound fun _ _ => rfl
  cases found with
  | false => exact .pure rfl
  | true => exact .map hclause fun _ => rfl

theorem reads_parseObjectTypeDefinition : ReadsNode (parseObjectTypeDefinition bound)
    fun node => node.treeFor (str "type") :=
  Scans.token_bind fun _ => .bind reads_parseDescription fun _ =>
    .bind (reads_expectKeyword _) fun _ => .bind reads_parseName fun _ =>
      .bind reads_parseImplementsInterfaces fun _ => .bind reads_parseDirectives fun _ =>
        .bind reads_parseFieldsDefinition fun _ =>
          .node (by simp) fun _ => by simp [ObjectTypeDefinitionNode.treeFor, namedItems]

theorem reads_parseInterfaceTypeDefinition : ReadsNode (parseInterfaceTypeDefinition bound)
    fun node => node.treeFor (str "interface") :=
  Scans.token_bind fun _ => .bind reads_parseDescription fun _ =>
    .bind (reads_expectKeyword _) fun _ => .bind reads_parseName fun _ =>
      .bind reads_parseImplementsInterfaces fun _ => .bind reads_parseDirectives fun _ =>
        .bind reads_parseFieldsDefinition fun _ =>
          .node (by simp) fun _ => by simp [ObjectTypeDefinitionNode.treeFor, namedItems]

theorem reads_parseUnionMemberTypes : Scans (parseUnionMemberTypes bound) memberTypeItems := by
  refine (reads_expectOptionalToken (by decide)).bind fun s found => ?_
  have hclause : ReadsFrom s [punctItem .equals] (delimitedMany bound .pipe parseNamedType)
      fun types => memberTypeItems (some types) :=
    reads_delimitedMany (by decide) reads_parseNamedType bound fun _ _ => rfl
  cases found with
  | false => exact .pure rfl
  | true => exact .map hclause fun _ => rfl

theorem reads_parseUnionTypeDefinition :
    ReadsNode (parseUnionTypeDefinition bound) UnionTypeDefinitionNode.sourceTree :=
  Scans.token_bind fun _ => .bind reads_parseDescription fun _ =>
    .bind (reads_expectKeyword _) fun _ => .bind reads_parseName fun _ =>
      .bind reads_parseDirectives fun _ => .bind reads_parseUnionMemberTypes fun _ =>
        .node (by simp) fun _ => by simp [UnionTypeDefinitionNode.sourceTree, namedItems]

theorem reads_parseEnumValueDefinition :
    ReadsNode (parseEnumValueDefinition bound) EnumValueDefinitionNode.sourceTree := by
  have hname : ReadsNode parseEnumValueName NameNode.sourceTree :=
    fun s => ReadsAt.token_bind (Scans.ite (reads_raise _ _) reads_parseName s)
  exact Scans.token_bind fun _ => .bind reads_parseDescription fun _ => .bind hname fun _ =>
    .bind reads_parseDirectives fun _ =>
      .node (by simp) fun _ => by simp [EnumValueDefinitionNode.sourceTree]

theorem reads_parseEnumValuesDefinition :
    Scans (parseEnumValuesDefinition bound) enumValueItems :=
  reads_optionalMany (by decide) (by decide) reads_parseEnumValueDefinition bound

theorem reads_parseEnumTypeDefinition :
    ReadsNode (parseEnumTypeDefinition bound) EnumTypeDefinitionNode.sourceTree :=
  Scans.token_bind fun _ => .bind reads_parseDescription fun _ =>
    .bind (reads_expectKeyword _) fun _ => .bind reads_parseName fun _ =>
      .bind reads_parseDirectives fun _ => .bind reads_parseEnumValuesDefinition fun _ =>
        .node (by simp) fun _ => by simp [EnumTypeDefinitionNode.sourceTree, namedItems]

theorem reads_parseInputFieldsDefinition :
    Scans (parseInputFieldsDefinition bound) inputFieldItems :=
  reads_optionalMany (by decide) (by decide) reads_parseInputValueDef bound

theorem reads_parseInputObjectTypeDefinition :
    ReadsNode (parseInputObjectTypeDefinition bound) InputObjectTypeDefinitionNode.sourceTree :=
  Scans.token_bind fun _ => .bind reads_parseDescription fun _ =>
    .bind (reads_expectKeyword _) fun _ => .bind reads_parseName fun _ =>
      .bind reads_parseDirectives fun _ => .bind reads_parseInputFieldsDefinition fun _ =>
        .node (by simp) fun _ => by simp [InputObjectTypeDefinitionNode.sourceTree, namedItems]

theorem reads_parseDirectiveLocation : ReadsNode parseDirectiveLocation NameNode.sourceTree :=
  Scans.token_bind fun _ => .bind reads_parseName fun _ => .ite (.pure rfl) (readsFrom_raise _ _)

theorem reads_parseDirectiveLocations : Scans (parseDirectiveLocations bound) fun locations =>
    delimitedNodes .pipe (locations.map NameNode.sourceTree) := fun _ =>
  ReadsFrom.start
    (reads_delimitedMany (by decide) reads_parseDirectiveLocation bound fun _ _ => rfl)

theorem reads_parseDirectiveDefinition :
    ReadsNode (parseDirectiveDefinition bound) DirectiveDefinitionNode.sourceTree := by
  refine Scans.token_bind fun start => .bind reads_parseDescription fun description =>
    .bind (reads_expectKeyword _) fun _ => .bind (reads_expectToken (by decide)) fun _ =>
      .bind reads_parseName fun name => .bind reads_parseArgumentDefs fun args => .get fun t => ?_
  have hrest : ∀ directives : Option (List DirectiveNode), ReadsFrom start
      (descriptionItems description ++ (wordItem (str "directive") :: punctItem .atSign ::
        .child name.sourceTree :: (argumentDefItems args ++ appliedDirectives directives))) (do
      let repeatable ← expectOptionalKeyword (str "repeatable")
      expectKeyword (str "on")
      let locations ← parseDirectiveLocations bound
      return ({ description := description, name := name, arguments := args
                directives := directives, repeatable := repeatable
                locations := locations, loc := ← loc start.token } :
        DirectiveDefinitionNode)) fun node => [.child node.sourceTree] := by
    intro directives
    exact .bind (reads_expectOptionalKeyword _) fun _ => .bind (reads_expectKeyword _) fun _ =>
      .bind reads_parseDirectiveLocations fun _ =>
        .node (by simp) fun _ => by simp [DirectiveDefinitionNode.sourceTree, itemIf]
  refine .ite ?_ ?_
  · exact .bind reads_parseDirectives fun directives => by simpa using hrest directives
  · simpa using hrest none

/-! ## Type system extensions -/

theorem reads_expectExtension (extended : Bool) :
    Scans (expectExtension extended) fun _ => [] :=
  .ite (.pure rfl) (reads_token.bind fun _ _ => readsFrom_raise _ _)

theorem reads_parseSchemaExtension :
    ReadsNode (parseSchemaExtension bound) SchemaExtensionNode.sourceTree :=
  Scans.token_bind fun _ => .bind (reads_expectKeyword _) fun _ =>
    .bind (reads_expectKeyword _) fun _ => .bind reads_parseDirectives fun _ =>
      .bind (reads_optionalMany (by decide) (by decide) reads_parseOperationTypeDefinition bound)
        fun _ => .bind (reads_expectExtension _) fun _ =>
          .node (by simp) fun _ => by simp [SchemaExtensionNode.sourceTree]

theorem reads_parseScalarTypeExtension :
    ReadsNode (parseScalarTypeExtension bound) ScalarTypeExtensionNode.sourceTree :=
  Scans.token_bind fun _ => .bind (reads_expectKeyword _) fun _ =>
    .bind (reads_expectKeyword _) fun _ => .bind reads_parseName fun _ =>
      .bind reads_parseDirectives fun _ => .bind (reads_expectExtension _) fun _ =>
        .node (by simp) fun _ => by simp [ScalarTypeExtensionNode.sourceTree, namedItems]

theorem reads_parseObjectTypeExtension : ReadsNode (parseObjectTypeExtension bound)
    fun node => node.treeFor (str "type") :=
  Scans.token_bind fun _ => .bind (reads_expectKeyword _) fun _ =>
    .bind (reads_expectKeyword _) fun _ => .bind reads_parseName fun _ =>
      .bind reads_parseImplementsInterfaces fun _ => .bind reads_parseDirectives fun _ =>
        .bind reads_parseFieldsDefinition fun _ => .bind (reads_expectExtension _) fun _ =>
          .node (by simp) fun _ => by simp [ObjectTypeExtensionNode.treeFor, namedItems]

theorem reads_parseInterfaceTypeExtension : ReadsNode (parseInterfaceTypeExtension bound)
    fun node => node.treeFor (str "interface") :=
  Scans.token_bind fun _ => .bind (reads_expectKeyword _) fun _ =>
    .bind (reads_expectKeyword _) fun _ => .bind reads_parseName fun _ =>
      .bind reads_parseImplementsInterfaces fun _ => .bind reads_parseDirectives fun _ =>
        .bind reads_parseFieldsDefinition fun _ => .bind (reads_expectExtension _) fun _ =>
          .node (by simp) fun _ => by simp [ObjectTypeExtensionNode.treeFor, namedItems]

theorem reads_parseUnionTypeExtension :
    ReadsNode (parseUnionTypeExtension bound) UnionTypeExtensionNode.sourceTree :=
  Scans.token_bind fun _ => .bind (reads_expectKeyword _) fun _ =>
    .bind (reads_expectKeyword _) fun _ => .bind reads_parseName fun _ =>
      .bind reads_parseDirectives fun _ => .bind reads_parseUnionMemberTypes fun _ =>
        .bind (reads_expectExtension _) fun _ =>
          .node (by simp) fun _ => by simp [UnionTypeExtensionNode.sourceTree, namedItems]

theorem reads_parseEnumTypeExtension :
    ReadsNode (parseEnumTypeExtension bound) EnumTypeExtensionNode.sourceTree :=
  Scans.token_bind fun _ => .bind (reads_expectKeyword _) fun _ =>
    .bind (reads_expectKeyword _) fun _ => .bind reads_parseName fun _ =>
      .bind reads_parseDirectives fun _ => .bind reads_parseEnumValuesDefinition fun _ =>
        .bind (reads_expectExtension _) fun _ =>
          .node (by simp) fun _ => by simp [EnumTypeExtensionNode.sourceTree, namedItems]

theorem reads_parseInputObjectTypeExtension :
    ReadsNode (parseInputObjectTypeExtension bound) InputObjectTypeExtensionNode.sourceTree :=
  Scans.token_bind fun _ => .bind (reads_expectKeyword _) fun _ =>
    .bind (reads_expectKeyword _) fun _ => .bind reads_parseName fun _ =>
      .bind reads_parseDirectives fun _ => .bind reads_parseInputFieldsDefinition fun _ =>
        .bind (reads_expectExtension _) fun _ =>
          .node (by simp) fun _ => by simp [InputObjectTypeExtensionNode.sourceTree, namedItems]

theorem reads_parseDirectiveDefinitionExtension :
    ReadsNode (parseDirectiveDefinitionExtension bound) DirectiveExtensionNode.sourceTree :=
  Scans.token_bind fun _ => .bind (reads_expectKeyword _) fun _ =>
    .bind (reads_expectKeyword _) fun _ => .bind (reads_expectToken (by decide)) fun _ =>
      .bind reads_parseName fun _ => .bind reads_parseDirectives fun _ =>
        .bind (reads_expectExtension _) fun _ =>
          .node (by simp) fun _ => by simp [DirectiveExtensionNode.sourceTree]

/-! ## Definitions -/

/-- A method that is looked up is one of the methods. -/
theorem reads_lookup {methods : List (Text × Parser DefinitionNode)} {name : Text}
    {method : Parser DefinitionNode}
    (h : ∀ entry ∈ methods, ReadsNode entry.2 DefinitionNode.sourceTree)
    (hlookup : methods.lookup name = some method) :
    ReadsNode method DefinitionNode.sourceTree := by
  obtain ⟨before, after, heq, _⟩ := List.lookup_eq_some_iff.mp hlookup
  exact h (name, method) (by rw [heq]; simp)

theorem reads_typeExtensionMethods :
    ∀ entry ∈ typeExtensionMethods bound, ReadsNode entry.2 DefinitionNode.sourceTree := by
  simp only [typeExtensionMethods, List.forall_mem_cons, List.not_mem_nil, false_implies,
    implies_true, and_true]
  exact ⟨reads_parseSchemaExtension.map fun _ => rfl,
    reads_parseScalarTypeExtension.map fun _ => rfl,
    reads_parseObjectTypeExtension.map fun _ => rfl,
    reads_parseInterfaceTypeExtension.map fun _ => rfl,
    reads_parseUnionTypeExtension.map fun _ => rfl,
    reads_parseEnumTypeExtension.map fun _ => rfl,
    reads_parseInputObjectTypeExtension.map fun _ => rfl⟩

theorem reads_typeSystemDefinitionMethods :
    ∀ entry ∈ typeSystemDefinitionMethods bound, ReadsNode entry.2 DefinitionNode.sourceTree := by
  simp only [typeSystemDefinitionMethods, List.forall_mem_cons, List.not_mem_nil,
    false_implies, implies_true, and_true]
  exact ⟨reads_parseSchemaDefinition.map fun _ => rfl,
    reads_parseScalarTypeDefinition.map fun _ => rfl,
    reads_parseObjectTypeDefinition.map fun _ => rfl,
    reads_parseInterfaceTypeDefinition.map fun _ => rfl,
    reads_parseUnionTypeDefinition.map fun _ => rfl,
    reads_parseEnumTypeDefinition.map fun _ => rfl,
    reads_parseInputObjectTypeDefinition.map fun _ => rfl,
    reads_parseDirectiveDefinition.map fun _ => rfl⟩

theorem reads_executableDefinitionMethods :
    ∀ entry ∈ executableDefinitionMethods bound, ReadsNode entry.2 DefinitionNode.sourceTree := by
  simp only [executableDefinitionMethods, List.forall_mem_cons, List.not_mem_nil,
    false_implies, implies_true, and_true]
  have hoperation : ReadsNode (DefinitionNode.operation <$> parseOperationDefinition bound)
      DefinitionNode.sourceTree := reads_parseOperationDefinition.map fun _ => rfl
  exact ⟨hoperation, hoperation, hoperation, reads_parseFragmentDefinition.map fun _ => rfl⟩

theorem reads_parseTypeSystemExtension :
    ReadsNode (parseTypeSystemExtension bound) DefinitionNode.sourceTree := by
  refine reads_lookahead.bind fun _ keywordToken => .ite ?_ (readsFrom_raise _ _)
  split
  · rename_i method hmethod
    exact .last (reads_lookup reads_typeExtensionMethods hmethod) fun _ => rfl
  · exact .get fun t => .ite
      (.last (reads_parseDirectiveDefinitionExtension.map fun _ => rfl) fun _ => rfl)
      (readsFrom_raise _ _)

theorem reads_parseDefinition : ReadsNode (parseDefinition bound) DefinitionNode.sourceTree := by
  refine (reads_peek _).bind fun start _ =>
    .ite (.last (reads_parseOperationDefinition.map fun _ => rfl) fun _ => rfl) ?_
  refine .bind reads_peekDescription fun hasDescription => ?_
  refine .ite (.bind reads_lookahead fun keywordToken => ?_)
    (.bind reads_token fun keywordToken => ?_)
  all_goals
    refine .ite (.bind reads_token fun _ => readsFrom_raise _ _)
      (.ite ?_ (readsFrom_raise _ _))
    dsimp only
    split
    · rename_i method _ hmethod
      exact .last (reads_lookup reads_typeSystemDefinitionMethods hmethod) fun _ => rfl
    · rename_i method _ hmethod
      exact .last (reads_lookup reads_executableDefinitionMethods hmethod) fun _ => rfl
    · exact .ite (.bind reads_token fun _ => readsFrom_raise _ _)
        (.ite (.last reads_parseTypeSystemExtension fun _ => rfl) (readsFrom_raise _ _))

/-! ## Documents -/

/-- The definitions are read between the start and the end of the file. -/
theorem parseDocument_eq_ok {document : DocumentNode} {t : ParserState} (hs : s.Proper)
    (hrun : parseDocument bound s = .ok (document, t)) :
    ∃ middle last, s.tokens = middle ++ [last] ∧ s.failure = none ∧
      s.token.kind = .sof ∧ last.kind = .eof ∧ document.definitions ≠ [] ∧
      SpellItems s.options.noLocation
        (nodeItems (document.definitions.map DefinitionNode.sourceTree)) middle ∧
      document.loc = spanOf s.options.noLocation s.token last := by
  obtain ⟨start, s₁, hstart, hrun⟩ := run_bind_eq_ok.mp hrun
  cases hstart
  obtain ⟨definitions, s₂, hmany, hrun⟩ := run_bind_eq_ok.mp hrun
  obtain ⟨token, s₃, hsof, hmany⟩ := run_bind_eq_ok.mp hmany
  obtain ⟨first, s₄, hfirst, hmany⟩ := run_bind_eq_ok.mp hmany
  obtain ⟨others, s₅, hothers, hmany⟩ := run_bind_eq_ok.mp hmany
  cases hmany
  obtain ⟨location, s₆, hloc, hrun⟩ := run_bind_eq_ok.mp hrun
  cases hloc.symm.trans (loc_eq s.token)
  cases hrun
  obtain ⟨front, hfront, hitem⟩ := reads_expectToken (by decide) s hs token s₃ hsof
  obtain ⟨tokens, htokens, hspells⟩ := reads_parseDefinition s₃ hfront.proper first s₄ hfirst
  obtain ⟨rest, u, hrest, hitems, hkind, hadvance⟩ :=
    itemsUntil_eq_ok reads_parseDefinition htokens.proper hothers
  rw [htokens.options] at hitems
  rw [hfront.options] at hspells hitems
  have hpassed := (hfront.trans htokens).trans hrest
  obtain ⟨hnil, hfailure⟩ := hrest.proper.tokens_eq_nil hkind
  obtain ⟨next, -, hlast⟩ := advanceLexer_eq_ok hadvance
  cases hitem with
  | token htoken hnone =>
      cases hnone
      have hfirst := (List.cons.inj hfront.passed).1
      have htail := hpassed.passed
      rw [hnil, ← hfirst] at htail
      refine ⟨tokens ++ rest, u.token, ?_, ?_, hfirst ▸ htoken.1, hkind, List.cons_ne_nil _ _,
        hspells.append hitems, ?_⟩
      · simpa using htail
      · rw [← hpassed.failure, hfailure]
      · rw [hlast]
        change spanOf u.options.noLocation _ _ = _
        rw [hpassed.options]
        rfl

end Parser

/-- The tokens between the start and the end of the file are in order. -/
theorem inOrder_of_lex {source : Text} {middle : List Token} {last : Token}
    (h : (lex source).1 = middle ++ [last]) :
    InOrder middle ∧ (∀ token ∈ middle, token.stop ≤ last.start) ∧ last.start ≤ last.stop := by
  have hproper := initial_proper {} source
  obtain ⟨hordered, hwide⟩ := lex_ordered source
  unfold ParserState.Proper ParserState.initial at hproper
  rw [h] at hordered hwide hproper
  have hne := ne_eof_of_endsProperly hproper
  obtain ⟨hmiddle, -, hlast⟩ := List.pairwise_append.mp hordered
  refine ⟨⟨fun token hmem => ?_, hmiddle.imp And.right⟩, fun token hmem => ?_, ?_⟩
  · exact (hwide token (List.mem_append_left _ hmem)).2 (hne token (List.mem_cons_of_mem _ hmem))
  · exact (hlast token hmem last (List.mem_singleton_self _)).2
  · exact (hwide last (List.mem_append_right _ (List.mem_singleton_self _))).1

theorem childTrees_nodeItems (trees : List SourceTree) : childTrees (nodeItems trees) = trees := by
  induction trees with
  | nil => rfl
  | cons tree trees ih => exact congrArg (tree :: ·) ih

/-- The definitions are inside the document, which starts and ends with empty tokens. -/
theorem nested_document {document : DocumentNode} {middle : List Token} {last : Token}
    (hne : document.definitions ≠ [])
    (hitems : SpellItems false
      (nodeItems (document.definitions.map DefinitionNode.sourceTree)) middle)
    (horder : InOrder middle) (hlast : ∀ token ∈ middle, token.stop ≤ last.start)
    (hle : last.start ≤ last.stop) (hloc : document.loc = spanOf false sofToken last) :
    Nested document.sourceTree := by
  obtain ⟨hnested, hat, hordered⟩ := hitems.nested horder
  rw [childTrees_nodeItems] at hnested hat hordered
  have hchildren : childTrees (punctItem .sof ::
      (nodeItems (document.definitions.map DefinitionNode.sourceTree) ++ [punctItem .eof])) =
      document.definitions.map DefinitionNode.sourceTree := by
    rw [childTrees, List.filterMap_cons_none rfl, List.filterMap_append]
    exact (List.append_nil _).trans (childTrees_nodeItems _)
  have hinside : ∀ child ∈ document.definitions.map DefinitionNode.sourceTree,
      ∃ loc, child.loc = some loc ∧ loc.start < loc.stop ∧ loc.IsInside 0 last.stop := by
    intro child hmem
    obtain ⟨first, -, final, hfinal, hchild⟩ := hat child hmem
    have hstop := hlast final hfinal
    refine ⟨_, hchild, ?_, Nat.zero_le _, by dsimp only; omega⟩
    cases hnested child hmem with
    | node hlt =>
        cases hchild
        exact hlt
  rw [DocumentNode.sourceTree, hloc]
  refine .node ?_ ?_ ?_ ?_
  · obtain ⟨definition, definitions, hdefinitions⟩ := List.exists_cons_of_ne_nil hne
    obtain ⟨loc, -, hlt, -, hstop⟩ := hinside definition.sourceTree
      (List.mem_map_of_mem (hdefinitions ▸ List.mem_cons_self))
    change 0 < last.stop
    omega
  · rw [hchildren]
    intro child hmem
    obtain ⟨loc, hchild, -, hinside⟩ := hinside child hmem
    exact ⟨loc, hchild, hinside⟩
  · rwa [hchildren]
  · rwa [hchildren]

/-- Every node of a document that is parsed spans its tokens: its location, if there are
locations, goes from the start of the first to the end of the last of them.  So the locations
are not empty, those of the children are inside, and they are disjoint and in source order. -/
theorem parse_nested (options : ParseOptions) (source : Text) (document : DocumentNode)
    (hparse : parse options source = .ok document) :
    ∃ tokens, lex source = (tokens, none) ∧
      Spells options.noLocation document.sourceTree (sofToken :: tokens) ∧
      (options.noLocation = false → Nested document.sourceTree) := by
  obtain ⟨t, hrun⟩ := runParser_eq_ok.mp hparse
  obtain ⟨middle, last, htokens, hfailure, hsof, heof, hdefinitions, hitems, hloc⟩ :=
    Parser.parseDocument_eq_ok (initial_proper options source) hrun
  refine ⟨middle ++ [last], Prod.ext htokens hfailure, ?_, fun hlocation => ?_⟩
  · refine .node (.token ⟨rfl, nofun⟩ (hitems.append (spellItems_token ⟨heof, nofun⟩))) rfl ?_ hloc
    rw [← List.cons_append, List.getLast?_concat]
  · obtain ⟨horder, hlast, hle⟩ := inOrder_of_lex htokens
    change SpellItems options.noLocation _ _ at hitems
    change document.loc = spanOf options.noLocation sofToken last at hloc
    rw [hlocation] at hitems hloc
    exact nested_document hdefinitions hitems horder hlast hle hloc

/-- An operation with a variable and its default, arguments, an alias and a fragment. -/
def nestedSource : Text := str ("query Q($a: [Int!] = 1 @b) \x7b # c\n" ++
  "d: e(f: \x7bg: [$a, \"h\"]\x7d) ... on I \x7b j \x7d ... k \x7d")

/-- The document of the source is nested. -/
theorem parse_nested_query : ∃ document, parse {} nestedSource = .ok document ∧
    ∃ tokens, lex nestedSource = (tokens, none) ∧
      Spells false document.sourceTree (sofToken :: tokens) ∧ Nested document.sourceTree := by
  have hok : (parse {} nestedSource).isOk = true := by decide +kernel
  cases h : parse {} nestedSource with
  | error failure =>
      rw [h] at hok
      cases hok
  | ok document =>
      obtain ⟨tokens, hlex, hspells, hnested⟩ := parse_nested {} nestedSource document h
      exact ⟨document, rfl, tokens, hlex, hspells, hnested rfl⟩

end GraphqlCore.Language
