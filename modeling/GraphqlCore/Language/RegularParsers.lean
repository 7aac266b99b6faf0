import GraphqlCore.Language.ParserRuns

/-!
# All parsers are regular

One lemma for each parsing method.  A parser that reads a definition, a selection
or an item of a list consumes a token; the others may consume none.
-/

namespace GraphqlCore.Language.Parser

open ParserState

variable {bound : ℕ} {isConst : Bool}

/-! ## Names, types and values -/

theorem regular_parseName : Regular bound 1 parseName :=
  (regular_expectToken (by decide)).bind_one fun token =>
    (regular_loc token).bind fun _ => Regular.pure

theorem regular_parseNamedType : Regular bound 1 parseNamedType :=
  regular_token.bind fun start => regular_parseName.bind_one fun _ =>
    (regular_loc start).bind fun _ => Regular.pure

theorem regular_parseTypeReference :
    ∀ {bound : ℕ}, Regular bound 1 (parseTypeReference bound)
  | 0 => Regular.bound_zero
  | bound + 1 => by
      refine regular_token.bind fun start => ?_
      have hrest : ∀ type : TypeNode, Regular (bound + 1) 0 (do
          if ← expectOptionalToken .bang then TypeNode.nonNull type <$> loc start
          else return type) := fun _ =>
        (regular_expectOptionalToken .bang).bind fun _ =>
          Regular.ite (regular_loc start).map Regular.pure
      refine regular_optional (by decide) ?_ ?_ le_rfl
      · have hlist : Regular bound 0 (do
            let innerType ← parseTypeReference bound
            let _ ← expectToken .bracketR
            TypeNode.list innerType <$> loc start) :=
          regular_parseTypeReference.zero.bind fun _ =>
            (regular_expectToken (by decide)).zero.bind fun _ => (regular_loc start).map
        exact hlist.bind fun type => (hrest type).of_le (by omega)
      · exact regular_parseNamedType.map.bind_one hrest

theorem regular_parseVariable : Regular bound 1 parseVariable :=
  regular_token.bind fun start => (regular_expectToken (by decide)).bind_one fun _ =>
    regular_parseName.zero.bind fun _ => (regular_loc start).bind fun _ => Regular.pure

/-- A parser that advances behind the current token and returns. -/
theorem regularAt_advance {α : Type} {s : ParserState} {f : Unit → Parser α}
    (h : s.token.kind ≠ .eof) (hf : Regular bound 0 (f ())) :
    RegularAt bound 1 (advanceLexer >>= f) s :=
  (regularAt_advanceLexer_one h).bind_one fun _ => hf

theorem regularAt_parseStringLiteral {s : ParserState} (h : s.token.kind ≠ .eof) :
    RegularAt bound 1 parseStringLiteral s :=
  regularAt_advance h ((regular_loc s.token).bind fun _ => Regular.pure)

theorem regularAt_parseInt {s : ParserState} (h : s.token.kind ≠ .eof) :
    RegularAt bound 1 parseInt s := regularAt_advance h (regular_loc s.token).map

theorem regularAt_parseFloat {s : ParserState} (h : s.token.kind ≠ .eof) :
    RegularAt bound 1 parseFloat s := regularAt_advance h (regular_loc s.token).map

theorem regularAt_parseNamedValues {s : ParserState} (h : s.token.kind ≠ .eof) :
    RegularAt bound 1 parseNamedValues s := by
  refine regularAt_advance h ((regular_loc s.token).bind fun _ => ?_)
  exact Regular.ite Regular.pure
    (Regular.ite Regular.pure (Regular.ite Regular.pure Regular.pure))

theorem regular_parseVariableValue : Regular bound 1 (parseVariableValue isConst) := by
  refine Regular.ite ?_ regular_parseVariable.map
  refine (regular_expectToken (by decide)).bind_one fun variableToken =>
    regular_token.bind fun _ => ?_
  exact Regular.ite (regular_raise _ _) (regular_unexpected _)

theorem regular_parseObjectField {parseValue : Parser ValueNode}
    (h : Regular bound 1 parseValue) : Regular bound 1 (parseObjectField parseValue) :=
  regular_token.bind fun start => regular_parseName.bind_one fun _ =>
    (regular_expectToken (by decide)).zero.bind fun _ =>
      h.zero.bind fun _ => (regular_loc start).map

theorem regular_parseValueLiteral :
    ∀ {bound : ℕ}, Regular bound 1 (parseValueLiteral bound isConst)
  | 0 => Regular.bound_zero
  | bound + 1 => by
      unfold parseValueLiteral
      refine Regular.token_bind fun s => ?_
      have hvalue : Regular bound 1 (parseValueLiteral bound isConst) :=
        regular_parseValueLiteral
      cases hkind : s.token.kind <;> dsimp only
      case bracketL =>
        exact ((regular_any (by decide) hvalue (by omega)).bind_one fun _ =>
          (regular_loc s.token).map) s
      case braceL =>
        exact ((regular_any (by decide) (regular_parseObjectField hvalue)
          (by omega)).bind_one fun _ => (regular_loc s.token).map) s
      case int => exact regularAt_parseInt (by rw [hkind]; decide)
      case float => exact regularAt_parseFloat (by rw [hkind]; decide)
      case string =>
        exact (regularAt_parseStringLiteral (by rw [hkind]; decide)).bind_one fun _ =>
          Regular.pure
      case blockString =>
        exact (regularAt_parseStringLiteral (by rw [hkind]; decide)).bind_one fun _ =>
          Regular.pure
      case name => exact regularAt_parseNamedValues (by rw [hkind]; decide)
      case dollar => exact regular_parseVariableValue s
      all_goals exact regular_unexpected s.token s

theorem regular_peekDescription : Regular bound 0 peekDescription :=
  (regular_peek _).bind fun _ => (regular_peek _).bind fun _ => Regular.pure

theorem parseDescription_eq : parseDescription = token >>= fun current =>
    orNone (current.kind = .string || current.kind = .blockString) parseStringLiteral :=
  rfl

theorem regular_parseDescription : Regular bound 0 parseDescription := by
  rw [parseDescription_eq]
  refine Regular.token_bind fun s => ?_
  by_cases h : s.token.kind = .eof
  · rw [h]
    exact Regular.pure s
  · unfold orNone
    split
    · exact (regularAt_parseStringLiteral h).bind fun _ => Regular.pure
    · exact Regular.pure s

/-! ## Arguments and directives -/

theorem regular_parseArgument : Regular bound 1 (parseArgument bound isConst) :=
  regular_token.bind fun start => regular_parseName.bind_one fun _ =>
    (regular_expectToken (by decide)).zero.bind fun _ =>
      regular_parseValueLiteral.zero.bind fun _ =>
        (regular_loc start).bind fun _ => Regular.pure

theorem regular_parseArguments : Regular bound 0 (parseArguments bound isConst) :=
  regular_optionalMany regular_parseArgument

theorem regular_parseFragmentArgument : Regular bound 1 (parseFragmentArgument bound) :=
  regular_token.bind fun start => regular_parseName.bind_one fun _ =>
    (regular_expectToken (by decide)).zero.bind fun _ =>
      regular_parseValueLiteral.zero.bind fun _ =>
        (regular_loc start).bind fun _ => Regular.pure

theorem regular_parseFragmentArguments : Regular bound 0 (parseFragmentArguments bound) :=
  regular_optionalMany regular_parseFragmentArgument

theorem regular_parseDirective : Regular bound 1 (parseDirective bound isConst) :=
  regular_token.bind fun start => (regular_expectToken (by decide)).bind_one fun _ =>
    regular_parseName.zero.bind fun _ => regular_parseArguments.bind fun _ =>
      (regular_loc start).bind fun _ => Regular.pure

theorem regular_directiveItems {b : ℕ} :
    ∀ {steps : ℕ}, steps ≤ b → Regular steps 0 (directiveItems b isConst steps)
  | 0, _ => Regular.bound_zero
  | steps + 1, h =>
      (regular_peek .atSign).bind fun _ =>
        Regular.ite
          ((regular_parseDirective.of_le h).bind_succ fun _ =>
            (regular_directiveItems (by omega)).bind fun _ => Regular.pure).zero
          Regular.pure

theorem regular_parseDirectives : Regular bound 0 (parseDirectives bound isConst) :=
  (regular_directiveItems le_rfl).bind fun _ => Regular.pure

/-! ## Operations and fragments -/

theorem regular_parseOperationType : Regular bound 1 parseOperationType :=
  (regular_expectToken (by decide)).bind_one fun _ =>
    Regular.ite Regular.pure (Regular.ite Regular.pure
      (Regular.ite Regular.pure (regular_unexpected _)))

theorem regular_parseDefaultValue : Regular bound 0 (parseDefaultValue bound) :=
  (regular_expectOptionalToken _).bind fun _ =>
    regular_orNone regular_parseValueLiteral.zero

theorem regular_parseVariableDefinition :
    Regular bound 1 (parseVariableDefinition bound) :=
  regular_token.bind fun start => regular_parseDescription.bind fun _ =>
    regular_parseVariable.bind_one fun _ =>
      (regular_expectToken (by decide)).zero.bind fun _ =>
        regular_parseTypeReference.zero.bind fun _ =>
          regular_parseDefaultValue.bind fun _ => regular_parseDirectives.bind fun _ =>
            (regular_loc start).bind fun _ => Regular.pure

theorem regular_parseVariableDefinitions :
    Regular bound 0 (parseVariableDefinitions bound) :=
  regular_optionalMany regular_parseVariableDefinition

theorem regular_parseFragmentName : Regular bound 1 parseFragmentName :=
  regular_token.bind fun _ => Regular.ite (regular_unexpected _) regular_parseName

theorem regular_parseTypeCondition : Regular bound 1 parseTypeCondition :=
  (regular_expectKeyword _).bind_one fun _ => regular_parseNamedType.zero

theorem regular_parseAliasAndName : Regular bound 1 parseAliasAndName :=
  regular_parseName.bind_one fun _ => (regular_expectOptionalToken _).bind fun _ =>
    Regular.ite (regular_parseName.zero.bind fun _ => Regular.pure) Regular.pure

section Selections

variable {parseSelections : Parser SelectionSetNode} {b : ℕ}

theorem regular_parseField (h : Regular b 0 parseSelections) (hb : b ≤ bound) :
    Regular b 1 (parseField bound parseSelections) :=
  regular_token.bind fun start => regular_parseAliasAndName.bind_one fun _ =>
    (regular_parseArguments.of_le hb).bind fun _ =>
      (regular_parseDirectives.of_le hb).bind fun _ =>
        (regular_peek _).bind fun _ => (regular_orNone h).bind fun _ =>
          (regular_loc start).map

theorem regular_parseFragment (h : Regular b 0 parseSelections) (hb : b ≤ bound) :
    Regular b 1 (parseFragment bound parseSelections) := by
  refine regular_token.bind fun start =>
    (regular_expectToken (by decide)).bind_one fun _ =>
      (regular_expectOptionalKeyword _).bind fun hasTypeCondition =>
        (regular_peek _).bind fun _ => Regular.ite ?_ ?_
  · have hrest : ∀ (name : NameNode) (arguments : Option (List FragmentArgumentNode)),
        Regular b 0 (do
          let directives ← parseDirectives bound false
          let loc ← loc start
          return SelectionNode.fragmentSpread
            { name := name, arguments := arguments, directives := directives
              loc := loc }) := fun _ _ =>
      (regular_parseDirectives.of_le hb).bind fun _ =>
        (regular_loc start).bind fun _ => Regular.pure
    refine regular_parseFragmentName.zero.bind fun name =>
      Regular.get_bind (fun s => (regular_peek _).bind fun _ => Regular.ite ?_ ?_)
        fun _ _ => rfl
    · exact (regular_parseFragmentArguments.of_le hb).bind fun _ => hrest name _
    · exact Regular.pure.bind fun _ => hrest name _
  · exact (regular_orNone regular_parseNamedType.zero).bind fun _ =>
      (regular_parseDirectives.of_le hb).bind fun _ => h.bind fun _ =>
        (regular_loc start).bind fun _ => Regular.pure

theorem regular_parseSelection (h : Regular b 0 parseSelections) (hb : b ≤ bound) :
    Regular b 1 (parseSelection bound parseSelections) :=
  (regular_peek _).bind fun _ =>
    Regular.ite (regular_parseFragment h hb) (regular_parseField h hb).map

end Selections

theorem regular_parseSelectionSet :
    ∀ {bound : ℕ}, Regular bound 1 (parseSelectionSet bound)
  | 0 => Regular.bound_zero
  | bound + 1 => by
      have hselection : Regular bound 1
          (parseSelection (bound + 1) (parseSelectionSet bound)) :=
        regular_parseSelection regular_parseSelectionSet.zero (by omega)
      exact regular_token.bind fun start =>
        (regular_many (by decide) hselection (by omega)).bind_one fun _ =>
          (regular_loc start).map

theorem regular_parseOperationDefinition :
    Regular bound 1 (parseOperationDefinition bound) := by
  refine regular_token.bind fun start => (regular_peek _).bind fun _ => Regular.ite ?_ ?_
  · exact regular_parseSelectionSet.bind_one fun _ =>
      (regular_loc start).bind fun _ => Regular.pure
  · exact regular_parseDescription.bind fun _ => regular_parseOperationType.bind_one fun _ =>
      (regular_peek _).bind fun _ => (regular_orNone regular_parseName.zero).bind fun _ =>
        regular_parseVariableDefinitions.bind fun _ => regular_parseDirectives.bind fun _ =>
          regular_parseSelectionSet.zero.bind fun _ =>
            (regular_loc start).bind fun _ => Regular.pure

theorem regular_parseFragmentDefinition :
    Regular bound 1 (parseFragmentDefinition bound) := by
  refine regular_token.bind fun start => regular_parseDescription.bind fun description =>
    (regular_expectKeyword _).bind_one fun _ => ?_
  have hrest : ∀ (name : NameNode)
      (variableDefinitions : Option (List VariableDefinitionNode)), Regular bound 0 (do
        let typeCondition ← parseTypeCondition
        let directives ← parseDirectives bound false
        let selectionSet ← parseSelectionSet bound
        return ({ description := description, name := name
                  variableDefinitions := variableDefinitions
                  typeCondition := typeCondition, directives := directives
                  selectionSet := selectionSet, loc := ← loc start } :
          FragmentDefinitionNode)) := fun _ _ =>
    regular_parseTypeCondition.zero.bind fun _ => regular_parseDirectives.bind fun _ =>
      regular_parseSelectionSet.zero.bind fun _ =>
        (regular_loc start).bind fun _ => Regular.pure
  refine Regular.get_bind (fun s => ?_) fun _ _ => rfl
  refine regular_parseFragmentName.zero.bind fun name => Regular.ite ?_ ?_
  · exact regular_parseVariableDefinitions.bind fun _ => hrest name _
  · exact Regular.pure.bind fun _ => hrest name _

/-! ## Type system definitions -/

theorem regular_parseOperationTypeDefinition :
    Regular bound 1 parseOperationTypeDefinition :=
  regular_token.bind fun start => regular_parseOperationType.bind_one fun _ =>
    (regular_expectToken (by decide)).zero.bind fun _ =>
      regular_parseNamedType.zero.bind fun _ =>
        (regular_loc start).bind fun _ => Regular.pure

theorem regular_parseSchemaDefinition : Regular bound 1 (parseSchemaDefinition bound) :=
  regular_token.bind fun start => regular_parseDescription.bind fun _ =>
    (regular_expectKeyword _).bind_one fun _ => regular_parseDirectives.bind fun _ =>
      ((regular_many (by decide) regular_parseOperationTypeDefinition le_rfl).of_le
        (by omega)).zero.bind fun _ => (regular_loc start).bind fun _ => Regular.pure

theorem regular_parseScalarTypeDefinition :
    Regular bound 1 (parseScalarTypeDefinition bound) :=
  regular_token.bind fun start => regular_parseDescription.bind fun _ =>
    (regular_expectKeyword _).bind_one fun _ => regular_parseName.zero.bind fun _ =>
      regular_parseDirectives.bind fun _ =>
        (regular_loc start).bind fun _ => Regular.pure

theorem regular_parseInputValueDef : Regular bound 1 (parseInputValueDef bound) :=
  regular_token.bind fun start => regular_parseDescription.bind fun _ =>
    regular_parseName.bind_one fun _ =>
      (regular_expectToken (by decide)).zero.bind fun _ =>
        regular_parseTypeReference.zero.bind fun _ =>
          regular_parseDefaultValue.bind fun _ => regular_parseDirectives.bind fun _ =>
            (regular_loc start).bind fun _ => Regular.pure

theorem regular_parseFieldDefinition : Regular bound 1 (parseFieldDefinition bound) :=
  regular_token.bind fun start => regular_parseDescription.bind fun _ =>
    regular_parseName.bind_one fun _ =>
      (regular_optionalMany regular_parseInputValueDef).bind fun _ =>
        (regular_expectToken (by decide)).zero.bind fun _ =>
          regular_parseTypeReference.zero.bind fun _ => regular_parseDirectives.bind fun _ =>
            (regular_loc start).bind fun _ => Regular.pure

theorem regular_parseFieldsDefinition : Regular bound 0 (parseFieldsDefinition bound) :=
  regular_optionalMany regular_parseFieldDefinition

theorem regular_parseImplementsInterfaces :
    Regular bound 0 (parseImplementsInterfaces bound) :=
  (regular_expectOptionalKeyword _).bind fun _ =>
    regular_orNone (regular_delimitedMany regular_parseNamedType).zero

theorem regular_parseObjectTypeDefinition :
    Regular bound 1 (parseObjectTypeDefinition bound) :=
  regular_token.bind fun start => regular_parseDescription.bind fun _ =>
    (regular_expectKeyword _).bind_one fun _ => regular_parseName.zero.bind fun _ =>
      regular_parseImplementsInterfaces.bind fun _ => regular_parseDirectives.bind fun _ =>
        regular_parseFieldsDefinition.bind fun _ =>
          (regular_loc start).bind fun _ => Regular.pure

theorem regular_parseInterfaceTypeDefinition :
    Regular bound 1 (parseInterfaceTypeDefinition bound) :=
  regular_token.bind fun start => regular_parseDescription.bind fun _ =>
    (regular_expectKeyword _).bind_one fun _ => regular_parseName.zero.bind fun _ =>
      regular_parseImplementsInterfaces.bind fun _ => regular_parseDirectives.bind fun _ =>
        regular_parseFieldsDefinition.bind fun _ =>
          (regular_loc start).bind fun _ => Regular.pure

theorem regular_parseUnionMemberTypes : Regular bound 0 (parseUnionMemberTypes bound) :=
  (regular_expectOptionalToken _).bind fun _ =>
    regular_orNone (regular_delimitedMany regular_parseNamedType).zero

theorem regular_parseUnionTypeDefinition :
    Regular bound 1 (parseUnionTypeDefinition bound) :=
  regular_token.bind fun start => regular_parseDescription.bind fun _ =>
    (regular_expectKeyword _).bind_one fun _ => regular_parseName.zero.bind fun _ =>
      regular_parseDirectives.bind fun _ => regular_parseUnionMemberTypes.bind fun _ =>
        (regular_loc start).bind fun _ => Regular.pure

theorem regular_parseEnumValueDefinition :
    Regular bound 1 (parseEnumValueDefinition bound) :=
  regular_token.bind fun start => regular_parseDescription.bind fun _ =>
    (regular_token.bind fun _ => Regular.ite (regular_raise _ _)
      regular_parseName : Regular bound 1 parseEnumValueName).bind_one fun _ =>
      regular_parseDirectives.bind fun _ =>
        (regular_loc start).bind fun _ => Regular.pure

theorem regular_parseEnumValuesDefinition :
    Regular bound 0 (parseEnumValuesDefinition bound) :=
  regular_optionalMany regular_parseEnumValueDefinition

theorem regular_parseEnumTypeDefinition :
    Regular bound 1 (parseEnumTypeDefinition bound) :=
  regular_token.bind fun start => regular_parseDescription.bind fun _ =>
    (regular_expectKeyword _).bind_one fun _ => regular_parseName.zero.bind fun _ =>
      regular_parseDirectives.bind fun _ => regular_parseEnumValuesDefinition.bind fun _ =>
        (regular_loc start).bind fun _ => Regular.pure

theorem regular_parseInputFieldsDefinition :
    Regular bound 0 (parseInputFieldsDefinition bound) :=
  regular_optionalMany regular_parseInputValueDef

theorem regular_parseInputObjectTypeDefinition :
    Regular bound 1 (parseInputObjectTypeDefinition bound) :=
  regular_token.bind fun start => regular_parseDescription.bind fun _ =>
    (regular_expectKeyword _).bind_one fun _ => regular_parseName.zero.bind fun _ =>
      regular_parseDirectives.bind fun _ => regular_parseInputFieldsDefinition.bind fun _ =>
        (regular_loc start).bind fun _ => Regular.pure

theorem regular_parseDirectiveLocation : Regular bound 1 parseDirectiveLocation :=
  regular_token.bind fun _ => regular_parseName.bind_one fun _ =>
    Regular.ite Regular.pure (regular_unexpected _)

theorem regular_parseDirectiveDefinition :
    Regular bound 1 (parseDirectiveDefinition bound) := by
  refine regular_token.bind fun start => regular_parseDescription.bind fun description =>
    (regular_expectKeyword _).bind_one fun _ =>
      (regular_expectToken (by decide)).zero.bind fun _ =>
        regular_parseName.zero.bind fun name =>
          (regular_optionalMany regular_parseInputValueDef).bind fun args =>
            Regular.get_bind (fun s => ?_) fun _ _ => rfl
  have hrest : ∀ directives : Option (List DirectiveNode), Regular bound 0 (do
      let repeatable ← expectOptionalKeyword (str "repeatable")
      expectKeyword (str "on")
      let locations ← parseDirectiveLocations bound
      return ({ description := description, name := name, arguments := args
                directives := directives, repeatable := repeatable
                locations := locations, loc := ← loc start } :
        DirectiveDefinitionNode)) := fun _ =>
    (regular_expectOptionalKeyword _).bind fun _ =>
      (regular_expectKeyword _).zero.bind fun _ =>
        (regular_delimitedMany regular_parseDirectiveLocation).zero.bind fun _ =>
          (regular_loc start).bind fun _ => Regular.pure
  exact Regular.ite (regular_parseDirectives.bind hrest) (Regular.pure.bind hrest)

/-! ## Type system extensions -/

theorem regular_expectExtension (extended : Bool) :
    Regular bound 0 (expectExtension extended) :=
  Regular.ite Regular.pure (regular_token.bind fun _ => regular_unexpected _)

/-- The two keywords that an extension starts with. -/
theorem regular_extension {α : Type} {keyword : Text} {parseFn : Token → Parser α}
    (h : ∀ start, Regular bound 0 (parseFn start)) : Regular bound 1 (do
      let start ← token
      expectKeyword (str "extend")
      expectKeyword keyword
      parseFn start) :=
  regular_token.bind fun start => (regular_expectKeyword _).bind_one fun _ =>
    (regular_expectKeyword _).zero.bind fun _ => h start

theorem regular_parseSchemaExtension : Regular bound 1 (parseSchemaExtension bound) :=
  regular_extension fun start => regular_parseDirectives.bind fun _ =>
    (regular_optionalMany regular_parseOperationTypeDefinition).bind fun _ =>
      (regular_expectExtension _).bind fun _ =>
        (regular_loc start).bind fun _ => Regular.pure

theorem regular_parseScalarTypeExtension :
    Regular bound 1 (parseScalarTypeExtension bound) :=
  regular_extension fun start => regular_parseName.zero.bind fun _ =>
    regular_parseDirectives.bind fun _ => (regular_expectExtension _).bind fun _ =>
      (regular_loc start).bind fun _ => Regular.pure

theorem regular_parseObjectTypeExtension :
    Regular bound 1 (parseObjectTypeExtension bound) :=
  regular_extension fun start => regular_parseName.zero.bind fun _ =>
    regular_parseImplementsInterfaces.bind fun _ => regular_parseDirectives.bind fun _ =>
      regular_parseFieldsDefinition.bind fun _ => (regular_expectExtension _).bind fun _ =>
        (regular_loc start).bind fun _ => Regular.pure

theorem regular_parseInterfaceTypeExtension :
    Regular bound 1 (parseInterfaceTypeExtension bound) :=
  regular_extension fun start => regular_parseName.zero.bind fun _ =>
    regular_parseImplementsInterfaces.bind fun _ => regular_parseDirectives.bind fun _ =>
      regular_parseFieldsDefinition.bind fun _ => (regular_expectExtension _).bind fun _ =>
        (regular_loc start).bind fun _ => Regular.pure

theorem regular_parseUnionTypeExtension :
    Regular bound 1 (parseUnionTypeExtension bound) :=
  regular_extension fun start => regular_parseName.zero.bind fun _ =>
    regular_parseDirectives.bind fun _ => regular_parseUnionMemberTypes.bind fun _ =>
      (regular_expectExtension _).bind fun _ =>
        (regular_loc start).bind fun _ => Regular.pure

theorem regular_parseEnumTypeExtension :
    Regular bound 1 (parseEnumTypeExtension bound) :=
  regular_extension fun start => regular_parseName.zero.bind fun _ =>
    regular_parseDirectives.bind fun _ => regular_parseEnumValuesDefinition.bind fun _ =>
      (regular_expectExtension _).bind fun _ =>
        (regular_loc start).bind fun _ => Regular.pure

theorem regular_parseInputObjectTypeExtension :
    Regular bound 1 (parseInputObjectTypeExtension bound) :=
  regular_extension fun start => regular_parseName.zero.bind fun _ =>
    regular_parseDirectives.bind fun _ => regular_parseInputFieldsDefinition.bind fun _ =>
      (regular_expectExtension _).bind fun _ =>
        (regular_loc start).bind fun _ => Regular.pure

theorem regular_parseDirectiveDefinitionExtension :
    Regular bound 1 (parseDirectiveDefinitionExtension bound) :=
  regular_extension fun start => (regular_expectToken (by decide)).zero.bind fun _ =>
    regular_parseName.zero.bind fun _ => regular_parseDirectives.bind fun _ =>
      (regular_expectExtension _).bind fun _ =>
        (regular_loc start).bind fun _ => Regular.pure

/-! ## Documents -/

/-- A method that is looked up is one of the methods. -/
theorem regular_lookup {methods : List (Text × Parser DefinitionNode)} {name : Text}
    {method : Parser DefinitionNode} (h : ∀ entry ∈ methods, Regular bound 1 entry.2)
    (hlookup : methods.lookup name = some method) : Regular bound 1 method := by
  obtain ⟨before, after, heq, _⟩ := List.lookup_eq_some_iff.mp hlookup
  exact h (name, method) (by rw [heq]; simp)

theorem regular_typeExtensionMethods :
    ∀ entry ∈ typeExtensionMethods bound, Regular bound 1 entry.2 := by
  simp only [typeExtensionMethods, List.forall_mem_cons, List.not_mem_nil, false_implies,
    implies_true, and_true]
  exact ⟨regular_parseSchemaExtension.map, regular_parseScalarTypeExtension.map,
    regular_parseObjectTypeExtension.map, regular_parseInterfaceTypeExtension.map,
    regular_parseUnionTypeExtension.map, regular_parseEnumTypeExtension.map,
    regular_parseInputObjectTypeExtension.map⟩

theorem regular_typeSystemDefinitionMethods :
    ∀ entry ∈ typeSystemDefinitionMethods bound, Regular bound 1 entry.2 := by
  simp only [typeSystemDefinitionMethods, List.forall_mem_cons, List.not_mem_nil,
    false_implies, implies_true, and_true]
  exact ⟨regular_parseSchemaDefinition.map, regular_parseScalarTypeDefinition.map,
    regular_parseObjectTypeDefinition.map, regular_parseInterfaceTypeDefinition.map,
    regular_parseUnionTypeDefinition.map, regular_parseEnumTypeDefinition.map,
    regular_parseInputObjectTypeDefinition.map, regular_parseDirectiveDefinition.map⟩

theorem regular_executableDefinitionMethods :
    ∀ entry ∈ executableDefinitionMethods bound, Regular bound 1 entry.2 := by
  simp only [executableDefinitionMethods, List.forall_mem_cons, List.not_mem_nil,
    false_implies, implies_true, and_true]
  exact ⟨regular_parseOperationDefinition.map, regular_parseOperationDefinition.map,
    regular_parseOperationDefinition.map, regular_parseFragmentDefinition.map⟩

theorem regular_parseTypeSystemExtension :
    Regular bound 1 (parseTypeSystemExtension bound) := by
  refine regular_lookahead.bind fun keywordToken =>
    Regular.ite ?_ (regular_unexpected _)
  split
  · rename_i method hmethod
    exact regular_lookup regular_typeExtensionMethods hmethod
  · exact Regular.get_bind (fun s => Regular.ite
      regular_parseDirectiveDefinitionExtension.map (regular_unexpected _)) fun _ _ => rfl

theorem regular_parseDefinition : Regular bound 1 (parseDefinition bound) := by
  refine (regular_peek _).bind fun _ =>
    Regular.ite regular_parseOperationDefinition.map
      (regular_peekDescription.bind fun hasDescription => ?_)
  refine Regular.ite (regular_lookahead.bind fun keywordToken => ?_)
    (regular_token.bind fun keywordToken => ?_)
  all_goals
    refine Regular.ite (regular_token.bind fun _ => regular_raise _ _)
      (Regular.ite ?_ (regular_unexpected _))
    dsimp only
    split
    · rename_i method _ hmethod
      exact regular_lookup regular_typeSystemDefinitionMethods hmethod
    · rename_i method _ hmethod
      exact regular_lookup regular_executableDefinitionMethods hmethod
    · exact Regular.ite (regular_token.bind fun _ => regular_raise _ _)
        (Regular.ite regular_parseTypeSystemExtension (regular_unexpected _))

theorem regular_parseDocument : Regular bound 1 (parseDocument bound) :=
  regular_token.bind fun start =>
    ((regular_many (by decide) regular_parseDefinition le_rfl).of_le
      (Nat.le_succ _)).bind_one fun _ =>
        (regular_loc start).bind fun _ =>
          Regular.get_bind (fun _ => Regular.pure) fun _ _ => rfl

/-- A node that takes up the whole source. -/
theorem regular_whole {α : Type} {parseFn : Parser α} (h : Regular bound 0 parseFn) :
    Regular bound 1 (whole parseFn) :=
  (regular_expectToken (by decide)).bind_one fun _ => h.bind fun _ =>
    regular_expectToken_eof.bind fun _ => Regular.pure

end GraphqlCore.Language.Parser
