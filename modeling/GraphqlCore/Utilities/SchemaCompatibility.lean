import GraphqlCore.Execution.ArgumentValues
import GraphqlCore.Utilities.FindSchemaChanges

/-!
# Input that stays accepted

What has to be kept of the input types of a schema so that the values, literals and
arguments that are accepted stay accepted, and how much of this is ensured if
`find_breaking_changes` reports nothing.
-/

namespace GraphqlCore

open Language Execution

/-! ## Arguments and input fields that are kept -/

/-- The arguments or input fields stay, are changed safely and do not become required,
and no required ones are added. -/
structure KeepsInputs (old new : Dict Text GraphQLArgument) : Prop where
  persists : ∀ name arg, old.get name = some arg → ∃ arg', new.get name = some arg' ∧
    isChangeSafeForInputObjectFieldOrFieldArg arg.type arg'.type ∧
    (isRequiredArgument arg'.toInputDefinition → isRequiredArgument arg.toInputDefinition)
  added : ∀ name arg', new.get name = some arg' → old.get name = none →
    isRequiredArgument arg'.toInputDefinition = false

/-- The input types of the old schema stay.  A leaf type still gives a value, and this
is `None` only if it has been so before. -/
structure KeepsInputTypes (old new : InputTypes) : Prop where
  inputObjects : ∀ name fields isOneOf description,
    old.schema.getType name = some (.inputObject fields isOneOf description) →
    ∃ fields' isOneOf' description',
      new.schema.getType name = some (.inputObject fields' isOneOf' description') ∧
      KeepsInputs fields fields' ∧ (isOneOf' → isOneOf)
  leafValues : ∀ name value result, leafInputValue old name value = some (.value result) →
    ∃ result', leafInputValue new name value = some (.value result') ∧
      (result' = .none → result = .none)
  leafLiterals : ∀ name valueNode variableValues fragmentVariableValues result,
    IsPlain valueNode →
    leafInputLiteral old name valueNode variableValues fragmentVariableValues =
      some (.value result) →
    ∃ result', leafInputLiteral new name valueNode variableValues
        fragmentVariableValues = some (.value result') ∧
      (result' = .none → result = .none)

section Kept

variable {old new : InputTypes} {type type' : GraphQLType} {name : Text}

theorem not_inputObject_of_leafInputValue {types : InputTypes} {value result : Value}
    (h : leafInputValue types name value = some (.value result)) :
    ∀ fields isOneOf description, types.schema.getType name ≠
      some (.inputObject fields isOneOf description) := by
  intro fields isOneOf description htype
  unfold leafInputValue at h
  rw [htype] at h
  cases h

theorem not_inputObject_of_leafInputLiteral {types : InputTypes} {valueNode : ValueNode}
    {variableValues : Option VariableValues}
    {fragmentVariableValues : Option FragmentVariableValues} {result : Value}
    (h : leafInputLiteral types name valueNode variableValues fragmentVariableValues =
      some (.value result)) :
    ∀ fields isOneOf description, types.schema.getType name ≠
      some (.inputObject fields isOneOf description) := by
  intro fields isOneOf description htype
  unfold leafInputLiteral at h
  rw [htype] at h
  cases h

/-- The types that a named type may be changed to. -/
theorem eq_named_of_safe
    (h : isChangeSafeForInputObjectFieldOrFieldArg (.named name) type' = true) :
    type' = .named name := by
  cases type' with
  | named name' =>
      rw [isChangeSafeForInputObjectFieldOrFieldArg, decide_eq_true_eq] at h
      rw [h]
  | list | nonNull => cases h

theorem eq_list_of_safe
    (h : isChangeSafeForInputObjectFieldOrFieldArg (.list type) type' = true) :
    ∃ itemType', type' = .list itemType' ∧
      isChangeSafeForInputObjectFieldOrFieldArg type itemType' = true := by
  cases type' with
  | list itemType' => exact ⟨itemType', rfl, h⟩
  | named | nonNull => cases h

/-- A type that is not nullable may become nullable. -/
theorem safe_nonNull_cases
    (h : isChangeSafeForInputObjectFieldOrFieldArg (.nonNull type) type' = true) :
    isChangeSafeForInputObjectFieldOrFieldArg type type' = true ∨
    ∃ ofType', type' = .nonNull ofType' ∧
      isChangeSafeForInputObjectFieldOrFieldArg type ofType' = true := by
  cases type' with
  | nonNull ofType' => exact .inr ⟨ofType', rfl, h⟩
  | named | list => exact .inl h

/-- A type that is nullable stays so. -/
theorem isNonNullType_of_safe
    (h : isChangeSafeForInputObjectFieldOrFieldArg type type' = true)
    (htype' : isNonNullType type' = true) : isNonNullType type = true := by
  cases type with
  | named =>
      rw [eq_named_of_safe h] at htype'
      cases htype'
  | list =>
      obtain ⟨itemType', rfl, _⟩ := eq_list_of_safe h
      cases htype'
  | nonNull => rfl

/-! ## Values -/

theorem KeepsInputTypes.coercesToNone (hkeeps : KeepsInputTypes old new) {value : Value}
    (hnone : value ≠ .none)
    (hsafe : isChangeSafeForInputObjectFieldOrFieldArg type type' = true)
    (hcoercible : Coercible old value type)
    (h : GraphqlCore.coercesToNone new value type' = true) :
    GraphqlCore.coercesToNone old value type = true := by
  induction type generalizing type' with
  | named name =>
      obtain rfl := eq_named_of_safe hsafe
      rw [GraphqlCore.coercesToNone] at h ⊢
      cases hresult' : leafInputValue new name value with
      | none =>
          rw [hresult'] at h
          cases h
      | some outcome =>
          have hleaf : ∀ fields isOneOf description, old.schema.getType name ≠
              some (.inputObject fields isOneOf description) := by
            intro fields isOneOf description htype
            obtain ⟨fields', isOneOf', description', htype', _⟩ :=
              hkeeps.inputObjects name fields isOneOf description htype
            unfold leafInputValue at hresult'
            rw [htype'] at hresult'
            cases hresult'
          obtain ⟨result, hresult⟩ := (coercible_leaf_iff hnone hleaf).mp hcoercible
          obtain ⟨result', hkept, himp⟩ := hkeeps.leafValues name value result hresult
          rw [hkept] at h
          have hnone' : result' = .none := by
            cases result' <;> first | rfl | cases h
          rw [hresult, himp hnone']
  | list itemType =>
      obtain ⟨itemType', rfl, _⟩ := eq_list_of_safe hsafe
      cases h
  | nonNull ofType ih =>
      rw [coercible_nonNull_iff hnone] at hcoercible
      rw [GraphqlCore.coercesToNone]
      rcases safe_nonNull_cases hsafe with hsafe | ⟨ofType', rfl, hsafe⟩
      · exact ih hsafe hcoercible h
      · exact ih hsafe hcoercible h

/-- The values that are coerced stay so. -/
theorem KeepsInputTypes.coercible (hkeeps : KeepsInputTypes old new) {value : Value}
    (hsafe : isChangeSafeForInputObjectFieldOrFieldArg type type' = true)
    (h : Coercible old value type) : Coercible new value type' := by
  induction value, type using inputValue_induction old generalizing type' with
  | nonNullNone ofType => exact absurd h.1 not_conforms_nonNull_none
  | nonNull value ofType hnone ih =>
      rw [coercible_nonNull_iff hnone] at h
      rcases safe_nonNull_cases hsafe with hsafe | ⟨ofType', rfl, hsafe⟩
      · exact ih hsafe h
      · rw [coercible_nonNull_iff hnone]
        exact ih hsafe h
  | listNone itemType =>
      obtain ⟨itemType', rfl, _⟩ := eq_list_of_safe hsafe
      exact ⟨.noList, not_losesEntry_none⟩
  | list items itemType ih =>
      obtain ⟨itemType', rfl, hsafe⟩ := eq_list_of_safe hsafe
      rw [coercible_list_iff] at h ⊢
      exact fun item hitem => ih item hitem hsafe (h item hitem)
  | single value itemType hnone hlist ih =>
      obtain ⟨itemType', rfl, hsafe⟩ := eq_list_of_safe hsafe
      rw [coercible_single_iff hnone hlist] at h ⊢
      exact ih hsafe h
  | namedNone name =>
      obtain rfl := eq_named_of_safe hsafe
      exact ⟨.noValue, not_losesEntry_none⟩
  | object name fields isOneOf description entries htype ih =>
      obtain rfl := eq_named_of_safe hsafe
      obtain ⟨fields', isOneOf', description', htype', hfields, honeOf⟩ :=
        hkeeps.inputObjects name fields isOneOf description htype
      obtain ⟨hdefined, hcoercible, hentry⟩ := (coercible_object_iff htype).mp h
      rw [coercible_object_iff htype']
      refine ⟨?_, ?_, ?_⟩
      · intro entry hmem
        obtain ⟨field, hfield⟩ := Option.isSome_iff_exists.mp (hdefined entry hmem)
        obtain ⟨field', hfield', _⟩ := hfields.persists _ _ hfield
        rw [hfield']
        rfl
      · rintro ⟨fieldName, field'⟩ hmem
        have hfield' := Dict.mem_items_iff.mp hmem
        cases hfield : fields.get fieldName with
        | none =>
            refine ⟨fun _ => hfields.added _ _ hfield' hfield, fun value hfind => ?_⟩
            -- The old type has no such field, so the object has none either.
            have hknown := hdefined (fieldName, value)
              (Dict.mem_of_find hfind)
            rw [hfield] at hknown
            cases hknown
        | some field =>
            obtain ⟨field'', hfield'', hsafe, hrequired⟩ := hfields.persists _ _ hfield
            rw [hfield'] at hfield''
            cases hfield''
            have hmem := Dict.mem_items_iff.mpr hfield
            have hold := hcoercible _ hmem
            constructor
            · intro hfind
              have hoptional := hold.1 hfind
              by_contra hnot
              rw [Bool.not_eq_false] at hnot
              rw [hrequired hnot] at hoptional
              cases hoptional
            · exact fun value hfind => ih fieldName field value hmem hfind hsafe
                (hold.2 value hfind)
      · intro hisOneOf
        obtain ⟨fieldName, value, rfl, hnone, hvalue⟩ := hentry (honeOf hisOneOf)
        refine ⟨fieldName, value, rfl, hnone, fun field' hfield' => ?_⟩
        obtain ⟨field, hfield⟩ :=
          Option.isSome_iff_exists.mp (hdefined _ (List.mem_singleton_self _))
        obtain ⟨field'', hfield'', hsafe, _⟩ := hfields.persists _ _ hfield
        rw [hfield'] at hfield''
        cases hfield''
        have hold := (hcoercible _ (Dict.mem_items_iff.mpr hfield)).2 value
          (by rw [Dict.find]; exact if_pos rfl)
        by_contra hnot
        rw [Bool.not_eq_false] at hnot
        have hcoerces := hkeeps.coercesToNone hnone hsafe hold hnot
        rw [hvalue field hfield] at hcoerces
        cases hcoerces
  | notObject name fields isOneOf description value hnone htype hdict =>
      exact absurd h.1 (not_conforms_notObject hnone htype hdict)
  | leaf name value hnone hleaf =>
      obtain rfl := eq_named_of_safe hsafe
      obtain ⟨result, hresult⟩ := (coercible_leaf_iff hnone hleaf).mp h
      obtain ⟨result', hresult', _⟩ := hkeeps.leafValues name value result hresult
      exact (coercible_leaf_iff hnone (not_inputObject_of_leafInputValue hresult')).mpr
        ⟨result', hresult'⟩

/-! ## Literals -/

variable {variableValues : Option VariableValues}
variable {fragmentVariableValues : Option FragmentVariableValues}
variable {valueNode : ValueNode}

theorem KeepsInputTypes.literalCoercesToNone (hkeeps : KeepsInputTypes old new)
    (hplain : IsPlain valueNode)
    (hsafe : isChangeSafeForInputObjectFieldOrFieldArg type type' = true)
    (hcoercible :
      LiteralCoercible old variableValues fragmentVariableValues valueNode type)
    (h : GraphqlCore.literalCoercesToNone new variableValues fragmentVariableValues
      valueNode type' = true) :
    GraphqlCore.literalCoercesToNone old variableValues fragmentVariableValues valueNode
      type = true := by
  induction type generalizing type' with
  | named name =>
      obtain rfl := eq_named_of_safe hsafe
      rw [GraphqlCore.literalCoercesToNone] at h ⊢
      cases hresult' : leafInputLiteral new name valueNode variableValues
          fragmentVariableValues with
      | none =>
          rw [hresult'] at h
          cases h
      | some outcome =>
          have hleaf : ∀ fields isOneOf description, old.schema.getType name ≠
              some (.inputObject fields isOneOf description) := by
            intro fields isOneOf description htype
            obtain ⟨fields', isOneOf', description', htype', _⟩ :=
              hkeeps.inputObjects name fields isOneOf description htype
            unfold leafInputLiteral at hresult'
            rw [htype'] at hresult'
            cases hresult'
          obtain ⟨result, hresult⟩ :=
            (literalCoercible_leaf_iff hplain hleaf).mp hcoercible
          obtain ⟨result', hkept, himp⟩ :=
            hkeeps.leafLiterals name valueNode _ _ result hplain hresult
          rw [hkept] at h
          have hnone' : result' = .none := by
            cases result' <;> first | rfl | cases h
          rw [hresult, himp hnone']
  | list itemType =>
      obtain ⟨itemType', rfl, _⟩ := eq_list_of_safe hsafe
      cases h
  | nonNull ofType ih =>
      rw [literalCoercible_nonNull_iff hplain] at hcoercible
      rw [GraphqlCore.literalCoercesToNone]
      rcases safe_nonNull_cases hsafe with hsafe | ⟨ofType', rfl, hsafe⟩
      · exact ih hsafe hcoercible h
      · exact ih hsafe hcoercible h

theorem literalCoercible_null {types : InputTypes} {loc : Option Location}
    (hnullable : isNonNullType type = false) :
    LiteralCoercible types variableValues fragmentVariableValues (.null loc) type := by
  refine ⟨?_, fun h => h.isPlain.ne_null loc rfl⟩
  cases type with
  | named => exact .noValue
  | list => exact .noList
  | nonNull => cases hnullable

theorem literalCoercible_variable_iff {types : InputTypes} {node : VariableNode} :
    LiteralCoercible types variableValues fragmentVariableValues (.variable node) type ↔
      (isNonNullType type → isNullLiteral variableValues fragmentVariableValues
        (.variable node) = false) := by
  rw [LiteralCoercible, literalConforms_variable_iff]
  exact and_iff_left fun h => h.isPlain.ne_variable node rfl

/-- The literals that are coerced stay so. -/
theorem KeepsInputTypes.literalCoercible (hkeeps : KeepsInputTypes old new)
    (hsafe : isChangeSafeForInputObjectFieldOrFieldArg type type' = true)
    (h : LiteralCoercible old variableValues fragmentVariableValues valueNode type) :
    LiteralCoercible new variableValues fragmentVariableValues valueNode type' := by
  induction valueNode, type using inputLiteral_induction old generalizing type' with
  | variableNode node type =>
      rw [literalCoercible_variable_iff] at h ⊢
      exact fun hnonNull => h (isNonNullType_of_safe hsafe hnonNull)
  | nonNullNull loc ofType => exact absurd h.1 not_literalConforms_nonNull_null
  | nonNull valueNode ofType hplain ih =>
      rw [literalCoercible_nonNull_iff hplain] at h
      rcases safe_nonNull_cases hsafe with hsafe | ⟨ofType', rfl, hsafe⟩
      · exact ih hsafe h
      · rw [literalCoercible_nonNull_iff hplain]
        exact ih hsafe h
  | listNull loc itemType =>
      obtain ⟨itemType', rfl, _⟩ := eq_list_of_safe hsafe
      exact literalCoercible_null rfl
  | list values loc itemType ih =>
      obtain ⟨itemType', rfl, hsafe⟩ := eq_list_of_safe hsafe
      rw [literalCoercible_list_iff] at h ⊢
      exact fun itemNode hitem => ih itemNode hitem hsafe (h itemNode hitem)
  | single valueNode itemType hplain hlist ih =>
      obtain ⟨itemType', rfl, hsafe⟩ := eq_list_of_safe hsafe
      rw [literalCoercible_single_iff hplain hlist] at h ⊢
      exact ih hsafe h
  | namedNull loc name =>
      obtain rfl := eq_named_of_safe hsafe
      exact literalCoercible_null rfl
  | object name fieldDefs isOneOf description fields loc htype ih =>
      obtain rfl := eq_named_of_safe hsafe
      obtain ⟨fieldDefs', isOneOf', description', htype', hfields, honeOf⟩ :=
        hkeeps.inputObjects name fieldDefs isOneOf description htype
      obtain ⟨hdefined, hcoercible, hentry⟩ := (literalCoercible_object_iff htype).mp h
      rw [literalCoercible_object_iff htype']
      refine ⟨?_, ?_, ?_⟩
      · intro node hmem
        obtain ⟨field, hfield⟩ := Option.isSome_iff_exists.mp (hdefined node hmem)
        obtain ⟨field', hfield', _⟩ := hfields.persists _ _ hfield
        rw [hfield']
        rfl
      · rintro ⟨fieldName, field'⟩ hmem
        have hfield' := Dict.mem_items_iff.mp hmem
        cases hfield : fieldDefs.get fieldName with
        | none =>
            refine ⟨fun _ => hfields.added _ _ hfield' hfield, fun node hfind => ?_⟩
            have hknown := hdefined (fieldName, node) (Dict.mem_of_find hfind)
            rw [hfield] at hknown
            cases hknown
        | some field =>
            obtain ⟨field'', hfield'', hsafe, hrequired⟩ := hfields.persists _ _ hfield
            rw [hfield'] at hfield''
            cases hfield''
            have hmem := Dict.mem_items_iff.mpr hfield
            have hold := hcoercible _ hmem
            constructor
            · intro hmissing
              have hoptional := hold.1 hmissing
              by_contra hnot
              rw [Bool.not_eq_false] at hnot
              rw [hrequired hnot] at hoptional
              cases hoptional
            · exact fun node hfind hgiven => ih fieldName field node hmem hfind hsafe
                (hold.2 node hfind hgiven)
      · intro hisOneOf
        obtain ⟨fieldName, node, hnodes, hnull, hnode⟩ := hentry (honeOf hisOneOf)
        refine ⟨fieldName, node, hnodes, hnull, fun field' hfield' hplain => ?_⟩
        have hfind : Dict.find fieldName (fieldNodes fields) = some node := by
          rw [hnodes, Dict.find]
          exact if_pos rfl
        obtain ⟨field, hfield⟩ := Option.isSome_iff_exists.mp
          (hdefined (fieldName, node) (Dict.mem_of_find hfind))
        obtain ⟨field'', hfield'', hsafe, _⟩ := hfields.persists _ _ hfield
        rw [hfield'] at hfield''
        cases hfield''
        have hold := (hcoercible _ (Dict.mem_items_iff.mpr hfield)).2 node hfind
          (isMissingVariable_of_not hplain.ne_variable)
        by_contra hnot
        rw [Bool.not_eq_false] at hnot
        have hcoerces := hkeeps.literalCoercesToNone hplain hsafe hold hnot
        rw [hnode field hfield hplain] at hcoerces
        cases hcoerces
  | notObject name fieldDefs isOneOf description valueNode hplain htype hobject =>
      exact absurd h.1 (not_literalConforms_notObject hplain htype hobject)
  | leaf name valueNode hplain hleaf =>
      obtain rfl := eq_named_of_safe hsafe
      obtain ⟨result, hresult⟩ := (literalCoercible_leaf_iff hplain hleaf).mp h
      obtain ⟨result', hresult', _⟩ :=
        hkeeps.leafLiterals name valueNode _ _ result hplain hresult
      exact (literalCoercible_leaf_iff hplain
        (not_inputObject_of_leafInputLiteral hresult')).mpr ⟨result', hresult'⟩

end Kept

/-! ## Arguments -/

section Arguments

variable (types : InputTypes) (depth : ℕ) (variableValues : Option VariableValues)
variable (fragmentVariableValues : Option FragmentVariableValues)

/-- The argument values of a field or directive. -/
def coerceArgumentValues (args : Dict Text GraphQLArgument)
    (arguments : List (Text × ValueNode)) : Except ArgumentError (Dict Text Value) :=
  (inputDefinitions args).foldlM (fun coercedValues arg =>
    coerceArgumentValue types depth variableValues fragmentVariableValues coercedValues
      arg.1 arg.2 (argumentNamed arguments arg.1)) Dict.empty

/-- The arguments are all defined, and their values can be coerced. -/
def AcceptsArguments (args : Dict Text GraphQLArgument)
    (arguments : List (Text × ValueNode)) : Prop :=
  (∀ argument ∈ arguments, (args.get argument.1).isSome) ∧
  ∃ coercedValues, coerceArgumentValues types depth variableValues
    fragmentVariableValues args arguments = .ok coercedValues

/-- What is asked of an argument in order to coerce it. -/
def ArgumentCoercible (argDef : InputDefinition) (argumentNode : Option ValueNode) :
    Prop :=
  ((∀ valueNode, argumentNode = some valueNode →
      isMissingVariable valueNode variableValues fragmentVariableValues) →
    isRequiredArgument argDef = false) ∧
  ∀ valueNode, argumentNode = some valueNode →
    isMissingVariable valueNode variableValues fragmentVariableValues = false →
    LiteralCoercible types variableValues fragmentVariableValues valueNode argDef.type

/-- The arguments have input types and valid default values. -/
def ValidArguments (args : Dict Text GraphQLArgument) : Prop :=
  ∀ name arg, args.get name = some arg → types.schema.isInputType arg.type ∧
    ∃ value, GraphqlCore.coerceDefaultValue types (depth + 1) arg.toInputDefinition =
      .ok value

variable {types depth variableValues fragmentVariableValues}

theorem exists_maybeUseDefaultArgument {argDef : InputDefinition} {value : Option Value}
    (h : GraphqlCore.coerceDefaultValue types (depth + 1) argDef = .ok value)
    (coercedValues : Dict Text Value) (name : Text) :
    ∃ d, maybeUseDefaultArgument types depth coercedValues name argDef = .ok d :=
  ⟨_, maybeUseDefaultArgument_eq_ok.mpr ⟨value, h, rfl⟩⟩

theorem exists_coerceArgumentValue_iff (hvalid : ValidInputTypes types depth)
    {argDef : InputDefinition} (hinput : types.schema.isInputType argDef.type)
    (hdefault : ∃ value,
      GraphqlCore.coerceDefaultValue types (depth + 1) argDef = .ok value)
    (coercedValues : Dict Text Value) (argName : Text)
    (argumentNode : Option ValueNode) :
    (∃ d, coerceArgumentValue types depth variableValues fragmentVariableValues
        coercedValues argName argDef argumentNode = .ok d) ↔
      ArgumentCoercible types variableValues fragmentVariableValues argDef
        argumentNode := by
  obtain ⟨value, hdefault⟩ := hdefault
  have hused := exists_maybeUseDefaultArgument hdefault coercedValues
    (argDef.outNameOr argName)
  unfold coerceArgumentValue ArgumentCoercible
  cases argumentNode with
  | none =>
      simp only
      split
      · next hrequired => simp [hrequired]
      · next hrequired => simpa [hrequired] using hused
  | some valueNode =>
      have hsettles := @coerceInputLiteral_settles types depth variableValues
        fragmentVariableValues hvalid valueNode argDef.type hinput
      simp only [Option.some.injEq, forall_eq']
      split
      · next homitted =>
          rw [Bool.and_eq_true, Bool.not_eq_true'] at homitted
          simpa [homitted.1, homitted.2] using hused
      · next hprovided =>
          cases hcoerced : GraphqlCore.coerceInputLiteral types
              (GraphqlCore.coerceDefaultValue types depth) variableValues
              fragmentVariableValues valueNode argDef.type with
          | ok coercedValue =>
              obtain ⟨hcoercible, hgiven⟩ := hsettles.of_ok hcoerced
              simp [hgiven, hcoercible]
          | error stop =>
              rw [hcoerced] at hsettles
              obtain ⟨rfl, hnot⟩ := hsettles
              constructor
              · rintro ⟨d, hd⟩
                simp only at hd
                split at hd <;> cases hd
              · rintro ⟨hoptional, hcoercible⟩
                cases hmissing : isMissingVariable valueNode variableValues
                    fragmentVariableValues with
                | true => simp [hmissing, hoptional hmissing] at hprovided
                | false => exact absurd ⟨hcoercible hmissing, hmissing⟩ hnot

/-- A loop whose steps succeed independently of the state. -/
theorem exists_foldlM_ok {σ ε α : Type} {f : σ → α → Except ε σ} {accepted : α → Prop}
    {l : List α} (h : ∀ a ∈ l, ∀ s, (∃ s', f s a = .ok s') ↔ accepted a) (s : σ) :
    (∃ s', l.foldlM f s = .ok s') ↔ ∀ a ∈ l, accepted a := by
  induction l generalizing s with
  | nil => simp [pure, Except.pure]
  | cons a rest ih =>
      have hrest := ih fun b hmem => h b (List.mem_cons_of_mem a hmem)
      rw [List.foldlM_cons, List.forall_mem_cons, ← h a List.mem_cons_self s]
      constructor
      · rintro ⟨s', hs'⟩
        obtain ⟨s₁, hfirst, hs'⟩ := bind_eq_ok.mp hs'
        exact ⟨⟨s₁, hfirst⟩, (hrest s₁).mp ⟨s', hs'⟩⟩
      · rintro ⟨⟨s₁, hfirst⟩, hall⟩
        obtain ⟨s', hs'⟩ := (hrest s₁).mpr hall
        exact ⟨s', bind_eq_ok.mpr ⟨s₁, hfirst, hs'⟩⟩

theorem acceptsArguments_iff (hvalid : ValidInputTypes types depth)
    {args : Dict Text GraphQLArgument} (hargs : ValidArguments types depth args)
    {arguments : List (Text × ValueNode)} :
    AcceptsArguments types depth variableValues fragmentVariableValues args arguments ↔
      (∀ argument ∈ arguments, (args.get argument.1).isSome) ∧
      ∀ name arg, args.get name = some arg →
        ArgumentCoercible types variableValues fragmentVariableValues
          arg.toInputDefinition (argumentNamed arguments name) := by
  apply and_congr_right
  intro _
  have hsteps : ∀ entry ∈ inputDefinitions args, ∀ coercedValues,
      (∃ d, coerceArgumentValue types depth variableValues fragmentVariableValues
        coercedValues entry.1 entry.2 (argumentNamed arguments entry.1) = .ok d) ↔
      ArgumentCoercible types variableValues fragmentVariableValues entry.2
        (argumentNamed arguments entry.1) := by
    intro entry hmem coercedValues
    obtain ⟨⟨name, arg⟩, harg, rfl⟩ := List.mem_map.mp hmem
    obtain ⟨hinput, hdefault⟩ := hargs name arg (Dict.mem_items_iff.mp harg)
    exact exists_coerceArgumentValue_iff hvalid hinput hdefault coercedValues name _
  apply (exists_foldlM_ok hsteps Dict.empty).trans
  unfold inputDefinitions
  simp only [List.forall_mem_map]
  constructor
  · exact fun h name arg harg => h (name, arg) (Dict.mem_items_iff.mpr harg)
  · exact fun h entry hmem => h entry.1 entry.2 (Dict.mem_items_iff.mp hmem)

theorem argumentNamed_mem {arguments : List (Text × ValueNode)} {name : Text}
    {valueNode : ValueNode} (h : argumentNamed arguments name = some valueNode) :
    (name, valueNode) ∈ arguments :=
  List.mem_reverse.mp (Dict.mem_of_find h)

end Arguments

/-- The argument lists that are accepted stay so. -/
theorem KeepsInputTypes.acceptsArguments {old new : InputTypes}
    (hkeeps : KeepsInputTypes old new) {depth depth' : ℕ}
    {variableValues : Option VariableValues}
    {fragmentVariableValues : Option FragmentVariableValues}
    {args args' : Dict Text GraphQLArgument} (hkept : KeepsInputs args args')
    (hold : ValidInputTypes old depth) (hargs : ValidArguments old depth args)
    (hnew : ValidInputTypes new depth') (hargs' : ValidArguments new depth' args')
    {arguments : List (Text × ValueNode)}
    (h : AcceptsArguments old depth variableValues fragmentVariableValues args
      arguments) :
    AcceptsArguments new depth' variableValues fragmentVariableValues args'
      arguments := by
  rw [acceptsArguments_iff hold hargs] at h
  rw [acceptsArguments_iff hnew hargs']
  obtain ⟨hdefined, hcoercible⟩ := h
  constructor
  · intro argument hmem
    obtain ⟨arg, harg⟩ := Option.isSome_iff_exists.mp (hdefined argument hmem)
    obtain ⟨arg', harg', _⟩ := hkept.persists _ _ harg
    rw [harg']
    rfl
  · intro name arg' harg'
    cases harg : args.get name with
    | none =>
        refine ⟨fun _ => hkept.added _ _ harg' harg, fun valueNode hnode => ?_⟩
        have hknown := hdefined _ (argumentNamed_mem hnode)
        rw [harg] at hknown
        cases hknown
    | some arg =>
        obtain ⟨arg'', harg'', hsafe, hrequired⟩ := hkept.persists _ _ harg
        rw [harg'] at harg''
        cases harg''
        have hbefore := hcoercible name arg harg
        constructor
        · intro hmissing
          have hoptional := hbefore.1 hmissing
          by_contra hnot
          rw [Bool.not_eq_false] at hnot
          rw [hrequired hnot] at hoptional
          cases hoptional
        · exact fun valueNode hnode hgiven =>
            hkeeps.literalCoercible hsafe (hbefore.2 valueNode hnode hgiven)

end GraphqlCore
