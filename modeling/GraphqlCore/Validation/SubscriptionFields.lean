import GraphqlCore.Execution.DeferCoercion
import GraphqlCore.Validation.FragmentTotality

/-!
# The fields of subscriptions

`SingleFieldSubscriptionsRule` collects the fields of a subscription as the executor
does, without any variables.  This raises an error for an argument of `@defer` that is
not of its type, which an earlier rule need not have reported.  With the results on the
other rules this gives the documents for which all of them end.
-/

namespace GraphqlCore.Validation

open Language Execution

namespace SingleFieldSubscriptionsRule

/-! ## Literals of scalar types -/

section Literals

variable {types : InputTypes} {variableValues : Option VariableValues}
  {fragmentVariableValues : Option FragmentVariableValues}
  {valueNode : ValueNode} (hvariable : ∀ node, valueNode ≠ .variable node)

include hvariable

/-- Replacing the variables of a literal keeps its kind. -/
theorem replaceVariables_kind {constant : ValueNode}
    (h : replaceVariables types valueNode variableValues fragmentVariableValues =
      .ok constant) :
    constant = valueNode ∨
      (∃ values loc values' loc', valueNode = .list values loc ∧
        constant = .list values' loc') ∨
      ∃ fields loc fields' loc', valueNode = .object fields loc ∧
        constant = .object fields' loc' := by
  cases valueNode with
  | «variable» node => exact absurd rfl (hvariable node)
  | list values loc =>
      rw [replaceVariables] at h
      obtain ⟨values', -, hconstant⟩ := bind_eq_ok.mp h
      exact .inr (.inl ⟨_, _, _, _, rfl, (Except.ok.inj hconstant).symm⟩)
  | object fields loc =>
      rw [replaceVariables] at h
      obtain ⟨fields', -, hconstant⟩ := bind_eq_ok.mp h
      exact .inr (.inr ⟨_, _, _, _, rfl, (Except.ok.inj hconstant).symm⟩)
  | int | float | string | boolean | null | enum =>
      simp only [replaceVariables] at h
      exact .inl (Except.ok.inj h).symm

theorem coerceInputLiteral_scalar {coerceDefault : DefaultCoercion} {name : Text}
    {description specifiedByUrl : Option Text}
    (htype : types.schema.getType name = some (.scalar description specifiedByUrl))
    (hnull : ∀ loc, valueNode ≠ .null loc) :
    GraphqlCore.coerceInputLiteral types coerceDefault variableValues
        fragmentVariableValues valueNode (.named name) =
      finishLeaf name (leafInputLiteral types name valueNode variableValues
        fragmentVariableValues) := by
  rw [GraphqlCore.coerceInputLiteral]
  · rw [htype]
  · exact hvariable
  · exact hnull

/-- A scalar that accepts neither lists nor objects coerces the literals that it accepts
without any replacement. -/
theorem finishLeaf_isSome_iff {name : Text} {description specifiedByUrl : Option Text}
    {coerce : ValueNode → Outcome}
    (htype : types.schema.getType name = some (.scalar description specifiedByUrl))
    (hcoerce : (types.scalars name).coerceInputLiteral = some coerce)
    (hlist : ∀ values loc, (coerce (.list values loc)).toOption = none)
    (hobject : ∀ fields loc, (coerce (.object fields loc)).toOption = none) :
    (finishLeaf name (leafInputLiteral types name valueNode variableValues
        fragmentVariableValues)).toOption.isSome =
      (coerce valueNode).toOption.isSome := by
  have hfinish : ∀ outcome : Outcome,
      (finishLeaf name (some outcome)).toOption.isSome = outcome.toOption.isSome := by
    intro outcome
    cases outcome <;> rfl
  simp only [leafInputLiteral, htype, hcoerce, hfinish]
  cases hreplaced : replaceVariables types valueNode variableValues
      fragmentVariableValues with
  | ok constant =>
      rcases replaceVariables_kind hvariable hreplaced with rfl | hkind | hkind
      · rfl
      · obtain ⟨_, _, _, _, rfl, rfl⟩ := hkind
        simp only [hlist]
      · obtain ⟨_, _, _, _, rfl, rfl⟩ := hkind
        simp only [hobject]
  | error message =>
      cases valueNode with
      | «variable» node => exact absurd rfl (hvariable node)
      | list values loc =>
          rw [hlist]
          rfl
      | object fields loc =>
          rw [hobject]
          rfl
      | int | float | string | boolean | null | enum =>
          simp only [replaceVariables] at hreplaced
          cases hreplaced

end Literals

/-! ## The arguments of `@defer` -/

def acceptsBoolean : ValueNode → Bool
  | .variable _ | .boolean .. => true
  | _ => false

def acceptsString : ValueNode → Bool
  | .variable _ | .string _ | .null _ => true
  | _ => false

/-- The arguments of `@defer`, if it is there, are variables or literals of their types. -/
def deferIsTyped (directives : Option (List DirectiveNode)) : Bool :=
  match findDirective directives graphQLDeferDirective.name with
  | none => true
  | some directive =>
      (argumentNamed (namedArguments directive) (str "if")).all acceptsBoolean &&
        (argumentNamed (namedArguments directive) (str "label")).all acceptsString

section Arguments

variable {valueNode : ValueNode}

theorem coerceInputLiteral_boolean (hvariable : ∀ node, valueNode ≠ .variable node) :
    ((coercionOf directiveArgumentTypes 0).coerceInputLiteral valueNode (.nonNull boolean)
      (some noVariables) none).isSome = acceptsBoolean valueNode := by
  by_cases hnull : ∃ loc, valueNode = .null loc
  · obtain ⟨loc, rfl⟩ := hnull
    simp [coercionOf, GraphqlCore.coerceInputLiteral, boolean, acceptsBoolean, Except.toOption]
  · rw [not_exists] at hnull
    have htype : directiveArgumentTypes.schema.getType (str "Boolean") =
        some graphQLBoolean := rfl
    have hcoerce : (directiveArgumentTypes.scalars (str "Boolean")).coerceInputLiteral =
        some parseBooleanLiteral := rfl
    unfold coercionOf
    simp only
    rw [GraphqlCore.coerceInputLiteral, boolean,
      SingleFieldSubscriptionsRule.coerceInputLiteral_scalar hvariable htype hnull,
      finishLeaf_isSome_iff hvariable htype hcoerce (fun _ _ => rfl) (fun _ _ => rfl)]
    · cases valueNode <;> first | rfl | exact absurd rfl (hvariable _)
    · exact hvariable
    · exact hnull

theorem coerceInputLiteral_string (hvariable : ∀ node, valueNode ≠ .variable node) :
    ((coercionOf directiveArgumentTypes 0).coerceInputLiteral valueNode
      (.named (str "String")) (some noVariables) none).isSome =
      acceptsString valueNode := by
  by_cases hnull : ∃ loc, valueNode = .null loc
  · obtain ⟨loc, rfl⟩ := hnull
    simp [coercionOf, GraphqlCore.coerceInputLiteral, acceptsString, Except.toOption]
  · rw [not_exists] at hnull
    have htype : directiveArgumentTypes.schema.getType (str "String") =
        some graphQLString := rfl
    have hcoerce : (directiveArgumentTypes.scalars (str "String")).coerceInputLiteral =
        some parseStringLiteral := rfl
    unfold coercionOf
    simp only
    rw [coerceInputLiteral_scalar hvariable htype hnull,
      finishLeaf_isSome_iff hvariable htype hcoerce (fun _ _ => rfl) (fun _ _ => rfl)]
    cases valueNode <;> first | rfl | exact absurd rfl (hvariable _) | exact absurd rfl (hnull _)

/-- Without variables, an optional argument is coerced if it is left out, a variable, or
a literal that is coerced. -/
theorem coerceArgument_eq_ok_iff {coercion : InputCoercion} {d : Dict Text Value}
    {argName : Text} {argDef : InputDefinition} (hrequired : isRequiredArgument argDef = false)
    (hdefault : argDef.default = none) {accepts : ValueNode → Bool}
    (hvariable : ∀ node, accepts (.variable node) = true)
    (hliteral : ∀ valueNode, (∀ node, valueNode ≠ .variable node) →
      (coercion.coerceInputLiteral valueNode argDef.type (some noVariables) none).isSome =
        accepts valueNode) (argumentNode : Option ValueNode) :
    (∃ d', coerceArgument coercion noVariables none d argName argDef argumentNode =
      .ok d') ↔ argumentNode.all accepts := by
  have huse : ∃ d', maybeUseDefaultValue coercion d argName argDef = .ok d' := by
    simp only [maybeUseDefaultValue, Execution.coerceDefaultValue, hdefault]
    cases argDef.defaultValue <;> exact ⟨_, rfl⟩
  unfold coerceArgument
  cases argumentNode with
  | none => simpa [hrequired] using huse
  | some valueNode =>
      by_cases hnode : ∃ node, valueNode = .variable node
      · obtain ⟨node, rfl⟩ := hnode
        have hprovided : isProvided noVariables none node.name.value = false := rfl
        simpa [hrequired, hprovided, hvariable] using huse
      · rw [not_exists] at hnode
        have hliteral := hliteral valueNode hnode
        cases hvalue : coercion.coerceInputLiteral valueNode argDef.type
            (some noVariables) none with
        | none =>
            rw [hvalue] at hliteral
            cases valueNode <;> simp_all
        | some value =>
            rw [hvalue] at hliteral
            cases valueNode <;> simp_all

end Arguments

/-- The arguments of the directive, of which the second has no default value. -/
theorem inputDefinitions_defer : inputDefinitions graphQLDeferDirective.args =
    [(str "if", { type := .nonNull boolean, defaultValue := some (.bool true) }),
      (str "label", { type := .named (str "String") })] := rfl

/-! ## The rule -/

variable {context : ValidationContext} {subscriptionType : Text}

/-- The arguments are coerced exactly if they have the right types. -/
theorem coercesDefer_iff (directives : Option (List DirectiveNode)) :
    (collectContext context subscriptionType).CoercesDefer directives ↔
      deferIsTyped directives := by
  have hvalues : (collectContext context subscriptionType).CoercesDefer directives ↔
      ∃ values, getDirectiveValues (coercionOf directiveArgumentTypes 0)
        graphQLDeferDirective directives noVariables none = .ok values := by
    change (∃ label, (getDirectiveValues (coercionOf directiveArgumentTypes 0)
      graphQLDeferDirective directives noVariables none >>= _) = .ok label) ↔ _
    constructor
    · rintro ⟨label, hrun⟩
      obtain ⟨values, hvalues, -⟩ := bind_eq_ok.mp hrun
      exact ⟨values, hvalues⟩
    · rintro ⟨values, hvalues⟩
      rw [hvalues]
      cases values with
      | none => exact ⟨_, rfl⟩
      | some values =>
          dsimp only [bind, Except.bind]
          split
          · exact ⟨_, rfl⟩
          · split <;> exact ⟨_, rfl⟩
  rw [hvalues, getDirectiveValues, deferIsTyped]
  cases findDirective directives graphQLDeferDirective.name with
  | none => simp
  | some directive =>
      have hif (d : Dict Text Value) := @coerceArgument_eq_ok_iff
        (coercionOf directiveArgumentTypes 0) d (str "if")
        { type := .nonNull boolean, defaultValue := some (.bool true) } rfl rfl
        acceptsBoolean (fun _ => rfl) (fun _ h => coerceInputLiteral_boolean h)
        (argumentNamed (namedArguments directive) (str "if"))
      have hlabel (d : Dict Text Value) := @coerceArgument_eq_ok_iff
        (coercionOf directiveArgumentTypes 0) d (str "label")
        { type := .named (str "String") } rfl rfl
        acceptsString (fun _ => rfl) (fun _ h => coerceInputLiteral_string h)
        (argumentNamed (namedArguments directive) (str "label"))
      rw [Bool.and_eq_true, ← hif Dict.empty]
      simp only [getArgumentValues, inputDefinitions_defer, List.foldlM_cons,
        List.foldlM_nil]
      constructor
      · rintro ⟨values, hrun⟩
        obtain ⟨d, hd, -⟩ := bind_eq_ok.mp hrun
        obtain ⟨d', hfirst, hrest⟩ := bind_eq_ok.mp hd
        obtain ⟨d'', hsecond, -⟩ := bind_eq_ok.mp hrest
        exact ⟨⟨d', hfirst⟩, (hlabel d').mp ⟨d'', hsecond⟩⟩
      · rintro ⟨⟨d', hfirst⟩, htyped⟩
        obtain ⟨d'', hsecond⟩ := (hlabel d').mpr htyped
        rw [hfirst]
        refine ⟨some d'', bind_eq_ok.mpr ⟨d'', bind_eq_ok.mpr ⟨d', rfl, ?_⟩, rfl⟩⟩
        rw [hsecond]
        rfl

theorem noFragmentVariables (context : ValidationContext) (subscriptionType : Text) :
    (collectContext context subscriptionType).NoFragmentVariables := by
  have hfold : ∀ (definitions : List FragmentDefinitionNode)
      (fragments : Dict Text FragmentDetails),
      (∀ name fragment, fragments.get name = some fragment →
        fragment.variableSignatures = []) →
      ∀ name fragment, (definitions.foldl (fun fragments definition =>
        fragments.set definition.name.value ({ definition := definition } : FragmentDetails))
        fragments).get name = some fragment → fragment.variableSignatures = [] := by
    intro definitions
    induction definitions with
    | nil => exact fun _ hfragments => hfragments
    | cons definition rest ih =>
        intro fragments hfragments
        refine ih _ fun name fragment hget => ?_
        rw [Dict.get_set] at hget
        split at hget
        · rw [← Option.some.inj hget]
        · exact hfragments name fragment hget
  exact hfold _ _ (fun _ _ hempty => by cases hempty)

/-- In the fields of a subscription all arguments of `@defer` are of their types. -/
def OperationTyped (context : ValidationContext) (operation : OperationDefinitionNode) :
    Prop :=
  operation.operation = .subscription →
    ∀ subscriptionType, context.schema.subscriptionType = some subscriptionType →
      ∀ directives, (collectContext context subscriptionType).Deferrable
        operation.selectionSet.selections directives → deferIsTyped directives

theorem enter_iff (operation : OperationDefinitionNode) :
    (∃ errors, enterOperationDefinition context operation = .ok errors) ↔
      OperationTyped context operation := by
  unfold enterOperationDefinition OperationTyped
  by_cases hsubscription : operation.operation = .subscription
  · simp only [hsubscription, ne_eq, not_true_eq_false, if_false, forall_const]
    cases context.schema.subscriptionType with
    | none => simp
    | some subscriptionType =>
        have hcollect := collectFields_eq_ok_iff
          (noFragmentVariables context subscriptionType) rfl operation.selectionSet
        have hnot := collectFields_not_tooDeep
          (collectContext context subscriptionType) operation.selectionSet
        simp only [AllCoerce, coercesDefer_iff] at hcollect
        simp only [Option.some.injEq, forall_eq', ← hcollect]
        cases collectFields (collectContext context subscriptionType)
            operation.selectionSet with
        | ok c =>
            simp only [Except.ok.injEq, exists_eq', iff_true]
            split <;> exact ⟨_, rfl⟩
        | error failure => cases failure <;> simp
  · simp [hsubscription]

/-- The rule ends exactly if no subscription has an ill-typed argument of `@defer` among
its fields. -/
theorem completes_iff : Completes (fun _ => rule context) ↔
    ∀ operation ∈ operationDefinitions context.document,
      OperationTyped context operation := by
  have hcompletes : Completes (fun _ => rule context) ↔ ∃ errors, rule context = .ok errors :=
    ⟨fun ⟨_, h⟩ => h, fun h => ⟨0, h⟩⟩
  rw [hcompletes, rule, enterOperations_eq_ok_iff]
  simp only [enter_iff]

end SingleFieldSubscriptionsRule

/-! ## All rules that follow fragments -/

/-- Each of the rules that follow fragments ends with a list of errors. -/
structure FragmentRulesTotal (schema : GraphQLSchema) (document : DocumentNode) : Prop where
  singleFieldSubscriptions :
    Completes fun _ => SingleFieldSubscriptionsRule.rule ⟨schema, document⟩
  deferStreamDirectiveOnRootField :
    Completes (DeferStreamDirectiveOnRootField.rule ⟨schema, document⟩)
  deferStreamDirectiveOnValidOperations :
    Completes (DeferStreamDirectiveOnValidOperationsRule.rule ⟨schema, document⟩)
  noFragmentCycles : Completes (NoFragmentCyclesRule.rule ⟨schema, document⟩)
  maxIntrospectionDepth : Completes (MaxIntrospectionDepthRule.rule ⟨schema, document⟩)

/-- **Totality.**  All rules that follow fragments end with a list of errors exactly if
the root fields of no mutation or subscription spread a fragment that leads into a cycle
of such spreads, and no subscription has an ill-typed argument of `@defer` among its
fields. -/
theorem fragmentRulesTotal_iff (schema : GraphQLSchema) (document : DocumentNode) :
    FragmentRulesTotal schema document ↔
      ∀ operation ∈ operationDefinitions document,
        DeferStreamDirectiveOnRootField.OperationNotLooping ⟨schema, document⟩ operation ∧
        SingleFieldSubscriptionsRule.OperationTyped ⟨schema, document⟩ operation := by
  constructor
  · intro h operation hoperation
    exact ⟨DeferStreamDirectiveOnRootField.completes_iff.mp
        h.deferStreamDirectiveOnRootField operation hoperation,
      SingleFieldSubscriptionsRule.completes_iff.mp
        h.singleFieldSubscriptions operation hoperation⟩
  · intro h
    constructor
    · exact SingleFieldSubscriptionsRule.completes_iff.mpr fun operation hoperation =>
        (h operation hoperation).2
    · exact DeferStreamDirectiveOnRootField.completes_iff.mpr fun operation hoperation =>
        (h operation hoperation).1
    · exact DeferStreamDirectiveOnValidOperationsRule.completes _
    · exact NoFragmentCyclesRule.completes _
    · exact MaxIntrospectionDepthRule.completes _

/-! ## Documents on which a rule does not end -/

/-- The root types `Query`, `Mutation` and `Subscription`, each with a field `a`. -/
def rootsSchema : GraphQLSchema :=
  let root : GraphQLNamedType :=
    .object (Dict.empty.set (str "a") { type := .named (str "Int") }) []
  { typeMap := .ofList [(str "Int", .scalar), (str "Query", root), (str "Mutation", root),
      (str "Subscription", root)]
    queryType := some (str "Query")
    mutationType := some (str "Mutation")
    subscriptionType := some (str "Subscription") }

def operationOn (operation : OperationType) (selections : List SelectionNode) :
    OperationDefinitionNode :=
  { operation := operation, selectionSet := { selections := selections, loc := none } }

def spreadF : FragmentSpreadNode := { name := { value := str "F" } }

/-- `fragment F on Mutation { ...F }` -/
def fragmentF : FragmentDefinitionNode where
  name := { value := str "F" }
  typeCondition := { name := { value := str "Mutation" } }
  selectionSet := { selections := [.fragmentSpread spreadF], loc := none }

/-- `mutation { ...F }`, with this fragment. -/
def cyclicMutation : DocumentNode where
  definitions := [.operation (operationOn .mutation [.fragmentSpread spreadF]),
    .fragment fragmentF]

/-- `@defer(if: null)` -/
def deferNull : DirectiveNode where
  name := { value := str "defer" }
  arguments := some [{ name := { value := str "if" }, value := .null none }]

/-- `... @defer(if: null) { a }` -/
def deferNullFragment : InlineFragmentNode where
  typeCondition := none
  directives := some [deferNull]
  selectionSet := { loc := none, selections := [.field {
    fieldAlias := none, name := { value := str "a" }, arguments := none
    directives := none, selectionSet := none, loc := none }] }
  loc := none

/-- `subscription { ... @defer(if: null) { a } }` -/
def deferNullSubscription : DocumentNode where
  definitions := [.operation (operationOn .subscription [.inlineFragment deferNullFragment])]

/-- The rule for root fields follows a fragment that spreads itself for ever. -/
theorem not_completes_cyclicMutation :
    ¬ Completes (DeferStreamDirectiveOnRootField.rule ⟨rootsSchema, cyclicMutation⟩) := by
  rw [DeferStreamDirectiveOnRootField.completes_iff]
  intro h
  have hstep : DeferStreamDirectiveOnRootField.SpreadsDirectly
      ⟨rootsSchema, cyclicMutation⟩ (str "F") (str "F") :=
    ⟨fragmentF, rfl, spreadF, List.mem_singleton_self _, rfl⟩
  exact h _ List.mem_cons_self (by decide) rfl spreadF (List.mem_singleton_self _)
    ⟨str "F", .refl, .single hstep⟩

/-- The rule for subscriptions raises the error of the executor for `if: null`. -/
theorem not_completes_deferNullSubscription :
    ¬ Completes (fun _ =>
      SingleFieldSubscriptionsRule.rule ⟨rootsSchema, deferNullSubscription⟩) := by
  rw [SingleFieldSubscriptionsRule.completes_iff]
  intro h
  have htyped := h _ List.mem_cons_self rfl (str "Subscription") rfl _
    (@CollectFieldsContext.Deferrable.inlineFragment _ _ deferNullFragment
      (by decide +kernel) (by decide +kernel) rfl)
  exact absurd htyped (by decide +kernel)

theorem not_fragmentRulesTotal :
    validateSchema rootsSchema = [] ∧
      ¬ FragmentRulesTotal rootsSchema cyclicMutation ∧
      ¬ FragmentRulesTotal rootsSchema deferNullSubscription :=
  ⟨by decide +kernel,
    fun h => not_completes_cyclicMutation h.deferStreamDirectiveOnRootField,
    fun h => not_completes_deferNullSubscription h.singleFieldSubscriptions⟩

end GraphqlCore.Validation
