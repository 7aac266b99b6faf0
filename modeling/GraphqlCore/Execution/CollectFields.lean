import GraphqlCore.Execution.Values
import Mathlib.Algebra.Order.BigOperators.Group.List
import Mathlib.Algebra.Order.Ring.Nat

/-!
# Collecting fields

The functions of `execution/collect_fields.py`.  The argument
`hide_suggestions`, which only changes the texts of errors, and the operation,
of which only the selection set is read, are left out of the context.
-/

set_option linter.unusedSectionVars false

namespace GraphqlCore.Execution

open Language

/-- An optionally labelled linked list of defer usages. -/
structure DeferUsage where
  label : Value
  parentDeferUsage : Option DeferUsage

structure FieldDetails where
  node : FieldNode
  deferUsage : Option DeferUsage
  fragmentVariableValues : Option FragmentVariableValues := none

structure FragmentDetails where
  definition : FragmentDefinitionNode
  variableSignatures : List (Text × GraphQLVariableSignature) := []

structure CollectFieldsContext where
  schema : GraphQLSchema
  fragments : Dict Text FragmentDetails
  variableValues : VariableValues
  runtimeType : Text
  forbidSkipAndInclude : Bool := false
  coercion : InputCoercion

/-- The dictionaries and lists that are filled while fields are collected. -/
structure Collection where
  groupedFieldSet : Dict Text (List FieldDetails) := Dict.empty
  newDeferUsages : List DeferUsage := []
  visitedFragmentNames : Dict Text Bool := Dict.empty
  forbiddenDirectiveInstances : List DirectiveNode := []

/-- Why collecting ends early: an error is raised, or the fragments are nested
deeper than the model follows them (see `collectFields_not_tooDeep`). -/
inductive CollectFailure
  | raised (error : GraphQLError)
  | tooDeep

namespace CollectFieldsContext

variable (context : CollectFieldsContext)

/-- The values of the first directive of the definition. -/
def directiveValues (fragmentVariableValues : Option FragmentVariableValues)
    (directiveDef : GraphQLDirective) (directive : DirectiveNode) :
    Except GraphQLError (Dict Text Value) :=
  getArgumentValues context.coercion (inputDefinitions directiveDef.args)
    (namedArguments directive) context.variableValues fragmentVariableValues

/-- The part of `should_include_node` that reads `@include`. -/
def passesInclude (fragmentVariableValues : Option FragmentVariableValues)
    (directives : Option (List DirectiveNode)) :
    Except GraphQLError (Bool × List DirectiveNode) :=
  match findDirective directives graphQLIncludeDirective.name with
  | none => .ok (true, [])
  | some directive =>
      if context.forbidSkipAndInclude then .ok (false, [directive])
      else do
        let values ← context.directiveValues fragmentVariableValues
          graphQLIncludeDirective directive
        return (((values.get (str "if")).map Value.truthy).getD true, [])

/-- Should the node be included?  The answer comes with the forbidden directives
that were found. -/
def shouldIncludeNode (fragmentVariableValues : Option FragmentVariableValues)
    (directives : Option (List DirectiveNode)) :
    Except GraphQLError (Bool × List DirectiveNode) :=
  match findDirective directives graphQLSkipDirective.name with
  | none => context.passesInclude fragmentVariableValues directives
  | some directive =>
      if context.forbidSkipAndInclude then .ok (false, [directive])
      else do
        let values ← context.directiveValues fragmentVariableValues
          graphQLSkipDirective directive
        if ((values.get (str "if")).map Value.truthy).getD false then
          return (false, [])
        else context.passesInclude fragmentVariableValues directives

/-- The label of the `@defer` directive, if there is one and it is active. -/
def activeDefer (fragmentVariableValues : Option FragmentVariableValues)
    (directives : Option (List DirectiveNode)) :
    Except GraphQLError (Option Value) := do
  let defer ← getDirectiveValues context.coercion graphQLDeferDirective
    directives context.variableValues fragmentVariableValues
  match defer with
  | none => return none
  | some values =>
      if values.items.isEmpty then return none
      else match values.get (str "if") with
        | some (.bool false) => return none
        | _ => return some ((values.get (str "label")).getD .none)

def getDeferUsage (fragmentVariableValues : Option FragmentVariableValues)
    (directives : Option (List DirectiveNode))
    (parentDeferUsage : Option DeferUsage) :
    Except GraphQLError (Option DeferUsage) := do
  let label ← context.activeDefer fragmentVariableValues directives
  return label.map fun label =>
    { label := label, parentDeferUsage := parentDeferUsage }

/-- Is a fragment with this type condition applicable to the runtime type? -/
def doesFragmentConditionMatch (typeCondition : Option NamedTypeNode) : Bool :=
  match typeCondition with
  | none => true
  | some node =>
      match context.schema.getType node.name.value with
      | none => false
      | some conditionalType =>
          node.name.value = context.runtimeType ||
            (conditionalType.isAbstractType &&
              context.schema.isSubType node.name.value context.runtimeType)

/-- The fragment variable values in the scope of a spread fragment. -/
def fragmentScope (fragmentVariableValues : Option FragmentVariableValues)
    (spread : FragmentSpreadNode) (fragment : FragmentDetails) :
    Except GraphQLError (Option FragmentVariableValues) :=
  if fragment.variableSignatures.isEmpty then .ok none
  else do
    let values ← getFragmentVariableValues context.coercion spread
      fragment.variableSignatures context.variableValues fragmentVariableValues
    return some values

end CollectFieldsContext

def getFieldEntryKey (node : FieldNode) : Text :=
  match node.fieldAlias with
  | some name => name.value
  | none => node.name.value

namespace Collection

def addField (c : Collection) (details : FieldDetails) : Collection :=
  { c with
    groupedFieldSet := c.groupedFieldSet.set (getFieldEntryKey details.node)
      ((c.groupedFieldSet.get (getFieldEntryKey details.node)).getD [] ++
        [details]) }

def addDeferUsage (c : Collection) (deferUsage : DeferUsage) : Collection :=
  { c with newDeferUsages := c.newDeferUsages ++ [deferUsage] }

def visitFragment (c : Collection) (name : Text) (deferred : Bool) :
    Collection :=
  { c with visitedFragmentNames := c.visitedFragmentNames.set name deferred }

def forbid (c : Collection) (directives : List DirectiveNode) : Collection :=
  { c with
    forbiddenDirectiveInstances := c.forbiddenDirectiveInstances ++ directives }

end Collection

/-- An error of the argument coercion ends the collecting. -/
def raising {α : Type} : Except GraphQLError α → Except CollectFailure α
  | .ok value => .ok value
  | .error error => .error (.raised error)

/-- How the selection set of a spread fragment is collected. -/
abbrev Visit := List SelectionNode → Option DeferUsage →
  Option FragmentVariableValues → Collection → Except CollectFailure Collection

mutual

/-- The body of the loop of `collect_fields_impl`. -/
def collectSelection (context : CollectFieldsContext) (visit : Visit)
    (deferUsage : Option DeferUsage)
    (fragmentVariableValues : Option FragmentVariableValues) :
    SelectionNode → Collection → Except CollectFailure Collection
  | .field node, c => do
      let (included, forbidden) ← raising
        (context.shouldIncludeNode fragmentVariableValues node.directives)
      if included then
        return c.addField { node := node, deferUsage := deferUsage
                            fragmentVariableValues := fragmentVariableValues }
      else return c.forbid forbidden
  | .inlineFragment ⟨typeCondition, directives, ⟨selections, _⟩, _⟩, c => do
      let (included, forbidden) ← raising
        (context.shouldIncludeNode fragmentVariableValues directives)
      if !included then return c.forbid forbidden
      else if !context.doesFragmentConditionMatch typeCondition then return c
      else
        match ← raising (context.getDeferUsage fragmentVariableValues directives
            deferUsage) with
        | none =>
            collectSelections context visit deferUsage fragmentVariableValues
              selections c
        | some newDeferUsage =>
            collectSelections context visit (some newDeferUsage)
              fragmentVariableValues selections (c.addDeferUsage newDeferUsage)
  | .fragmentSpread node, c => do
      let (included, forbidden) ← raising
        (context.shouldIncludeNode fragmentVariableValues node.directives)
      if !included then return c.forbid forbidden
      else match context.fragments.get node.name.value with
        | none => return c
        | some fragment =>
            if !context.doesFragmentConditionMatch
                (some fragment.definition.typeCondition) then return c
            else do
              let newDeferUsage ← raising (context.getDeferUsage
                fragmentVariableValues node.directives deferUsage)
              match newDeferUsage,
                  c.visitedFragmentNames.get node.name.value with
              | none, some false => return c
              | none, _ => do
                  let scope ← raising (context.fragmentScope
                    fragmentVariableValues node fragment)
                  visit fragment.definition.selectionSet.selections deferUsage
                    scope (c.visitFragment node.name.value false)
              | some _, some _ => return c
              | some newDeferUsage, none => do
                  let scope ← raising (context.fragmentScope
                    fragmentVariableValues node fragment)
                  visit fragment.definition.selectionSet.selections
                    (some newDeferUsage) scope
                    ((c.visitFragment node.name.value true).addDeferUsage
                      newDeferUsage)

def collectSelections (context : CollectFieldsContext) (visit : Visit)
    (deferUsage : Option DeferUsage)
    (fragmentVariableValues : Option FragmentVariableValues) :
    List SelectionNode → Collection → Except CollectFailure Collection
  | [], c => return c
  | selection :: rest, c => do
      let c ← collectSelection context visit deferUsage fragmentVariableValues
        selection c
      collectSelections context visit deferUsage fragmentVariableValues rest c

end

/-- Collect the selections, following fragment spreads to the given depth. -/
def collectFieldsImpl (context : CollectFieldsContext) : ℕ → Visit
  | 0 => fun _ _ _ _ => .error .tooDeep
  | depth + 1 => fun selections deferUsage fragmentVariableValues c =>
      collectSelections context (collectFieldsImpl context depth) deferUsage
        fragmentVariableValues selections c

/-- Every fragment is visited at most twice, so spreads are never nested deeper
than this. -/
def CollectFieldsContext.depth (context : CollectFieldsContext) : ℕ :=
  2 * context.fragments.items.length + 1

/-- Collect the fields of the selection set of an operation. -/
def collectFields (context : CollectFieldsContext)
    (selectionSet : SelectionSetNode) : Except CollectFailure Collection :=
  collectFieldsImpl context context.depth selectionSet.selections none none {}

/-! ## Spreads are never nested too deep -/

/-- How often a fragment may still be visited. -/
def visitsLeft : Option Bool → ℕ
  | none => 2
  | some true => 1
  | some false => 0

variable {context : CollectFieldsContext}

def Collection.visitsLeft (context : CollectFieldsContext) (c : Collection) : ℕ :=
  (context.fragments.keys.map fun name =>
    Execution.visitsLeft (c.visitedFragmentNames.get name)).sum

theorem visitFragment_visitsLeft {c : Collection} {name : Text}
    {fragment : FragmentDetails} {deferred : Bool}
    (hfragment : context.fragments.get name = some fragment)
    (hlt : visitsLeft (some deferred) <
      visitsLeft (c.visitedFragmentNames.get name)) :
    (c.visitFragment name deferred).visitsLeft context < c.visitsLeft context := by
  have hname : name ∈ context.fragments.keys := by
    by_contra hnot
    have hnone : context.fragments.get name = none := Dict.find_eq_none hnot
    rw [hfragment] at hnone
    cases hnone
  refine List.sum_lt_sum _ _ (fun other _ => ?_) ⟨name, hname, ?_⟩
  · simp only [Collection.visitFragment, Dict.get_set]
    split
    · next h => exact h ▸ hlt.le
    · exact le_rfl
  · simpa [Collection.visitFragment, Dict.get_set] using hlt

/-- Collecting does not end for its depth, and leaves no more visits. -/
def Bounded (context : CollectFieldsContext) (c : Collection) :
    Except CollectFailure Collection → Prop
  | .ok c' => c'.visitsLeft context ≤ c.visitsLeft context
  | .error (.raised _) => True
  | .error .tooDeep => False

theorem bounded_raising {α : Type} {c : Collection} {x : Except GraphQLError α}
    {f : α → Except CollectFailure Collection}
    (h : ∀ a, Bounded context c (f a)) : Bounded context c (raising x >>= f) := by
  cases x with
  | error error => trivial
  | ok a => exact h a

theorem bounded_bind {c : Collection} {r : Except CollectFailure Collection}
    {f : Collection → Except CollectFailure Collection}
    (h : Bounded context c r)
    (hf : ∀ c', c'.visitsLeft context ≤ c.visitsLeft context →
      Bounded context c' (f c')) : Bounded context c (r >>= f) := by
  cases r with
  | error failure =>
      cases failure with
      | raised error => trivial
      | tooDeep => exact h
  | ok c' =>
      have hf' := hf c' h
      show Bounded context c (f c')
      revert hf'
      generalize f c' = r'
      intro hf'
      cases r' with
      | error failure =>
          cases failure with
          | raised error => trivial
          | tooDeep => exact hf'
      | ok c'' => exact le_trans hf' h

section Selections

variable {visit : Visit} {depth : ℕ}
  (hvisit : ∀ selections usage values c, c.visitsLeft context < depth →
    Bounded context c (visit selections usage values c))

include hvisit

/-- A visited fragment is collected with fewer visits left. -/
theorem bounded_visit {c entered : Collection} {selections : List SelectionNode}
    {usage : Option DeferUsage} {values : Option FragmentVariableValues}
    (hc : c.visitsLeft context ≤ depth)
    (hlt : entered.visitsLeft context < c.visitsLeft context) :
    Bounded context c (visit selections usage values entered) := by
  have h := hvisit selections usage values entered (lt_of_lt_of_le hlt hc)
  revert h
  generalize visit selections usage values entered = r
  intro h
  cases r with
  | error failure =>
      cases failure with
      | raised error => trivial
      | tooDeep => exact h
  | ok c' => exact le_trans h hlt.le

mutual

theorem collectSelection_bounded (usage : Option DeferUsage)
    (values : Option FragmentVariableValues) : ∀ selection c,
    c.visitsLeft context ≤ depth → Bounded context c
      (collectSelection context visit usage values selection c)
  | .field node, c, hc => by
      rw [collectSelection]
      refine bounded_raising fun answer => ?_
      obtain ⟨included, forbidden⟩ := answer
      cases included <;> exact le_refl (c.visitsLeft context)
  | .inlineFragment ⟨typeCondition, directives, ⟨selections, _⟩, _⟩, c, hc => by
      rw [collectSelection]
      refine bounded_raising fun answer => ?_
      obtain ⟨included, forbidden⟩ := answer
      dsimp only
      split
      · exact le_refl (c.visitsLeft context)
      · split
        · exact le_refl (c.visitsLeft context)
        · refine bounded_raising fun newUsage => ?_
          cases newUsage with
          | none => exact collectSelections_bounded usage values selections c hc
          | some newUsage =>
              exact collectSelections_bounded (some newUsage) values selections
                (c.addDeferUsage newUsage) hc
  | .fragmentSpread node, c, hc => by
      rw [collectSelection]
      refine bounded_raising fun answer => ?_
      obtain ⟨included, forbidden⟩ := answer
      dsimp only
      split
      · exact le_refl (c.visitsLeft context)
      · cases hfragment : context.fragments.get node.name.value with
        | none => exact le_refl (c.visitsLeft context)
        | some fragment =>
            dsimp only
            split
            · exact le_refl (c.visitsLeft context)
            · refine bounded_raising fun newUsage => ?_
              have hlt (deferred : Bool) :=
                @visitFragment_visitsLeft context c _ _ deferred hfragment
              cases hvisited : c.visitedFragmentNames.get node.name.value with
              | none =>
                  rw [hvisited] at hlt
                  cases newUsage with
                  | none =>
                      exact bounded_raising fun scope => bounded_visit hvisit hc
                        (hlt false (by decide))
                  | some newUsage =>
                      exact bounded_raising fun scope => bounded_visit hvisit hc
                        (hlt true (by decide))
              | some visitedAsDeferred =>
                  rw [hvisited] at hlt
                  cases newUsage with
                  | some newUsage => exact le_refl (c.visitsLeft context)
                  | none =>
                      cases visitedAsDeferred with
                      | false => exact le_refl (c.visitsLeft context)
                      | true =>
                          exact bounded_raising fun scope =>
                            bounded_visit hvisit hc (hlt false (by decide))

theorem collectSelections_bounded (usage : Option DeferUsage)
    (values : Option FragmentVariableValues) : ∀ selections c,
    c.visitsLeft context ≤ depth → Bounded context c
      (collectSelections context visit usage values selections c)
  | [], c, hc => le_refl (c.visitsLeft context)
  | selection :: rest, c, hc => by
      rw [collectSelections]
      exact bounded_bind (collectSelection_bounded usage values selection c hc)
        fun c' hle => collectSelections_bounded usage values rest c'
          (le_trans hle hc)

end

end Selections

theorem collectFieldsImpl_bounded (depth : ℕ) : ∀ selections usage values c,
    c.visitsLeft context < depth → Bounded context c
      (collectFieldsImpl context depth selections usage values c) := by
  induction depth with
  | zero => exact fun _ _ _ _ hc => absurd hc (Nat.not_lt_zero _)
  | succ depth ih =>
      exact fun selections usage values c hc =>
        collectSelections_bounded ih usage values selections c (Nat.lt_succ_iff.mp hc)

theorem initial_visitsLeft (context : CollectFieldsContext) :
    ({} : Collection).visitsLeft context < context.depth := by
  have hvisits : ({} : Collection).visitsLeft context =
      (context.fragments.keys.map fun _ => 2).sum := rfl
  rw [hvisits, CollectFieldsContext.depth, List.map_const',
    List.sum_replicate_nat, Dict.keys, List.length_map, mul_comm]
  exact Nat.lt_succ_self _

/-- Collecting fields ends with a result or an error that it raises. -/
theorem collectFields_not_tooDeep (context : CollectFieldsContext)
    (selectionSet : SelectionSetNode) :
    collectFields context selectionSet ≠ .error .tooDeep := by
  have h := collectFieldsImpl_bounded context.depth selectionSet.selections none
    none {} (initial_visitsLeft context)
  intro hdeep
  rw [collectFields] at hdeep
  rw [hdeep] at h
  exact h

end GraphqlCore.Execution
