import GraphqlCore.Data.Settles
import GraphqlCore.Execution.CollectFields

/-!
# Deferred response keys

Which response keys are collected outside every defer usage, compared with those
that the selections reach without entering a deferred fragment.
-/

set_option linter.unusedSectionVars false

namespace GraphqlCore.Execution

open Language

namespace CollectFieldsContext

variable (context : CollectFieldsContext)

/-- The node is not skipped. -/
def includes (fragmentVariableValues : Option FragmentVariableValues)
    (directives : Option (List DirectiveNode)) : Bool :=
  match context.shouldIncludeNode fragmentVariableValues directives with
  | .ok (included, _) => included
  | .error _ => false

/-- The fragment carries an active `@defer`. -/
def isDeferred (fragmentVariableValues : Option FragmentVariableValues)
    (directives : Option (List DirectiveNode)) : Bool :=
  match context.activeDefer fragmentVariableValues directives with
  | .ok label => label.isSome
  | .error _ => false

/-- The scope of a spread fragment. -/
def scope (fragmentVariableValues : Option FragmentVariableValues)
    (spread : FragmentSpreadNode) (fragment : FragmentDetails) :
    Option FragmentVariableValues :=
  match context.fragmentScope fragmentVariableValues spread fragment with
  | .ok values => values
  | .error _ => none

/-- The fragment that the spread stands for, if its type condition matches. -/
def applicable (name : Text) : Option FragmentDetails :=
  match context.fragments.get name with
  | none => none
  | some fragment =>
      if context.doesFragmentConditionMatch
          (some fragment.definition.typeCondition) then some fragment
      else none

/-- A field with this response key is reached on a path on which no fragment is
deferred. -/
inductive Reaches :
    Option FragmentVariableValues → List SelectionNode → Text → Prop
  | field {values selections} {node : FieldNode}
      (hmem : .field node ∈ selections)
      (hincluded : context.includes values node.directives) :
      Reaches values selections (getFieldEntryKey node)
  | inlineFragment {values selections key} {node : InlineFragmentNode}
      (hmem : .inlineFragment node ∈ selections)
      (hincluded : context.includes values node.directives)
      (hmatch : context.doesFragmentConditionMatch node.typeCondition)
      (hplain : context.isDeferred values node.directives = false)
      (h : Reaches values node.selectionSet.selections key) :
      Reaches values selections key
  | fragmentSpread {values selections key} {node : FragmentSpreadNode}
      {fragment : FragmentDetails}
      (hmem : .fragmentSpread node ∈ selections)
      (hincluded : context.includes values node.directives)
      (hfragment : context.applicable node.name.value = some fragment)
      (hplain : context.isDeferred values node.directives = false)
      (h : Reaches (context.scope values node fragment)
        fragment.definition.selectionSet.selections key) :
      Reaches values selections key

/-! ## Spreads in document order -/

/-- A spread at which the selections of a fragment are expanded. -/
structure Expansion where
  name : Text
  /-- The spread itself is deferred. -/
  deferred : Bool
  /-- The spread is deferred, or lies in a deferred fragment. -/
  inside : Bool
  scope : Option FragmentVariableValues

/-- Has the fragment been spread before?  If so, only with `@defer`? -/
def spreadBefore (log : List Expansion) (name : Text) : Option Bool :=
  if log.any fun e => e.name = name && !e.deferred then some false
  else if log.any fun e => e.name = name then some true
  else none

/-- A fragment is expanded where it is spread first, and again where it is first
spread without `@defer`. -/
def isFirst (log : List Expansion) (name : Text) (deferred : Bool) : Bool :=
  match spreadBefore log name with
  | none => true
  | some true => !deferred
  | some false => false

mutual

/-- The expansions below a selection, in document order. -/
def expandSelection
    (visit : Bool → Option FragmentVariableValues → List SelectionNode →
      List Expansion → List Expansion)
    (inside : Bool) (values : Option FragmentVariableValues) :
    SelectionNode → List Expansion → List Expansion
  | .field _, log => log
  | .inlineFragment ⟨typeCondition, directives, ⟨selections, _⟩, _⟩, log =>
      if context.includes values directives &&
          context.doesFragmentConditionMatch typeCondition then
        expandSelections visit (inside || context.isDeferred values directives)
          values selections log
      else log
  | .fragmentSpread node, log =>
      match context.applicable node.name.value with
      | none => log
      | some fragment =>
          let deferred := context.isDeferred values node.directives
          if context.includes values node.directives &&
              isFirst log node.name.value deferred then
            visit (inside || deferred) (context.scope values node fragment)
              fragment.definition.selectionSet.selections
              (log ++ [⟨node.name.value, deferred, inside || deferred,
                context.scope values node fragment⟩])
          else log

def expandSelections
    (visit : Bool → Option FragmentVariableValues → List SelectionNode →
      List Expansion → List Expansion)
    (inside : Bool) (values : Option FragmentVariableValues) :
    List SelectionNode → List Expansion → List Expansion
  | [], log => log
  | selection :: rest, log =>
      expandSelections visit inside values rest
        (expandSelection visit inside values selection log)

end

def expand : ℕ → Bool → Option FragmentVariableValues → List SelectionNode →
    List Expansion → List Expansion
  | 0 => fun _ _ _ log => log
  | depth + 1 => context.expandSelections (expand depth)

/-- The spreads at which an operation expands its fragments. -/
def expansions (selections : List SelectionNode) : List Expansion :=
  context.expand context.depth false none selections []

mutual

/-- The response keys of the fields among the selections themselves, without
those of spread or deferred fragments. -/
def ownKey (values : Option FragmentVariableValues) : SelectionNode → List Text
  | .field node =>
      if context.includes values node.directives then [getFieldEntryKey node]
      else []
  | .inlineFragment ⟨typeCondition, directives, ⟨selections, _⟩, _⟩ =>
      if context.includes values directives &&
          context.doesFragmentConditionMatch typeCondition &&
          !context.isDeferred values directives then
        ownKeys values selections
      else []
  | .fragmentSpread _ => []

def ownKeys (values : Option FragmentVariableValues) :
    List SelectionNode → List Text
  | [] => []
  | selection :: rest => ownKey values selection ++ ownKeys values rest

end

/-- The own keys of an expanded fragment. -/
def expansionKeys (e : Expansion) : List Text :=
  match context.fragments.get e.name with
  | none => []
  | some fragment =>
      context.ownKeys e.scope fragment.definition.selectionSet.selections

/-- The key belongs to an expansion outside every deferred fragment. -/
def ExpandsPlainly (log : List Expansion) (key : Text) : Prop :=
  ∃ e ∈ log, e.inside = false ∧ key ∈ context.expansionKeys e

/-- Every key that the operation reaches without entering a deferred fragment is
its own, or that of a fragment whose first spread without `@defer` lies outside
every deferred fragment. -/
def FirstSpreadPlainly (selections : List SelectionNode) : Prop :=
  ∀ key, context.Reaches none selections key →
    key ∈ context.ownKeys none selections ∨
      context.ExpandsPlainly (context.expansions selections) key

end CollectFieldsContext

/-- The key has been collected outside every defer usage. -/
def Collection.Plain (c : Collection) (key : Text) : Prop :=
  ∃ details ∈ (c.groupedFieldSet.get key).getD [], details.deferUsage = none

variable {context : CollectFieldsContext}

open CollectFieldsContext

/-! ## The outcomes of a selection -/

theorem raising_eq_ok {α : Type} {x : Except GraphQLError α} {a : α} :
    raising x = .ok a ↔ x = .ok a := by
  cases x <;> simp [raising]

theorem includes_of_ok {values : Option FragmentVariableValues}
    {directives : Option (List DirectiveNode)} {included : Bool}
    {forbidden : List DirectiveNode}
    (h : context.shouldIncludeNode values directives =
      .ok (included, forbidden)) :
    context.includes values directives = included := by
  simp [includes, h]

theorem isDeferred_of_ok {values : Option FragmentVariableValues}
    {directives : Option (List DirectiveNode)} {parent usage : Option DeferUsage}
    (h : context.getDeferUsage values directives parent = .ok usage) :
    context.isDeferred values directives = usage.isSome := by
  obtain ⟨label, hlabel, husage⟩ := bind_eq_ok.mp h
  obtain rfl := Except.ok.inj husage
  simp [isDeferred, hlabel]

theorem scope_of_ok {values scope : Option FragmentVariableValues}
    {spread : FragmentSpreadNode} {fragment : FragmentDetails}
    (h : context.fragmentScope values spread fragment = .ok scope) :
    context.scope values spread fragment = scope := by
  simp [CollectFieldsContext.scope, h]

theorem spreadBefore_append (log : List Expansion) (e : Expansion) (name : Text) :
    spreadBefore (log ++ [e]) name =
      if name = e.name then
        if e.deferred then (spreadBefore log name).or (some true)
        else some false
      else spreadBefore log name := by
  by_cases hname : name = e.name
  · subst hname
    cases hdeferred : e.deferred with
    | false => simp [spreadBefore, hdeferred]
    | true =>
        simp only [spreadBefore, List.any_append, List.any_cons, List.any_nil,
          hdeferred, decide_true, Bool.not_true, Bool.and_false, Bool.or_false,
          Bool.or_true, if_true]
        split_ifs <;> rfl
  · have hne : ¬e.name = name := fun h => hname h.symm
    simp [spreadBefore, hname, hne]

/-! ## The collected keys and the expansions -/

/-- Collecting follows the expansions of the selections: the fragments expanded
so far are the visited ones, and the keys collected outside every defer usage
are the given own keys and those of the new expansions. -/
def Follows (context : CollectFieldsContext) (own : Text → Prop)
    (run : Collection → Except CollectFailure Collection)
    (expand : List Expansion → List Expansion) : Prop :=
  ∀ c c' log, (∀ name, c.visitedFragmentNames.get name = spreadBefore log name) →
    run c = .ok c' →
    (∀ name, c'.visitedFragmentNames.get name =
      spreadBefore (expand log) name) ∧
    ∃ new, expand log = log ++ new ∧ ∀ key, c'.Plain key ↔
      c.Plain key ∨ own key ∨ context.ExpandsPlainly new key

theorem expandsPlainly_nil (key : Text) : ¬context.ExpandsPlainly [] key := by
  rintro ⟨e, he, -⟩
  cases he

theorem expandsPlainly_append {log new : List Expansion} {key : Text} :
    context.ExpandsPlainly (log ++ new) key ↔
      context.ExpandsPlainly log key ∨ context.ExpandsPlainly new key := by
  simp only [ExpandsPlainly, List.mem_append, or_and_right, exists_or]

namespace Follows

variable {own own' : Text → Prop}
  {run run' : Collection → Except CollectFailure Collection}
  {expand expand' : List Expansion → List Expansion}

theorem congr (h : Follows context own run expand)
    (hown : ∀ key, own key ↔ own' key) : Follows context own' run expand := by
  intro c c' log hvisited hrun
  obtain ⟨hvisited', new, hnew, hkeys⟩ := h c c' log hvisited hrun
  exact ⟨hvisited', new, hnew, fun key => by rw [hkeys, hown]⟩

theorem seq (h : Follows context own run expand)
    (h' : Follows context own' run' expand') :
    Follows context (fun key => own key ∨ own' key) (fun c => run c >>= run')
      (fun log => expand' (expand log)) := by
  intro c c' log hvisited hrun
  obtain ⟨c₁, hrun₁, hrun'⟩ := bind_eq_ok.mp hrun
  obtain ⟨hvisited₁, new, hnew, hkeys⟩ := h c c₁ log hvisited hrun₁
  obtain ⟨hvisited', new', hnew', hkeys'⟩ :=
    h' c₁ c' (expand log) hvisited₁ hrun'
  refine ⟨hvisited', new ++ new', ?_, fun key => ?_⟩
  · simp only [hnew']
    rw [hnew, List.append_assoc]
  · rw [hkeys', hkeys, expandsPlainly_append]
    tauto

end Follows

/-- A step that neither collects a field nor visits a fragment. -/
theorem follows_quiet {c c' : Collection} {log : List Expansion}
    {own : Text → Prop}
    (hvisited : ∀ name, c.visitedFragmentNames.get name = spreadBefore log name)
    (hfields : c'.groupedFieldSet = c.groupedFieldSet)
    (hnames : c'.visitedFragmentNames = c.visitedFragmentNames)
    (hown : ∀ key, ¬own key) :
    (∀ name, c'.visitedFragmentNames.get name = spreadBefore log name) ∧
      ∃ new, log = log ++ new ∧ ∀ key, c'.Plain key ↔
        c.Plain key ∨ own key ∨ context.ExpandsPlainly new key := by
  refine ⟨fun name => by rw [hnames, hvisited], [], by simp, fun key => ?_⟩
  simp only [Collection.Plain, hfields, hown, expandsPlainly_nil, or_false]

theorem addField_plain (c : Collection) (details : FieldDetails) (key : Text) :
    (c.addField details).Plain key ↔ c.Plain key ∨
      (details.deferUsage = none ∧ key = getFieldEntryKey details.node) := by
  simp only [Collection.Plain, Collection.addField, Dict.get_set]
  by_cases hkey : key = getFieldEntryKey details.node
  · subst hkey
    simp only [if_true, Option.getD_some, List.mem_append, List.mem_singleton,
      or_and_right, exists_or, exists_eq_left, and_true]
  · simp [hkey]

section Selections

variable {visit : Visit}
  {visitExpand : Bool → Option FragmentVariableValues → List SelectionNode →
    List Expansion → List Expansion}
  (hvisit : ∀ selections usage values, Follows context
    (fun key => usage = none ∧ key ∈ context.ownKeys values selections)
    (visit selections usage values) (visitExpand usage.isSome values selections))

include hvisit

/-- A spread at which the fragment is expanded. -/
theorem follows_expand {c c' entered : Collection} {log : List Expansion}
    (e : Expansion) {fragment : FragmentDetails} {usage : Option DeferUsage}
    (hvisited : ∀ name, c.visitedFragmentNames.get name = spreadBefore log name)
    (hfragment : context.fragments.get e.name = some fragment)
    (hrun : visit fragment.definition.selectionSet.selections usage e.scope
      entered = .ok c')
    (hinside : e.inside = usage.isSome)
    (hnone : e.deferred = true → spreadBefore log e.name = none)
    (hfields : entered.groupedFieldSet = c.groupedFieldSet)
    (hnames : entered.visitedFragmentNames =
      (c.visitFragment e.name e.deferred).visitedFragmentNames) :
    (∀ name, c'.visitedFragmentNames.get name =
      spreadBefore (visitExpand usage.isSome e.scope
        fragment.definition.selectionSet.selections (log ++ [e])) name) ∧
      ∃ new, visitExpand usage.isSome e.scope
          fragment.definition.selectionSet.selections (log ++ [e]) = log ++ new ∧
        ∀ key, c'.Plain key ↔
          c.Plain key ∨ False ∨ context.ExpandsPlainly new key := by
  have hentered : ∀ name, entered.visitedFragmentNames.get name =
      spreadBefore (log ++ [e]) name := by
    intro name
    rw [spreadBefore_append, hnames]
    simp only [Collection.visitFragment, Dict.get_set]
    by_cases hname : name = e.name
    · subst hname
      cases hdeferred : e.deferred with
      | false => simp
      | true => simp [hnone hdeferred]
    · simp [hname, hvisited]
  obtain ⟨hvisited', new, hnew, hplain⟩ :=
    hvisit _ usage e.scope entered c' _ hentered hrun
  refine ⟨hvisited', [e] ++ new, by rw [hnew, List.append_assoc], fun key => ?_⟩
  have hbefore : entered.Plain key ↔ c.Plain key := by
    simp only [Collection.Plain, hfields]
  have he : context.ExpandsPlainly [e] key ↔ usage = none ∧
      key ∈ context.ownKeys e.scope
        fragment.definition.selectionSet.selections := by
    simp [ExpandsPlainly, expansionKeys, hfragment, hinside]
  rw [hplain, hbefore, expandsPlainly_append, he, false_or]

/-- A spread, whether it is expanded or not. -/
theorem fragmentSpread_follows (usage : Option DeferUsage)
    (values : Option FragmentVariableValues) (node : FragmentSpreadNode) :
    Follows context (fun _ => False)
      (collectSelection context visit usage values (.fragmentSpread node))
      (context.expandSelection visitExpand usage.isSome values
        (.fragmentSpread node)) := by
  intro c c' log hvisited hrun
  rw [collectSelection] at hrun
  obtain ⟨⟨included, forbidden⟩, hincluded, hrun⟩ := bind_eq_ok.mp hrun
  have hincludes := includes_of_ok (raising_eq_ok.mp hincluded)
  rw [expandSelection]
  cases included with
  | false =>
      obtain rfl := Except.ok.inj hrun
      simp only [hincludes, Bool.false_and, Bool.false_eq_true, if_false]
      cases context.applicable node.name.value <;>
        exact follows_quiet hvisited rfl rfl (fun _ h => h)
  | true =>
      simp only [Bool.not_true, Bool.false_eq_true, if_false] at hrun
      cases hfragment : context.fragments.get node.name.value with
      | none =>
          rw [hfragment] at hrun
          obtain rfl := Except.ok.inj hrun
          simp only [applicable, hfragment]
          exact follows_quiet hvisited rfl rfl (fun _ h => h)
      | some fragment =>
          rw [hfragment] at hrun
          cases hmatch : context.doesFragmentConditionMatch
              (some fragment.definition.typeCondition) with
          | false =>
              simp only [hmatch, Bool.not_false, if_true] at hrun
              obtain rfl := Except.ok.inj hrun
              simp only [applicable, hfragment, hmatch, Bool.false_eq_true,
                if_false]
              exact follows_quiet hvisited rfl rfl (fun _ h => h)
          | true =>
              simp only [hmatch, Bool.not_true, Bool.false_eq_true, if_false]
                at hrun
              obtain ⟨newUsage, hnewUsage, hrun⟩ := bind_eq_ok.mp hrun
              have hdeferred := isDeferred_of_ok (raising_eq_ok.mp hnewUsage)
              simp only [applicable, hfragment, hmatch, if_true, hincludes,
                Bool.true_and, isFirst, hdeferred]
              rw [hvisited] at hrun
              cases newUsage with
              | none =>
                  cases hbefore : spreadBefore log node.name.value with
                  | some deferred =>
                      rw [hbefore] at hrun
                      cases deferred with
                      | false =>
                          obtain rfl := Except.ok.inj hrun
                          exact follows_quiet hvisited rfl rfl (fun _ h => h)
                      | true =>
                          obtain ⟨scope, hscope, hrun⟩ := bind_eq_ok.mp hrun
                          simp only [Option.isSome_none, Bool.not_false, if_true,
                            Bool.or_false, scope_of_ok (raising_eq_ok.mp hscope)]
                          exact follows_expand hvisit
                            ⟨node.name.value, false, usage.isSome, scope⟩ hvisited
                            hfragment hrun rfl (fun h => by cases h) rfl rfl
                  | none =>
                      rw [hbefore] at hrun
                      obtain ⟨scope, hscope, hrun⟩ := bind_eq_ok.mp hrun
                      simp only [Option.isSome_none, if_true, Bool.or_false,
                        scope_of_ok (raising_eq_ok.mp hscope)]
                      exact follows_expand hvisit
                        ⟨node.name.value, false, usage.isSome, scope⟩ hvisited
                        hfragment hrun rfl (fun h => by cases h) rfl rfl
              | some newUsage =>
                  cases hbefore : spreadBefore log node.name.value with
                  | some deferred =>
                      rw [hbefore] at hrun
                      obtain rfl := Except.ok.inj hrun
                      cases deferred <;>
                        exact follows_quiet hvisited rfl rfl (fun _ h => h)
                  | none =>
                      rw [hbefore] at hrun
                      obtain ⟨scope, hscope, hrun⟩ := bind_eq_ok.mp hrun
                      simp only [Option.isSome_some, if_true, Bool.or_true,
                        scope_of_ok (raising_eq_ok.mp hscope)]
                      exact follows_expand hvisit
                        ⟨node.name.value, true, true, scope⟩ hvisited hfragment
                        hrun rfl (fun _ => hbefore) rfl rfl

mutual

theorem collectSelection_follows (usage : Option DeferUsage)
    (values : Option FragmentVariableValues) : ∀ selection,
    Follows context
      (fun key => usage = none ∧ key ∈ context.ownKey values selection)
      (collectSelection context visit usage values selection)
      (context.expandSelection visitExpand usage.isSome values selection)
  | .field node => by
      intro c c' log hvisited hrun
      rw [collectSelection] at hrun
      obtain ⟨⟨included, forbidden⟩, hincluded, hrun⟩ := bind_eq_ok.mp hrun
      have hincludes := includes_of_ok (raising_eq_ok.mp hincluded)
      cases included with
      | false =>
          obtain rfl := Except.ok.inj hrun
          exact follows_quiet hvisited rfl rfl
            (fun key h => by simp [ownKey, hincludes] at h)
      | true =>
          obtain rfl := Except.ok.inj hrun
          refine ⟨hvisited, [], by simp [expandSelection], fun key => ?_⟩
          rw [addField_plain]
          simp [ownKey, hincludes, expandsPlainly_nil]
  | .fragmentSpread node =>
      (fragmentSpread_follows hvisit usage values node).congr
        (fun key => by simp [ownKey])
  | .inlineFragment ⟨typeCondition, directives, ⟨selections, _⟩, _⟩ => by
      intro c c' log hvisited hrun
      rw [collectSelection] at hrun
      obtain ⟨⟨included, forbidden⟩, hincluded, hrun⟩ := bind_eq_ok.mp hrun
      have hincludes := includes_of_ok (raising_eq_ok.mp hincluded)
      rw [expandSelection]
      simp only [ownKey, hincludes]
      cases included with
      | false =>
          obtain rfl := Except.ok.inj hrun
          exact follows_quiet hvisited rfl rfl (fun key h => by simp at h)
      | true =>
          cases hmatch : context.doesFragmentConditionMatch typeCondition with
          | false =>
              simp only [hmatch] at hrun
              obtain rfl := Except.ok.inj hrun
              exact follows_quiet hvisited rfl rfl (fun key h => by simp at h)
          | true =>
              simp only [hmatch, Bool.not_true, Bool.false_eq_true, if_false]
                at hrun
              obtain ⟨newUsage, hnewUsage, hrun⟩ := bind_eq_ok.mp hrun
              have hdeferred := isDeferred_of_ok (raising_eq_ok.mp hnewUsage)
              simp only [hdeferred, Bool.and_self, if_true, Bool.true_and]
              cases newUsage with
              | none =>
                  simp only [Option.isSome_none, Bool.or_false, Bool.not_false,
                    if_true]
                  exact collectSelections_follows usage values selections c c'
                    log hvisited hrun
              | some newUsage =>
                  simp only [Option.isSome_some, Bool.or_true, Bool.not_true,
                    Bool.false_eq_true, if_false]
                  have hbody : Follows context
                      (fun key => usage = none ∧ key ∈ ([] : List Text)) _ _ :=
                    (collectSelections_follows (some newUsage) values
                      selections).congr (fun key => by simp)
                  exact hbody (c.addDeferUsage newUsage) c' log hvisited hrun

theorem collectSelections_follows (usage : Option DeferUsage)
    (values : Option FragmentVariableValues) : ∀ selections,
    Follows context
      (fun key => usage = none ∧ key ∈ context.ownKeys values selections)
      (collectSelections context visit usage values selections)
      (context.expandSelections visitExpand usage.isSome values selections)
  | [] => by
      intro c c' log hvisited hrun
      obtain rfl := Except.ok.inj hrun
      exact follows_quiet hvisited rfl rfl (fun key h => by simp [ownKeys] at h)
  | selection :: rest => by
      have h := (collectSelection_follows usage values selection).seq
        (collectSelections_follows usage values rest)
      refine h.congr fun key => ?_
      simp only [ownKeys, List.mem_append]
      tauto

end

end Selections

theorem collectFieldsImpl_follows (depth : ℕ) : ∀ selections usage values,
    Follows context
      (fun key => usage = none ∧ key ∈ context.ownKeys values selections)
      (collectFieldsImpl context depth selections usage values)
      (context.expand depth usage.isSome values selections) := by
  induction depth with
  | zero =>
      intro selections usage values c c' log hvisited hrun
      cases hrun
  | succ depth ih =>
      exact fun selections usage values =>
        collectSelections_follows ih usage values selections

/-- The keys collected outside every defer usage. -/
theorem collectFields_plain {selectionSet : SelectionSetNode} {c : Collection}
    (h : collectFields context selectionSet = .ok c) (key : Text) :
    c.Plain key ↔ key ∈ context.ownKeys none selectionSet.selections ∨
      context.ExpandsPlainly (context.expansions selectionSet.selections) key := by
  obtain ⟨-, new, hnew, hkeys⟩ := collectFieldsImpl_follows context.depth
    selectionSet.selections none none {} c [] (fun name => rfl) h
  have hexpansions : context.expansions selectionSet.selections = new := hnew
  rw [hkeys, hexpansions]
  simp [Collection.Plain]

/-! ## The collected keys are reached -/

namespace CollectFieldsContext

theorem get_of_applicable {name : Text} {fragment : FragmentDetails}
    (h : context.applicable name = some fragment) :
    context.fragments.get name = some fragment := by
  rw [applicable] at h
  split at h
  · cases h
  · next fragment' hget =>
      split at h
      · rw [hget, h]
      · cases h

theorem Reaches.mono {values : Option FragmentVariableValues}
    {selections selections' : List SelectionNode} {key : Text}
    (h : context.Reaches values selections key)
    (hsub : ∀ selection ∈ selections, selection ∈ selections') :
    context.Reaches values selections' key := by
  cases h with
  | field hmem hincluded => exact .field (hsub _ hmem) hincluded
  | inlineFragment hmem hincluded hmatch hplain h =>
      exact .inlineFragment (hsub _ hmem) hincluded hmatch hplain h
  | fragmentSpread hmem hincluded hfragment hplain h =>
      exact .fragmentSpread (hsub _ hmem) hincluded hfragment hplain h

mutual

theorem reaches_of_ownKey (values : Option FragmentVariableValues) {key : Text} :
    ∀ selection, key ∈ context.ownKey values selection →
      context.Reaches values [selection] key
  | .field node, hkey => by
      rw [ownKey] at hkey
      split at hkey
      · next hincluded =>
          obtain rfl := List.mem_singleton.mp hkey
          exact .field (List.mem_singleton_self _) hincluded
      · cases hkey
  | .fragmentSpread node, hkey => by
      rw [ownKey] at hkey
      cases hkey
  | .inlineFragment ⟨typeCondition, directives, ⟨selections, l⟩, l'⟩, hkey => by
      rw [ownKey] at hkey
      split at hkey
      · next hcond =>
          simp only [Bool.and_eq_true, Bool.not_eq_true'] at hcond
          obtain ⟨⟨hincluded, hmatch⟩, hplain⟩ := hcond
          exact .inlineFragment (List.mem_singleton_self _) hincluded hmatch
            hplain (reaches_of_ownKeys values selections hkey)
      · cases hkey

theorem reaches_of_ownKeys (values : Option FragmentVariableValues) {key : Text} :
    ∀ selections, key ∈ context.ownKeys values selections →
      context.Reaches values selections key
  | [], hkey => by
      rw [ownKeys] at hkey
      cases hkey
  | selection :: rest, hkey => by
      rw [ownKeys, List.mem_append] at hkey
      rcases hkey with hkey | hkey
      · exact (reaches_of_ownKey values selection hkey).mono (by simp)
      · exact (reaches_of_ownKeys values rest hkey).mono
          (fun _ => List.mem_cons_of_mem _)

end

/-- The new expansions outside every deferred fragment are reached. -/
def ReachedFrom (context : CollectFieldsContext) (inside : Bool)
    (values : Option FragmentVariableValues) (selections : List SelectionNode)
    (log log' : List Expansion) : Prop :=
  ∀ e ∈ log', e ∈ log ∨ (e.inside = false → inside = false ∧
    ∀ key ∈ context.expansionKeys e, context.Reaches values selections key)

section Selections

variable
  {visit : Bool → Option FragmentVariableValues → List SelectionNode →
    List Expansion → List Expansion}
  (hvisit : ∀ inside values selections log, context.ReachedFrom inside values
    selections log (visit inside values selections log))

include hvisit

mutual

theorem expandSelection_reached (inside : Bool)
    (values : Option FragmentVariableValues) : ∀ selection log,
    context.ReachedFrom inside values [selection] log
      (context.expandSelection visit inside values selection log)
  | .field node, log => by
      rw [expandSelection]
      exact fun e he => Or.inl he
  | .fragmentSpread node, log => by
      rw [expandSelection]
      split
      · exact fun e he => Or.inl he
      · next fragment hfragment =>
          intro e he
          dsimp only at he
          split at he
          · next hcond =>
              simp only [Bool.and_eq_true] at hcond
              have hreaches :
                  (inside || context.isDeferred values node.directives) = false →
                  inside = false ∧ ∀ key, context.Reaches
                    (context.scope values node fragment)
                    fragment.definition.selectionSet.selections key →
                    context.Reaches values [.fragmentSpread node] key := by
                intro hplain
                rw [Bool.or_eq_false_iff] at hplain
                exact ⟨hplain.1, fun key h => .fragmentSpread
                  (List.mem_singleton_self _) hcond.1 hfragment hplain.2 h⟩
              rcases hvisit _ _ _ _ e he with he | h
              · rcases List.mem_append.mp he with he | he
                · exact Or.inl he
                · obtain rfl := List.mem_singleton.mp he
                  refine Or.inr fun hinside => ?_
                  obtain ⟨houtside, hkeys⟩ := hreaches hinside
                  refine ⟨houtside, fun key hkey => hkeys key ?_⟩
                  rw [expansionKeys, get_of_applicable hfragment] at hkey
                  exact reaches_of_ownKeys _ _ hkey
              · refine Or.inr fun hinside => ?_
                obtain ⟨hplain, hkeys⟩ := h hinside
                obtain ⟨houtside, hreach⟩ := hreaches hplain
                exact ⟨houtside, fun key hkey => hreach key (hkeys key hkey)⟩
          · exact Or.inl he
  | .inlineFragment ⟨typeCondition, directives, ⟨selections, l⟩, l'⟩, log => by
      rw [expandSelection]
      split
      · next hcond =>
          simp only [Bool.and_eq_true] at hcond
          obtain ⟨hincluded, hmatch⟩ := hcond
          intro e he
          refine (expandSelections_reached _ values selections log e he).imp_right
            fun h hinside => ?_
          obtain ⟨hplain, hkeys⟩ := h hinside
          rw [Bool.or_eq_false_iff] at hplain
          exact ⟨hplain.1, fun key hkey => .inlineFragment
            (List.mem_singleton_self _) hincluded hmatch hplain.2
            (hkeys key hkey)⟩
      · exact fun e he => Or.inl he

theorem expandSelections_reached (inside : Bool)
    (values : Option FragmentVariableValues) : ∀ selections log,
    context.ReachedFrom inside values selections log
      (context.expandSelections visit inside values selections log)
  | [], log => fun e he => by
      rw [expandSelections] at he
      exact Or.inl he
  | selection :: rest, log => fun e he => by
      rw [expandSelections] at he
      rcases expandSelections_reached inside values rest _ e he with he | h
      · refine (expandSelection_reached inside values selection log e
          he).imp_right fun h hinside => ?_
        exact ⟨(h hinside).1, fun key hkey =>
          ((h hinside).2 key hkey).mono (by simp)⟩
      · exact Or.inr fun hinside => ⟨(h hinside).1, fun key hkey =>
          ((h hinside).2 key hkey).mono (fun _ => List.mem_cons_of_mem _)⟩

end

end Selections

theorem expand_reached (depth : ℕ) : ∀ inside values selections log,
    context.ReachedFrom inside values selections log
      (context.expand depth inside values selections log) := by
  induction depth with
  | zero => exact fun _ _ _ _ e he => Or.inl he
  | succ depth ih => exact expandSelections_reached ih

end CollectFieldsContext

theorem Collection.Plain.reaches {selectionSet : SelectionSetNode}
    {c : Collection} {key : Text} (h : collectFields context selectionSet = .ok c)
    (hkey : c.Plain key) :
    context.Reaches none selectionSet.selections key := by
  rcases (collectFields_plain h key).mp hkey with hown | ⟨e, he, hinside, hkey⟩
  · exact reaches_of_ownKeys none _ hown
  · rcases expand_reached _ false none _ [] e he with hmem | hreached
    · cases hmem
    · exact (hreached hinside).2 key hkey

/-- **Deferral.**  The response keys collected outside every defer usage are
those that are reached without entering a deferred fragment, exactly if each of
these belongs to a fragment whose first spread without `@defer` lies outside
every deferred fragment. -/
theorem collectFields_deferral {selectionSet : SelectionSetNode} {c : Collection}
    (h : collectFields context selectionSet = .ok c) :
    (∀ key, c.Plain key ↔ context.Reaches none selectionSet.selections key) ↔
      context.FirstSpreadPlainly selectionSet.selections := by
  constructor
  · intro hkeys key hreaches
    exact (collectFields_plain h key).mp ((hkeys key).mpr hreaches)
  · intro hfirst key
    exact ⟨fun hkey => hkey.reaches h, fun hreaches =>
      (collectFields_plain h key).mpr (hfirst key hreaches)⟩

instance (c : Collection) (key : Text) : Decidable (c.Plain key) :=
  inferInstanceAs (Decidable (∃ details ∈ _, _))

/-! ## A fragment that is spread in a deferred fragment first -/

/-- Boolean and string literals; there are no variables. -/
def literalCoercion : InputCoercion where
  coerceInputLiteral := fun literal _ _ _ =>
    match literal with
    | .boolean value _ => some (.bool value)
    | .string node => some (.str node.value)
    | _ => none
  coerceInputValue := fun value _ => some value

def name (s : String) : NameNode := { value := str s }

def selectionSet (selections : List SelectionNode) : SelectionSetNode :=
  { selections := selections, loc := none }

def spread (s : String) : SelectionNode := .fragmentSpread { name := name s }

def deferred (selections : List SelectionNode) : SelectionNode :=
  .inlineFragment { typeCondition := none
                    directives := some [{ name := name "defer" }]
                    selectionSet := selectionSet selections, loc := none }

/-- The fragment `F` of the type `Query` with the field `a`. -/
def queryContext : CollectFieldsContext where
  schema := { typeMap := Dict.empty.set (str "Query") (.object Dict.empty []) }
  fragments := Dict.empty.set (str "F")
    { definition :=
        { name := name "F", typeCondition := { name := name "Query" }
          selectionSet := selectionSet [.field
            { fieldAlias := none, name := name "a", arguments := none
              directives := none, selectionSet := none, loc := none }] } }
  variableValues := { sources := [], coerced := Dict.empty }
  runtimeType := str "Query"
  coercion := literalCoercion

theorem queryContext_reaches {selections : List SelectionNode}
    (hmem : spread "F" ∈ selections) :
    queryContext.Reaches none selections (str "a") :=
  .fragmentSpread hmem (by decide +kernel) rfl (by decide +kernel)
    (.field (List.mem_singleton_self _) (by decide +kernel))

theorem queryContext_key {key : Text}
    (h : queryContext.Reaches none [spread "F", deferred [spread "F"]] key) :
    key = str "a" := by
  cases h with
  | field hmem _ => simp [spread, deferred] at hmem
  | inlineFragment hmem _ _ hplain _ =>
      have hnode := by simpa [spread, deferred] using hmem
      rw [hnode] at hplain
      exact absurd hplain (by decide +kernel)
  | fragmentSpread hmem _ hfragment _ h =>
      have hnode := by simpa [spread, deferred] using hmem
      subst hnode
      obtain rfl := Option.some.inj hfragment
      cases h with
      | field hmem _ =>
          have hfield := by simpa [selectionSet] using hmem
          rw [hfield]
          rfl
      | inlineFragment hmem => simp [selectionSet] at hmem
      | fragmentSpread hmem => simp [selectionSet] at hmem

/-- The plain spread comes first in `{ ...F ... @defer { ...F } }`. -/
theorem spreadFirst_deferral :
    ∃ c, collectFields queryContext
        (selectionSet [spread "F", deferred [spread "F"]]) = .ok c ∧
      ∀ key, c.Plain key ↔ queryContext.Reaches none
        [spread "F", deferred [spread "F"]] key := by
  have hok : (collectFields queryContext
      (selectionSet [spread "F", deferred [spread "F"]])).isOk := by
    decide +kernel
  cases h : collectFields queryContext
      (selectionSet [spread "F", deferred [spread "F"]]) with
  | error failure =>
      rw [h] at hok
      cases hok
  | ok c =>
      refine ⟨c, rfl, (collectFields_deferral h).mpr fun key hkey => Or.inr ?_⟩
      obtain rfl := queryContext_key hkey
      show ∃ e ∈ _, _ ∧ _
      decide +kernel

/-- In `{ ... @defer { ...F } ...F }` the second spread is skipped, and the key
`a` is collected with a defer usage only. -/
theorem spreadDeferredFirst_defers :
    ∃ c, collectFields queryContext
        (selectionSet [deferred [spread "F"], spread "F"]) = .ok c ∧
      queryContext.Reaches none [deferred [spread "F"], spread "F"] (str "a") ∧
      ¬c.Plain (str "a") := by
  have hdefers : (match collectFields queryContext
      (selectionSet [deferred [spread "F"], spread "F"]) with
      | .ok c => !decide (c.Plain (str "a"))
      | .error _ => false) = true := by
    decide +kernel
  cases h : collectFields queryContext
      (selectionSet [deferred [spread "F"], spread "F"]) with
  | error failure =>
      rw [h] at hdefers
      cases hdefers
  | ok c =>
      rw [h] at hdefers
      exact ⟨c, rfl, queryContext_reaches (by simp), by simpa using hdefers⟩

end GraphqlCore.Execution
