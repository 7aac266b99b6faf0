import GraphqlCore.Execution.Traversal

/-!
# Collecting fields where inclusion is forbidden

With `forbid_skip_and_include` the directives `@skip` and `@include` are reported instead
of being evaluated, and only the arguments of `@defer` are coerced.  Fields are then
collected exactly if these can be coerced wherever collecting comes across them.
-/

set_option linter.unusedSectionVars false

namespace GraphqlCore.Execution

open Language

namespace CollectFieldsContext

/-- Collecting the selections comes across the directives of an inline fragment or of
the spread of a fragment, which is included and applies. -/
inductive Deferrable (context : CollectFieldsContext) :
    List SelectionNode → Option (List DirectiveNode) → Prop
  | inlineFragment {selections : List SelectionNode} {node : InlineFragmentNode}
      (hmem : .inlineFragment node ∈ context.inlinedAll selections)
      (hincluded : context.includes none node.directives)
      (hmatch : context.doesFragmentConditionMatch node.typeCondition) :
      Deferrable context selections node.directives
  | fragmentSpread {selections : List SelectionNode} {node : FragmentSpreadNode}
      (hfollows : context.Follows selections node) :
      Deferrable context selections node.directives
  | fragment {selections : List SelectionNode} {node : FragmentSpreadNode}
      {fragment : FragmentDetails} {directives : Option (List DirectiveNode)}
      (hfollows : context.Follows selections node)
      (hfragment : context.applicable node.name.value = some fragment)
      (h : Deferrable context fragment.definition.selectionSet.selections directives) :
      Deferrable context selections directives

/-- The arguments of `@defer` can be coerced, if it is there. -/
def CoercesDefer (context : CollectFieldsContext)
    (directives : Option (List DirectiveNode)) : Prop :=
  ∃ label, context.activeDefer none directives = .ok label

end CollectFieldsContext

open CollectFieldsContext

variable {context : CollectFieldsContext}

theorem shouldIncludeNode_of_forbid (hforbid : context.forbidSkipAndInclude = true)
    (directives : Option (List DirectiveNode)) :
    ∃ forbidden, context.shouldIncludeNode none directives =
      .ok (context.includes none directives, forbidden) := by
  have hok : ∃ answer, context.shouldIncludeNode none directives = .ok answer := by
    unfold shouldIncludeNode passesInclude
    split
    · split
      · exact ⟨_, rfl⟩
      · exact ⟨_, if_pos hforbid⟩
    · exact ⟨_, if_pos hforbid⟩
  obtain ⟨⟨included, forbidden⟩, hanswer⟩ := hok
  refine ⟨forbidden, ?_⟩
  unfold includes
  rw [hanswer]

theorem getDeferUsage_eq_ok_iff {directives : Option (List DirectiveNode)}
    (usage : Option DeferUsage) :
    (∃ newUsage, context.getDeferUsage none directives usage = .ok newUsage) ↔
      context.CoercesDefer directives := by
  unfold CoercesDefer getDeferUsage
  cases context.activeDefer none directives with
  | error error => simp [bind, Except.bind]
  | ok label => simp [bind, Except.bind, pure, Except.pure]

theorem inlinedAll_inlineFragment (node : InlineFragmentNode) :
    context.inlinedAll [.inlineFragment node] = .inlineFragment node ::
      if context.includes none node.directives &&
          context.doesFragmentConditionMatch node.typeCondition then
        context.inlinedAll node.selectionSet.selections
      else [] := by
  rw [inlinedAll_single, inlined_inlineFragment]

theorem inlinedAll_of_match {node : InlineFragmentNode}
    (hincluded : context.includes none node.directives)
    (hmatch : context.doesFragmentConditionMatch node.typeCondition) :
    context.inlinedAll [.inlineFragment node] =
      .inlineFragment node :: context.inlinedAll node.selectionSet.selections := by
  rw [inlinedAll_inlineFragment, hincluded, hmatch]
  rfl

/-! ## What has been collected -/

namespace Collection

def Visited (c : Collection) (name : Text) : Prop :=
  (c.visitedFragmentNames.get name).isSome

theorem visited_visitFragment {c : Collection} {name other : Text} {deferred : Bool} :
    (c.visitFragment name deferred).Visited other ↔ other = name ∨ c.Visited other := by
  unfold Visited visitFragment
  rw [Dict.get_set]
  split <;> simp [*]

end Collection

/-- Everything that the selections have by themselves has been coerced, and the fragments
that they spread have been visited. -/
structure Settled (context : CollectFieldsContext) (c : Collection)
    (selections : List SelectionNode) : Prop where
  inlineFragments : ∀ node, .inlineFragment node ∈ context.inlinedAll selections →
    context.includes none node.directives →
    context.doesFragmentConditionMatch node.typeCondition →
    context.CoercesDefer node.directives
  spreads : ∀ node, context.Follows selections node →
    context.CoercesDefer node.directives ∧ c.Visited node.name.value

/-- The selections have been collected, with the fragments that were not visited. -/
structure Collected (context : CollectFieldsContext) (c c' : Collection)
    (selections : List SelectionNode) : Prop where
  visited : ∀ name, c.Visited name → c'.Visited name
  settled : Settled context c' selections
  newly : ∀ name fragment, c'.Visited name → ¬ c.Visited name →
    context.fragments.get name = some fragment →
    Settled context c' fragment.definition.selectionSet.selections

section Rules

variable {c c' c₁ : Collection} {selections selections' : List SelectionNode}

theorem Settled.mono (h : Settled context c selections)
    (hvisited : ∀ name, c.Visited name → c'.Visited name) :
    Settled context c' selections where
  inlineFragments := h.inlineFragments
  spreads node hfollows :=
    ⟨(h.spreads node hfollows).1, hvisited _ (h.spreads node hfollows).2⟩

theorem Follows.of_subset {node : FragmentSpreadNode}
    (hsub : ∀ selection ∈ context.inlinedAll selections,
      selection ∈ context.inlinedAll selections')
    (h : context.Follows selections node) : context.Follows selections' node :=
  ⟨hsub _ h.hmem, h.hincluded, h.happlicable⟩

/-- What two lists have by themselves. -/
theorem Settled.of_cases {selections'' : List SelectionNode}
    (hcases : ∀ selection ∈ context.inlinedAll selections'',
      selection ∈ context.inlinedAll selections ∨
      selection ∈ context.inlinedAll selections')
    (h : Settled context c selections) (h' : Settled context c selections') :
    Settled context c selections'' where
  inlineFragments node hmem := by
    rcases hcases _ hmem with hmem | hmem
    · exact h.inlineFragments node hmem
    · exact h'.inlineFragments node hmem
  spreads node hfollows := by
    rcases hcases _ hfollows.hmem with hmem | hmem
    · exact h.spreads node ⟨hmem, hfollows.hincluded, hfollows.happlicable⟩
    · exact h'.spreads node ⟨hmem, hfollows.hincluded, hfollows.happlicable⟩

theorem settled_nil : Settled context c [] where
  inlineFragments _ hmem := nomatch hmem
  spreads _ hfollows := nomatch hfollows.hmem

/-- A selection that stands for itself only. -/
theorem settled_single {selection : SelectionNode}
    (hinlined : context.inlined selection = [selection])
    (hinline : ∀ node, selection = .inlineFragment node →
      ¬ (context.includes none node.directives ∧
        context.doesFragmentConditionMatch node.typeCondition))
    (hspread : ∀ node, selection = .fragmentSpread node →
      context.includes none node.directives →
      (context.applicable node.name.value).isSome →
      context.CoercesDefer node.directives ∧ c.Visited node.name.value) :
    Settled context c [selection] where
  inlineFragments node hmem hincluded hmatch := by
    rw [inlinedAll_single, hinlined, List.mem_singleton] at hmem
    exact absurd ⟨hincluded, hmatch⟩ (hinline node hmem.symm)
  spreads node hfollows := by
    have hmem := hfollows.hmem
    rw [inlinedAll_single, hinlined, List.mem_singleton] at hmem
    exact hspread node hmem.symm hfollows.hincluded hfollows.happlicable

/-- Nothing is collected but the selection itself. -/
theorem Collected.of_quiet {selection : SelectionNode}
    (hvisited : ∀ name, c'.Visited name ↔ c.Visited name)
    (h : Settled context c' [selection]) : Collected context c c' [selection] where
  visited name hname := (hvisited name).mpr hname
  settled := h
  newly name _ hname hnot := absurd ((hvisited name).mp hname) hnot

theorem Collected.cons {selection : SelectionNode} {rest : List SelectionNode}
    (h : Collected context c c₁ [selection]) (hrest : Collected context c₁ c' rest) :
    Collected context c c' (selection :: rest) where
  visited name hname := hrest.visited name (h.visited name hname)
  settled := by
    refine (h.settled.mono hrest.visited).of_cases (fun selection' hmem => ?_) hrest.settled
    rw [inlinedAll, List.mem_append] at hmem
    rwa [inlinedAll_single]
  newly name fragment hname hnot hfragment := by
    by_cases hfirst : c₁.Visited name
    · exact (h.newly name fragment hfirst hnot hfragment).mono hrest.visited
    · exact hrest.newly name fragment hname hfirst hfragment

end Rules

/-! ## Fields that are collected -/

section Sound

variable {visit : Visit} (hvariables : context.NoFragmentVariables)
  (hvisit : ∀ selections usage c c', visit selections usage none c = .ok c' →
    Collected context c c' selections)

theorem fragmentScope_of_noVariables (hvariables : context.NoFragmentVariables)
    {node : FragmentSpreadNode} {name : Text} {fragment : FragmentDetails}
    (hfragment : context.fragments.get name = some fragment) :
    context.fragmentScope none node fragment = .ok none := by
  unfold fragmentScope
  rw [hvariables _ _ hfragment]
  rfl

include hvariables hvisit

/-- A spread fragment is visited, and then collected. -/
theorem collected_spread {node : FragmentSpreadNode} {fragment : FragmentDetails}
    {usage : Option DeferUsage} {c entered c' : Collection}
    (hfragment : context.fragments.get node.name.value = some fragment)
    (hcoerces : context.CoercesDefer node.directives)
    (hentered : ∀ name, entered.Visited name ↔ name = node.name.value ∨ c.Visited name)
    (hrun : (do
      let scope ← raising (context.fragmentScope none node fragment)
      visit fragment.definition.selectionSet.selections usage scope entered) = .ok c') :
    Collected context c c' [.fragmentSpread node] := by
  rw [fragmentScope_of_noVariables hvariables hfragment] at hrun
  have hbody := hvisit _ _ _ _ hrun
  have hself : c'.Visited node.name.value := by
    apply hbody.visited
    rw [hentered]
    exact .inl rfl
  constructor
  · intro name hname
    apply hbody.visited
    rw [hentered]
    exact .inr hname
  · exact settled_single (by rw [inlined]) (fun _ h => nomatch h)
      fun node' h _ _ => by cases h; exact ⟨hcoerces, hself⟩
  · intro name fragment' hname hnot hget
    by_cases heq : name = node.name.value
    · subst heq
      rw [hfragment] at hget
      obtain rfl := Option.some.inj hget
      exact hbody.settled
    · refine hbody.newly name fragment' hname ?_ hget
      rw [hentered]
      exact not_or.mpr ⟨heq, hnot⟩

variable (hforbid : context.forbidSkipAndInclude = true)

include hforbid

mutual

theorem collectSelection_collected : ∀ usage selection c c',
    collectSelection context visit usage none selection c = .ok c' →
    Collected context c c' [selection]
  | usage, .field node, c, c', hrun => by
      rw [collectSelection] at hrun
      obtain ⟨forbidden, hincludes⟩ := shouldIncludeNode_of_forbid hforbid node.directives
      rw [hincludes] at hrun
      have hvisited : ∀ name, c'.Visited name ↔ c.Visited name := by
        intro name
        cases h : context.includes none node.directives <;> rw [h] at hrun <;>
          obtain rfl := Except.ok.inj hrun <;> exact Iff.rfl
      exact .of_quiet hvisited (settled_single (by rw [inlined]) (fun _ h => nomatch h)
        fun _ h => nomatch h)
  | usage, .inlineFragment ⟨typeCondition, directives, ⟨selections, loc⟩, loc'⟩, c, c',
      hrun => by
      rw [collectSelection] at hrun
      obtain ⟨forbidden, hincludes⟩ := shouldIncludeNode_of_forbid hforbid directives
      rw [hincludes] at hrun
      have hquiet (hvisited : ∀ name, c'.Visited name ↔ c.Visited name)
          (hnot : ¬ (context.includes none directives ∧
            context.doesFragmentConditionMatch typeCondition)) :
          Collected context c c'
            [.inlineFragment ⟨typeCondition, directives, ⟨selections, loc⟩, loc'⟩] := by
        refine .of_quiet hvisited (settled_single ?_ ?_ fun _ h => nomatch h)
        · rw [inlined_inlineFragment, if_neg (by simpa using hnot)]
        · intro node h
          cases h
          exact hnot
      cases hincluded : context.includes none directives with
      | false =>
          rw [hincluded] at hrun
          obtain rfl := Except.ok.inj hrun
          exact hquiet (fun _ => Iff.rfl) (by simp [hincluded])
      | true =>
          rw [hincluded] at hrun
          cases hmatch : context.doesFragmentConditionMatch typeCondition with
          | false =>
              change (if !context.doesFragmentConditionMatch typeCondition then _ else _) = _
                at hrun
              rw [hmatch] at hrun
              obtain rfl := Except.ok.inj hrun
              exact hquiet (fun _ => Iff.rfl) (by simp [hmatch])
          | true =>
              change (if !context.doesFragmentConditionMatch typeCondition then _ else _) = _
                at hrun
              rw [hmatch] at hrun
              obtain ⟨newUsage, husage, hbody⟩ := bind_eq_ok.mp hrun
              have hcoerces := (getDeferUsage_eq_ok_iff _).mp ⟨_, raising_eq_ok.mp husage⟩
              have hinlined := @inlinedAll_of_match context
                ⟨typeCondition, directives, ⟨selections, loc⟩, loc'⟩ hincluded hmatch
              have hcollected : ∀ usage c₁, (∀ name, c₁.Visited name ↔ c.Visited name) →
                  collectSelections context visit usage none selections c₁ = .ok c' →
                  Collected context c c'
                    [.inlineFragment ⟨typeCondition, directives, ⟨selections, loc⟩, loc'⟩] := by
                intro usage c₁ hvisited hselections
                have h := collectSelections_collected usage selections c₁ c' hselections
                refine ⟨fun name hname => h.visited name ((hvisited name).mpr hname), ?_,
                  fun name fragment hname hnot =>
                    h.newly name fragment hname (mt (hvisited name).mp hnot)⟩
                constructor
                · intro node hmem hincluded' hmatch'
                  rw [hinlined] at hmem
                  rcases List.mem_cons.mp hmem with heq | hmem
                  · cases heq
                    exact hcoerces
                  · exact h.settled.inlineFragments node hmem hincluded' hmatch'
                · intro node hfollows
                  have hmem := hfollows.hmem
                  rw [hinlined] at hmem
                  rcases List.mem_cons.mp hmem with heq | hmem
                  · cases heq
                  · exact h.settled.spreads node
                      ⟨hmem, hfollows.hincluded, hfollows.happlicable⟩
              cases newUsage with
              | none => exact hcollected usage c (fun _ => Iff.rfl) hbody
              | some newUsage =>
                  exact hcollected (some newUsage) (c.addDeferUsage newUsage)
                    (fun _ => Iff.rfl) hbody
  | usage, .fragmentSpread node, c, c', hrun => by
      rw [collectSelection] at hrun
      obtain ⟨forbidden, hincludes⟩ := shouldIncludeNode_of_forbid hforbid node.directives
      rw [hincludes] at hrun
      have hquiet (hvisited : ∀ name, c'.Visited name ↔ c.Visited name)
          (h : context.includes none node.directives →
            (context.applicable node.name.value).isSome →
            context.CoercesDefer node.directives ∧ c'.Visited node.name.value) :
          Collected context c c' [.fragmentSpread node] :=
        .of_quiet hvisited (settled_single (by rw [inlined]) (fun _ h => nomatch h)
          fun node' heq => by cases heq; exact h)
      cases hincluded : context.includes none node.directives with
      | false =>
          rw [hincluded] at hrun
          obtain rfl := Except.ok.inj hrun
          exact hquiet (fun _ => Iff.rfl) (fun h => by rw [hincluded] at h; cases h)
      | true =>
          rw [hincluded] at hrun
          have happlicable : context.applicable node.name.value =
              match context.fragments.get node.name.value with
              | none => none
              | some fragment =>
                  if context.doesFragmentConditionMatch
                      (some fragment.definition.typeCondition) then some fragment
                  else none := rfl
          obtain ⟨answer, hanswer, hrun⟩ := bind_eq_ok.mp hrun
          obtain rfl := Except.ok.inj (raising_eq_ok.mp hanswer)
          simp only [Bool.not_true, Bool.false_eq_true, if_false] at hrun
          cases hfragment : context.fragments.get node.name.value with
          | none =>
              simp only [hfragment] at hrun happlicable
              obtain rfl := Except.ok.inj hrun
              exact hquiet (fun _ => Iff.rfl) (fun _ h => by rw [happlicable] at h; cases h)
          | some fragment =>
              simp only [hfragment] at hrun happlicable
              cases hmatch : context.doesFragmentConditionMatch
                  (some fragment.definition.typeCondition) with
              | false =>
                  simp only [hmatch] at hrun happlicable
                  obtain rfl := Except.ok.inj hrun
                  exact hquiet (fun _ => Iff.rfl)
                    (fun _ h => by rw [happlicable] at h; cases h)
              | true =>
                  simp only [hmatch, Bool.not_true, Bool.false_eq_true, if_false] at hrun
                  obtain ⟨newUsage, husage, hbody⟩ := bind_eq_ok.mp hrun
                  have hcoerces := (getDeferUsage_eq_ok_iff _).mp ⟨_, raising_eq_ok.mp husage⟩
                  have hskipped {deferred : Bool} (hvisited :
                      c.visitedFragmentNames.get node.name.value = some deferred) :
                      Collected context c c [.fragmentSpread node] := by
                    refine .of_quiet (fun _ => Iff.rfl) (settled_single (by rw [inlined])
                      (fun _ h => nomatch h) fun node' heq _ _ => ?_)
                    cases heq
                    exact ⟨hcoerces, by rw [Collection.Visited, hvisited]; rfl⟩
                  cases newUsage with
                  | none =>
                      cases hvisited : c.visitedFragmentNames.get node.name.value with
                      | none =>
                          rw [hvisited] at hbody
                          exact collected_spread hvariables hvisit hfragment hcoerces
                            (fun _ => Collection.visited_visitFragment) hbody
                      | some deferred =>
                          rw [hvisited] at hbody
                          cases deferred with
                          | false =>
                              obtain rfl := Except.ok.inj hbody
                              exact hskipped hvisited
                          | true =>
                              exact collected_spread hvariables hvisit hfragment hcoerces
                                (fun _ => Collection.visited_visitFragment) hbody
                  | some newUsage =>
                      cases hvisited : c.visitedFragmentNames.get node.name.value with
                      | none =>
                          rw [hvisited] at hbody
                          have hentered : ∀ name,
                              ((c.visitFragment node.name.value true).addDeferUsage
                                newUsage).Visited name ↔
                              name = node.name.value ∨ c.Visited name :=
                            fun _ => Collection.visited_visitFragment
                          exact collected_spread hvariables hvisit hfragment hcoerces
                            hentered hbody
                      | some deferred =>
                          rw [hvisited] at hbody
                          obtain rfl := Except.ok.inj hbody
                          exact hskipped hvisited

theorem collectSelections_collected : ∀ usage selections c c',
    collectSelections context visit usage none selections c = .ok c' →
    Collected context c c' selections
  | usage, [], c, c', hrun => by
      rw [collectSelections] at hrun
      obtain rfl := Except.ok.inj hrun
      exact ⟨fun _ h => h, settled_nil, fun _ _ hname hnot => absurd hname hnot⟩
  | usage, selection :: rest, c, c', hrun => by
      rw [collectSelections] at hrun
      obtain ⟨c₁, hfirst, hrest⟩ := bind_eq_ok.mp hrun
      exact (collectSelection_collected usage selection c c₁ hfirst).cons
        (collectSelections_collected usage rest c₁ c' hrest)

end

end Sound

theorem collectFieldsImpl_collected (hvariables : context.NoFragmentVariables)
    (hforbid : context.forbidSkipAndInclude = true) (depth : ℕ) :
    ∀ selections usage c c',
    collectFieldsImpl context depth selections usage none c = .ok c' →
    Collected context c c' selections := by
  induction depth with
  | zero => exact fun _ _ _ _ hrun => nomatch hrun
  | succ depth ih =>
      exact fun selections usage c c' hrun =>
        collectSelections_collected hvariables ih hforbid usage selections c c' hrun

theorem get_of_applicable_isSome {name : Text} (h : (context.applicable name).isSome) :
    ∃ fragment, context.applicable name = some fragment ∧
      context.fragments.get name = some fragment := by
  obtain ⟨fragment, hfragment⟩ := Option.isSome_iff_exists.mp h
  exact ⟨fragment, hfragment, get_of_applicable hfragment⟩

/-- Whatever collecting comes across has been coerced in the end. -/
theorem CollectFieldsContext.Deferrable.coerces {c : Collection}
    (hclosed : ∀ name fragment, c.Visited name → context.fragments.get name = some fragment →
      Settled context c fragment.definition.selectionSet.selections)
    {selections : List SelectionNode} {directives : Option (List DirectiveNode)}
    (h : context.Deferrable selections directives) :
    Settled context c selections → context.CoercesDefer directives := by
  induction h with
  | inlineFragment hmem hincluded hmatch =>
      exact fun hsettled => hsettled.inlineFragments _ hmem hincluded hmatch
  | fragmentSpread hfollows => exact fun hsettled => (hsettled.spreads _ hfollows).1
  | fragment hfollows hfragment _ ih =>
      exact fun hsettled => ih (hclosed _ _ (hsettled.spreads _ hfollows).2
        (get_of_applicable hfragment))

/-! ## Nothing else is raised -/

/-- The computation does not raise an error. -/
def NotRaised (x : Except CollectFailure Collection) : Prop :=
  ∀ error, x ≠ .error (.raised error)

theorem NotRaised.bind {x : Except CollectFailure Collection}
    {f : Collection → Except CollectFailure Collection} (hx : NotRaised x)
    (hf : ∀ c, NotRaised (f c)) : NotRaised (x >>= f) := by
  cases x with
  | error failure => exact fun error h => hx error h
  | ok c => exact hf c

theorem notRaised_ok (c : Collection) : NotRaised (.ok c) := fun _ h => nomatch h

theorem raising_ok_bind {α β : Type} (a : α) (f : α → Except CollectFailure β) :
    (raising (.ok a) >>= f) = f a := rfl

/-- All that collecting comes across can be coerced. -/
def AllCoerce (context : CollectFieldsContext) (selections : List SelectionNode) : Prop :=
  ∀ directives, context.Deferrable selections directives → context.CoercesDefer directives

theorem CollectFieldsContext.Deferrable.of_subset {selections selections' : List SelectionNode}
    {directives : Option (List DirectiveNode)}
    (hsub : ∀ selection ∈ context.inlinedAll selections,
      selection ∈ context.inlinedAll selections')
    (h : context.Deferrable selections directives) :
    context.Deferrable selections' directives := by
  cases h with
  | inlineFragment hmem hincluded hmatch =>
      exact .inlineFragment (hsub _ hmem) hincluded hmatch
  | fragmentSpread hfollows => exact .fragmentSpread (Follows.of_subset hsub hfollows)
  | fragment hfollows hfragment h =>
      exact .fragment (Follows.of_subset hsub hfollows) hfragment h

theorem AllCoerce.head {selection : SelectionNode} {rest : List SelectionNode}
    (h : AllCoerce context (selection :: rest)) : AllCoerce context [selection] := by
  refine fun directives hd => h directives (hd.of_subset fun selection' hmem => ?_)
  rw [inlinedAll_single] at hmem
  rw [inlinedAll]
  exact List.mem_append_left _ hmem

theorem AllCoerce.tail {selection : SelectionNode} {rest : List SelectionNode}
    (h : AllCoerce context (selection :: rest)) : AllCoerce context rest := by
  refine fun directives hd => h directives (hd.of_subset fun selection' hmem => ?_)
  rw [inlinedAll]
  exact List.mem_append_right _ hmem

section Complete

variable {visit : Visit} (hvariables : context.NoFragmentVariables)
  (hforbid : context.forbidSkipAndInclude = true)
  (hvisit : ∀ selections usage c, AllCoerce context selections →
    NotRaised (visit selections usage none c))

include hvariables hforbid hvisit

mutual

theorem collectSelection_notRaised : ∀ usage selection c,
    AllCoerce context [selection] →
    NotRaised (collectSelection context visit usage none selection c)
  | usage, .field node, c, _ => by
      rw [collectSelection]
      obtain ⟨forbidden, hincludes⟩ := shouldIncludeNode_of_forbid hforbid node.directives
      rw [hincludes]
      cases context.includes none node.directives <;> exact notRaised_ok _
  | usage, .inlineFragment ⟨typeCondition, directives, ⟨selections, loc⟩, loc'⟩, c, hall => by
      rw [collectSelection]
      obtain ⟨forbidden, hincludes⟩ := shouldIncludeNode_of_forbid hforbid directives
      rw [hincludes]
      cases hincluded : context.includes none directives with
      | false => exact notRaised_ok _
      | true =>
          change NotRaised (if !context.doesFragmentConditionMatch typeCondition then _
            else _)
          cases hmatch : context.doesFragmentConditionMatch typeCondition with
          | false => exact notRaised_ok _
          | true =>
              have hinlined := @inlinedAll_of_match context
                ⟨typeCondition, directives, ⟨selections, loc⟩, loc'⟩ hincluded hmatch
              have hcoerces : context.CoercesDefer directives := by
                refine hall _ (@Deferrable.inlineFragment context _
                  ⟨typeCondition, directives, ⟨selections, loc⟩, loc'⟩ ?_ hincluded hmatch)
                rw [hinlined]
                exact List.mem_cons_self
              have hbody : AllCoerce context selections := by
                refine fun _ hd => hall _ (hd.of_subset fun selection' hmem => ?_)
                rw [hinlined]
                exact List.mem_cons_of_mem _ hmem
              obtain ⟨newUsage, husage⟩ := (getDeferUsage_eq_ok_iff usage).mpr
                hcoerces
              rw [husage]
              cases newUsage with
              | none => exact collectSelections_notRaised usage selections c hbody
              | some newUsage =>
                  exact collectSelections_notRaised (some newUsage) selections _ hbody
  | usage, .fragmentSpread node, c, hall => by
      rw [collectSelection]
      obtain ⟨forbidden, hincludes⟩ := shouldIncludeNode_of_forbid hforbid node.directives
      rw [hincludes]
      cases hincluded : context.includes none node.directives with
      | false => exact notRaised_ok _
      | true =>
          simp only [raising_ok_bind, Bool.not_true, Bool.false_eq_true, if_false]
          cases hfragment : context.fragments.get node.name.value with
          | none => exact notRaised_ok _
          | some fragment =>
              cases hmatch : context.doesFragmentConditionMatch
                  (some fragment.definition.typeCondition) with
              | false =>
                  simp only [hmatch]
                  exact notRaised_ok _
              | true =>
                  have happlicable : context.applicable node.name.value = some fragment := by
                    simp [applicable, hfragment, hmatch]
                  have hfollows : context.Follows [.fragmentSpread node] node := by
                    refine ⟨?_, hincluded, by rw [happlicable]; rfl⟩
                    rw [inlinedAll_single, inlined]
                    exact List.mem_singleton_self _
                  have hbody (usage : Option DeferUsage) (entered : Collection) :
                      NotRaised (visit fragment.definition.selectionSet.selections usage
                        none entered) :=
                    hvisit _ _ _ fun _ hd => hall _ (.fragment hfollows happlicable hd)
                  obtain ⟨newUsage, husage⟩ :=
                    (getDeferUsage_eq_ok_iff usage).mpr
                      (hall _ (.fragmentSpread hfollows))
                  simp only [hmatch, Bool.not_true, Bool.false_eq_true, if_false, husage,
                    raising_ok_bind, fragmentScope_of_noVariables hvariables hfragment]
                  split
                  · exact notRaised_ok _
                  · exact hbody _ _
                  · exact notRaised_ok _
                  · exact hbody _ _

theorem collectSelections_notRaised : ∀ usage selections c,
    AllCoerce context selections →
    NotRaised (collectSelections context visit usage none selections c)
  | usage, [], c, _ => by
      rw [collectSelections]
      exact notRaised_ok c
  | usage, selection :: rest, c, hall => by
      rw [collectSelections]
      exact (collectSelection_notRaised usage selection c hall.head).bind
        fun c₁ => collectSelections_notRaised usage rest c₁ hall.tail

end

end Complete

theorem collectFieldsImpl_notRaised (hvariables : context.NoFragmentVariables)
    (hforbid : context.forbidSkipAndInclude = true) (depth : ℕ) :
    ∀ selections usage c, AllCoerce context selections →
    NotRaised (collectFieldsImpl context depth selections usage none c) := by
  induction depth with
  | zero => exact fun _ _ _ _ _ h => nomatch h
  | succ depth ih =>
      exact fun selections usage c hall =>
        collectSelections_notRaised hvariables hforbid ih usage selections c hall

/-- Without `@skip` and `@include`, fields are collected exactly if the arguments of
`@defer` can be coerced wherever collecting comes across them. -/
theorem collectFields_eq_ok_iff (hvariables : context.NoFragmentVariables)
    (hforbid : context.forbidSkipAndInclude = true) (selectionSet : SelectionSetNode) :
    (∃ c, collectFields context selectionSet = .ok c) ↔
      AllCoerce context selectionSet.selections := by
  constructor
  · rintro ⟨c, hrun⟩ directives hd
    have hcollected := collectFieldsImpl_collected hvariables hforbid _ _ _ _ _ hrun
    refine hd.coerces (fun name fragment hname hfragment => ?_) hcollected.settled
    exact hcollected.newly name fragment hname (fun h => nomatch h) hfragment
  · intro hall
    cases hrun : collectFields context selectionSet with
    | ok c => exact ⟨c, rfl⟩
    | error failure =>
        cases failure with
        | tooDeep => exact absurd hrun (collectFields_not_tooDeep context selectionSet)
        | raised error =>
            exact absurd hrun (collectFieldsImpl_notRaised hvariables hforbid _ _ _ _
              hall error)

end GraphqlCore.Execution
