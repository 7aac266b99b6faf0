import GraphqlCore.Data.Settles
import GraphqlCore.Execution.Traversal
import GraphqlCore.Type.Validate
import GraphqlCore.Validation.FragmentRules
import GraphqlCore.Validation.MergeTermination

/-!
# Rules that follow fragments end

A walk that follows the spreads of a document ends if no fragment is entered again from
within itself: because it has been marked as visited before, or because the fragments do
not spread themselves.  The rule for root fields marks a fragment only afterwards, and
the rule for subscriptions coerces the arguments of `@defer`.
-/

set_option linter.unusedSectionVars false

namespace GraphqlCore.Validation

open Language Execution

/-! ## Fragments that are not entered -/

/-- How many of the names are not among those seen. -/
def unseen (names seen : List Text) : ℕ := (names.toFinset \ seen.toFinset).card

theorem unseen_mono {names seen seen' : List Text} (h : seen ⊆ seen') :
    unseen names seen' ≤ unseen names seen := by
  apply Finset.card_le_card
  apply Finset.sdiff_subset_sdiff (Finset.Subset.refl _)
  intro name hname
  rw [List.mem_toFinset] at hname ⊢
  exact h hname

theorem unseen_lt {names seen seen' : List Text} {name : Text} (hmem : name ∈ names)
    (hnot : name ∉ seen) (hseen : name ∈ seen') (h : seen ⊆ seen') :
    unseen names seen' < unseen names seen := by
  apply Finset.card_lt_card
  rw [Finset.ssubset_iff_of_subset]
  · exact ⟨name, by simp [hmem, hnot], by simp [hseen]⟩
  · intro other hother
    simp only [Finset.mem_sdiff, List.mem_toFinset] at hother ⊢
    exact ⟨hother.1, fun hmem => hother.2 (h hmem)⟩

theorem unseen_le_length (names seen : List Text) : unseen names seen ≤ names.length :=
  (Finset.card_le_card Finset.sdiff_subset).trans (List.toFinset_card_le names)

section Fragments

variable {context : ValidationContext}

/-- The names of the fragments of the document. -/
def fragmentNames (document : DocumentNode) : List Text :=
  (fragmentDefinitions document).map fun definition => definition.name.value

theorem name_of_getFragment {name : Text} {fragment : FragmentDefinitionNode}
    (h : context.getFragment name = some fragment) : fragment.name.value = name := by
  have hfold : ∀ (definitions : List FragmentDefinitionNode)
      (fragments : Dict Text FragmentDefinitionNode),
      (∀ fragment, fragments.get name = some fragment → fragment.name.value = name) →
      (definitions.foldl (fun fragments definition =>
        fragments.set definition.name.value definition) fragments).get name =
          some fragment → fragment.name.value = name := by
    intro definitions
    induction definitions with
    | nil => exact fun _ hfragments h => hfragments _ h
    | cons definition rest ih =>
        intro fragments hfragments h
        refine ih _ (fun fragment' hget => ?_) h
        rw [Dict.get_set] at hget
        split at hget
        · rename_i heq
          rw [← Option.some.inj hget, heq]
        · exact hfragments _ hget
  exact hfold _ _ (fun _ hempty => by cases hempty) h

theorem name_mem_of_getFragment {name : Text} {fragment : FragmentDefinitionNode}
    (h : context.getFragment name = some fragment) :
    name ∈ fragmentNames context.document := by
  refine List.mem_map.mpr ⟨fragment, ?_, name_of_getFragment h⟩
  exact List.mem_filterMap.mpr ⟨_, mem_of_getFragment h, rfl⟩

end Fragments

/-- There is a depth at which the rule ends, with a list of errors. -/
def Completes (run : ℕ → Except RuleFailure (List RuleError)) : Prop :=
  ∃ depth errors, run depth = .ok errors

theorem enterOperations_eq_ok_iff {document : DocumentNode}
    {enter : OperationDefinitionNode → Except RuleFailure (List RuleError)} :
    (∃ errors, enterOperations document enter = .ok errors) ↔
      ∀ operation ∈ operationDefinitions document,
        ∃ errors, enter operation = .ok errors := by
  have hfold : ∀ (operations : List OperationDefinitionNode) (errors : List RuleError),
      (∃ errors', operations.foldlM (fun errors operation => do
          let new ← enter operation
          return errors ++ new) errors = .ok errors') ↔
        ∀ operation ∈ operations, ∃ new, enter operation = .ok new := by
    intro operations
    induction operations with
    | nil => exact fun errors => ⟨fun _ _ h => (List.not_mem_nil h).elim, fun _ => ⟨_, rfl⟩⟩
    | cons operation rest ih =>
        intro errors
        rw [List.foldlM_cons, List.forall_mem_cons]
        cases henter : enter operation with
        | error failure => simp [bind, Except.bind]
        | ok new =>
            refine Iff.trans (ih (errors ++ new)) ?_
            simp
  exact hfold _ []

/-! ## Defer and stream on root fields -/

namespace DeferStreamDirectiveOnRootField

variable {context : ValidationContext} {operationType : OperationType} {rootType : Text}

/-- The first fragment spreads the second one, outside the selection sets of fields. -/
def SpreadsDirectly (context : ValidationContext) (name name' : Text) : Prop :=
  ∃ fragment, context.getFragment name = some fragment ∧
    ∃ node ∈ allDirectSpreads fragment.selectionSet.selections, node.name.value = name'

/-- The spreads lead from the fragment into a cycle. -/
def Loops (context : ValidationContext) (name : Text) : Prop :=
  ∃ name', Relation.ReflTransGen (SpreadsDirectly context) name name' ∧
    Relation.TransGen (SpreadsDirectly context) name' name'

/-- No spread of the selections leads into a cycle. -/
def NotLooping (context : ValidationContext) (selections : List SelectionNode) : Prop :=
  ∀ node ∈ allDirectSpreads selections, ¬ Loops context node.name.value

theorem loops_iff {name : Text} :
    Loops context name ↔ ∃ name', SpreadsDirectly context name name' ∧
      Loops context name' := by
  constructor
  · rintro ⟨target, hreaches, hcycle⟩
    rcases Relation.ReflTransGen.cases_head hreaches with rfl | ⟨next, hstep, hrest⟩
    · obtain ⟨next, hstep, hback⟩ := Relation.TransGen.head'_iff.mp hcycle
      exact ⟨next, hstep, name, hback, hcycle⟩
    · exact ⟨next, hstep, target, hrest, hcycle⟩
  · rintro ⟨next, hstep, target, hrest, hcycle⟩
    exact ⟨target, .head hstep hrest, hcycle⟩

/-- A fragment leads into a cycle exactly if its selections do. -/
theorem not_loops_iff {name : Text} {fragment : FragmentDefinitionNode}
    (hfragment : context.getFragment name = some fragment) :
    ¬ Loops context name ↔ NotLooping context fragment.selectionSet.selections := by
  rw [loops_iff]
  constructor
  · exact fun h node hnode hloops => h ⟨_, ⟨fragment, hfragment, node, hnode, rfl⟩, hloops⟩
  · rintro h ⟨name', ⟨fragment', hfragment', node, hnode, rfl⟩, hloops⟩
    rw [hfragment] at hfragment'
    obtain rfl := Option.some.inj hfragment'
    exact h node hnode hloops

theorem not_loops_of_none {name : Text} (h : context.getFragment name = none) :
    ¬ Loops context name := by
  rw [loops_iff]
  rintro ⟨name', ⟨fragment, hfragment, -⟩, -⟩
  rw [h] at hfragment
  cases hfragment

theorem notLooping_nil : NotLooping context [] :=
  fun _ hnode => (List.not_mem_nil hnode).elim

theorem notLooping_cons {selection : SelectionNode} {rest : List SelectionNode} :
    NotLooping context (selection :: rest) ↔
      NotLooping context [selection] ∧ NotLooping context rest := by
  unfold NotLooping
  simp only [allDirectSpreads, List.append_nil, List.forall_mem_append]

/-! ### What has been walked through does not lead into a cycle -/

/-- No visited fragment leads into a cycle. -/
def Unlooped (context : ValidationContext) (w : Walk) : Prop :=
  ∀ name ∈ w.visitedFragments, ¬ Loops context name

theorem Unlooped.visit {w : Walk} {name : Text} (h : Unlooped context w)
    (hname : ¬ Loops context name) : Unlooped context (w.visit name) :=
  List.forall_mem_cons.mpr ⟨hname, h⟩

section Sound

variable {follow : List SelectionNode → Walk → Except RuleFailure Walk}
  (hfollow : ∀ selections w w', Unlooped context w → follow selections w = .ok w' →
    Unlooped context w' ∧ NotLooping context selections)

include hfollow

mutual

theorem forbidSelection_sound : ∀ selection w w', Unlooped context w →
    forbidSelection context operationType rootType follow selection w = .ok w' →
    Unlooped context w' ∧ NotLooping context [selection]
  | .field node, w, w', hw, hrun => by
      rw [forbidSelection] at hrun
      obtain rfl := Except.ok.inj hrun
      exact ⟨hw, fun _ hnode => (List.not_mem_nil hnode).elim⟩
  | .fragmentSpread node, w, w', hw, hrun => by
      have hsingle (h : ¬ Loops context node.name.value) :
          NotLooping context [.fragmentSpread node] := by
        simpa [NotLooping, allDirectSpreads, directSpreads] using h
      rw [forbidSelection] at hrun
      split at hrun
      · rename_i hvisited
        obtain rfl := Except.ok.inj hrun
        exact ⟨hw, hsingle (hw _ hvisited)⟩
      · cases hfragment : context.getFragment node.name.value with
        | none =>
            rw [hfragment] at hrun
            obtain rfl := Except.ok.inj hrun
            have hnot := not_loops_of_none hfragment
            exact ⟨hw.visit hnot, hsingle hnot⟩
        | some fragment =>
            rw [hfragment] at hrun
            obtain ⟨w₁, hbody, hrest⟩ := bind_eq_ok.mp hrun
            obtain rfl := Except.ok.inj hrest
            obtain ⟨hw₁, hselections⟩ := hfollow _ (w.report _) _ hw hbody
            have hnot := (not_loops_iff hfragment).mpr hselections
            exact ⟨hw₁.visit hnot, hsingle hnot⟩
  | .inlineFragment ⟨_, directives, ⟨selections, _⟩, _⟩, w, w', hw, hrun => by
      rw [forbidSelection] at hrun
      obtain ⟨hw', hselections⟩ := forbidSelections_sound selections (w.report _) w' hw hrun
      refine ⟨hw', ?_⟩
      simpa [NotLooping, allDirectSpreads, directSpreads] using hselections

theorem forbidSelections_sound : ∀ selections w w', Unlooped context w →
    forbidSelections context operationType rootType follow selections w = .ok w' →
    Unlooped context w' ∧ NotLooping context selections
  | [], w, w', hw, hrun => by
      rw [forbidSelections] at hrun
      obtain rfl := Except.ok.inj hrun
      exact ⟨hw, notLooping_nil⟩
  | selection :: rest, w, w', hw, hrun => by
      rw [forbidSelections] at hrun
      obtain ⟨w₁, hfirst, hrest⟩ := bind_eq_ok.mp hrun
      obtain ⟨hw₁, hselection⟩ := forbidSelection_sound selection w w₁ hw hfirst
      obtain ⟨hw', hselections⟩ := forbidSelections_sound rest w₁ w' hw₁ hrest
      exact ⟨hw', notLooping_cons.mpr ⟨hselection, hselections⟩⟩

end

end Sound

theorem forbidDeferStream_sound (depth : ℕ) : ∀ selections w w', Unlooped context w →
    forbidDeferStream context operationType rootType depth selections w = .ok w' →
    Unlooped context w' ∧ NotLooping context selections := by
  induction depth with
  | zero => exact fun _ _ _ _ hrun => nomatch hrun
  | succ depth ih => exact forbidSelections_sound ih

/-! ### Without a cycle the walk ends -/

/-- The fragments that have been entered lead to each spread of the selections. -/
def Within (context : ValidationContext) (entered : List Text)
    (selections : List SelectionNode) : Prop :=
  ∀ node ∈ allDirectSpreads selections, ∀ name ∈ entered,
    Relation.TransGen (SpreadsDirectly context) name node.name.value

section Complete

variable {follow : List SelectionNode → Walk → Except RuleFailure Walk} {depth : ℕ}
  (hfollow : ∀ entered selections w, Within context entered selections →
    NotLooping context selections →
    unseen (fragmentNames context.document) entered < depth →
    Returns (follow selections w) fun _ => True)

include hfollow

/-- A fragment is not entered again, since it would lead to itself. -/
theorem follow_returns {entered : List Text} {node : FragmentSpreadNode}
    {fragment : FragmentDefinitionNode}
    (hfragment : context.getFragment node.name.value = some fragment)
    (hentered : ∀ name ∈ entered,
      Relation.TransGen (SpreadsDirectly context) name node.name.value)
    (hloops : ¬ Loops context node.name.value)
    (hdepth : unseen (fragmentNames context.document) entered ≤ depth) (w : Walk) :
    Returns (follow fragment.selectionSet.selections w) fun _ => True := by
  have hnot : node.name.value ∉ entered := fun hmem =>
    hloops ⟨_, .refl, hentered _ hmem⟩
  apply hfollow (node.name.value :: entered)
  · intro spread hspread
    have hstep : SpreadsDirectly context node.name.value spread.name.value :=
      ⟨fragment, hfragment, spread, hspread, rfl⟩
    rw [List.forall_mem_cons]
    exact ⟨.single hstep, fun name hname => (hentered name hname).tail hstep⟩
  · exact (not_loops_iff hfragment).mp hloops
  · exact lt_of_lt_of_le (unseen_lt (name_mem_of_getFragment hfragment) hnot
      List.mem_cons_self (List.subset_cons_self _ _)) hdepth

mutual

theorem forbidSelection_returns {entered : List Text}
    (hdepth : unseen (fragmentNames context.document) entered ≤ depth) :
    ∀ selection w, Within context entered [selection] → NotLooping context [selection] →
    Returns (forbidSelection context operationType rootType follow selection w)
      fun _ => True
  | .field node, w, _, _ => by
      rw [forbidSelection]
      exact .ok trivial
  | .fragmentSpread node, w, hwithin, hloops => by
      rw [forbidSelection]
      split
      · exact .ok trivial
      · cases hfragment : context.getFragment node.name.value with
        | none => exact .ok trivial
        | some fragment =>
            have hmem : node ∈ allDirectSpreads [.fragmentSpread node] :=
              List.mem_singleton_self node
            exact (follow_returns hfollow hfragment (hwithin node hmem)
              (hloops node hmem) hdepth _).bind fun _ _ => .ok trivial
  | .inlineFragment ⟨_, directives, ⟨selections, _⟩, _⟩, w, hwithin, hloops => by
      have hspreads : ∀ typeCondition loc loc', allDirectSpreads
          [.inlineFragment ⟨typeCondition, directives, ⟨selections, loc⟩, loc'⟩] =
            allDirectSpreads selections := by
        intro typeCondition loc loc'
        simp [allDirectSpreads, directSpreads]
      rw [forbidSelection]
      rw [Within, hspreads] at hwithin
      rw [NotLooping, hspreads] at hloops
      exact forbidSelections_returns hdepth selections _ hwithin hloops

theorem forbidSelections_returns {entered : List Text}
    (hdepth : unseen (fragmentNames context.document) entered ≤ depth) :
    ∀ selections w, Within context entered selections → NotLooping context selections →
    Returns (forbidSelections context operationType rootType follow selections w)
      fun _ => True
  | [], w, _, _ => by
      rw [forbidSelections]
      exact .ok trivial
  | selection :: rest, w, hwithin, hloops => by
      have hsplit : Within context entered [selection] ∧ Within context entered rest := by
        unfold Within at hwithin ⊢
        simpa only [allDirectSpreads, List.append_nil, List.forall_mem_append] using hwithin
      rw [notLooping_cons] at hloops
      rw [forbidSelections]
      exact (forbidSelection_returns hdepth selection w hsplit.1 hloops.1).bind
        fun w _ => forbidSelections_returns hdepth rest w hsplit.2 hloops.2

end

end Complete

theorem forbidDeferStream_returns (depth : ℕ) : ∀ entered selections w,
    Within context entered selections → NotLooping context selections →
    unseen (fragmentNames context.document) entered < depth →
    Returns (forbidDeferStream context operationType rootType depth selections w)
      fun _ => True := by
  induction depth with
  | zero => exact fun _ _ _ _ _ hdepth => absurd hdepth (Nat.not_lt_zero _)
  | succ depth ih =>
      exact fun entered selections w hwithin hloops hdepth =>
        forbidSelections_returns ih (Nat.lt_succ_iff.mp hdepth) selections w hwithin hloops

/-- The walk through an operation, if there is one, does not lead into a cycle. -/
def OperationNotLooping (context : ValidationContext)
    (operation : OperationDefinitionNode) : Prop :=
  operation.operation ≠ .query →
    (context.schema.operationRootType operation.operation).isSome →
    NotLooping context operation.selectionSet.selections

theorem notLooping_of_enter {depth : ℕ} {operation : OperationDefinitionNode}
    (h : ∃ errors, enterOperationDefinition context depth operation = .ok errors) :
    OperationNotLooping context operation := by
  intro hquery hroot
  obtain ⟨errors, hrun⟩ := h
  obtain ⟨rootType, hrootType⟩ := Option.isSome_iff_exists.mp hroot
  rw [enterOperationDefinition, if_neg hquery, hrootType] at hrun
  obtain ⟨w, hwalk, -⟩ := bind_eq_ok.mp hrun
  exact (forbidDeferStream_sound depth _ {} w (fun _ h => (List.not_mem_nil h).elim)
    hwalk).2

theorem enter_of_notLooping {depth : ℕ} {operation : OperationDefinitionNode}
    (hdepth : (fragmentNames context.document).length < depth)
    (h : OperationNotLooping context operation) :
    ∃ errors, enterOperationDefinition context depth operation = .ok errors := by
  unfold enterOperationDefinition
  split
  · exact ⟨_, rfl⟩
  · rename_i hquery
    cases hroot : context.schema.operationRootType operation.operation with
    | none => exact ⟨_, rfl⟩
    | some rootType =>
        obtain ⟨w, hwalk, -⟩ := @forbidDeferStream_returns context operation.operation
          rootType depth [] operation.selectionSet.selections {}
          (fun _ _ _ h => (List.not_mem_nil h).elim)
          (h hquery (by rw [hroot]; rfl)) ((unseen_le_length _ _).trans_lt hdepth)
        exact ⟨w.errors, bind_eq_ok.mpr ⟨w, hwalk, rfl⟩⟩

/-- The rule ends exactly if no operation that it walks through spreads a fragment that
leads into a cycle. -/
theorem completes_iff : Completes (rule context) ↔
    ∀ operation ∈ operationDefinitions context.document,
      OperationNotLooping context operation := by
  constructor
  · rintro ⟨depth, hrun⟩ operation hoperation
    exact notLooping_of_enter (enterOperations_eq_ok_iff.mp hrun operation hoperation)
  · intro h
    refine ⟨(fragmentNames context.document).length + 1, ?_⟩
    exact enterOperations_eq_ok_iff.mpr fun operation hoperation =>
      enter_of_notLooping (Nat.lt_succ_self _) (h operation hoperation)

end DeferStreamDirectiveOnRootField

/-! ## Defer and stream on valid operations -/

namespace DeferStreamDirectiveOnValidOperationsRule

variable {context : ValidationContext}

section Selections

variable {follow : Follow} {depth : ℕ}
  (hfollow : ∀ parentNodes selections w,
    unseen (fragmentNames context.document) w.visitedFragments < depth →
    Returns (follow parentNodes selections w) fun w' =>
      w.visitedFragments ⊆ w'.visitedFragments)

include hfollow

mutual

theorem forbidSelection_returns (parentNodes : List FragmentSpreadNode) :
    ∀ selection w, unseen (fragmentNames context.document) w.visitedFragments ≤ depth →
    Returns (forbidSelection context follow parentNodes selection w) fun w' =>
      w.visitedFragments ⊆ w'.visitedFragments
  | .field ⟨_, _, _, directives, selectionSet, _⟩, w, hdepth => by
      rw [forbidSelection]
      split
      · exact .ok (List.Subset.refl _)
      · exact forbidSubselections_returns parentNodes selectionSet (w.report _) hdepth
  | .fragmentSpread node, w, hdepth => by
      rw [forbidSelection]
      split
      · exact .ok (List.Subset.refl _)
      · dsimp only
        split
        · exact .ok (List.Subset.refl _)
        · rename_i hnot
          have hvisit : w.visitedFragments ⊆
              ((w.report (forbidDirectives parentNodes node.directives)).visit
                node.name.value).visitedFragments := List.subset_cons_self _ _
          cases hfragment : context.getFragment node.name.value with
          | none => exact .ok hvisit
          | some fragment =>
              have hlt := unseen_lt (name_mem_of_getFragment hfragment) hnot
                List.mem_cons_self (List.subset_cons_self _ _)
              exact (hfollow _ _ _ (lt_of_lt_of_le hlt hdepth)).mono
                fun w' hw' => List.Subset.trans hvisit hw'
  | .inlineFragment ⟨_, directives, ⟨selections, _⟩, _⟩, w, hdepth => by
      rw [forbidSelection]
      split
      · exact .ok (List.Subset.refl _)
      · exact forbidSelections_returns parentNodes selections (w.report _) hdepth

theorem forbidSubselections_returns (parentNodes : List FragmentSpreadNode) :
    ∀ selectionSet w,
    unseen (fragmentNames context.document) w.visitedFragments ≤ depth →
    Returns (forbidSubselections context follow parentNodes selectionSet w) fun w' =>
      w.visitedFragments ⊆ w'.visitedFragments
  | none, w, _ => by
      rw [forbidSubselections]
      exact .ok (List.Subset.refl _)
  | some ⟨selections, _⟩, w, hdepth => by
      rw [forbidSubselections]
      exact forbidSelections_returns parentNodes selections w hdepth

theorem forbidSelections_returns (parentNodes : List FragmentSpreadNode) :
    ∀ selections w, unseen (fragmentNames context.document) w.visitedFragments ≤ depth →
    Returns (forbidSelections context follow parentNodes selections w) fun w' =>
      w.visitedFragments ⊆ w'.visitedFragments
  | [], w, _ => by
      rw [forbidSelections]
      exact .ok (List.Subset.refl _)
  | selection :: rest, w, hdepth => by
      rw [forbidSelections]
      refine (forbidSelection_returns parentNodes selection w hdepth).bind fun w₁ hw₁ => ?_
      exact (forbidSelections_returns parentNodes rest w₁
        ((unseen_mono hw₁).trans hdepth)).mono fun w' hw' => List.Subset.trans hw₁ hw'

end

end Selections

theorem forbidUnconditionalDeferStream_returns (depth : ℕ) :
    ∀ parentNodes selections w,
    unseen (fragmentNames context.document) w.visitedFragments < depth →
    Returns (forbidUnconditionalDeferStream context depth parentNodes selections w)
      fun w' => w.visitedFragments ⊆ w'.visitedFragments := by
  induction depth with
  | zero => exact fun _ _ _ hdepth => absurd hdepth (Nat.not_lt_zero _)
  | succ depth ih =>
      exact fun parentNodes selections w hdepth =>
        forbidSelections_returns ih parentNodes selections w (Nat.lt_succ_iff.mp hdepth)

/-- Since a fragment is marked before it is followed, the rule ends. -/
theorem completes (context : ValidationContext) : Completes (rule context) := by
  refine ⟨(fragmentNames context.document).length + 1, ?_⟩
  refine enterOperations_eq_ok_iff.mpr fun operation _ => ?_
  unfold enterOperationDefinition
  split
  · exact ⟨_, rfl⟩
  · obtain ⟨w, hwalk, -⟩ := forbidUnconditionalDeferStream_returns
      ((fragmentNames context.document).length + 1) []
      operation.selectionSet.selections {} (Nat.lt_succ_iff.mpr (unseen_le_length _ _))
    exact ⟨w.errors, bind_eq_ok.mpr ⟨w, hwalk, rfl⟩⟩

end DeferStreamDirectiveOnValidOperationsRule

/-! ## No fragment cycles -/

namespace NoFragmentCyclesRule

variable {context : ValidationContext}

/-- The names with an index are those of visited fragments. -/
def Indexed (s : State) : Prop :=
  ∀ name ∈ s.spreadPathIndexByName.keys, name ∈ s.visitedFrags

/-- Nothing is left of a search but what it has visited and reported. -/
structure Restores (s s' : State) : Prop where
  visited : s.visitedFrags ⊆ s'.visitedFrags
  path : s'.spreadPath = s.spreadPath
  index : ∀ name, s'.spreadPathIndexByName.get name = s.spreadPathIndexByName.get name

theorem Restores.refl (s : State) : Restores s s := ⟨fun _ h => h, rfl, fun _ => rfl⟩

theorem Restores.trans {s s' s'' : State} (h : Restores s s') (h' : Restores s' s'') :
    Restores s s'' :=
  ⟨List.Subset.trans h.visited h'.visited, h'.path.trans h.path,
    fun name => (h'.index name).trans (h.index name)⟩

theorem Indexed.restores {s s' : State} (h : Indexed s) (hr : Restores s s') :
    Indexed s' := by
  intro name hname
  rw [Dict.mem_keys_iff, hr.index, ← Dict.mem_keys_iff] at hname
  exact hr.visited (h name hname)

section Search

variable {detect : FragmentDefinitionNode → State → Except RuleFailure State} {depth : ℕ}
  (hdetect : ∀ fragment s, fragment.name.value ∈ fragmentNames context.document →
    Indexed s → unseen (fragmentNames context.document) s.visitedFrags < depth →
    Returns (detect fragment s) (Restores s))

/-- The spread is on the path only while it is followed. -/
theorem pop_push {s s' : State} {spreadNode : FragmentSpreadNode}
    (h : Restores (s.push spreadNode) s') : Returns s'.pop (Restores s) := by
  have hpath : s'.spreadPath = s.spreadPath ++ [spreadNode] := h.path
  unfold State.pop
  rw [hpath]
  refine ⟨_, if_neg (by simp), ?_⟩
  exact ⟨h.visited, by simp, h.index⟩

include hdetect

theorem followSpread_returns {s : State} (hs : Indexed s)
    (hdepth : unseen (fragmentNames context.document) s.visitedFrags < depth)
    (spreadNode : FragmentSpreadNode) :
    Returns (followSpread context detect s spreadNode) (Restores s) := by
  unfold followSpread enterSpread
  refine Returns.bind (Q := Restores (s.push spreadNode)) ?_ fun s' hs' => pop_push hs'
  dsimp only
  split
  · split
    · exact .ok (.refl _)
    · rename_i fragment hfragment
      refine hdetect fragment _ ?_ hs hdepth
      rw [name_of_getFragment hfragment]
      exact name_mem_of_getFragment hfragment
  · exact .ok ⟨fun _ h => h, rfl, fun _ => rfl⟩

end Search

theorem detectCycleRecursive_returns (depth : ℕ) : ∀ fragment s,
    fragment.name.value ∈ fragmentNames context.document → Indexed s →
    unseen (fragmentNames context.document) s.visitedFrags < depth →
    Returns (detectCycleRecursive context depth fragment s) (Restores s) := by
  induction depth with
  | zero => exact fun _ _ _ _ hdepth => absurd hdepth (Nat.not_lt_zero _)
  | succ depth ih =>
      intro fragment s hmem hs hdepth
      unfold detectCycleRecursive
      dsimp only
      split
      · exact .ok (.refl s)
      · rename_i hnot
        split
        · exact .ok ⟨List.subset_cons_self _ _, rfl, fun _ => rfl⟩
        · generalize hentered : State.enter _ fragment.name.value = entered
          have hvisited : entered.visitedFrags = fragment.name.value :: s.visitedFrags := by
            rw [← hentered]
            rfl
          have hindex : entered.spreadPathIndexByName =
              s.spreadPathIndexByName.set fragment.name.value s.spreadPath.length := by
            rw [← hentered]
            rfl
          have hindexed : Indexed entered := by
            intro name hname
            rw [Dict.mem_keys_iff, hindex, Dict.get_set] at hname
            rw [hvisited]
            split at hname
            · rename_i heq
              exact heq ▸ List.mem_cons_self
            · exact List.mem_cons_of_mem _ (hs name (Dict.mem_keys_iff.mpr hname))
          have hlt : unseen (fragmentNames context.document) entered.visitedFrags < depth := by
            rw [hvisited]
            exact lt_of_lt_of_le (unseen_lt hmem hnot List.mem_cons_self
              (List.subset_cons_self _ _)) (Nat.lt_succ_iff.mp hdepth)
          refine Returns.bind (Q := Restores entered) (Returns.foldlM
            (I := Restores entered) (fun s₁ hs₁ spreadNode _ => ?_) _ (.refl _)) ?_
          · exact (followSpread_returns ih (hindexed.restores hs₁)
              ((unseen_mono hs₁.visited).trans_lt hlt) spreadNode).mono
              fun _ hs₂ => hs₁.trans hs₂
          · intro s' hs'
            have hget := hs'.index fragment.name.value
            rw [hindex, Dict.get_set_self] at hget
            unfold State.leave
            rw [hget]
            refine .ok ⟨?_, ?_, fun name => ?_⟩
            · have hsub := hs'.visited
              rw [hvisited] at hsub
              exact fun name hname => hsub (List.mem_cons_of_mem _ hname)
            · rw [← hentered] at hs'
              exact hs'.path
            · have hold : fragment.name.value ∉ s.spreadPathIndexByName.keys :=
                fun hmem => hnot (hs _ hmem)
              rw [Dict.mem_keys_iff, Option.not_isSome_iff_eq_none] at hold
              dsimp only
              rw [Dict.get_pop, hs'.index, hindex, Dict.get_set]
              split
              · rename_i heq
                rw [heq, hold]
              · rfl

/-- Since a fragment is marked before its spreads are followed, the search ends, and the
path and its index are what they were. -/
theorem completes (context : ValidationContext) : Completes (rule context) := by
  refine ⟨(fragmentNames context.document).length + 1, ?_⟩
  obtain ⟨s, hrun, -⟩ := Returns.foldlM (I := Indexed)
    (l := fragmentDefinitions context.document)
    (fun s hs fragment hfragment =>
      (detectCycleRecursive_returns ((fragmentNames context.document).length + 1) fragment s
        (List.mem_map_of_mem hfragment) hs
        (Nat.lt_succ_iff.mpr (unseen_le_length _ _))).mono fun _ hs' => hs.restores hs')
    {} (fun _ h => (List.not_mem_nil h).elim)
  exact ⟨s.errors, bind_eq_ok.mpr ⟨s, hrun, rfl⟩⟩

end NoFragmentCyclesRule

/-! ## Introspection depth -/

namespace MaxIntrospectionDepthRule

variable {context : ValidationContext}

section Check

variable {follow : Follow} {limit : ℕ}
  (hfollow : ∀ depth selections visited,
    unseen (fragmentNames context.document) visited < limit →
    Returns (follow depth selections visited) fun answer => answer.2 = visited)

include hfollow

mutual

theorem checkSelection_returns {visited : List Text}
    (hlimit : unseen (fragmentNames context.document) visited ≤ limit) :
    ∀ depth selection, Returns (checkSelection context follow depth selection visited)
      fun answer => answer.2 = visited
  | depth, .fragmentSpread node => by
      rw [checkSelection]
      dsimp only
      split
      · exact .ok rfl
      · rename_i hnot
        cases hfragment : context.getFragment node.name.value with
        | none => exact .ok rfl
        | some fragment =>
            have hlt := unseen_lt (name_mem_of_getFragment hfragment) hnot
              (List.mem_append_right visited (List.mem_singleton_self _))
              (List.subset_append_left _ _)
            refine (hfollow depth fragment.selectionSet.selections _
              (lt_of_lt_of_le hlt hlimit)).bind fun answer hanswer => ?_
            obtain ⟨reached, entered⟩ := answer
            obtain rfl : entered = _ := hanswer
            refine ⟨_, if_pos (by simp), ?_⟩
            rw [List.erase_append_right _ hnot]
            simp
  | depth, .field ⟨_, name, _, _, selectionSet, _⟩ => by
      rw [checkSelection]
      split
      · split
        · exact .ok rfl
        · exact checkSubselections_returns hlimit (depth + 1) selectionSet
      · exact checkSubselections_returns hlimit depth selectionSet
  | depth, .inlineFragment ⟨_, _, ⟨selections, _⟩, _⟩ => by
      rw [checkSelection]
      exact checkSelections_returns hlimit depth selections

theorem checkSubselections_returns {visited : List Text}
    (hlimit : unseen (fragmentNames context.document) visited ≤ limit) :
    ∀ depth selectionSet,
    Returns (checkSubselections context follow depth selectionSet visited)
      fun answer => answer.2 = visited
  | depth, none => by
      rw [checkSubselections]
      exact .ok rfl
  | depth, some ⟨selections, _⟩ => by
      rw [checkSubselections]
      exact checkSelections_returns hlimit depth selections

theorem checkSelections_returns {visited : List Text}
    (hlimit : unseen (fragmentNames context.document) visited ≤ limit) :
    ∀ depth selections, Returns (checkSelections context follow depth selections visited)
      fun answer => answer.2 = visited
  | depth, [] => by
      rw [checkSelections]
      exact .ok rfl
  | depth, selection :: rest => by
      rw [checkSelections]
      refine (checkSelection_returns hlimit depth selection).bind fun answer hanswer => ?_
      obtain ⟨reached, _⟩ := answer
      obtain rfl : _ = visited := hanswer
      cases reached with
      | true => exact .ok rfl
      | false => exact checkSelections_returns hlimit depth rest

end

end Check

theorem checkDepth_returns (limit : ℕ) : ∀ depth selections visited,
    unseen (fragmentNames context.document) visited < limit →
    Returns (checkDepth context limit depth selections visited)
      fun answer => answer.2 = visited := by
  induction limit with
  | zero => exact fun _ _ _ hlimit => absurd hlimit (Nat.not_lt_zero _)
  | succ limit ih =>
      exact fun depth selections visited hlimit =>
        checkSelections_returns ih (Nat.lt_succ_iff.mp hlimit) depth selections

section Visit

variable {limit : ℕ} (hlimit : (fragmentNames context.document).length < limit)

include hlimit

theorem enterField_returns (node : FieldNode) (s : State) :
    Returns (enterField context limit node s) fun _ => True := by
  unfold enterField
  split
  · refine (checkSelection_returns (checkDepth_returns limit)
      ((unseen_le_length _ _).trans hlimit.le) 0 (.field node)).bind fun answer _ => ?_
    obtain ⟨reached, visited⟩ := answer
    cases reached <;> exact .ok trivial
  · exact .ok trivial

mutual

theorem visitSelection_returns : ∀ selection s,
    Returns (visitSelection context limit selection s) fun _ => True
  | .field ⟨_, _, _, _, selectionSet, _⟩, s => by
      rw [visitSelection]
      refine (enterField_returns hlimit _ s).bind fun answer _ => ?_
      obtain ⟨skipped, s'⟩ := answer
      cases skipped with
      | true => exact .ok trivial
      | false => exact visitSubselections_returns selectionSet s'
  | .fragmentSpread _, s => by
      rw [visitSelection]
      exact .ok trivial
  | .inlineFragment ⟨_, _, ⟨selections, _⟩, _⟩, s => by
      rw [visitSelection]
      exact visitSelections_returns selections s

theorem visitSubselections_returns : ∀ selectionSet s,
    Returns (visitSubselections context limit selectionSet s) fun _ => True
  | none, s => by
      rw [visitSubselections]
      exact .ok trivial
  | some ⟨selections, _⟩, s => by
      rw [visitSubselections]
      exact visitSelections_returns selections s

theorem visitSelections_returns : ∀ selections s,
    Returns (visitSelections context limit selections s) fun _ => True
  | [], s => by
      rw [visitSelections]
      exact .ok trivial
  | selection :: rest, s => by
      rw [visitSelections]
      exact (visitSelection_returns selection s).bind
        fun s' _ => visitSelections_returns rest s'

end

end Visit

/-- Since a fragment is not visited within itself, the rule ends, and no fragment is left
as visited. -/
theorem completes (context : ValidationContext) : Completes (rule context) := by
  have hlimit := Nat.lt_succ_self (fragmentNames context.document).length
  refine ⟨(fragmentNames context.document).length + 1, ?_⟩
  obtain ⟨s, hrun, -⟩ := Returns.foldlM (I := fun _ => True)
    (f := visitDefinition context ((fragmentNames context.document).length + 1))
    (l := context.document.definitions) (fun s _ definition _ => by
      unfold visitDefinition
      split
      · exact visitSelections_returns hlimit _ s
      · exact visitSelections_returns hlimit _ s
      · exact .ok trivial) {} trivial
  exact ⟨s.errors, bind_eq_ok.mpr ⟨s, hrun, rfl⟩⟩

end MaxIntrospectionDepthRule

end GraphqlCore.Validation
