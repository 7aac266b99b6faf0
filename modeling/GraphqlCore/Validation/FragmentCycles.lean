import GraphqlCore.Data.DictMerge
import GraphqlCore.Validation.SubscriptionFields

/-!
# Fragment cycles are found

The depth-first search of `NoFragmentCyclesRule` has one set of visited fragments for all
starting fragments.  Its path leads from every fragment with an index to the one that is being
searched, so that a reported path is a cycle; and as long as nothing is reported, no spreads
lead from a fragment that the search has left into a cycle.
-/

namespace GraphqlCore.Validation.NoFragmentCyclesRule

open Language

/-! ## The graph of fragment spreads -/

/-- The spread is in the selection set, at any depth. -/
inductive SpreadIn (node : FragmentSpreadNode) : SelectionSetNode → Prop
  | own {set} (h : .fragmentSpread node ∈ set.selections) : SpreadIn node set
  | field {set field inner} (h : .field field ∈ set.selections)
      (hinner : field.selectionSet = some inner) (hin : SpreadIn node inner) : SpreadIn node set
  | inlineFragment {set fragment} (h : .inlineFragment fragment ∈ set.selections)
      (hin : SpreadIn node fragment.selectionSet) : SpreadIn node set

variable (context : ValidationContext)

/-- The spread is in the fragment of that name. -/
def HasSpread (name : Text) (node : FragmentSpreadNode) : Prop :=
  ∃ fragment, context.getFragment name = some fragment ∧ SpreadIn node fragment.selectionSet

/-- The first fragment spreads the second one. -/
def FragmentSpreads (name name' : Text) : Prop :=
  (context.getFragment name').isSome ∧ ∃ node, HasSpread context name node ∧
    node.name.value = name'

/-- The spreads lead from one fragment to the other. -/
def Leads : Text → List FragmentSpreadNode → Text → Prop
  | name, [], name' => name = name'
  | name, node :: path, name' => HasSpread context name node ∧ Leads node.name.value path name'

/-- The spreads lead from a fragment back to it. -/
def FormsCycle (path : List FragmentSpreadNode) : Prop :=
  path ≠ [] ∧ ∃ name, Leads context name path name

variable {context}

theorem spreadIn_iff {node : FragmentSpreadNode} {set : SelectionSetNode} :
    SpreadIn node set ↔ node ∈ ownSpreads set.selections ∨
      ∃ inner ∈ ownSelectionSets set.selections, SpreadIn node inner := by
  constructor
  · rintro (h | ⟨h, hinner, hin⟩ | ⟨h, hin⟩)
    · exact Or.inl (List.mem_filterMap.mpr ⟨_, h, rfl⟩)
    · exact Or.inr ⟨_, List.mem_filterMap.mpr ⟨_, h, hinner⟩, hin⟩
    · exact Or.inr ⟨_, List.mem_filterMap.mpr ⟨_, h, rfl⟩, hin⟩
  · rintro (h | ⟨inner, h, hin⟩)
    · obtain ⟨selection, hmem, hselection⟩ := List.mem_filterMap.mp h
      cases selection with
      | fragmentSpread spread =>
          cases hselection
          exact .own hmem
      | field field => nomatch hselection
      | inlineFragment fragment => nomatch hselection
    · obtain ⟨selection, hmem, hselection⟩ := List.mem_filterMap.mp h
      cases selection with
      | fragmentSpread spread => nomatch hselection
      | field field => exact .field hmem hselection hin
      | inlineFragment fragment =>
          cases hselection
          exact .inlineFragment hmem hin

/-- The stack of selection sets comes to all spreads in them. -/
theorem mem_visitSets (setsToVisit : List SelectionSetNode) (node : FragmentSpreadNode) :
    node ∈ visitSets setsToVisit ↔ ∃ set ∈ setsToVisit, SpreadIn node set := by
  induction setsToVisit using visitSets.induct with
  | case1 => simp [visitSets]
  | case2 selections loc rest hlt ih =>
      have hset : SpreadIn node ⟨selections, loc⟩ ↔ node ∈ ownSpreads selections ∨
          ∃ inner ∈ ownSelectionSets selections, SpreadIn node inner := spreadIn_iff
      simp only [visitSets, List.mem_append, ih, List.mem_cons, List.mem_reverse, or_and_right,
        exists_or, exists_eq_left, hset, or_assoc]

theorem mem_getFragmentSpreads {node : FragmentSpreadNode} {set : SelectionSetNode} :
    node ∈ getFragmentSpreads set ↔ SpreadIn node set := by
  rw [getFragmentSpreads, mem_visitSets]
  simp

theorem Leads.concat {name name' : Text} {path : List FragmentSpreadNode}
    {node : FragmentSpreadNode} (h : Leads context name path name')
    (hnode : HasSpread context name' node) :
    Leads context name (path ++ [node]) node.name.value := by
  induction path generalizing name with
  | nil =>
      obtain rfl : name = name' := h
      exact ⟨hnode, rfl⟩
  | cons first path ih => exact ⟨h.1, ih h.2⟩

theorem HasSpread.isSome {name : Text} {node : FragmentSpreadNode}
    (h : HasSpread context name node) : (context.getFragment name).isSome := by
  obtain ⟨fragment, hfragment, -⟩ := h
  rw [hfragment]
  rfl

theorem Leads.transGen {name name' : Text} {path : List FragmentSpreadNode}
    (h : Leads context name path name') (hne : path ≠ [])
    (hsome : (context.getFragment name').isSome) :
    Relation.TransGen (FragmentSpreads context) name name' := by
  induction path generalizing name with
  | nil => exact absurd rfl hne
  | cons node path ih =>
      obtain ⟨hnode, hpath⟩ := h
      cases path with
      | nil =>
          obtain rfl : node.name.value = name' := hpath
          exact .single ⟨hsome, node, hnode, rfl⟩
      | cons next path =>
          have hnext : HasSpread context node.name.value next := hpath.1
          exact .head ⟨hnext.isSome, node, hnode, rfl⟩ (ih hpath (List.cons_ne_nil _ _))

/-- Spreads that form a cycle are a cycle of the graph. -/
theorem FormsCycle.transGen {path : List FragmentSpreadNode} (h : FormsCycle context path) :
    ∃ name, Relation.TransGen (FragmentSpreads context) name name := by
  obtain ⟨hne, name, hleads⟩ := h
  cases path with
  | nil => exact absurd rfl hne
  | cons node path => exact ⟨name, hleads.transGen hne hleads.1.isSome⟩

/-! ## The search -/

/-- The fragments that spread only fragments from which no cycle is reached. -/
def Grounded (context : ValidationContext) (name : Text) : Prop :=
  Acc (fun name' name => FragmentSpreads context name name') name

theorem grounded_of_none {name : Text} (h : context.getFragment name = none) :
    Grounded context name := by
  refine .intro _ fun name' hspreads => ?_
  obtain ⟨-, node, hnode, -⟩ := hspreads
  have hsome : (context.getFragment name).isSome := hnode.isSome
  rw [h] at hsome
  nomatch hsome

theorem Grounded.not_cycle {name : Text} (h : Grounded context name) :
    ¬Relation.TransGen (FragmentSpreads context) name name := by
  induction h with
  | intro name hnext ih =>
      intro hcycle
      obtain ⟨next, hfirst, hback⟩ := Relation.TransGen.head'_iff.mp hcycle
      exact ih next hfirst (.tail' hback hfirst)

/-- What is reported for a spread of a fragment within itself. -/
def cycleMessage (via : List FragmentSpreadNode) (node : FragmentSpreadNode) : Text :=
  str "Cannot spread fragment '" ++ node.name.value ++ str "' within itself" ++
    if via.isEmpty then str "." else str " via " ++ (str ", ").intercalate
      (via.map fun spread => str "'" ++ spread.name.value ++ str "'") ++ str "."

/-- The error names the spreads of a cycle. -/
def NamesCycle (context : ValidationContext) (error : RuleError) : Prop :=
  ∃ via node, FormsCycle context (via ++ [node]) ∧
    error = ⟨cycleMessage via node, (via ++ [node]).map .fragmentSpread⟩

theorem isEmpty_intercalate (via : List FragmentSpreadNode) :
    ((str ", ").intercalate
      (via.map fun spread => str "'" ++ spread.name.value ++ str "'")).isEmpty = via.isEmpty := by
  cases via with
  | nil => rfl
  | cons spread rest => cases rest <;> simp [str, List.intercalate]

/-- The fragments that the search has left are grounded. -/
def Clean (context : ValidationContext) (s : State) : Prop :=
  ∀ name ∈ s.visitedFrags, s.spreadPathIndexByName.get name = none → Grounded context name

/-- The path leads from each fragment with an index to the one that is searched. -/
def OnPath (context : ValidationContext) (s : State) (current : Text) : Prop :=
  ∀ name idx, s.spreadPathIndexByName.get name = some idx →
    idx ≤ s.spreadPath.length ∧ Leads context name (s.spreadPath.drop idx) current

/-- What a part of the search does. -/
structure Explores (context : ValidationContext) (s s' : State) : Prop
    extends Restores s s' where
  reported : s.errors <+: s'.errors
  sound : ∀ error ∈ s'.errors, error ∈ s.errors ∨ NamesCycle context error
  clean : s'.errors = s.errors → Clean context s → Clean context s'

namespace Explores

variable {s s' s'' : State}

theorem refl (s : State) : Explores context s s where
  toRestores := .refl s
  reported := List.prefix_rfl
  sound := fun _ h => Or.inl h
  clean := fun _ h => h

/-- If nothing is reported in both parts, then in neither. -/
theorem errors_eq (h : Explores context s s') (h' : Explores context s' s'')
    (heq : s''.errors = s.errors) : s'.errors = s.errors ∧ s''.errors = s'.errors := by
  have hback : s'.errors <+: s.errors := heq ▸ h'.reported
  have hsame : s'.errors = s.errors := hback.eq_of_length_le h.reported.length_le
  exact ⟨hsame, heq.trans hsame.symm⟩

theorem trans (h : Explores context s s') (h' : Explores context s' s'') :
    Explores context s s'' where
  toRestores := h.toRestores.trans h'.toRestores
  reported := h.reported.trans h'.reported
  sound := fun error herror => (h'.sound error herror).elim (h.sound error) Or.inr
  clean := fun heq hclean =>
    have hparts := h.errors_eq h' heq
    h'.clean hparts.2 (h.clean hparts.1 hclean)

end Explores

section Search

variable {detect : FragmentDefinitionNode → State → Except RuleFailure State} {depth : ℕ}
  (hdetect : ∀ fragment s, context.getFragment fragment.name.value = some fragment →
    Indexed s → OnPath context s fragment.name.value →
    unseen (fragmentNames context.document) s.visitedFrags < depth →
    Returns (detect fragment s) fun s' =>
      Explores context s s' ∧ fragment.name.value ∈ s'.visitedFrags)

theorem OnPath.push {s : State} {name : Text} {node : FragmentSpreadNode}
    (h : OnPath context s name) (hnode : HasSpread context name node) :
    OnPath context (s.push node) node.name.value := by
  intro name' idx hidx
  obtain ⟨hle, hleads⟩ := h name' idx hidx
  have hdrop : (s.push node).spreadPath.drop idx = s.spreadPath.drop idx ++ [node] :=
    List.drop_append_of_le_length hle
  have hlen : (s.push node).spreadPath.length = s.spreadPath.length + 1 := by
    simp [State.push]
  rw [hdrop, hlen]
  exact ⟨Nat.le_succ_of_le hle, hleads.concat hnode⟩

/-- A spread of a fragment on the path closes a cycle. -/
theorem explores_reportCycle {s : State} {node : FragmentSpreadNode} {cycleIndex : ℕ}
    (h : OnPath context (s.push node) node.name.value)
    (hlt : cycleIndex ≤ s.spreadPath.length)
    (hidx : s.spreadPathIndexByName.get node.name.value = some cycleIndex) :
    Explores context (s.push node) ((s.push node).reportCycle node.name.value cycleIndex) where
  visited := fun _ h => h
  path := rfl
  index := fun _ => rfl
  reported := List.prefix_append _ _
  sound := by
    intro error herror
    rcases List.mem_append.mp herror with hold | hnew
    · exact Or.inl hold
    · have hdrop : (s.push node).spreadPath.drop cycleIndex =
          s.spreadPath.drop cycleIndex ++ [node] := List.drop_append_of_le_length hlt
      obtain ⟨-, hleads⟩ := h _ _ hidx
      rw [hdrop] at hleads
      rw [List.mem_singleton.mp hnew, hdrop]
      refine Or.inr ⟨s.spreadPath.drop cycleIndex, node, ⟨by simp, _, hleads⟩, ?_⟩
      rw [List.dropLast_concat, isEmpty_intercalate, cycleMessage]
  clean := fun heq _ => absurd heq (by simp [State.reportCycle])

include hdetect

theorem enterSpread_explores {s : State} {name : Text} {node : FragmentSpreadNode}
    (hs : Indexed s) (hpath : OnPath context s name) (hnode : HasSpread context name node)
    (hdepth : unseen (fragmentNames context.document) s.visitedFrags < depth) :
    Returns (enterSpread context detect s node) fun s' =>
      Explores context (s.push node) s' ∧
        (s'.errors = s.errors → Clean context s → Grounded context node.name.value) := by
  have hpushed : OnPath context (s.push node) node.name.value := hpath.push hnode
  rw [enterSpread]
  cases hidx : s.spreadPathIndexByName.get node.name.value with
  | some cycleIndex =>
      have hreport := explores_reportCycle hpushed (hpath _ _ hidx).1 hidx
      refine .ok ⟨hreport, fun heq => ?_⟩
      exact absurd heq (by simp [State.reportCycle, State.push])
  | none =>
      cases hfragment : context.getFragment node.name.value with
      | none => exact .ok ⟨.refl _, fun _ _ => grounded_of_none hfragment⟩
      | some fragment =>
          have hname : fragment.name.value = node.name.value := name_of_getFragment hfragment
          rw [← hname] at hfragment hpushed hidx ⊢
          refine (hdetect fragment (s.push node) hfragment hs hpushed hdepth).mono ?_
          rintro s' ⟨hexplores, hvisited⟩
          refine ⟨hexplores, fun heq hclean => ?_⟩
          exact hexplores.clean heq hclean _ hvisited ((hexplores.index _).trans hidx)

theorem followSpread_explores {s : State} {name : Text} {node : FragmentSpreadNode}
    (hs : Indexed s) (hpath : OnPath context s name) (hnode : HasSpread context name node)
    (hdepth : unseen (fragmentNames context.document) s.visitedFrags < depth) :
    Returns (followSpread context detect s node) fun s' =>
      Explores context s s' ∧
        (s'.errors = s.errors → Clean context s → Grounded context node.name.value) := by
  refine (enterSpread_explores hdetect hs hpath hnode hdepth).bind ?_
  rintro s' ⟨hexplores, hgrounded⟩
  obtain ⟨popped, hpop, hrestores⟩ := pop_push hexplores.toRestores
  have hpopped : popped = { s' with spreadPath := s'.spreadPath.dropLast } := by
    have hne : s'.spreadPath.isEmpty = false := by
      rw [hexplores.path]
      simp [State.push]
    rw [State.pop, hne] at hpop
    exact (Except.ok.inj hpop).symm
  subst hpopped
  exact ⟨_, hpop, ⟨hrestores, hexplores.reported, hexplores.sound, hexplores.clean⟩, hgrounded⟩

/-- After the loop over the spreads of a fragment, all that it spreads is grounded. -/
theorem followSpreads_explores {name : Text} (nodes : List FragmentSpreadNode) (s : State)
    (hs : Indexed s) (hpath : OnPath context s name)
    (hnodes : ∀ node ∈ nodes, HasSpread context name node)
    (hdepth : unseen (fragmentNames context.document) s.visitedFrags < depth) :
    Returns (nodes.foldlM (followSpread context detect) s) fun s' =>
      Explores context s s' ∧ (s'.errors = s.errors → Clean context s →
        ∀ node ∈ nodes, Grounded context node.name.value) := by
  induction nodes generalizing s with
  | nil => exact .ok ⟨.refl s, fun _ _ node hnode => nomatch hnode⟩
  | cons node nodes ih =>
      obtain ⟨hnode, hrest⟩ := List.forall_mem_cons.mp hnodes
      rw [List.foldlM_cons]
      refine (followSpread_explores hdetect hs hpath hnode hdepth).bind ?_
      rintro s₁ ⟨hfirst, hground⟩
      have hpath₁ : OnPath context s₁ name := by
        intro name' idx hidx
        rw [hfirst.index] at hidx
        rw [hfirst.path]
        exact hpath name' idx hidx
      refine (ih s₁ (hs.restores hfirst.toRestores) hpath₁ hrest
        ((unseen_mono hfirst.visited).trans_lt hdepth)).mono ?_
      rintro s₂ ⟨hsecond, hgrounds⟩
      refine ⟨hfirst.trans hsecond, fun heq hclean => ?_⟩
      obtain ⟨heq₁, heq₂⟩ := hfirst.errors_eq hsecond heq
      exact List.forall_mem_cons.mpr
        ⟨hground heq₁ hclean, hgrounds heq₂ (hfirst.clean heq₁ hclean)⟩

end Search

/-- A fragment without spreads has no index, and spreads nothing. -/
theorem grounded_of_isEmpty {fragment : FragmentDefinitionNode}
    (hfragment : context.getFragment fragment.name.value = some fragment)
    (hempty : (getFragmentSpreads fragment.selectionSet).isEmpty) :
    Grounded context fragment.name.value := by
  refine .intro _ fun name' hspreads => ?_
  obtain ⟨-, node, ⟨fragment', hfragment', hin⟩, -⟩ := hspreads
  rw [hfragment] at hfragment'
  obtain rfl : fragment = fragment' := Option.some.inj hfragment'
  rw [← mem_getFragmentSpreads, List.isEmpty_iff.mp hempty] at hin
  nomatch hin

theorem grounded_of_spreads {fragment : FragmentDefinitionNode}
    (hfragment : context.getFragment fragment.name.value = some fragment)
    (hspreads : ∀ node ∈ getFragmentSpreads fragment.selectionSet,
      Grounded context node.name.value) : Grounded context fragment.name.value := by
  refine .intro _ fun name' hstep => ?_
  obtain ⟨-, node, ⟨fragment', hfragment', hin⟩, rfl⟩ := hstep
  rw [hfragment] at hfragment'
  obtain rfl : fragment = fragment' := Option.some.inj hfragment'
  exact hspreads node (mem_getFragmentSpreads.mpr hin)

theorem Clean.cons {s : State} {name : Text} (h : Clean context s)
    (hname : s.spreadPathIndexByName.get name = none → Grounded context name) :
    Clean context { s with visitedFrags := name :: s.visitedFrags } := by
  intro name' hmem hnone
  rcases List.mem_cons.mp hmem with rfl | hmem
  · exact hname hnone
  · exact h name' hmem hnone

/-- The state in which the spreads of a fragment are followed. -/
def entered (s : State) (name : Text) : State :=
  { s with visitedFrags := name :: s.visitedFrags }.enter name

section Entered

variable {s : State} {name : Text}

theorem get_entered (name' : Text) : (entered s name).spreadPathIndexByName.get name' =
    if name' = name then some s.spreadPath.length else s.spreadPathIndexByName.get name' := by
  rw [entered, State.enter, Dict.get_set]

theorem Indexed.entered (hs : Indexed s) : Indexed (entered s name) := by
  intro name' hmem
  rw [Dict.mem_keys_iff, get_entered] at hmem
  by_cases heq : name' = name
  · exact heq ▸ List.mem_cons_self
  · rw [if_neg heq, ← Dict.mem_keys_iff] at hmem
    exact List.mem_cons_of_mem _ (hs name' hmem)

theorem OnPath.entered (h : OnPath context s name) : OnPath context (entered s name) name := by
  intro name' idx hidx
  rw [get_entered] at hidx
  by_cases heq : name' = name
  · rw [if_pos heq] at hidx
    obtain rfl := Option.some.inj hidx
    refine ⟨Nat.le_refl _, ?_⟩
    have hdrop : s.spreadPath.drop s.spreadPath.length = [] := List.drop_length
    change Leads context name' (s.spreadPath.drop s.spreadPath.length) name
    rw [hdrop]
    exact heq
  · rw [if_neg heq] at hidx
    exact h name' idx hidx

theorem Clean.entered (h : Clean context s) : Clean context (entered s name) := by
  intro name' hmem hnone
  rw [get_entered] at hnone
  by_cases heq : name' = name
  · rw [if_pos heq] at hnone
    nomatch hnone
  · rw [if_neg heq] at hnone
    exact h name' ((List.mem_cons.mp hmem).resolve_left heq) hnone

/-- The search leaves a fragment whose spreads are all grounded. -/
theorem Explores.leave {s₁ s₂ : State} (h : Explores context (entered s name) s₁)
    (hrestores : Restores s s₂) (hleave : s₁.leave name = .ok s₂)
    (hgrounded : s₁.errors = s.errors → Clean context s → Grounded context name) :
    Explores context s s₂ := by
  have hs₂ : s₂ = { s₁ with spreadPathIndexByName := s₁.spreadPathIndexByName.pop name } := by
    rw [State.leave, h.index, get_entered, if_pos rfl] at hleave
    exact (Except.ok.inj hleave).symm
  subst hs₂
  refine ⟨hrestores, h.reported, h.sound, fun heq hclean name' hmem hnone => ?_⟩
  by_cases hname : name' = name
  · rw [hname]
    exact hgrounded heq hclean
  · rw [Dict.get_pop, if_neg hname] at hnone
    exact h.clean heq hclean.entered name' hmem hnone

end Entered

theorem detectCycleRecursive_explores (depth : ℕ) (fragment : FragmentDefinitionNode) (s : State)
    (hfragment : context.getFragment fragment.name.value = some fragment) (hs : Indexed s)
    (hpath : OnPath context s fragment.name.value)
    (hdepth : unseen (fragmentNames context.document) s.visitedFrags < depth) :
    Returns (detectCycleRecursive context depth fragment s) fun s' =>
      Explores context s s' ∧ fragment.name.value ∈ s'.visitedFrags := by
  induction depth generalizing fragment s with
  | zero => exact absurd hdepth (Nat.not_lt_zero _)
  | succ depth ih =>
      have hmem : fragment.name.value ∈ fragmentNames context.document :=
        name_mem_of_getFragment hfragment
      obtain ⟨s₂, hrun, hrestores⟩ :=
        detectCycleRecursive_returns (depth + 1) fragment s hmem hs hdepth
      refine ⟨s₂, hrun, ?_⟩
      rw [detectCycleRecursive] at hrun
      by_cases hvisited : fragment.name.value ∈ s.visitedFrags
      · rw [if_pos hvisited] at hrun
        obtain rfl := Except.ok.inj hrun
        exact ⟨.refl s, hvisited⟩
      rw [if_neg hvisited] at hrun
      by_cases hempty : (getFragmentSpreads fragment.selectionSet).isEmpty
      · rw [if_pos hempty] at hrun
        obtain rfl := Except.ok.inj hrun
        refine ⟨⟨hrestores, List.prefix_rfl, fun _ h => Or.inl h, fun _ hclean => ?_⟩,
          List.mem_cons_self⟩
        exact hclean.cons fun _ => grounded_of_isEmpty hfragment hempty
      rw [if_neg hempty] at hrun
      have hlt : unseen (fragmentNames context.document)
          (entered s fragment.name.value).visitedFrags < depth :=
        lt_of_lt_of_le (unseen_lt hmem hvisited List.mem_cons_self (List.subset_cons_self _ _))
          (Nat.lt_succ_iff.mp hdepth)
      have hnodes : ∀ node ∈ getFragmentSpreads fragment.selectionSet,
          HasSpread context fragment.name.value node := fun node hnode =>
        ⟨fragment, hfragment, mem_getFragmentSpreads.mp hnode⟩
      obtain ⟨s₁, hloop, hexplores, hgrounded⟩ := followSpreads_explores ih
        (getFragmentSpreads fragment.selectionSet) (entered s fragment.name.value) hs.entered
        hpath.entered hnodes hlt
      obtain ⟨s₁', hloop', hleave⟩ := bind_eq_ok.mp hrun
      obtain rfl : s₁ = s₁' := Except.ok.inj (hloop.symm.trans hloop')
      have hleft : Explores context s s₂ := hexplores.leave hrestores hleave fun heq hclean =>
        grounded_of_spreads hfragment (hgrounded heq hclean.entered)
      refine ⟨hleft, ?_⟩
      have hsame : s₂.visitedFrags = s₁.visitedFrags := by
        rw [State.leave, hexplores.index, get_entered, if_pos rfl] at hleave
        rw [← Except.ok.inj hleave]
      rw [hsame]
      exact hexplores.visited List.mem_cons_self

/-! ## The rule -/

theorem getFragment_of_mem {fragment : FragmentDefinitionNode}
    (hunique : (fragmentNames context.document).Nodup)
    (hmem : fragment ∈ fragmentDefinitions context.document) :
    context.getFragment fragment.name.value = some fragment := by
  have hnodup : (((fragmentDefinitions context.document).map fun definition =>
      (definition.name.value, definition)).map Prod.fst).Nodup := by
    rw [List.map_map]
    exact hunique
  have hget := Dict.get_foldl_set hnodup Dict.empty fragment.name.value
  rw [List.foldl_map, Dict.get_empty, Option.or_none] at hget
  rw [ValidationContext.getFragment, hget]
  exact (Dict.mem_iff_find hnodup).mp (List.mem_map_of_mem hmem)

theorem searchAll_explores (depth : ℕ)
    (hdepth : (fragmentNames context.document).length < depth)
    (definitions : List FragmentDefinitionNode) (s : State)
    (hdefinitions : ∀ fragment ∈ definitions,
      context.getFragment fragment.name.value = some fragment)
    (hs : Indexed s) (hindex : ∀ name, s.spreadPathIndexByName.get name = none) :
    Returns (definitions.foldlM (fun s fragment => detectCycleRecursive context depth fragment s) s)
      fun s' => Explores context s s' ∧
        ∀ fragment ∈ definitions, fragment.name.value ∈ s'.visitedFrags := by
  induction definitions generalizing s with
  | nil => exact .ok ⟨.refl s, fun fragment hmem => nomatch hmem⟩
  | cons fragment definitions ih =>
      obtain ⟨hfragment, hrest⟩ := List.forall_mem_cons.mp hdefinitions
      have hpath : OnPath context s fragment.name.value := fun name idx hidx => by
        rw [hindex] at hidx
        nomatch hidx
      rw [List.foldlM_cons]
      refine (detectCycleRecursive_explores depth fragment s hfragment hs hpath
        ((unseen_le_length _ _).trans_lt hdepth)).bind ?_
      rintro s₁ ⟨hfirst, hvisited⟩
      refine (ih s₁ hrest (hs.restores hfirst.toRestores)
        fun name => (hfirst.index name).trans (hindex name)).mono ?_
      rintro s₂ ⟨hsecond, hothers⟩
      exact ⟨hfirst.trans hsecond,
        List.forall_mem_cons.mpr ⟨hsecond.visited hvisited, hothers⟩⟩

/-- The rule reports an error exactly if the graph of fragment spreads has a cycle, and the
spreads that each error names form one. -/
theorem reports_cycles (context : ValidationContext) (depth : ℕ)
    (hunique : (fragmentNames context.document).Nodup)
    (hdepth : (fragmentNames context.document).length < depth) :
    ∃ errors, rule context depth = .ok errors ∧
      (errors ≠ [] ↔ ∃ name, Relation.TransGen (FragmentSpreads context) name name) ∧
      ∀ error ∈ errors, NamesCycle context error := by
  obtain ⟨s, hrun, hexplores, hvisited⟩ := searchAll_explores depth hdepth
    (fragmentDefinitions context.document) {}
    (fun fragment hmem => getFragment_of_mem hunique hmem)
    (fun name hmem => nomatch hmem) (fun name => rfl)
  have hsound : ∀ error ∈ s.errors, NamesCycle context error := fun error herror =>
    (hexplores.sound error herror).resolve_left fun h => nomatch h
  refine ⟨s.errors, bind_eq_ok.mpr ⟨s, hrun, rfl⟩, ⟨fun hne => ?_, ?_⟩, hsound⟩
  · obtain ⟨error, herror⟩ := List.exists_mem_of_ne_nil _ hne
    obtain ⟨via, node, hcycle, -⟩ := hsound error herror
    exact hcycle.transGen
  · rintro ⟨name, hcycle⟩ hnone
    -- The search has visited the fragment and left it again.
    obtain ⟨next, ⟨-, node, hnode, -⟩, -⟩ := Relation.TransGen.head'_iff.mp hcycle
    obtain ⟨fragment, hfragment, -⟩ := hnode
    have hmem : name ∈ s.visitedFrags := by
      obtain ⟨fragment', hfragment', hname⟩ :=
        List.mem_map.mp (name_mem_of_getFragment hfragment)
      exact hname ▸ hvisited fragment' hfragment'
    have hclean : Clean context s := hexplores.clean hnone fun name hmem => nomatch hmem
    exact (hclean name hmem (hexplores.index name)).not_cycle hcycle

/-- `fragment F on Mutation { ...F }` spreads itself. -/
theorem reports_cycles_cyclicMutation :
    ∃ errors, rule ⟨rootsSchema, cyclicMutation⟩ 2 = .ok errors ∧
      (errors ≠ [] ↔ ∃ name, Relation.TransGen
        (FragmentSpreads ⟨rootsSchema, cyclicMutation⟩) name name) ∧
      ∀ error ∈ errors, NamesCycle ⟨rootsSchema, cyclicMutation⟩ error :=
  reports_cycles ⟨rootsSchema, cyclicMutation⟩ 2 (by decide) (by decide)

end GraphqlCore.Validation.NoFragmentCyclesRule
