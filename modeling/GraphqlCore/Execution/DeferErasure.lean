import GraphqlCore.Execution.Traversal

/-!
# Deferral and the collected fields

The runs of `collect_fields` and of the specification's algorithm are traversals,
the latter one without visiting a fragment again.  Hence both collect the same
nodes, and in the same order of their keys where no fragment spreads itself.
-/

set_option linter.unusedSectionVars false

namespace GraphqlCore.Execution

open Language CollectFieldsContext

/-! ## Grouped nodes -/

section Groups

variable {α : Type} (toNode : α → FieldNode)

/-- The nodes that are grouped under a response key. -/
def nodesOf (groups : Dict Text (List α)) (key : Text) : List FieldNode :=
  ((groups.get key).getD []).map toNode

/-- Every node is grouped under its own response key. -/
def Keyed (groups : Dict Text (List α)) : Prop :=
  ∀ key, ∀ node ∈ nodesOf toNode groups key, getFieldEntryKey node = key

/-- What has been collected in the groups. -/
def groupsView (groups : Dict Text (List α)) (visited : Text → Prop) : View where
  keys := groups.keys
  nodes node := node ∈ nodesOf toNode groups (getFieldEntryKey node)
  visited := visited

def addToGroup (groups : Dict Text (List α)) (key : Text) (a : α) : Dict Text (List α) :=
  groups.set key ((groups.get key).getD [] ++ [a])

variable {toNode} {groups : Dict Text (List α)} {visited : Text → Prop} {a : α}

theorem nodesOf_addToGroup (key key' : Text) :
    nodesOf toNode (addToGroup groups key a) key' =
      if key' = key then nodesOf toNode groups key ++ [toNode a]
      else nodesOf toNode groups key' := by
  unfold nodesOf addToGroup
  rw [Dict.get_set]
  split
  · rw [Option.getD_some, List.map_append]
    rfl
  · rfl

theorem Keyed.addToGroup (h : Keyed toNode groups) :
    Keyed toNode (addToGroup groups (getFieldEntryKey (toNode a)) a) := by
  intro key node hnode
  rw [nodesOf_addToGroup] at hnode
  split at hnode
  · next hkey =>
      rcases List.mem_append.mp hnode with hnode | hnode
      · rw [hkey]
        exact h _ node hnode
      · rw [List.mem_singleton.mp hnode, hkey]
  · exact h key node hnode

theorem groupsView_addToGroup :
    groupsView toNode (addToGroup groups (getFieldEntryKey (toNode a)) a) visited =
      (groupsView toNode groups visited).addField (toNode a) := by
  ext x
  · unfold groupsView View.addField OrderedSet.add addToGroup
    dsimp only
    split
    · next hmem => rw [Dict.keys_set_of_mem hmem]
    · next hmem => rw [Dict.keys_set_of_not_mem hmem]
  · unfold groupsView View.addField
    dsimp only
    rw [nodesOf_addToGroup]
    split
    · next hkey => rw [hkey, List.mem_append, List.mem_singleton]
    · next hkey =>
        constructor
        · exact .inl
        · rintro (h | rfl)
          · exact h
          · exact absurd rfl hkey
  · rfl

/-- The nodes of a key are the collected nodes with this key. -/
theorem Keyed.mem_nodesOf_iff (h : Keyed toNode groups) {key : Text} {node : FieldNode} :
    node ∈ nodesOf toNode groups key ↔
      (groupsView toNode groups visited).nodes node ∧ getFieldEntryKey node = key := by
  constructor
  · intro hnode
    have hkey := h key node hnode
    subst hkey
    exact ⟨hnode, rfl⟩
  · rintro ⟨hnode, rfl⟩
    exact hnode

end Groups

/-! ## Collecting with deferral -/

def Collection.view (c : Collection) : View :=
  groupsView FieldDetails.node c.groupedFieldSet
    fun name => (c.visitedFragmentNames.get name).isSome

/-- The selections are traversed from the first to the second collection, and nodes
stay under their keys. -/
structure Collects (context : CollectFieldsContext) (selections : List SelectionNode)
    (c c' : Collection) : Prop where
  traverses : ∀ rest v, Traverses context false rest c'.view v →
    Traverses context false (selections ++ rest) c.view v
  keyed : Keyed FieldDetails.node c.groupedFieldSet →
    Keyed FieldDetails.node c'.groupedFieldSet

section Collects

variable {context : CollectFieldsContext} {selections selections' : List SelectionNode}
variable {c c' c'' : Collection}

theorem Collects.body (h : Collects context selections c c') :
    Traverses context false selections c.view c'.view := by
  have htraverses := h.traverses [] c'.view .nil
  rwa [List.append_nil] at htraverses

theorem Collects.nil : Collects context [] c c := ⟨fun _ _ h => h, id⟩

theorem Collects.append (h : Collects context selections c c')
    (h' : Collects context selections' c' c'') :
    Collects context (selections ++ selections') c c'' := by
  constructor
  · intro rest v hrest
    rw [List.append_assoc]
    exact h.traverses _ v (h'.traverses rest v hrest)
  · exact fun hkeyed => h'.keyed (h.keyed hkeyed)

/-- A selection of which nothing is collected. -/
theorem Collects.quiet {selection : SelectionNode}
    (h : ∀ rest v v', Traverses context false rest v v' →
      Traverses context false (selection :: rest) v v')
    (hgroups : c'.groupedFieldSet = c.groupedFieldSet)
    (hvisited : c'.visitedFragmentNames = c.visitedFragmentNames) :
    Collects context [selection] c c' := by
  have hview : c'.view = c.view := by
    unfold Collection.view
    rw [hgroups, hvisited]
  constructor
  · intro rest v hrest
    rw [hview] at hrest
    exact h rest _ v hrest
  · rw [hgroups]
    exact id

theorem view_addField (c : Collection) (details : FieldDetails) :
    (c.addField details).view = c.view.addField details.node :=
  groupsView_addToGroup

theorem view_visitFragment (c : Collection) (name : Text) (deferred : Bool) :
    (c.visitFragment name deferred).view = c.view.visit name := by
  ext x
  · rfl
  · rfl
  · unfold Collection.view Collection.visitFragment View.visit groupsView
    dsimp only
    rw [Dict.get_set]
    split
    · next h => simp only [h, Option.isSome_some, or_true]
    · next h => simp only [h, or_false]

theorem fragmentScope_eq_none (hvariables : context.NoFragmentVariables)
    {name : Text} {fragment : FragmentDetails}
    (hfragment : context.fragments.get name = some fragment)
    (values : Option FragmentVariableValues) (spread : FragmentSpreadNode) :
    context.fragmentScope values spread fragment = .ok none := by
  unfold fragmentScope
  rw [hvariables name fragment hfragment]
  rfl

theorem applicable_of_get {name : Text} {fragment : FragmentDetails}
    (hfragment : context.fragments.get name = some fragment)
    (hmatch : context.doesFragmentConditionMatch
      (some fragment.definition.typeCondition) = true) :
    context.applicable name = some fragment := by
  unfold applicable
  rw [hfragment]
  exact if_pos hmatch

theorem applicable_eq_none {name : Text} {fragment : FragmentDetails}
    (hfragment : context.fragments.get name = some fragment)
    (hmatch : context.doesFragmentConditionMatch
      (some fragment.definition.typeCondition) = false) :
    context.applicable name = none := by
  unfold applicable
  rw [hfragment]
  exact if_neg (by rw [hmatch]; exact Bool.false_ne_true)

/-- The fragment of a spread is visited. -/
theorem Collects.fragmentSpread {node : FragmentSpreadNode} {fragment : FragmentDetails}
    {deferred : Bool} (hchecked : context.Checked node.directives true)
    (happlicable : context.applicable node.name.value = some fragment)
    (hgroups : c'.groupedFieldSet = c.groupedFieldSet)
    (hvisited : c'.visitedFragmentNames =
      (c.visitFragment node.name.value deferred).visitedFragmentNames)
    (h : Collects context fragment.definition.selectionSet.selections c' c'') :
    Collects context [.fragmentSpread node] c c'' := by
  have hview : c'.view = c.view.visit node.name.value := by
    rw [← view_visitFragment c node.name.value deferred]
    unfold Collection.view
    rw [hgroups, hvisited]
    rfl
  have hbody := h.body
  rw [hview] at hbody
  constructor
  · intro rest v hrest
    exact .fragmentSpread hchecked happlicable (fun hfalse => nomatch hfalse) hbody hrest
  · intro hkeyed
    apply h.keyed
    rwa [hgroups]

section Run

variable {visit : Visit} (hvariables : context.NoFragmentVariables)
  (hvisit : ∀ selections usage c c', visit selections usage none c = .ok c' →
    Collects context selections c c')

include hvariables hvisit

mutual

theorem collectSelection_collects (usage : Option DeferUsage) : ∀ selection c c',
    collectSelection context visit usage none selection c = .ok c' →
    Collects context [selection] c c'
  | .field node, c, c', h => by
      rw [collectSelection] at h
      obtain ⟨⟨included, forbidden⟩, hincluded, h⟩ := bind_eq_ok.mp h
      have hchecked : context.Checked node.directives included :=
        ⟨forbidden, raising_eq_ok.mp hincluded⟩
      cases included with
      | false =>
          obtain rfl := Except.ok.inj h
          exact .quiet (fun _ _ _ hrest => .excluded hchecked hrest) rfl rfl
      | true =>
          obtain rfl := Except.ok.inj h
          constructor
          · intro rest v hrest
            rw [view_addField] at hrest
            exact .field hchecked hrest
          · exact Keyed.addToGroup
  | .inlineFragment ⟨typeCondition, directives, ⟨selections, loc⟩, loc'⟩, c, c', h => by
      rw [collectSelection] at h
      obtain ⟨⟨included, forbidden⟩, hincluded, h⟩ := bind_eq_ok.mp h
      have hchecked : context.Checked directives included :=
        ⟨forbidden, raising_eq_ok.mp hincluded⟩
      cases included with
      | false =>
          obtain rfl := Except.ok.inj h
          exact .quiet (fun _ _ _ hrest => .excluded hchecked hrest) rfl rfl
      | true =>
          cases hmatch : context.doesFragmentConditionMatch typeCondition with
          | false =>
              rw [hmatch] at h
              obtain rfl := Except.ok.inj h
              exact .quiet (fun _ _ _ hrest => .noMatch hchecked hmatch hrest) rfl rfl
          | true =>
              rw [hmatch] at h
              obtain ⟨newUsage, _, h⟩ := bind_eq_ok.mp h
              have hbody : Collects context selections c c' := by
                cases newUsage with
                | none => exact collectSelections_collects usage selections c c' h
                | some newUsage =>
                    have hdeferred := collectSelections_collects (some newUsage)
                      selections _ c' h
                    exact ⟨hdeferred.traverses, hdeferred.keyed⟩
              exact ⟨fun rest v hrest =>
                .inlineFragment hchecked hmatch hbody.body hrest, hbody.keyed⟩
  | .fragmentSpread node, c, c', h => by
      rw [collectSelection] at h
      obtain ⟨⟨included, forbidden⟩, hincluded, h⟩ := bind_eq_ok.mp h
      have hchecked : context.Checked node.directives included :=
        ⟨forbidden, raising_eq_ok.mp hincluded⟩
      cases included with
      | false =>
          obtain rfl := Except.ok.inj h
          exact .quiet (fun _ _ _ hrest => .excluded hchecked hrest) rfl rfl
      | true =>
          cases hfragment : context.fragments.get node.name.value with
          | none =>
              rw [hfragment] at h
              obtain rfl := Except.ok.inj h
              have happlicable : context.applicable node.name.value = none := by
                unfold applicable
                rw [hfragment]
              exact .quiet (fun _ _ _ hrest =>
                .notApplicable hchecked happlicable hrest) rfl rfl
          | some fragment =>
              rw [hfragment] at h
              cases hmatch : context.doesFragmentConditionMatch
                  (some fragment.definition.typeCondition) with
              | false =>
                  simp only [hmatch] at h
                  obtain rfl := Except.ok.inj h
                  have happlicable := applicable_eq_none hfragment hmatch
                  exact .quiet (fun _ _ _ hrest =>
                    .notApplicable hchecked happlicable hrest) rfl rfl
              | true =>
                  simp only [hmatch] at h
                  have happlicable := applicable_of_get hfragment hmatch
                  obtain ⟨newUsage, _, h⟩ := bind_eq_ok.mp h
                  rw [fragmentScope_eq_none hvariables hfragment] at h
                  have hskipped : ∀ deferred, c.visitedFragmentNames.get
                      node.name.value = some deferred → c' = c →
                      Collects context [.fragmentSpread node] c c' := by
                    intro deferred hvisited heq
                    subst heq
                    constructor
                    · intro rest v hrest
                      apply Traverses.skipped hchecked happlicable _ hrest
                      exact Option.isSome_iff_exists.mpr ⟨deferred, hvisited⟩
                    · exact id
                  have hentered : ∀ deferred c₁ usage',
                      c₁.groupedFieldSet = c.groupedFieldSet →
                      c₁.visitedFragmentNames = (c.visitFragment node.name.value
                        deferred).visitedFragmentNames →
                      visit fragment.definition.selectionSet.selections usage' none c₁ =
                        .ok c' → Collects context [.fragmentSpread node] c c' :=
                    fun _ c₁ usage' hgroups hvisited hrun =>
                      .fragmentSpread hchecked happlicable hgroups hvisited
                        (hvisit _ usage' c₁ c' hrun)
                  cases newUsage with
                  | none =>
                      cases hvisited : c.visitedFragmentNames.get node.name.value with
                      | none =>
                          rw [hvisited] at h
                          exact hentered false (c.visitFragment node.name.value false)
                            usage rfl rfl h
                      | some deferred =>
                          rw [hvisited] at h
                          cases deferred with
                          | false => exact hskipped false hvisited (Except.ok.inj h).symm
                          | true =>
                              exact hentered false
                                (c.visitFragment node.name.value false) usage rfl rfl h
                  | some newUsage =>
                      cases hvisited : c.visitedFragmentNames.get node.name.value with
                      | none =>
                          rw [hvisited] at h
                          exact hentered true ((c.visitFragment node.name.value
                            true).addDeferUsage newUsage) (some newUsage) rfl rfl h
                      | some deferred =>
                          rw [hvisited] at h
                          exact hskipped deferred hvisited (Except.ok.inj h).symm

theorem collectSelections_collects (usage : Option DeferUsage) : ∀ selections c c',
    collectSelections context visit usage none selections c = .ok c' →
    Collects context selections c c'
  | [], c, c', h => by
      obtain rfl := Except.ok.inj h
      exact .nil
  | selection :: rest, c, c', h => by
      rw [collectSelections] at h
      obtain ⟨c₁, hselection, hrest⟩ := bind_eq_ok.mp h
      exact (collectSelection_collects usage selection c c₁ hselection).append
        (collectSelections_collects usage rest c₁ c' hrest)

end

end Run

theorem collectFieldsImpl_collects (hvariables : context.NoFragmentVariables)
    (depth : ℕ) : ∀ selections usage c c',
    collectFieldsImpl context depth selections usage none c = .ok c' →
    Collects context selections c c' := by
  induction depth with
  | zero => exact fun _ _ _ _ h => nomatch h
  | succ depth ih =>
      exact fun selections usage c c' h =>
        collectSelections_collects hvariables ih usage selections c c' h

end Collects

/-! ## Collecting without deferral -/

/-- Only fragments that apply count as visited. -/
def SpecCollection.view (context : CollectFieldsContext) (s : SpecCollection) : View :=
  groupsView id s.groupedFieldSet
    fun name => name ∈ s.visitedFragments ∧ (context.applicable name).isSome

/-- The fragments that have not been visited. -/
def SpecCollection.unvisited (context : CollectFieldsContext) (s : SpecCollection) : ℕ :=
  (context.fragments.keys.toFinset.filter (· ∉ s.visitedFragments)).card

/-- The selections are traversed from the first to the second collection without
visiting a fragment again, and nodes stay under their keys. -/
structure SpecCollects (context : CollectFieldsContext) (selections : List SelectionNode)
    (s s' : SpecCollection) : Prop where
  traverses : ∀ rest v, Traverses context true rest (s'.view context) v →
    Traverses context true (selections ++ rest) (s.view context) v
  keyed : Keyed id s.groupedFieldSet → Keyed id s'.groupedFieldSet
  unvisited : s'.unvisited context ≤ s.unvisited context

section SpecCollects

variable {context : CollectFieldsContext} {selections selections' : List SelectionNode}
variable {s s' s'' : SpecCollection} {v : View}

theorem SpecCollects.body (h : SpecCollects context selections s s') :
    Traverses context true selections (s.view context) (s'.view context) := by
  have htraverses := h.traverses [] (s'.view context) .nil
  rwa [List.append_nil] at htraverses

theorem SpecCollects.nil : SpecCollects context [] s s := ⟨fun _ _ h => h, id, le_rfl⟩

theorem SpecCollects.append (h : SpecCollects context selections s s')
    (h' : SpecCollects context selections' s' s'') :
    SpecCollects context (selections ++ selections') s s'' := by
  constructor
  · intro rest v hrest
    rw [List.append_assoc]
    exact h.traverses _ v (h'.traverses rest v hrest)
  · exact fun hkeyed => h'.keyed (h.keyed hkeyed)
  · exact h'.unvisited.trans h.unvisited

theorem SpecCollects.quiet {selection : SelectionNode}
    (h : ∀ rest v v', Traverses context true rest v v' →
      Traverses context true (selection :: rest) v v') :
    SpecCollects context [selection] s s :=
  ⟨fun rest v hrest => h rest _ v hrest, id, le_rfl⟩

theorem specView_addField (s : SpecCollection) (node : FieldNode) :
    (s.addField node).view context = (s.view context).addField node :=
  @groupsView_addToGroup _ id _ _ node

theorem specView_visitFragment {name : Text} {fragment : FragmentDetails}
    (happlicable : context.applicable name = some fragment) :
    (s.visitFragment name).view context = (s.view context).visit name := by
  ext name'
  · rfl
  · rfl
  · unfold SpecCollection.view SpecCollection.visitFragment View.visit groupsView
    simp only [List.mem_append, List.mem_singleton]
    constructor
    · rintro ⟨hmem | rfl, hsome⟩
      · exact .inl ⟨hmem, hsome⟩
      · exact .inr rfl
    · rintro (⟨hmem, hsome⟩ | rfl)
      · exact ⟨.inl hmem, hsome⟩
      · exact ⟨.inr rfl, by rw [happlicable]; rfl⟩

theorem specView_visitFragment_of_none {name : Text}
    (happlicable : context.applicable name = none) :
    (s.visitFragment name).view context = s.view context := by
  ext name'
  · rfl
  · rfl
  · unfold SpecCollection.view SpecCollection.visitFragment groupsView
    simp only [List.mem_append, List.mem_singleton]
    constructor
    · rintro ⟨hmem | rfl, hsome⟩
      · exact ⟨hmem, hsome⟩
      · rw [happlicable] at hsome
        cases hsome
    · exact fun h => ⟨.inl h.1, h.2⟩

theorem unvisited_visitFragment_le (s : SpecCollection) (name : Text) :
    (s.visitFragment name).unvisited context ≤ s.unvisited context := by
  apply Finset.card_le_card
  intro name' hmem
  rw [Finset.mem_filter] at hmem ⊢
  exact ⟨hmem.1, fun hvisited => hmem.2 (List.mem_append_left _ hvisited)⟩

theorem unvisited_visitFragment_lt {name : Text} {fragment : FragmentDetails}
    (happlicable : context.applicable name = some fragment)
    (hvisited : name ∉ s.visitedFragments) :
    (s.visitFragment name).unvisited context < s.unvisited context := by
  apply Finset.card_lt_card
  rw [Finset.ssubset_iff_of_subset]
  · refine ⟨name, ?_, ?_⟩
    · rw [Finset.mem_filter, List.mem_toFinset]
      exact ⟨mem_keys_of_applicable (by rw [happlicable]; rfl), hvisited⟩
    · intro hmem
      exact (Finset.mem_filter.mp hmem).2
        (List.mem_append_right _ (List.mem_singleton_self name))
  · intro name' hmem
    rw [Finset.mem_filter] at hmem ⊢
    exact ⟨hmem.1, fun h => hmem.2 (List.mem_append_left _ h)⟩

theorem shouldIncludeNode_of_covered {selection : SelectionNode}
    (hcovered : Covered context [selection] v) :
    ∃ included, context.Checked selection.directives included := by
  apply hcovered.checked
  rw [inlinedAll_single]
  cases selection with
  | field | fragmentSpread =>
      rw [inlined]
      exact List.mem_singleton_self _
  | inlineFragment node =>
      rw [inlined_inlineFragment]
      exact List.mem_cons_self

section Run

variable {visit : SpecVisit} {depth : ℕ} (hvariables : context.NoFragmentVariables)
  (hclosed : Closed context v)
  (hvisit : ∀ selections s, Covered context selections v → s.unvisited context < depth →
    ∃ s', visit selections none s = .ok s' ∧ SpecCollects context selections s s')

include hvariables hclosed hvisit

mutual

/-- Where everything is covered by some view, the algorithm does not fail. -/
theorem specCollectSelection_collects : ∀ selection s,
    Covered context [selection] v → s.unvisited context ≤ depth →
    ∃ s', specCollectSelection context visit none selection s = .ok s' ∧
      SpecCollects context [selection] s s'
  | .field node, s, hcovered, _ => by
      obtain ⟨included, hchecked⟩ := shouldIncludeNode_of_covered hcovered
      obtain ⟨forbidden, hincluded⟩ := hchecked
      simp only [SelectionNode.directives] at hincluded
      rw [specCollectSelection, hincluded]
      cases included with
      | false => exact ⟨s, rfl, .quiet fun _ _ _ hrest => .excluded ⟨_, hincluded⟩ hrest⟩
      | true =>
          refine ⟨s.addField node, rfl, ?_, @Keyed.addToGroup _ id _ node, le_rfl⟩
          intro rest v hrest
          rw [specView_addField] at hrest
          exact .field ⟨_, hincluded⟩ hrest
  | .inlineFragment ⟨typeCondition, directives, ⟨selections, loc⟩, loc'⟩, s, hcovered,
      hdepth => by
      obtain ⟨included, hchecked⟩ := shouldIncludeNode_of_covered hcovered
      have hincluded := hchecked
      obtain ⟨forbidden, hincluded⟩ := hincluded
      simp only [SelectionNode.directives] at hincluded hchecked
      rw [specCollectSelection, hincluded]
      cases included with
      | false => exact ⟨s, rfl, .quiet fun _ _ _ hrest => .excluded hchecked hrest⟩
      | true =>
          cases hmatch : context.doesFragmentConditionMatch typeCondition with
          | false => exact ⟨s, rfl, .quiet fun _ _ _ hrest =>
              .noMatch hchecked hmatch hrest⟩
          | true =>
              have hbody := (covered_inlineFragment hchecked hmatch).mp hcovered
              obtain ⟨s', hrun, hcollects⟩ :=
                specCollectSelections_collects selections s hbody hdepth
              refine ⟨s', hrun, ?_, hcollects.keyed, hcollects.unvisited⟩
              exact fun rest v hrest =>
                .inlineFragment hchecked hmatch hcollects.body hrest
  | .fragmentSpread node, s, hcovered, hdepth => by
      obtain ⟨included, hchecked⟩ := shouldIncludeNode_of_covered hcovered
      have hincluded := hchecked
      obtain ⟨forbidden, hincluded⟩ := hincluded
      simp only [SelectionNode.directives] at hincluded hchecked
      rw [specCollectSelection, hincluded]
      cases included with
      | false => exact ⟨s, rfl, .quiet fun _ _ _ hrest => .excluded hchecked hrest⟩
      | true =>
          cases happlicable : context.applicable node.name.value with
          | none =>
              have hquiet : ∀ rest v v', Traverses context true rest v v' →
                  Traverses context true (.fragmentSpread node :: rest) v v' :=
                fun _ _ _ hrest => .notApplicable hchecked happlicable hrest
              by_cases hvisited : node.name.value ∈ s.visitedFragments
              · refine ⟨s, ?_, .quiet hquiet⟩
                simp only [raising, bind, Except.bind,
                  List.contains_iff_mem.mpr hvisited]
                rfl
              · refine ⟨s.visitFragment node.name.value, ?_, ?_, id, ?_⟩
                · simp only [raising, bind, Except.bind, List.contains_eq_mem,
                    hvisited, decide_false]
                  rfl
                · intro rest v hrest
                  rw [specView_visitFragment_of_none happlicable] at hrest
                  exact hquiet rest _ v hrest
                · exact unvisited_visitFragment_le s node.name.value
          | some fragment =>
              by_cases hvisited : node.name.value ∈ s.visitedFragments
              · refine ⟨s, ?_, ?_, id, le_rfl⟩
                · simp only [raising, bind, Except.bind,
                    List.contains_iff_mem.mpr hvisited]
                  rfl
                · intro rest v hrest
                  apply Traverses.skipped hchecked happlicable _ hrest
                  exact ⟨hvisited, by rw [happlicable]; rfl⟩
              · have hfollows := @follows_head _ _ _ [] hchecked happlicable
                have hbody := hclosed _ _ (hcovered.spreads node hfollows) happlicable
                have hlt := unvisited_visitFragment_lt happlicable hvisited
                obtain ⟨s', hrun, hcollects⟩ :=
                  hvisit _ (s.visitFragment node.name.value) hbody (hlt.trans_le hdepth)
                refine ⟨s', ?_, ?_, hcollects.keyed, hcollects.unvisited.trans hlt.le⟩
                · simp only [raising, bind, Except.bind, List.contains_eq_mem,
                    hvisited, decide_false,
                    fragmentScope_eq_none hvariables (get_of_applicable happlicable)]
                  exact hrun
                · intro rest v hrest
                  have htraverses := hcollects.body
                  rw [specView_visitFragment happlicable] at htraverses
                  exact .fragmentSpread hchecked happlicable
                    (fun _ h => hvisited h.1) htraverses hrest

theorem specCollectSelections_collects : ∀ selections s,
    Covered context selections v → s.unvisited context ≤ depth →
    ∃ s', specCollectSelections context visit none selections s = .ok s' ∧
      SpecCollects context selections s s'
  | [], s, _, _ => ⟨s, rfl, .nil⟩
  | selection :: rest, s, hcovered, hdepth => by
      obtain ⟨s₁, hselection, hcollects⟩ :=
        specCollectSelection_collects selection s hcovered.head hdepth
      obtain ⟨s', hrest, hcollects'⟩ := specCollectSelections_collects rest s₁
        hcovered.tail (hcollects.unvisited.trans hdepth)
      refine ⟨s', ?_, hcollects.append hcollects'⟩
      rw [specCollectSelections, hselection]
      exact hrest

end

end Run

theorem specCollectImpl_collects (hvariables : context.NoFragmentVariables)
    (hclosed : Closed context v) (depth : ℕ) : ∀ selections s,
    Covered context selections v → s.unvisited context < depth →
    ∃ s', specCollectImpl context depth selections none s = .ok s' ∧
      SpecCollects context selections s s' := by
  induction depth with
  | zero => exact fun _ _ _ hdepth => absurd hdepth (Nat.not_lt_zero _)
  | succ depth ih =>
      exact fun selections s hcovered hdepth => specCollectSelections_collects
        hvariables hclosed ih selections s hcovered (Nat.lt_succ_iff.mp hdepth)

theorem unvisited_le_length (s : SpecCollection) :
    s.unvisited context ≤ context.fragments.items.length := by
  calc s.unvisited context ≤ context.fragments.keys.toFinset.card :=
        Finset.card_filter_le _ _
    _ ≤ context.fragments.keys.length := List.toFinset_card_le _
    _ = context.fragments.items.length := List.length_map _

end SpecCollects

/-! ## Removing `@defer` -/

section Erasure

variable {context : CollectFieldsContext} {selectionSet : SelectionSetNode}
variable {c : Collection}

/-- The nodes of a response key without their `@defer` directives. -/
def Collection.nodesWithoutDefer (c : Collection) (key : Text) : List FieldNode :=
  (nodesOf FieldDetails.node c.groupedFieldSet key).map fieldWithoutDefer

theorem view_empty : ({} : Collection).view = View.empty := by
  ext x
  · rfl
  · simp [Collection.view, groupsView, nodesOf, View.empty]
  · simp [Collection.view, groupsView, View.empty]

theorem specView_empty : ({} : SpecCollection).view context = View.empty := by
  ext x
  · rfl
  · simp [SpecCollection.view, groupsView, nodesOf, View.empty]
  · simp [SpecCollection.view, groupsView, View.empty]

theorem keyed_empty {α : Type} (toNode : α → FieldNode) : Keyed toNode Dict.empty := by
  intro key node hnode
  simp [nodesOf] at hnode

/-- The two runs on the same operation. -/
theorem specCollectFields_exists (hvariables : context.NoFragmentVariables)
    (h : collectFields context selectionSet = .ok c) :
    ∃ s, specCollectFields context selectionSet = .ok s ∧
      Collects context selectionSet.selections {} c ∧
      SpecCollects context selectionSet.selections {} s := by
  have hcollects := collectFieldsImpl_collects hvariables _ _ _ _ _ h
  have hbody := hcollects.body
  rw [view_empty] at hbody
  obtain ⟨s, hrun, hspec⟩ := specCollectImpl_collects hvariables hbody.closed
    (context.fragments.items.length + 1) selectionSet.selections {} hbody.covered
    (Nat.lt_succ_iff.mpr (unvisited_le_length _))
  exact ⟨s, hrun, hcollects, hspec⟩

theorem nodesOf_withoutDefer (s : SpecCollection) (key : Text) :
    nodesOf id s.withoutDefer.groupedFieldSet key =
      (nodesOf id s.groupedFieldSet key).map fieldWithoutDefer := by
  unfold nodesOf SpecCollection.withoutDefer
  rw [Dict.get_map]
  cases s.groupedFieldSet.get key <;> simp

/-- **Deferral does not change which fields are collected.**  Where the fragments
have no variables, the algorithm of the specification, run on the operation from
which all `@defer` directives are removed, collects the same nodes under the same
response keys.  The keys are in the same order if no fragment spreads itself. -/
theorem collectFields_withoutDefer (hvariables : context.NoFragmentVariables)
    (h : collectFields context selectionSet = .ok c) :
    ∃ s, specCollectFields context.withoutDefer
        (selectionSetWithoutDefer selectionSet) = .ok s ∧
      (∀ key, key ∈ c.groupedFieldSet.keys ↔ key ∈ s.groupedFieldSet.keys) ∧
      (∀ key node, node ∈ c.nodesWithoutDefer key ↔
        node ∈ (s.groupedFieldSet.get key).getD []) ∧
      (context.Acyclic → c.groupedFieldSet.keys = s.groupedFieldSet.keys) := by
  obtain ⟨s, hrun, hcollects, hspec⟩ := specCollectFields_exists hvariables h
  have hbody := hcollects.body
  have hspecBody := hspec.body
  rw [view_empty] at hbody
  rw [specView_empty] at hspecBody
  have hkeyed := hcollects.keyed (keyed_empty _)
  have hspecKeyed := hspec.keyed (keyed_empty _)
  have hnodes : ∀ node, c.view.nodes node ↔ (s.view context).nodes node := by
    intro node
    rw [hbody.nodes_iff, hspecBody.nodes_iff]
  refine ⟨s.withoutDefer, ?_, ?_, ?_, ?_⟩
  · rw [specCollectFields_withoutDefer, hrun]
    rfl
  · intro key
    have hkey := hbody.indexed View.indexed_empty key
    have hspecKey := hspecBody.indexed View.indexed_empty key
    simp only [hnodes] at hkey
    unfold SpecCollection.withoutDefer
    rw [Dict.keys_map]
    exact hkey.trans hspecKey.symm
  · intro key node
    have hsame : ∀ node', node' ∈ nodesOf FieldDetails.node c.groupedFieldSet key ↔
        node' ∈ nodesOf id s.groupedFieldSet key := by
      intro node'
      rw [hkeyed.mem_nodesOf_iff, hspecKeyed.mem_nodesOf_iff]
      exact and_congr_left' (hnodes node')
    have hspecNodes := nodesOf_withoutDefer s key
    have hgroup : nodesOf id s.withoutDefer.groupedFieldSet key =
        (s.withoutDefer.groupedFieldSet.get key).getD [] := List.map_id _
    rw [← hgroup, hspecNodes]
    simp only [Collection.nodesWithoutDefer, List.mem_map, hsame]
  · intro hacyclic
    exact (hbody.keys_eq hacyclic hspecBody).trans (Dict.keys_map _ _).symm

end Erasure

theorem queryContext_noFragmentVariables : queryContext.NoFragmentVariables := by
  intro name fragment hfragment
  unfold queryContext at hfragment
  rw [Dict.get_set] at hfragment
  split at hfragment
  · cases hfragment
    rfl
  · cases hfragment

theorem queryContext_acyclic : queryContext.Acyclic := by
  have hnone : ∀ name name', ¬ queryContext.SpreadsIn name name' := by
    rintro name name' ⟨fragment, node, hfragment, hfollows, -⟩
    have hget := get_of_applicable hfragment
    unfold queryContext at hget
    rw [Dict.get_set] at hget
    split at hget
    · cases hget
      have hmem := hfollows.hmem
      simp [selectionSet, inlinedAll, inlined] at hmem
    · cases hget
  intro name h
  obtain ⟨_, _, hlast⟩ := Relation.TransGen.tail'_iff.mp h
  exact hnone _ _ hlast

/-- The operation `{ ... @defer { ...F } ...F }`. -/
theorem spreadTwice_withoutDefer :
    ∃ c s, collectFields queryContext
        (selectionSet [deferred [spread "F"], spread "F"]) = .ok c ∧
      specCollectFields queryContext.withoutDefer (selectionSetWithoutDefer
        (selectionSet [deferred [spread "F"], spread "F"])) = .ok s ∧
      c.groupedFieldSet.keys = s.groupedFieldSet.keys ∧
      ∀ key node, node ∈ c.nodesWithoutDefer key ↔
        node ∈ (s.groupedFieldSet.get key).getD [] := by
  have hok : (collectFields queryContext
      (selectionSet [deferred [spread "F"], spread "F"])).isOk := by
    decide +kernel
  cases h : collectFields queryContext
      (selectionSet [deferred [spread "F"], spread "F"]) with
  | error failure =>
      rw [h] at hok
      cases hok
  | ok c =>
      obtain ⟨s, hrun, _, hnodes, hkeys⟩ :=
        collectFields_withoutDefer queryContext_noFragmentVariables h
      exact ⟨c, s, rfl, hrun, hkeys queryContext_acyclic, hnodes⟩

/-! ## Fragments that spread themselves, and fragments with variables -/

/-- A spread with `@defer`. -/
def spreadDeferred (s : String) (arguments : List FragmentArgumentNode) : SelectionNode :=
  .fragmentSpread { name := name s, arguments := some arguments
                    directives := some [{ name := name "defer" }] }

def leaf (s : String) (directives : List DirectiveNode) : SelectionNode :=
  .field { fieldAlias := none, name := name s, arguments := none
           directives := some directives, selectionSet := none, loc := none }

def fragmentOn (s : String) (selections : List SelectionNode) : FragmentDefinitionNode where
  name := name s
  typeCondition := { name := name "Query" }
  selectionSet := selectionSet selections

/-- The fragments `F` with `a ...G b` and `G` with `...F c`. -/
def cyclicContext : CollectFieldsContext :=
  { queryContext with
    fragments :=
      (Dict.empty.set (str "F")
        { definition := fragmentOn "F" [leaf "a" [], spread "G", leaf "b" []] }).set
          (str "G") { definition := fragmentOn "G" [spread "F", leaf "c" []] } }

/-- `x: true` or `x: false`. -/
def argumentX (value : Bool) : FragmentArgumentNode where
  name := name "x"
  value := .boolean value none

def skipIfX : DirectiveNode where
  name := name "skip"
  arguments := some [{ name := name "if", value := .variable { name := name "x" } }]

/-- The fragment `F($x: Boolean!)` with `a @skip(if: $x)`. -/
def variableContext : CollectFieldsContext :=
  { queryContext with
    fragments := Dict.empty.set (str "F")
      { definition := fragmentOn "F" [leaf "a" [skipIfX]]
        variableSignatures := [(str "x", { name := str "x", type := .nonNull boolean })] }
    coercion :=
      { literalCoercion with
        coerceInputLiteral := fun literal type values fragmentValues =>
          match literal, fragmentValues with
          | .variable node, some scope => scope.coerced.get node.name.value
          | literal, _ =>
              literalCoercion.coerceInputLiteral literal type values none } }

/-- The keys that are collected with deferral, and those that the specification
collects without it. -/
def collectedKeys (context : CollectFieldsContext) (selections : List SelectionNode) :
    Option (List Text × List Text) :=
  match collectFields context (selectionSet selections),
      specCollectFields context.withoutDefer
        (selectionSetWithoutDefer (selectionSet selections)) with
  | .ok c, .ok s => some (c.groupedFieldSet.keys, s.groupedFieldSet.keys)
  | _, _ => none

/-- In `{ ...F @defer }` with the cyclic fragments the keys are collected in the
order `a`, `b`, `c`, and without the directive in the order `a`, `c`, `b`.  In
`{ ...F(x: true) @defer ...F(x: false) }` the fragment is visited for both spreads,
and without the directive for the first one only. -/
theorem deferral_changes_keys :
    collectedKeys cyclicContext [spreadDeferred "F" []] =
      some ([str "a", str "b", str "c"], [str "a", str "c", str "b"]) ∧
    collectedKeys variableContext [spreadDeferred "F" [argumentX true],
        .fragmentSpread { name := name "F", arguments := some [argumentX false] }] =
      some ([str "a"], []) := by
  decide +kernel

end GraphqlCore.Execution
