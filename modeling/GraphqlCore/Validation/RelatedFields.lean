import GraphqlCore.Validation.MergeCompleteness

/-!
# Related fields

A document for which the rule reports nothing: the pairs that it has left out follow from
those that it has compared, through all fragments and subfields.
-/

namespace GraphqlCore.Validation

open Language Attempt

variable {context : ValidationContext} {types : ParentTypes context} {V : VarMap → Prop}
  {own : OwnCheck types V} {s : MergeState}

/-! ## The end of a run that reports nothing -/

/-- Everything that is recorded has been compared, and so have all selection sets. -/
structure AllCompared (own : OwnCheck types V) (s : MergeState) : Prop where
  within : ∀ set ∈ documentSets context.document, SetsCompared own s false set set
  fragment : ∀ set key exclusive, HasFragment s set key exclusive →
    ∀ fragmentSet node, Spreads context key fragmentSet node →
      FragmentCompared own s exclusive set fragmentSet
  fragments : ∀ key1 key2 exclusive, HasFragments s key1 key2 exclusive →
    key1 = key2 ∨ ∀ set1 node1 set2 node2, Spreads context key1 set1 node1 →
      Spreads context key2 set2 node2 → FragmentsCompared own s exclusive key1 set1 key2 set2

theorem ends_reports : ∀ (conflicts : List Conflict) (s : MergeState),
    Ends (flatMap (fun conflict => do
      reportError (.fields conflict)
      return ([] : List Unit)) conflicts) s
      (fun found s' => found = [] ∧
        s' = { s with reported := s.reported ++ conflicts.map .fields }) fun _ _ => False
  | [], s => by
      rw [flatMap, ends_pure, List.map_nil, List.append_nil]
      exact ⟨rfl, rfl⟩
  | conflict :: rest, s => by
      rw [flatMap, ends_bind, ends_bind, reportError, ends_modify, ends_pure, ends_bind]
      refine (ends_reports rest _).mono fun found s' hends => ?_
      obtain ⟨hfound, hs'⟩ := hends
      rw [ends_pure, hs', hfound]
      refine ⟨rfl, ?_⟩
      simp only [List.append_assoc, List.map_cons, List.singleton_append]

theorem ends_true {σ ε α : Type} (x : Attempt σ ε α) (s : σ) :
    Ends x s (fun _ _ => True) fun _ _ => True := by
  unfold Ends
  split <;> trivial

/-- The loop over the selection sets has no results, only errors. -/
theorem ends_enterSelectionSets (depth : ℕ) : ∀ (entered : List (Option Text × SelectionSetNode))
    (s : MergeState), Ends (flatMap (enterSelectionSet context depth) entered) s
      (fun found _ => found = []) fun _ _ => True
  | [], _ => rfl
  | (parentType, set) :: rest, s => by
      rw [flatMap, ends_bind, enterSelectionSet, ends_bind]
      refine (ends_true _ s).mono fun conflicts s1 _ => ?_
      refine (ends_reports conflicts s1).mono ?_ fun _ _ h => h.elim
      rintro found s2 ⟨rfl, -⟩
      rw [ends_bind]
      refine (ends_enterSelectionSets depth rest s2).mono fun found s3 hfound => ?_
      rw [ends_pure, hfound, List.append_nil]

theorem placed_of_entered {parentType : Option Text} {set : SelectionSetNode}
    (h : (parentType, set) ∈ context.enterDocument) : types.Placed parentType set where
  mem := by
    rw [← map_enterDocument]
    exact List.mem_map_of_mem h
  parent := types.entered parentType set h

theorem enterSelectionSet_checks (hkeys : KeysDistinguish context V) (depth : ℕ)
    {parentType : Option Text} {set : SelectionSetNode} (hplaced : types.Placed parentType set)
    (hcache : types.CacheSound V s) :
    Checks own (enterSelectionSet context depth (parentType, set))
      (fun s => SetsCompared own s false set set) s := by
  rw [enterSelectionSet]
  refine ((findConflictsWithinSelectionSet_checks (comparers_complete hkeys depth) hkeys.none
    hplaced hcache).bind (grows_setsCompared _ _ _) (Q := fun _ => True)
    fun conflicts s hcache => ?_).mono fun s h => h.1
  refine (ends_reports conflicts s).mono ?_ fun _ _ h => h.elim
  rintro found s' ⟨-, rfl⟩
  refine ⟨hcache, fun hnone => (List.append_eq_nil_iff.mp hnone).1, fun _ hnone => ?_⟩
  obtain rfl := List.map_eq_nil_iff.mp (List.append_eq_nil_iff.mp hnone).2
  refine ⟨?_, rfl, trivial⟩
  exact settled_of_samePairs own ⟨rfl, rfl, by rw [List.map_nil, List.append_nil]⟩

/-- Where the rule reports nothing, all that it has to compare has been compared. -/
theorem allCompared_of_reportsNothing (own : OwnCheck types V) (hkeys : KeysDistinguish context V)
    {depth : ℕ} (h : overlappingFieldsCanBeMerged context depth = some []) :
    ∃ s, AllCompared own s := by
  have hempty : types.CacheSound V {} := fun set cached hget => by cases hget
  have hchecks := checks_flatMap own (l := context.enterDocument)
    (f := enterSelectionSet context depth)
    (P := fun entered s => SetsCompared own s false entered.2 entered.2)
    (fun _ _ => grows_setsCompared _ _ _)
    (fun entered hentered s hcache => enterSelectionSet_checks hkeys depth
      (placed_of_entered hentered) hcache) {} hempty
  unfold overlappingFieldsCanBeMerged at h
  cases hrun : flatMap (enterSelectionSet context depth) context.enterDocument {} with
  | mk result s =>
      rw [hrun] at h
      cases result with
      | error _ => cases h
      | ok found =>
          rw [Checks, ends_of_ok hrun] at hchecks
          obtain ⟨-, -, hfound⟩ := hchecks
          have hempty := (ends_of_ok hrun).mp (ends_enterSelectionSets depth _ {})
          obtain ⟨hsettled, hwithin⟩ := hfound hempty (Option.some.inj h)
          refine ⟨s, fun set hset => ?_, fun set key exclusive hhas => ?_,
            fun key1 key2 exclusive hhas => ?_⟩
          · rw [← map_enterDocument, List.mem_map] at hset
            obtain ⟨entered, hentered, rfl⟩ := hset
            exact hwithin entered hentered
          · exact (hsettled.fragment set key exclusive hhas).resolve_left fun h => by cases h
          · refine (hsettled.fragments key1 key2 exclusive hhas).imp_left fun h => ?_
            exact h.resolve_right fun h => by cases h

/-! ## Fields by the fragments that they are found through -/

/-- The field is found in the selection set through that many fragments, one in another. -/
inductive Reaches (types : ParentTypes context) : ℕ → SelectionSetNode → NodeAndDef → Prop
  | own {set : SelectionSetNode} {field : NodeAndDef} (h : field ∈ types.fields set) :
      Reaches types 0 set field
  | behind {depth : ℕ} {set : SelectionSetNode} {node : FragmentSpreadNode}
      {fragment : FragmentDefinitionNode} {field : NodeAndDef}
      (hnode : node ∈ allDirectSpreads set.selections)
      (hfragment : context.getFragment node.name.value = some fragment)
      (h : Reaches types depth fragment.selectionSet field) : Reaches types (depth + 1) set field

theorem mem_fields_of_plain {parentType : Option Text} {set : SelectionSetNode}
    (hparent : fieldParent context parentType = types.parentOf set) {field : NodeAndDef}
    (h : field ∈ allPlainFields context parentType set.selections) : field ∈ types.fields set := by
  have hfields : allPlainFields context parentType set.selections = types.fields set := by
    refine allPlainFields_congr ?_ set.selections
    rw [hparent, ← hparent, fieldParent_idem]
  rw [← hfields]
  exact h

theorem reaches_of_collected (types : ParentTypes context) {parentType : Option Text}
    {selections : List SelectionNode} {field : NodeAndDef}
    (h : Collected context parentType selections field) :
    field ∈ allPlainFields context parentType selections ∨
      ∃ node ∈ allDirectSpreads selections, ∃ fragment depth,
        context.getFragment node.name.value = some fragment ∧
        Reaches types depth fragment.selectionSet field := by
  induction h with
  | field hnode =>
      left
      apply (subset_allPlainFields context _ hnode).1
      rw [plainFields]
      exact List.mem_singleton_self _
  | @inlineFragment parentType selections node field hnode _ ih =>
      obtain ⟨hfields, hspreads⟩ := subset_allPlainFields context parentType hnode
      obtain ⟨typeCondition, directives, ⟨inner, loc'⟩, loc⟩ := node
      rw [plainFields] at hfields
      rw [directSpreads] at hspreads
      refine ih.imp (fun hmem => hfields hmem) ?_
      rintro ⟨node, hmem, hreaches⟩
      exact ⟨node, hspreads hmem, hreaches⟩
  | @fragmentSpread parentType _ node fragment _ hnode hfragment _ ih =>
      have hspreads := (subset_allPlainFields context parentType hnode).2
      rw [directSpreads] at hspreads
      right
      refine ⟨node, hspreads (List.mem_singleton_self _), fragment, ?_⟩
      rcases ih with hown | ⟨node', hnode', fragment', depth, hfragment', hreaches⟩
      · have hparent := types.fragments _ _ hfragment
        exact ⟨0, hfragment, .own (mem_fields_of_plain hparent hown)⟩
      · exact ⟨depth + 1, hfragment, .behind hnode' hfragment' hreaches⟩

/-- Every field that a selection set collects is found in it through some fragments. -/
theorem exists_reaches {parentType : Option Text} {set : SelectionSetNode} {field : NodeAndDef}
    (h : Collected context parentType set.selections field)
    (hplaced : types.Placed parentType set) : ∃ depth, Reaches types depth set field := by
  rcases reaches_of_collected types h with
    hown | ⟨node, hnode, fragment, depth, hfragment, hreaches⟩
  · exact ⟨0, .own (mem_fields_of_plain hplaced.parent hown)⟩
  · exact ⟨depth + 1, .behind hnode hfragment hreaches⟩

theorem Reaches.mem_fields {depth : ℕ} {set : SelectionSetNode} {field : NodeAndDef}
    (h : Reaches types depth set field) (hset : set ∈ documentSets context.document) :
    ∃ set' ∈ documentSets context.document, field ∈ types.fields set' := by
  induction h with
  | own hfield => exact ⟨_, hset, hfield⟩
  | behind _ hfragment _ ih => exact ih (types.fragment_mem hfragment).mem

/-! ## Pairs through fragments -/

theorem spreads_of_mem {set : SelectionSetNode} (hset : set ∈ documentSets context.document)
    {node : FragmentSpreadNode} (hnode : node ∈ allDirectSpreads set.selections)
    {fragment : FragmentDefinitionNode}
    (hfragment : context.getFragment node.name.value = some fragment) :
    Spreads context (conflictKey context node) fragment.selectionSet node :=
  ⟨⟨set, hset, hnode⟩, rfl, fragment, hfragment, rfl⟩

/-- A selection set that has been compared with a fragment: its fields with all fields that
the fragment reaches. -/
theorem related_of_hasFragment (hall : AllCompared own s) {set : SelectionSetNode}
    (hset : set ∈ documentSets context.document) {field1 : NodeAndDef}
    (hfield1 : field1 ∈ types.fields set) : ∀ {depth : ℕ} {fragmentSet : SelectionSetNode}
    {field2 : NodeAndDef}, Reaches types depth fragmentSet field2 →
    ∀ {key : Text} {exclusive : Bool} {node : FragmentSpreadNode},
    HasFragment s set key exclusive → Spreads context key fragmentSet node →
    SameResponseName field1 field2 → Related own s exclusive field1 field2 := by
  intro depth fragmentSet field2 hreaches
  induction hreaches with
  | own hfield2 =>
      intro key exclusive node hhas hnode hname
      rcases hall.fragment _ _ _ hhas _ _ hnode with rfl | ⟨hfields, -⟩
      · exact ((hall.within set hset).fields _ hfield1 _ hfield2 hname).weaken exclusive
      · exact .inr (.inl (hfields _ hfield1 _ hfield2 hname))
  | behind hnode' hfragment _ ih =>
      intro key exclusive node hhas hnode hname
      rcases hall.fragment _ _ _ hhas _ _ hnode with rfl | ⟨-, hspreads⟩
      · -- the fragment is the selection set itself, which has been compared with its spreads
        have hhas' := (hall.within set hset).spreads.inFront _ hnode'
        exact (ih hhas' (spreads_of_mem hset hnode' hfragment) hname).weaken exclusive
      · obtain ⟨fragment, hfragment', rfl⟩ := hnode.fragment
        have hmem := (types.fragment_mem hfragment').mem
        exact ih (hspreads _ hnode') (spreads_of_mem hmem hnode' hfragment) hname

/-- Two fragments that have been compared: all fields that the one reaches with all that the
other one reaches, each through at most so many fragments. -/
def FragmentsRelated (own : OwnCheck types V) (s : MergeState) (depth : ℕ) : Prop :=
  ∀ {depth1 depth2 : ℕ}, depth1 + depth2 ≤ depth →
    ∀ {key1 : Text} {set1 : SelectionSetNode} {node1 : FragmentSpreadNode} {key2 : Text}
      {set2 : SelectionSetNode} {node2 : FragmentSpreadNode} {exclusive : Bool}
      {field1 field2 : NodeAndDef}, HasFragments s key1 key2 exclusive →
    Spreads context key1 set1 node1 → Spreads context key2 set2 node2 →
    Reaches types depth1 set1 field1 → Reaches types depth2 set2 field2 →
    SameResponseName field1 field2 → Related own s exclusive field1 field2

/-- All fields that two compared selection sets reach have been compared. -/
theorem SetsCompared.related (hall : AllCompared own s) {exclusive : Bool}
    {set1 set2 : SelectionSetNode} (h : SetsCompared own s exclusive set1 set2)
    (hset1 : set1 ∈ documentSets context.document) (hset2 : set2 ∈ documentSets context.document)
    {depth1 depth2 : ℕ}
    (hfragments : ∀ depth, depth + 2 ≤ depth1 + depth2 → FragmentsRelated own s depth)
    {field1 field2 : NodeAndDef}
    (h1 : Reaches types depth1 set1 field1) (h2 : Reaches types depth2 set2 field2)
    (hname : SameResponseName field1 field2) : Related own s exclusive field1 field2 := by
  cases h1 with
  | own hfield1 =>
      cases h2 with
      | own hfield2 => exact h.fields _ hfield1 _ hfield2 hname
      | behind hnode2 hfragment2 h2 =>
          exact related_of_hasFragment hall hset1 hfield1 h2 (h.spreads.inFront _ hnode2)
            (spreads_of_mem hset2 hnode2 hfragment2) hname
  | behind hnode1 hfragment1 h1 =>
      have hspread1 := spreads_of_mem hset1 hnode1 hfragment1
      cases h2 with
      | own hfield2 =>
          exact (related_of_hasFragment hall hset2 hfield2 h1 (h.spreads.behind _ hnode1) hspread1
            hname.symm).symm
      | behind hnode2 hfragment2 h2 =>
          exact hfragments _ (by omega) le_rfl (h.spreads.both _ hnode1 _ hnode2) hspread1
            (spreads_of_mem hset2 hnode2 hfragment2) h1 h2 hname

/-- The same fragment is spread by all spreads with a conflict key. -/
theorem Spreads.unique (hkeys : KeysDistinguish context V) {key : Text}
    {set1 set2 : SelectionSetNode} {node1 node2 : FragmentSpreadNode}
    (h1 : Spreads context key set1 node1) (h2 : Spreads context key set2 node2) : set1 = set2 := by
  obtain ⟨outer1, houter1, hmem1⟩ := h1.mem
  obtain ⟨outer2, houter2, hmem2⟩ := h2.mem
  obtain ⟨fragment1, hfragment1, rfl⟩ := h1.fragment
  obtain ⟨fragment2, hfragment2, rfl⟩ := h2.fragment
  have hname := hkeys.name_eq _ houter1 _ hmem1 _ houter2 _ hmem2 (h1.key_eq.trans h2.key_eq.symm)
  rw [hname] at hfragment1
  rw [Option.some.inj (hfragment1.symm.trans hfragment2)]

theorem Spreads.set_mem {key : Text} {set : SelectionSetNode} {node : FragmentSpreadNode}
    (h : Spreads context key set node) : set ∈ documentSets context.document := by
  obtain ⟨fragment, hfragment, rfl⟩ := h.fragment
  exact (documentUniverse context).fragments_mem _ fragment hfragment

/-- By induction on the number of fragments that the two fields are found through. -/
theorem fragmentsRelated (hkeys : KeysDistinguish context V) (hall : AllCompared own s)
    (depth : ℕ) : FragmentsRelated own s depth := by
  induction depth using Nat.strongRecOn with
  | ind depth ih =>
    intro depth1 depth2 hdepth key1 set1 node1 key2 set2 node2 exclusive field1 field2 hhas hnode1
      hnode2 h1 h2 hname
    have hset1 := hnode1.set_mem
    rcases hall.fragments _ _ _ hhas with rfl | hcompared
    · obtain rfl := hnode1.unique hkeys hnode2
      refine ((hall.within set1 hset1).related hall hset1 hset1 ?_ h1 h2 hname).weaken exclusive
      exact fun depth' hle => ih depth' (by omega)
    · have hpair := hcompared set1 node1 set2 node2 hnode1 hnode2
      cases h2 with
      | behind hnode2' hfragment2 h2 =>
          have hspread2 := spreads_of_mem hnode2.set_mem hnode2' hfragment2
          exact ih _ (by omega) le_rfl (hpair.spreads2 _ hnode2') hnode1 hspread2 h1 h2 hname
      | own hfield2 =>
          cases h1 with
          | behind hnode1' hfragment1 h1 =>
              have hspread1 := spreads_of_mem hset1 hnode1' hfragment1
              exact ih _ (by omega) le_rfl (hpair.spreads1 _ hnode1') hspread1 hnode2 h1
                (.own hfield2) hname
          | own hfield1 =>
              rcases hpair.fields with hfields | hfields
              · exact .inr (.inl (hfields _ hfield1 _ hfield2 hname))
              · exact .inr (.inr (hfields _ hfield2 _ hfield1 hname.symm))

/-! ## Every compared pair -/

/-- The fields that two compared selection sets collect. -/
theorem SetsCompared.related_collected (hkeys : KeysDistinguish context V)
    (hall : AllCompared own s) {exclusive : Bool} {set1 set2 : SelectionSetNode}
    (h : SetsCompared own s exclusive set1 set2) {parentType1 parentType2 : Option Text}
    (hplaced1 : types.Placed parentType1 set1) (hplaced2 : types.Placed parentType2 set2)
    {field1 field2 : NodeAndDef} (h1 : Collected context parentType1 set1.selections field1)
    (h2 : Collected context parentType2 set2.selections field2)
    (hname : SameResponseName field1 field2) : Related own s exclusive field1 field2 := by
  obtain ⟨depth1, hreaches1⟩ := exists_reaches h1 hplaced1
  obtain ⟨depth2, hreaches2⟩ := exists_reaches h2 hplaced2
  exact h.related hall hplaced1.mem hplaced2.mem (fun depth _ => fragmentsRelated hkeys hall depth)
    hreaches1 hreaches2 hname

/-- The field is one of a selection set of the document. -/
def FieldOf (types : ParentTypes context) (field : NodeAndDef) : Prop :=
  ∃ set ∈ documentSets context.document, field ∈ types.fields set

theorem fieldOf_of_collected {parentType : Option Text} {set : SelectionSetNode}
    {field : NodeAndDef} (h : Collected context parentType set.selections field)
    (hplaced : types.Placed parentType set) : FieldOf types field := by
  obtain ⟨depth, hreaches⟩ := exists_reaches h hplaced
  exact hreaches.mem_fields hplaced.mem

theorem fieldOf_of_subfieldOf {field subfield : NodeAndDef} (hfield : FieldOf types field)
    (h : SubfieldOf context field subfield) : FieldOf types subfield := by
  obtain ⟨set, hset, hmem⟩ := hfield
  obtain ⟨subset, hsubset, hcollected⟩ := h
  exact fieldOf_of_collected hcollected (types.subset_mem hset hmem hsubset)

theorem PairCompared.setsCompared {exclusive : Bool} {field1 field2 : NodeAndDef}
    (h : PairCompared types own s exclusive field1 field2) {set1 set2 : SelectionSetNode}
    (h1 : field1.node.selectionSet = some set1) (h2 : field2.node.selectionSet = some set2) :
    SetsCompared own s (exclusiveWith context exclusive field1 field2) set1 set2 := by
  cases h with
  | intro _ hfields hspreads =>
      exact ⟨fun subfield1 hmem1 subfield2 hmem2 hname =>
        .inr (.inl (hfields _ _ h1 h2 subfield1 hmem1 subfield2 hmem2 hname)),
        hspreads _ _ h1 h2⟩

/-- Subfields of the same field are compared where their selection set is entered. -/
theorem related_subfields_of_same (hkeys : KeysDistinguish context V) (hall : AllCompared own s)
    {field subfield1 subfield2 : NodeAndDef} (hfield : FieldOf types field)
    (h1 : SubfieldOf context field subfield1) (h2 : SubfieldOf context field subfield2)
    (hname : SameResponseName subfield1 subfield2) (exclusive : Bool) :
    Related own s exclusive subfield1 subfield2 := by
  obtain ⟨set, hset, hmem⟩ := hfield
  obtain ⟨subset, hsubset, hcollected1⟩ := h1
  obtain ⟨subset', hsubset', hcollected2⟩ := h2
  obtain rfl := Option.some.inj (hsubset.symm.trans hsubset')
  have hplaced := types.subset_mem hset hmem hsubset
  exact ((hall.within _ hplaced.mem).related_collected hkeys hall hplaced hplaced hcollected1
    hcollected2 hname).weaken exclusive

theorem related_subfields (hkeys : KeysDistinguish context V) (hall : AllCompared own s)
    {exclusive : Bool} {field1 field2 subfield1 subfield2 : NodeAndDef}
    (hfield1 : FieldOf types field1) (hfield2 : FieldOf types field2)
    (hrelated : Related own s exclusive field1 field2) (h1 : SubfieldOf context field1 subfield1)
    (h2 : SubfieldOf context field2 subfield2) (hname : SameResponseName subfield1 subfield2) :
    Related own s (exclusiveWith context exclusive field1 field2) subfield1 subfield2 := by
  rcases hrelated with rfl | hpair | hpair
  · exact related_subfields_of_same hkeys hall hfield1 h1 h2 hname _
  · obtain ⟨set1, hset1, hmem1⟩ := hfield1
    obtain ⟨set2, hset2, hmem2⟩ := hfield2
    obtain ⟨subset1, hsubset1, hcollected1⟩ := h1
    obtain ⟨subset2, hsubset2, hcollected2⟩ := h2
    exact (hpair.setsCompared hsubset1 hsubset2).related_collected hkeys hall
      (types.subset_mem hset1 hmem1 hsubset1) (types.subset_mem hset2 hmem2 hsubset2) hcollected1
      hcollected2 hname
  · obtain ⟨set1, hset1, hmem1⟩ := hfield1
    obtain ⟨set2, hset2, hmem2⟩ := hfield2
    obtain ⟨subset1, hsubset1, hcollected1⟩ := h1
    obtain ⟨subset2, hsubset2, hcollected2⟩ := h2
    rw [exclusiveWith_comm]
    exact ((hpair.setsCompared hsubset2 hsubset1).related_collected hkeys hall
      (types.subset_mem hset2 hmem2 hsubset2) (types.subset_mem hset1 hmem1 hsubset1) hcollected2
      hcollected1 hname.symm).symm

/-- Every pair that the plain check compares has been compared, or is one field twice. -/
theorem related_of_compared (hkeys : KeysDistinguish context V) (hall : AllCompared own s)
    {parentType : Option Text} {set : SelectionSetNode} (hplaced : types.Placed parentType set)
    {exclusive : Bool} {field1 field2 : NodeAndDef}
    (h : Compared context parentType set exclusive field1 field2) :
    FieldOf types field1 ∧ FieldOf types field2 ∧ Related own s exclusive field1 field2 := by
  induction h with
  | within h1 h2 hname =>
      exact ⟨fieldOf_of_collected h1 hplaced, fieldOf_of_collected h2 hplaced,
        (hall.within _ hplaced.mem).related_collected hkeys hall hplaced hplaced h1 h2 hname⟩
  | @subfields exclusive field1 field2 subfield1 subfield2 _ h1 h2 hname ih =>
      obtain ⟨hfield1, hfield2, hrelated⟩ := ih
      have hsubfield {subfield : NodeAndDef}
          (h : SubfieldOf context field1 subfield ∨ SubfieldOf context field2 subfield) :
          FieldOf types subfield :=
        h.elim (fieldOf_of_subfieldOf hfield1) (fieldOf_of_subfieldOf hfield2)
      refine ⟨hsubfield h1, hsubfield h2, ?_⟩
      rcases h1 with h1 | h1 <;> rcases h2 with h2 | h2
      · exact related_subfields_of_same hkeys hall hfield1 h1 h2 hname _
      · exact related_subfields hkeys hall hfield1 hfield2 hrelated h1 h2 hname
      · rw [exclusiveWith_comm]
        exact related_subfields hkeys hall hfield2 hfield1 hrelated.symm h1 h2 hname
      · exact related_subfields_of_same hkeys hall hfield2 h1 h2 hname _

theorem Related.holds {exclusive : Bool} {field1 field2 : NodeAndDef}
    (h : Related own s exclusive field1 field2) (hfield1 : FieldOf types field1)
    (hfield2 : FieldOf types field2) :
    own.holds (exclusiveWith context exclusive field1 field2) field1 field2 := by
  obtain ⟨set1, hset1, hmem1⟩ := hfield1
  obtain ⟨set2, hset2, hmem2⟩ := hfield2
  rcases h with rfl | hpair | hpair
  · exact own.refl _ hset1 _ hmem1 _
  · cases hpair with
    | intro hown _ _ => exact hown
  · cases hpair with
    | intro hown _ _ =>
        rw [exclusiveWith_comm]
        exact own.symm _ hset2 _ hmem2 _ hset1 _ hmem1 _ hown

/-- Where the rule reports nothing, what is asked of pairs of fields holds for every pair that
the plain check compares. -/
theorem holds_of_reportsNothing (own : OwnCheck types V) (hkeys : KeysDistinguish context V)
    {depth : ℕ} (h : overlappingFieldsCanBeMerged context depth = some [])
    {parentType : Option Text} {set : SelectionSetNode}
    (hentered : (parentType, set) ∈ context.enterDocument) {exclusive : Bool}
    {field1 field2 : NodeAndDef}
    (hcompared : Compared context parentType set exclusive field1 field2) :
    own.holds (exclusiveWith context exclusive field1 field2) field1 field2 := by
  obtain ⟨s, hall⟩ := allCompared_of_reportsNothing own hkeys h
  obtain ⟨hfield1, hfield2, hrelated⟩ :=
    related_of_compared hkeys hall (placed_of_entered hentered) hcompared
  exact hrelated.holds hfield1 hfield2

end GraphqlCore.Validation
