import GraphqlCore.Validation.RelatedFields

/-!
# Soundness of the merge check

Where the plain check finds no conflict, the rule finds none either: the pairs that it
compares are among those of the plain check.
-/

namespace GraphqlCore.Validation

open Language Attempt

variable {context : ValidationContext}

/-! ## What selection sets collect -/

namespace ParentTypes

variable (types : ParentTypes context)

/-- The selection set collects the field, with fragments expanded. -/
def Collects (set : SelectionSetNode) (field : NodeAndDef) : Prop :=
  Collected context (types.parentOf set) set.selections field

variable {types}

theorem Placed.collects_iff {parentType : Option Text} {set : SelectionSetNode}
    (h : types.Placed parentType set) (field : NodeAndDef) :
    types.Collects set field ↔ Collected context parentType set.selections field := by
  have hparent : fieldParent context (types.parentOf set) = fieldParent context parentType := by
    rw [← h.parent, fieldParent_idem]
  exact ⟨fun hfield => hfield.congr hparent, fun hfield => hfield.congr hparent.symm⟩

theorem collects_of_mem_fields {set : SelectionSetNode} {field : NodeAndDef}
    (h : field ∈ types.fields set) : types.Collects set field :=
  collected_of_allPlainFields set.selections _ (List.Subset.refl _) h

theorem collects_of_spread {set : SelectionSetNode} {node : FragmentSpreadNode}
    (hnode : node ∈ allDirectSpreads set.selections) {fragment : FragmentDefinitionNode}
    (hfragment : context.getFragment node.name.value = some fragment) {field : NodeAndDef}
    (h : types.Collects fragment.selectionSet field) : types.Collects set field :=
  collected_behind_spreads hfragment (((types.fragment_mem hfragment).collects_iff field).mp h)
    set.selections _ (List.Subset.refl _) hnode

end ParentTypes

/-! ## Computations that find nothing -/

/-- Pairs of fields that may be compared without a conflict, and so may their subfields. -/
structure AllowedPairs (context : ValidationContext) where
  allowed : Bool → NodeAndDef → NodeAndDef → Prop
  own : ∀ exclusive field1 field2, allowed exclusive field1 field2 →
    findFieldConflict context.schema (exclusiveWith context exclusive field1 field2)
      field1 none field2 none = none
  symm : ∀ exclusive field1 field2, allowed exclusive field1 field2 →
    allowed exclusive field2 field1
  subfields : ∀ exclusive field1 field2 subfield1 subfield2, allowed exclusive field1 field2 →
    SubfieldOf context field1 subfield1 → SubfieldOf context field2 subfield2 →
    SameResponseName subfield1 subfield2 →
    allowed (exclusiveWith context exclusive field1 field2) subfield1 subfield2

section Silent

variable (types : ParentTypes context) (pairs : AllowedPairs context)

/-- No spread has arguments or a fragment with variables. -/
structure WithoutFragmentArguments (context : ValidationContext) : Prop where
  noVarMap : ∀ set ∈ documentSets context.document, ∀ node ∈ allDirectSpreads set.selections,
    (getFragmentSpread context node none).varMap = none
  noArguments : ∀ set ∈ documentSets context.document, ∀ node ∈ allDirectSpreads set.selections,
    fragmentArguments node = []

/-- The computation finds and reports nothing. -/
def Silent {α : Type} (x : Run (List α)) (s : MergeState) : Prop :=
  Ends x s (fun found s' => found = [] ∧ types.CacheSound (· = none) s' ∧
    s'.reported = s.reported) fun _ _ => True

/-- All pairs of fields that the two selection sets collect are allowed. -/
def SetsAllowed (exclusive : Bool) (set1 set2 : SelectionSetNode) : Prop :=
  ∀ field1 field2, types.Collects set1 field1 → types.Collects set2 field2 →
    SameResponseName field1 field2 → pairs.allowed exclusive field1 field2

/-- The fields of the selection set itself with all that the fragment collects. -/
def FragmentAllowed (exclusive : Bool) (set : SelectionSetNode) (spread : FragmentSpread) : Prop :=
  ∀ fragment, context.getFragment spread.node.name.value = some fragment →
    ∀ field1 ∈ types.fields set, ∀ field2, types.Collects fragment.selectionSet field2 →
      SameResponseName field1 field2 → pairs.allowed exclusive field1 field2

def FragmentsAllowed (exclusive : Bool) (spread1 spread2 : FragmentSpread) : Prop :=
  ∀ fragment1 fragment2, context.getFragment spread1.node.name.value = some fragment1 →
    context.getFragment spread2.node.name.value = some fragment2 →
    SetsAllowed types pairs exclusive fragment1.selectionSet fragment2.selectionSet

/-- The functions that call each other find nothing where only allowed pairs are compared. -/
structure Comparers.Sound (compare : Comparers) : Prop where
  betweenFieldsAndFragment : ∀ exclusive set cached spread,
    set ∈ documentSets context.document → types.Represents (· = none) set cached →
    SpreadOf context (· = none) spread → FragmentAllowed types pairs exclusive set spread →
    ∀ s, types.CacheSound (· = none) s →
    Silent types (compare.betweenFieldsAndFragment exclusive cached.1 spread) s
  betweenFragments : ∀ exclusive spread1 spread2, SpreadOf context (· = none) spread1 →
    SpreadOf context (· = none) spread2 → FragmentsAllowed types pairs exclusive spread1 spread2 →
    ∀ s, types.CacheSound (· = none) s →
    Silent types (compare.betweenFragments exclusive spread1 spread2) s
  betweenSubSelectionSets : ∀ exclusive parentType1 set1 parentType2 set2,
    types.Placed parentType1 set1 → types.Placed parentType2 set2 →
    SetsAllowed types pairs exclusive set1 set2 → ∀ s, types.CacheSound (· = none) s →
    Silent types (compare.betweenSubSelectionSets exclusive parentType1 set1 none parentType2 set2
      none) s

variable {types pairs} {α β : Type} {s : MergeState} {compare : Comparers}

theorem silent_return_nil (hcache : types.CacheSound (· = none) s) :
    Silent types (return ([] : List α)) s := ⟨rfl, hcache, rfl⟩

theorem Silent.bind {x : Run (List α)} {f : List α → Run (List β)} (h : Silent types x s)
    (hf : ∀ s, types.CacheSound (· = none) s → Silent types (f []) s) :
    Silent types (x >>= f) s := by
  rw [Silent, ends_bind]
  refine Ends.mono h ?_
  rintro found s1 ⟨rfl, hcache, hreported⟩
  refine Ends.mono (hf s1 hcache) ?_
  rintro found s2 ⟨rfl, hcache', hreported'⟩
  exact ⟨rfl, hcache', hreported'.trans hreported⟩

theorem silent_flatMap {f : α → Run (List β)} : ∀ {l : List α},
    (∀ a ∈ l, ∀ s, types.CacheSound (· = none) s → Silent types (f a) s) →
    ∀ s, types.CacheSound (· = none) s → Silent types (flatMap f l) s
  | [], _, _, hcache => silent_return_nil hcache
  | a :: rest, h, s, hcache => by
      rw [flatMap]
      refine (h a List.mem_cons_self s hcache).bind fun s hcache => ?_
      refine (silent_flatMap (fun a' ha' => h a' (List.mem_cons_of_mem _ ha')) s hcache).bind ?_
      exact fun s hcache => silent_return_nil hcache

theorem silent_getFieldsAndFragmentSpreads (hcache : types.CacheSound (· = none) s)
    {parentType : Option Text} {set : SelectionSetNode} (hplaced : types.Placed parentType set)
    {f : FieldMap × List FragmentSpread → Run (List α)}
    (h : ∀ cached s, types.Represents (· = none) set cached → types.CacheSound (· = none) s →
      Silent types (f cached) s) :
    Silent types (getFieldsAndFragmentSpreads context parentType set none >>= f) s := by
  rw [Silent, ends_bind]
  refine (ParentTypes.getFieldsAndFragmentSpreads_represents hcache hplaced rfl).mono ?_
  rintro cached s1 ⟨hrepresents, hcache', hsame⟩
  refine Ends.mono (h cached s1 hrepresents hcache')
    fun found s2 ⟨hempty, hcache'', hreported⟩ => ?_
  exact ⟨hempty, hcache'', hreported.trans hsame.reported⟩

/-- Recording a pair changes nothing of what is cached and reported. -/
theorem silent_recorded {x : Run (List α)} {s1 : MergeState}
    (hcached : s1.cachedFieldsAndFragmentSpreads = s.cachedFieldsAndFragmentSpreads)
    (hreported : s1.reported = s.reported) (hcache : types.CacheSound (· = none) s)
    (h : ∀ s, types.CacheSound (· = none) s → Silent types x s) :
    Ends x s1 (fun found s' => found = [] ∧ types.CacheSound (· = none) s' ∧
      s'.reported = s.reported) fun _ _ => True := by
  have hcache1 : types.CacheSound (· = none) s1 := by
    rw [ParentTypes.CacheSound, hcached]
    exact hcache
  rw [← hreported]
  exact h s1 hcache1

/-! ## Comparing fields -/

theorem findConflict_silent (hcompare : compare.Sound types pairs) {exclusive : Bool}
    {name : Text} {field1 field2 : NodeAndDef} {set1 set2 : SelectionSetNode}
    (hset1 : set1 ∈ documentSets context.document)
    (hfield1 : field1.plain context ∈ types.fields set1)
    (hset2 : set2 ∈ documentSets context.document)
    (hfield2 : field2.plain context ∈ types.fields set2)
    (hallowed : pairs.allowed exclusive (field1.plain context) (field2.plain context))
    (hcache : types.CacheSound (· = none) s) :
    Silent types
      (Option.toList <$> findConflict context compare exclusive name field1 none field2 none)
      s := by
  have hown : findFieldConflict context.schema (exclusiveWith context exclusive field1 field2)
      field1 none field2 none = none := by
    rw [← exclusiveWith_plain]
    exact pairs.own _ _ _ hallowed
  have hexclusive : (exclusive || areParentsExclusive context.schema field1.parentType
      field2.parentType) = exclusiveWith context exclusive field1 field2 := rfl
  unfold findConflict
  dsimp only
  rw [hexclusive, hown]
  dsimp only
  split
  · next subset1 subset2 hsubset1 hsubset2 =>
    have hplaced1 := types.subset_mem hset1 hfield1 hsubset1
    have hplaced2 := types.subset_mem hset2 hfield2 hsubset2
    have hsets : SetsAllowed types pairs (exclusiveWith context exclusive field1 field2) subset1
        subset2 := by
      intro subfield1 subfield2 h1 h2 hname
      rw [← exclusiveWith_plain]
      exact pairs.subfields _ _ _ _ _ hallowed
        ⟨subset1, hsubset1, (hplaced1.collects_iff _).mp h1⟩
        ⟨subset2, hsubset2, (hplaced2.collects_iff _).mp h2⟩ hname
    rw [Silent, ends_map, ends_bind]
    refine Ends.mono (hcompare.betweenSubSelectionSets _ _ _ _ _ hplaced1 hplaced2 hsets s hcache)
      ?_
    rintro found s1 ⟨rfl, hcache', hreported⟩
    exact ⟨rfl, hcache', hreported⟩
  · exact silent_return_nil hcache

theorem collectConflictsBetween_silent (hcompare : compare.Sound types pairs) {exclusive : Bool}
    {set1 set2 : SelectionSetNode} {cached1 cached2 : FieldMap × List FragmentSpread}
    (hset1 : set1 ∈ documentSets context.document)
    (hcached1 : types.Represents (· = none) set1 cached1)
    (hset2 : set2 ∈ documentSets context.document)
    (hcached2 : types.Represents (· = none) set2 cached2)
    (hallowed : ∀ field1 ∈ types.fields set1, ∀ field2 ∈ types.fields set2,
      SameResponseName field1 field2 → pairs.allowed exclusive field1 field2)
    (hcache : types.CacheSound (· = none) s) :
    Silent types
      (collectConflictsBetween context compare exclusive cached1.1 none cached2.1 none) s := by
  refine silent_flatMap ?_ s hcache
  rintro ⟨name, fields1⟩ hitem s hcache
  obtain rfl := named_of_mem_items hitem
  refine silent_flatMap (fun field1 hnamed1 s hcache => ?_) s hcache
  refine silent_flatMap (fun field2 hnamed2 s hcache => ?_) s hcache
  obtain ⟨hfield1, hname1⟩ := hcached1.mem_named hnamed1
  obtain ⟨hfield2, hname2⟩ := hcached2.mem_named hnamed2
  have hname : SameResponseName (field1.plain context) (field2.plain context) :=
    hname1.trans hname2.symm
  exact findConflict_silent hcompare hset1 hfield1 hset2 hfield2
    (hallowed _ hfield1 _ hfield2 hname) hcache

/-! ## Comparing fragments -/

variable (hkeys : KeysDistinguish context (· = none))
include hkeys

theorem SpreadOf.varMap_eq_none {spread : FragmentSpread}
    (h : SpreadOf context (· = none) spread) : spread.varMap = none := h.varMap hkeys

theorem collectConflictsBetweenFieldsAndFragment_silent (hcompare : compare.Sound types pairs)
    {exclusive : Bool} {set : SelectionSetNode} {cached : FieldMap × List FragmentSpread}
    {spread : FragmentSpread} (hset : set ∈ documentSets context.document)
    (hcached : types.Represents (· = none) set cached)
    (hspread : SpreadOf context (· = none) spread)
    (hallowed : FragmentAllowed types pairs exclusive set spread)
    (hcache : types.CacheSound (· = none) s) :
    Silent types
      (collectConflictsBetweenFieldsAndFragment context compare exclusive cached.1 spread) s := by
  rw [collectConflictsBetweenFieldsAndFragment, Silent, ends_bind, memoizeFieldsAndFragment,
    ends_state, hspread.varMap_eq_none hkeys]
  cases s.comparedFieldsAndFragmentPairs.has cached.1.origin spread.key exclusive with
  | true => exact silent_return_nil hcache
  | false =>
      simp only [Bool.false_eq_true, if_false]
      cases hfragment : context.getFragment spread.node.name.value with
      | none => exact ⟨rfl, hcache, rfl⟩
      | some fragment =>
          have hplaced := types.fragment_mem hfragment
          refine silent_recorded rfl rfl hcache fun s hcache => ?_
          refine silent_getFieldsAndFragmentSpreads hcache hplaced
            fun cached2 s hcached2 hcache => ?_
          split
          · exact silent_return_nil hcache
          · refine (collectConflictsBetween_silent hcompare hset hcached hplaced.mem hcached2 ?_
              hcache).bind fun s hcache => ?_
            · intro field1 h1 field2 h2 hname
              exact hallowed fragment hfragment field1 h1 field2
                (ParentTypes.collects_of_mem_fields h2) hname
            · refine (silent_flatMap (fun spread2 hspread2 s hcache => ?_) s hcache).bind
                fun s hcache => silent_return_nil hcache
              have hspreadOf2 := spreadOf_of_represents hplaced.mem hcached2 hspread2
              refine hcompare.betweenFieldsAndFragment _ _ _ _ hset hcached hspreadOf2 ?_ s hcache
              intro fragment2 hfragment2 field1 h1 field2 h2 hname
              obtain ⟨node, hnode, varMap, -, rfl⟩ := hcached2.sound spread2 hspread2
              rw [getFragmentSpread_node] at hfragment2
              exact hallowed fragment hfragment field1 h1 field2
                (ParentTypes.collects_of_spread hnode hfragment2 h2) hname

theorem collectConflictsBetweenFragments_silent (hcompare : compare.Sound types pairs)
    (hwithout : WithoutFragmentArguments context) {exclusive : Bool}
    {spread1 spread2 : FragmentSpread} (hspread1 : SpreadOf context (· = none) spread1)
    (hspread2 : SpreadOf context (· = none) spread2)
    (hallowed : FragmentsAllowed types pairs exclusive spread1 spread2)
    (hcache : types.CacheSound (· = none) s) :
    Silent types (collectConflictsBetweenFragments context compare exclusive spread1 spread2)
      s := by
  have harguments {spread : FragmentSpread} (h : SpreadOf context (· = none) spread) :
      fragmentArguments spread.node = [] := by
    obtain ⟨set, hset, node, hnode, -, hspread⟩ := h.key
    rw [hspread]
    exact hwithout.noArguments set hset node hnode
  rw [collectConflictsBetweenFragments]
  split
  · exact silent_return_nil hcache
  · rw [harguments hspread1, harguments hspread2, sameArguments_nil, Bool.not_true,
      Bool.and_false, if_neg Bool.false_ne_true, Silent, ends_bind, memoizeFragments, ends_state,
      hspread1.varMap_eq_none hkeys, hspread2.varMap_eq_none hkeys]
    cases PairSet.has s.comparedFragmentPairs spread1.key spread2.key exclusive with
    | true => exact silent_return_nil hcache
    | false =>
        simp only [Bool.false_eq_true, if_false]
        split
        · next fragment1 fragment2 hfragment1 hfragment2 =>
          have hplaced1 := types.fragment_mem hfragment1
          have hplaced2 := types.fragment_mem hfragment2
          have hsets := hallowed fragment1 fragment2 hfragment1 hfragment2
          refine silent_recorded rfl rfl hcache fun s hcache => ?_
          refine silent_getFieldsAndFragmentSpreads hcache hplaced1
            fun cached1 s hcached1 hcache => ?_
          refine silent_getFieldsAndFragmentSpreads hcache hplaced2
            fun cached2 s hcached2 hcache => ?_
          refine (collectConflictsBetween_silent hcompare hplaced1.mem hcached1 hplaced2.mem
            hcached2
            ?_ hcache).bind fun s hcache => ?_
          · intro field1 h1 field2 h2
            exact hsets field1 field2 (ParentTypes.collects_of_mem_fields h1)
              (ParentTypes.collects_of_mem_fields h2)
          refine (silent_flatMap (fun spread hspread s hcache => ?_) s hcache).bind
            fun s hcache => ?_
          · refine hcompare.betweenFragments _ _ _ hspread1
              (spreadOf_of_represents hplaced2.mem hcached2 hspread) ?_ s hcache
            intro fragment1' nested hfragment1' hnested field1 field2 h1 h2
            obtain rfl := Option.some.inj (hfragment1.symm.trans hfragment1')
            obtain ⟨node, hnode, varMap, -, rfl⟩ := hcached2.sound spread hspread
            rw [getFragmentSpread_node] at hnested
            exact hsets field1 field2 h1 (ParentTypes.collects_of_spread hnode hnested h2)
          refine (silent_flatMap (fun spread hspread s hcache => ?_) s hcache).bind
            fun s hcache => silent_return_nil hcache
          refine hcompare.betweenFragments _ _ _
            (spreadOf_of_represents hplaced1.mem hcached1 hspread) hspread2 ?_ s hcache
          intro nested fragment2' hnested hfragment2' field1 field2 h1 h2
          obtain rfl := Option.some.inj (hfragment2.symm.trans hfragment2')
          obtain ⟨node, hnode, varMap, -, rfl⟩ := hcached1.sound spread hspread
          rw [getFragmentSpread_node] at hnested
          exact hsets field1 field2 (ParentTypes.collects_of_spread hnode hnested h1) h2
        · exact ⟨rfl, hcache, rfl⟩

omit hkeys

/-! ## Comparing selection sets -/

theorem SetsAllowed.symm {exclusive : Bool} {set1 set2 : SelectionSetNode}
    (h : SetsAllowed types pairs exclusive set1 set2) :
    SetsAllowed types pairs exclusive set2 set1 :=
  fun field2 field1 h2 h1 hname => pairs.symm _ _ _ (h field1 field2 h1 h2 hname.symm)

theorem SetsAllowed.fragment {exclusive : Bool} {set1 set2 : SelectionSetNode}
    (h : SetsAllowed types pairs exclusive set1 set2)
    {cached2 : FieldMap × List FragmentSpread}
    (hcached2 : types.Represents (· = none) set2 cached2) {spread : FragmentSpread}
    (hspread : spread ∈ cached2.2) : FragmentAllowed types pairs exclusive set1 spread := by
  intro fragment hfragment field1 h1 field2 h2
  obtain ⟨node, hnode, varMap, -, rfl⟩ := hcached2.sound spread hspread
  rw [getFragmentSpread_node] at hfragment
  exact h field1 field2 (ParentTypes.collects_of_mem_fields h1)
    (ParentTypes.collects_of_spread hnode hfragment h2)

theorem SetsAllowed.fragments {exclusive : Bool} {set1 set2 : SelectionSetNode}
    (h : SetsAllowed types pairs exclusive set1 set2)
    {cached1 cached2 : FieldMap × List FragmentSpread}
    (hcached1 : types.Represents (· = none) set1 cached1)
    (hcached2 : types.Represents (· = none) set2 cached2) {spread1 spread2 : FragmentSpread}
    (hspread1 : spread1 ∈ cached1.2) (hspread2 : spread2 ∈ cached2.2) :
    FragmentsAllowed types pairs exclusive spread1 spread2 := by
  intro fragment1 fragment2 hfragment1 hfragment2 field1 field2 h1 h2
  obtain ⟨node1, hnode1, varMap1, -, rfl⟩ := hcached1.sound spread1 hspread1
  obtain ⟨node2, hnode2, varMap2, -, rfl⟩ := hcached2.sound spread2 hspread2
  rw [getFragmentSpread_node] at hfragment1 hfragment2
  exact h field1 field2 (ParentTypes.collects_of_spread hnode1 hfragment1 h1)
    (ParentTypes.collects_of_spread hnode2 hfragment2 h2)

theorem betweenFieldsAndSpreads_silent (hcompare : compare.Sound types pairs) {exclusive : Bool}
    {set1 set2 : SelectionSetNode} {cached1 cached2 : FieldMap × List FragmentSpread}
    (hset1 : set1 ∈ documentSets context.document)
    (hcached1 : types.Represents (· = none) set1 cached1)
    (hset2 : set2 ∈ documentSets context.document)
    (hcached2 : types.Represents (· = none) set2 cached2)
    (hallowed : SetsAllowed types pairs exclusive set1 set2)
    (hcache : types.CacheSound (· = none) s) :
    Silent types (.flatMap (compare.betweenFieldsAndFragment exclusive cached1.1) cached2.2) s :=
  silent_flatMap (fun _ hspread s hcache => hcompare.betweenFieldsAndFragment _ _ _ _ hset1
    hcached1 (spreadOf_of_represents hset2 hcached2 hspread) (hallowed.fragment hcached2 hspread)
    s hcache) s hcache

theorem findConflictsBetweenSubSelectionSets_silent (hcompare : compare.Sound types pairs)
    {exclusive : Bool} {parentType1 parentType2 : Option Text} {set1 set2 : SelectionSetNode}
    (hplaced1 : types.Placed parentType1 set1) (hplaced2 : types.Placed parentType2 set2)
    (hallowed : SetsAllowed types pairs exclusive set1 set2)
    (hcache : types.CacheSound (· = none) s) :
    Silent types
      (findConflictsBetweenSubSelectionSets context compare exclusive parentType1 set1 none
        parentType2 set2 none) s := by
  rw [findConflictsBetweenSubSelectionSets]
  refine silent_getFieldsAndFragmentSpreads hcache hplaced1 fun cached1 s hcached1 hcache => ?_
  refine silent_getFieldsAndFragmentSpreads hcache hplaced2 fun cached2 s hcached2 hcache => ?_
  refine (collectConflictsBetween_silent hcompare hplaced1.mem hcached1 hplaced2.mem hcached2 ?_
    hcache).bind fun s hcache => ?_
  · intro field1 h1 field2 h2
    exact hallowed field1 field2 (ParentTypes.collects_of_mem_fields h1)
      (ParentTypes.collects_of_mem_fields h2)
  refine (betweenFieldsAndSpreads_silent hcompare hplaced1.mem hcached1 hplaced2.mem hcached2
    hallowed hcache).bind fun s hcache => ?_
  refine (betweenFieldsAndSpreads_silent hcompare hplaced2.mem hcached2 hplaced1.mem hcached1
    hallowed.symm hcache).bind fun s hcache => ?_
  refine (silent_flatMap (fun spread1 hspread1 s hcache => ?_) s hcache).bind
    fun s hcache => silent_return_nil hcache
  refine silent_flatMap (fun spread2 hspread2 s hcache => ?_) s hcache
  exact hcompare.betweenFragments _ _ _ (spreadOf_of_represents hplaced1.mem hcached1 hspread1)
    (spreadOf_of_represents hplaced2.mem hcached2 hspread2)
    (hallowed.fragments hcached1 hcached2 hspread1 hspread2) s hcache

theorem comparers_sound (hkeys : KeysDistinguish context (· = none))
    (hwithout : WithoutFragmentArguments context) : ∀ depth,
    (comparers context depth).Sound types pairs
  | 0 =>
      { betweenFieldsAndFragment := fun _ _ _ _ _ _ _ _ _ _ => trivial
        betweenFragments := fun _ _ _ _ _ _ _ _ => trivial
        betweenSubSelectionSets := fun _ _ _ _ _ _ _ _ _ _ => trivial }
  | depth + 1 =>
      have hcompare := comparers_sound hkeys hwithout depth
      { betweenFieldsAndFragment := fun _ _ _ _ hset hcached hspread hallowed _ hcache =>
          collectConflictsBetweenFieldsAndFragment_silent hkeys hcompare hset hcached hspread
            hallowed hcache
        betweenFragments := fun _ _ _ hspread1 hspread2 hallowed _ hcache =>
          collectConflictsBetweenFragments_silent hkeys hcompare hwithout hspread1 hspread2
            hallowed hcache
        betweenSubSelectionSets := fun _ _ _ _ _ hplaced1 hplaced2 hallowed _ hcache =>
          findConflictsBetweenSubSelectionSets_silent hcompare hplaced1 hplaced2 hallowed hcache }

/-! ## The selection sets of the document -/

theorem collectConflictsWithin_silent (hcompare : compare.Sound types pairs)
    {set : SelectionSetNode} {cached : FieldMap × List FragmentSpread}
    (hset : set ∈ documentSets context.document)
    (hcached : types.Represents (· = none) set cached)
    (hallowed : SetsAllowed types pairs false set set) (hcache : types.CacheSound (· = none) s) :
    Silent types (collectConflictsWithin context compare cached.1) s := by
  refine silent_flatMap ?_ s hcache
  rintro ⟨name, fields⟩ hitem s hcache
  obtain rfl := named_of_mem_items hitem
  refine silent_flatMap (fun pair hpair s hcache => ?_) s hcache
  obtain ⟨hmem1, hmem2⟩ := Universe.mem_of_mem_pairs hpair
  obtain ⟨hfield1, hname1⟩ := hcached.mem_named hmem1
  obtain ⟨hfield2, hname2⟩ := hcached.mem_named hmem2
  exact findConflict_silent hcompare hset hfield1 hset hfield2
    (hallowed _ _ (ParentTypes.collects_of_mem_fields hfield1)
      (ParentTypes.collects_of_mem_fields hfield2) (hname1.trans hname2.symm)) hcache

theorem compareFragmentSpreads_silent (hcompare : compare.Sound types pairs)
    {set : SelectionSetNode} {cached : FieldMap × List FragmentSpread}
    (hset : set ∈ documentSets context.document)
    (hcached : types.Represents (· = none) set cached)
    (hallowed : SetsAllowed types pairs false set set) : ∀ {spreads : List FragmentSpread},
    spreads ⊆ cached.2 → ∀ s, types.CacheSound (· = none) s →
    Silent types (compareFragmentSpreads compare cached.1 spreads) s
  | [], _, _, hcache => silent_return_nil hcache
  | spread :: rest, hsub, s, hcache => by
      rw [compareFragmentSpreads]
      have hspread := hsub (List.mem_cons_self (a := spread))
      have hrest : rest ⊆ cached.2 := fun _ hmem => hsub (List.mem_cons_of_mem _ hmem)
      refine (hcompare.betweenFieldsAndFragment _ _ _ _ hset hcached
        (spreadOf_of_represents hset hcached hspread) (hallowed.fragment hcached hspread) s
        hcache).bind fun s hcache => ?_
      refine (silent_flatMap (fun spread' hspread' s hcache => ?_) s hcache).bind
        fun s hcache => ?_
      · exact hcompare.betweenFragments _ _ _ (spreadOf_of_represents hset hcached hspread)
          (spreadOf_of_represents hset hcached (hrest hspread'))
          (hallowed.fragments hcached hcached hspread (hrest hspread')) s hcache
      · exact (compareFragmentSpreads_silent hcompare hset hcached hallowed hrest s hcache).bind
          fun s hcache => silent_return_nil hcache

theorem findConflictsWithinSelectionSet_silent (hcompare : compare.Sound types pairs)
    {parentType : Option Text} {set : SelectionSetNode} (hplaced : types.Placed parentType set)
    (hallowed : SetsAllowed types pairs false set set) (hcache : types.CacheSound (· = none) s) :
    Silent types (findConflictsWithinSelectionSet context compare parentType set) s := by
  rw [findConflictsWithinSelectionSet]
  refine silent_getFieldsAndFragmentSpreads hcache hplaced fun cached s hcached hcache => ?_
  refine (collectConflictsWithin_silent hcompare hplaced.mem hcached hallowed hcache).bind
    fun s hcache => ?_
  exact (compareFragmentSpreads_silent hcompare hplaced.mem hcached hallowed
    (List.Subset.refl _) s hcache).bind fun s hcache => silent_return_nil hcache

/-- Where only allowed pairs are compared, the rule reports nothing. -/
theorem reportsNothing_of_allowed (types : ParentTypes context) (pairs : AllowedPairs context)
    (hkeys : KeysDistinguish context (· = none)) (hwithout : WithoutFragmentArguments context)
    (hallowed : ∀ set ∈ documentSets context.document, SetsAllowed types pairs false set set)
    {depth : ℕ} {reported : List MergeError}
    (h : overlappingFieldsCanBeMerged context depth = some reported) : reported = [] := by
  have hempty : types.CacheSound (· = none) {} := fun set cached hget => nomatch hget
  have hsilent : Silent types
      (flatMap (enterSelectionSet context depth) context.enterDocument) {} := by
    refine silent_flatMap (fun entered hentered s hcache => ?_) _ hempty
    have hplaced : types.Placed entered.1 entered.2 := placed_of_entered hentered
    rw [enterSelectionSet]
    exact (findConflictsWithinSelectionSet_silent (comparers_sound hkeys hwithout depth) hplaced
      (hallowed _ hplaced.mem) hcache).bind fun s hcache => silent_return_nil hcache
  unfold overlappingFieldsCanBeMerged at h
  cases hrun : flatMap (enterSelectionSet context depth) context.enterDocument {} with
  | mk result s =>
      rw [hrun] at h
      cases result with
      | error _ => cases h
      | ok found =>
          rw [Silent, ends_of_ok hrun] at hsilent
          rw [← Option.some.inj h]
          exact hsilent.2.2

end Silent

end GraphqlCore.Validation
