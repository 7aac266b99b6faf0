import GraphqlCore.Validation.ComparedPairs

/-!
# Completeness of the merge check

Where the rule finds and reports nothing, everything that it has recorded has also been
compared.  This is shown for each function in turn, for the functions that it calls.
-/

namespace GraphqlCore.Validation

open Language Attempt

/-- What the rule relies on for the variable maps that occur and for the conflict keys. -/
structure KeysDistinguish (context : ValidationContext) (V : VarMap → Prop) : Prop where
  none : V none
  closed : ∀ set ∈ documentSets context.document, ∀ node ∈ allDirectSpreads set.selections,
    ∀ varMap, V varMap → V (getFragmentSpread context node varMap).varMap
  name_eq : ∀ set1 ∈ documentSets context.document, ∀ node1 ∈ allDirectSpreads set1.selections,
    ∀ set2 ∈ documentSets context.document, ∀ node2 ∈ allDirectSpreads set2.selections,
    conflictKey context node1 = conflictKey context node2 → node1.name.value = node2.name.value

variable {context : ValidationContext}

theorem getFragmentSpread_node (node : FragmentSpreadNode) (varMap : VarMap) :
    (getFragmentSpread context node varMap).node = node := by
  unfold getFragmentSpread
  split <;> rfl

/-- The spread is one of the document. -/
def SpreadOf (context : ValidationContext) (V : VarMap → Prop) (spread : FragmentSpread) : Prop :=
  ∃ set ∈ documentSets context.document, ∃ node ∈ allDirectSpreads set.selections,
    ∃ varMap, V varMap ∧ spread = getFragmentSpread context node varMap

section Checks

variable {types : ParentTypes context} {V : VarMap → Prop} (own : OwnCheck types V)

/-! ## Computations that check -/

/-- Where the computation finds and reports nothing, everything that it records has been
compared, and `P` holds of the state it ends in. -/
def Checks {α : Type} (x : Run (List α)) (P : MergeState → Prop) (s : MergeState) : Prop :=
  Ends x s (fun found s' => types.CacheSound V s' ∧ (s'.reported = [] → s.reported = []) ∧
    (found = [] → s'.reported = [] → Settled own s s' ∧ P s')) fun _ _ => True

/-- What holds of a state holds of those that record more. -/
def Grows (P : MergeState → Prop) : Prop := ∀ s s', Extends s s' → P s → P s'

theorem Grows.ball {ι : Type*} {l : List ι} {P : ι → MergeState → Prop}
    (h : ∀ i ∈ l, Grows (P i)) : Grows fun s => ∀ i ∈ l, P i s :=
  fun _ _ hgrows hall i hi => h i hi _ _ hgrows (hall i hi)

variable {own} {α β : Type} {s : MergeState} {P Q : MergeState → Prop}

theorem Checks.mono {x : Run (List α)} (h : Checks own x P s) (hP : ∀ s, P s → Q s) :
    Checks own x Q s :=
  Ends.mono h fun _ _ ⟨hcache, hreported, hfound⟩ =>
    ⟨hcache, hreported, fun hnone hnot => (hfound hnone hnot).imp_right (hP _)⟩

theorem checks_return (hcache : types.CacheSound V s) {found : List α} (h : found = [] → P s) :
    Checks own (return found) P s :=
  ⟨hcache, id, fun hnone _ => ⟨.refl own s, h hnone⟩⟩

/-- Where nothing is found at the end, nothing must have been found before. -/
theorem Checks.bind {x : Run (List α)} {f : List α → Run (List β)} (h : Checks own x P s)
    (hgrows : Grows P)
    (hf : ∀ found s, types.CacheSound V s → Checks own (f found) (fun s => found = [] ∧ Q s) s) :
    Checks own (x >>= f) (fun s => P s ∧ Q s) s := by
  rw [Checks, ends_bind]
  refine Ends.mono h fun found s1 ⟨hcache, hreported, hsettled⟩ => ?_
  refine Ends.mono (hf found s1 hcache) fun found' s2 ⟨hcache', hreported', hsettled'⟩ => ?_
  refine ⟨hcache', hreported ∘ hreported', fun hnone hnot => ?_⟩
  obtain ⟨hsettled2, hempty, hQ⟩ := hsettled' hnone hnot
  obtain ⟨hsettled1, hP⟩ := hsettled hempty (hreported' hnot)
  exact ⟨hsettled1.trans hsettled2, hgrows _ _ hsettled2.grows hP, hQ⟩

/-- Two computations that check, one after the other. -/
theorem Checks.append {x y : Run (List α)} (hx : Checks own x P s) (hgrows : Grows P)
    (hy : ∀ s, types.CacheSound V s → Checks own y Q s) (hgrows' : Grows Q) :
    Checks own (do
      let found ← x
      let found' ← y
      return found ++ found') (fun s => P s ∧ Q s) s := by
  refine hx.bind hgrows fun found s hcache => ?_
  refine ((hy s hcache).bind hgrows' (Q := fun _ => found = []) fun found' s hcache => ?_).mono
    fun s h => h.symm
  exact checks_return hcache fun hnone => (List.append_eq_nil_iff.mp hnone).symm

theorem Checks.append₃ {x y z : Run (List α)} {R : MergeState → Prop} (hx : Checks own x P s)
    (hP : Grows P) (hy : ∀ s, types.CacheSound V s → Checks own y Q s) (hQ : Grows Q)
    (hz : ∀ s, types.CacheSound V s → Checks own z R s) (hR : Grows R) :
    Checks own (do
      let found1 ← x
      let found2 ← y
      let found3 ← z
      return found1 ++ found2 ++ found3) (fun s => P s ∧ Q s ∧ R s) s := by
  refine hx.bind hP fun found1 s hcache => ?_
  refine ((hy s hcache).bind hQ (Q := fun s => R s ∧ found1 = []) fun found2 s hcache => ?_).mono
    fun s ⟨hQ, hR, hempty1⟩ => ⟨hempty1, hQ, hR⟩
  refine ((hz s hcache).bind hR (Q := fun _ => found2 = [] ∧ found1 = [])
    fun found3 s hcache => ?_).mono fun s ⟨hR, hempty2, hempty1⟩ => ⟨hempty2, hR, hempty1⟩
  refine checks_return hcache fun hnone => ?_
  obtain ⟨hnone, hempty3⟩ := List.append_eq_nil_iff.mp hnone
  exact ⟨hempty3, (List.append_eq_nil_iff.mp hnone).symm⟩

theorem Checks.append₄ {x y z w : Run (List α)} {R T : MergeState → Prop}
    (hx : Checks own x P s) (hP : Grows P)
    (hy : ∀ s, types.CacheSound V s → Checks own y Q s) (hQ : Grows Q)
    (hz : ∀ s, types.CacheSound V s → Checks own z R s) (hR : Grows R)
    (hw : ∀ s, types.CacheSound V s → Checks own w T s) (hT : Grows T) :
    Checks own (do
      let found1 ← x
      let found2 ← y
      let found3 ← z
      let found4 ← w
      return found1 ++ found2 ++ found3 ++ found4) (fun s => P s ∧ Q s ∧ R s ∧ T s) s := by
  refine hx.bind hP fun found1 s hcache => ?_
  refine ((hy s hcache).bind hQ (Q := fun s => R s ∧ T s ∧ found1 = [])
    fun found2 s hcache => ?_).mono fun s ⟨hQ, hR, hT, hempty1⟩ => ⟨hempty1, hQ, hR, hT⟩
  refine ((hz s hcache).bind hR (Q := fun s => T s ∧ found2 = [] ∧ found1 = [])
    fun found3 s hcache => ?_).mono fun s ⟨hR, hT, hempty2, hempty1⟩ =>
      ⟨hempty2, hR, hT, hempty1⟩
  refine ((hw s hcache).bind hT (Q := fun _ => found3 = [] ∧ found2 = [] ∧ found1 = [])
    fun found4 s hcache => ?_).mono fun s ⟨hT, hempty3, hempty⟩ => ⟨hempty3, hT, hempty⟩
  refine checks_return hcache fun hnone => ?_
  obtain ⟨hnone, hempty4⟩ := List.append_eq_nil_iff.mp hnone
  obtain ⟨hnone, hempty3⟩ := List.append_eq_nil_iff.mp hnone
  exact ⟨hempty4, hempty3, (List.append_eq_nil_iff.mp hnone).symm⟩

theorem checks_flatMap (own : OwnCheck types V) {f : α → Run (List β)}
    {P : α → MergeState → Prop} : ∀ {l : List α},
    (∀ a ∈ l, Grows (P a)) →
    (∀ a ∈ l, ∀ s, types.CacheSound V s → Checks own (f a) (P a) s) →
    ∀ s, types.CacheSound V s → Checks own (flatMap f l) (fun s => ∀ a ∈ l, P a s) s
  | [], _, _, s, hcache => checks_return hcache fun _ _ h => nomatch h
  | a :: rest, hgrows, hchecks, s, hcache => by
      rw [flatMap]
      have hrest := checks_flatMap own (fun a' ha' => hgrows a' (List.mem_cons_of_mem _ ha'))
        (fun a' ha' => hchecks a' (List.mem_cons_of_mem _ ha'))
      refine ((hchecks a List.mem_cons_self s hcache).append (hgrows a List.mem_cons_self) hrest
        (Grows.ball fun a' ha' => hgrows a' (List.mem_cons_of_mem _ ha'))).mono ?_
      rintro s ⟨ha, hall⟩ a' ha'
      rcases List.mem_cons.mp ha' with rfl | ha'
      · exact ha
      · exact hall a' ha'

/-- What is cached is read without any comparison. -/
theorem checks_getFieldsAndFragmentSpreads (hcache : types.CacheSound V s)
    {parentType : Option Text} {set : SelectionSetNode} (hplaced : types.Placed parentType set)
    {varMap : VarMap} (hV : V varMap) {f : FieldMap × List FragmentSpread → Run (List α)}
    (h : ∀ cached s, types.Represents V set cached → types.CacheSound V s →
      Checks own (f cached) P s) :
    Checks own (getFieldsAndFragmentSpreads context parentType set varMap >>= f) P s := by
  rw [Checks, ends_bind]
  refine (ParentTypes.getFieldsAndFragmentSpreads_represents hcache hplaced hV).mono ?_
  rintro cached s1 ⟨hrepresents, hcache', hsame⟩
  refine Ends.mono (h cached s1 hrepresents hcache')
    fun found s2 ⟨hcache'', hreported, hfound⟩ => ?_
  refine ⟨hcache'', fun hnone => hsame.reported ▸ hreported hnone, fun hnone hnot => ?_⟩
  exact (hfound hnone hnot).imp_left (settled_of_samePairs own hsame).trans

/-! ## What the called functions are relied on for -/

/-- The functions that call each other check what they are called for. -/
structure Comparers.Complete (own : OwnCheck types V) (compare : Comparers) : Prop where
  betweenFieldsAndFragment : ∀ exclusive set cached spread,
    set ∈ documentSets context.document → types.Represents V set cached →
    SpreadOf context V spread → ∀ s, types.CacheSound V s →
    Checks own (compare.betweenFieldsAndFragment exclusive cached.1 spread)
      (fun s => HasFragment s set spread.key exclusive) s
  betweenFragments : ∀ exclusive spread1 spread2,
    SpreadOf context V spread1 → SpreadOf context V spread2 → ∀ s, types.CacheSound V s →
    Checks own (compare.betweenFragments exclusive spread1 spread2)
      (fun s => HasFragments s spread1.key spread2.key exclusive) s
  betweenSubSelectionSets : ∀ exclusive parentType1 set1 varMap1 parentType2 set2 varMap2,
    types.Placed parentType1 set1 → V varMap1 → types.Placed parentType2 set2 → V varMap2 →
    ∀ s, types.CacheSound V s →
    Checks own (compare.betweenSubSelectionSets exclusive parentType1 set1 varMap1 parentType2
        set2 varMap2)
      (fun s => FieldsCompared own s exclusive set1 set2 ∧
        SpreadsCompared context s exclusive set1 set2) s

theorem grows_hasFragment (set : SelectionSetNode) (key : Text) (exclusive : Bool) :
    Grows fun s => HasFragment s set key exclusive :=
  fun _ _ hgrows => hgrows.fragment _ _ _

theorem grows_hasFragments (key1 key2 : Text) (exclusive : Bool) :
    Grows fun s => HasFragments s key1 key2 exclusive :=
  fun _ _ hgrows => hgrows.fragments _ _ _

theorem grows_fieldsCompared (exclusive : Bool) (set1 set2 : SelectionSetNode) :
    Grows fun s => FieldsCompared own s exclusive set1 set2 :=
  fun _ _ hgrows h => h.mono hgrows

theorem grows_pairCompared (exclusive : Bool) (field1 field2 : NodeAndDef) :
    Grows fun s => PairCompared types own s exclusive field1 field2 :=
  fun _ _ hgrows h => h.mono hgrows

variable {compare : Comparers}

/-! ## Comparing fields -/

/-- Nothing is found where two fields are compared only if they do not conflict. -/
theorem findConflict_checks (hcompare : compare.Complete own) {exclusive : Bool} {name : Text}
    {field1 field2 : NodeAndDef} {varMap1 varMap2 : VarMap} {set1 set2 : SelectionSetNode}
    (hset1 : set1 ∈ documentSets context.document)
    (hfield1 : field1.plain context ∈ types.fields set1) (hV1 : V varMap1)
    (hset2 : set2 ∈ documentSets context.document)
    (hfield2 : field2.plain context ∈ types.fields set2) (hV2 : V varMap2)
    (hcache : types.CacheSound V s) :
    Checks own
      (Option.toList <$> findConflict context compare exclusive name field1 varMap1 field2 varMap2)
      (fun s => PairCompared types own s exclusive (field1.plain context) (field2.plain context))
      s := by
  have hexclusive : (exclusive || areParentsExclusive context.schema field1.parentType
      field2.parentType) = exclusiveWith context exclusive field1 field2 := rfl
  unfold findConflict
  dsimp only
  rw [hexclusive]
  cases hconflict : findFieldConflict context.schema
      (exclusiveWith context exclusive field1 field2) field1 varMap1 field2 varMap2 with
  | some message => exact checks_return hcache fun hnone => by cases hnone
  | none =>
      have hown := own.of_none _ _ _ _ _ hV1 hV2 hconflict
      rw [← exclusiveWith_plain] at hown
      dsimp only
      split
      · next subset1 subset2 hsubset1 hsubset2 =>
        -- the subfields are compared with each other
        rw [Checks, ends_map, ends_bind]
        have hplaced1 := types.subset_mem hset1 hfield1 hsubset1
        have hplaced2 := types.subset_mem hset2 hfield2 hsubset2
        refine Ends.mono (hcompare.betweenSubSelectionSets _ _ _ _ _ _ _ hplaced1 hV1 hplaced2 hV2
          s hcache) fun found s1 hends => ?_
        obtain ⟨hcache', hreported, hfound⟩ := hends
        refine ⟨hcache', hreported, fun hnone hnot => ?_⟩
        have hempty : found = [] := by
          unfold subfieldConflicts at hnone
          split at hnone
          · next hisEmpty => exact List.isEmpty_iff.mp hisEmpty
          · cases hnone
        obtain ⟨hsettled, hfields, hspreads⟩ := hfound hempty hnot
        refine ⟨hsettled, .intro hown ?_ ?_⟩
        · intro set1 set2 h1 h2
          obtain rfl := Option.some.inj (hsubset1.symm.trans h1)
          obtain rfl := Option.some.inj (hsubset2.symm.trans h2)
          rw [exclusiveWith_plain]
          exact hfields
        · intro set1 set2 h1 h2
          obtain rfl := Option.some.inj (hsubset1.symm.trans h1)
          obtain rfl := Option.some.inj (hsubset2.symm.trans h2)
          rw [exclusiveWith_plain]
          exact hspreads
      · next hleaf =>
        refine checks_return hcache (fun _ => .intro hown ?_ ?_)
        · intro set1 set2 h1 h2
          exact absurd h2 (hleaf set1 set2 h1)
        · intro set1 set2 h1 h2
          exact absurd h2 (hleaf set1 set2 h1)

theorem mem_items_named {fieldMap : FieldMap} {name : Text} {field : NodeAndDef}
    (h : field ∈ fieldMap.named name) : (name, fieldMap.named name) ∈ fieldMap.fields.items := by
  unfold FieldMap.named at h ⊢
  cases hget : fieldMap.fields.get name with
  | none =>
      rw [hget] at h
      cases h
  | some fields => exact Dict.mem_items_iff.mpr hget

theorem named_of_mem_items {fieldMap : FieldMap} {name : Text} {fields : List NodeAndDef}
    (h : (name, fields) ∈ fieldMap.fields.items) : fieldMap.named name = fields := by
  rw [FieldMap.named, Dict.mem_items_iff.mp h]
  rfl

theorem collectConflictsBetween_checks (hcompare : compare.Complete own) (exclusive : Bool)
    {set1 set2 : SelectionSetNode} {cached1 cached2 : FieldMap × List FragmentSpread}
    {varMap1 varMap2 : VarMap} (hset1 : set1 ∈ documentSets context.document)
    (hcached1 : types.Represents V set1 cached1) (hV1 : V varMap1)
    (hset2 : set2 ∈ documentSets context.document)
    (hcached2 : types.Represents V set2 cached2) (hV2 : V varMap2)
    (hcache : types.CacheSound V s) :
    Checks own
      (collectConflictsBetween context compare exclusive cached1.1 varMap1 cached2.1 varMap2)
      (fun s => FieldsCompared own s exclusive set1 set2) s := by
  have hchecks := checks_flatMap own (l := cached1.1.fields.items)
    (f := fun entry => .flatMap (fun field1 =>
      .flatMap (fun field2 => Option.toList <$>
        findConflict context compare exclusive entry.1 field1 varMap1 field2 varMap2)
        (cached2.1.named entry.1)) entry.2)
    (P := fun entry s => ∀ field1 ∈ entry.2, ∀ field2 ∈ cached2.1.named entry.1,
      PairCompared types own s exclusive (field1.plain context) (field2.plain context))
    (fun _ _ => .ball fun _ _ => .ball fun _ _ => grows_pairCompared _ _ _) ?_ s hcache
  · refine hchecks.mono fun s hpairs field1 hfield1 field2 hfield2 hname => ?_
    obtain ⟨field1, hnamed1, rfl⟩ := hcached1.exists_named hfield1
    obtain ⟨field2, hnamed2, rfl⟩ := hcached2.exists_named hfield2
    rw [← hname] at hnamed2
    exact hpairs _ (mem_items_named hnamed1) field1 hnamed1 field2 hnamed2
  · rintro ⟨name, fields1⟩ hitem s hcache
    obtain rfl := named_of_mem_items hitem
    refine checks_flatMap own (fun _ _ => .ball fun _ _ => grows_pairCompared _ _ _)
      (fun field1 hfield1 s hcache => ?_) s hcache
    refine checks_flatMap own (fun _ _ => grows_pairCompared _ _ _)
      (fun field2 hfield2 s hcache => ?_) s hcache
    exact findConflict_checks hcompare hset1 (hcached1.mem_named hfield1).1 hV1 hset2
      (hcached2.mem_named hfield2).1 hV2 hcache

/-! ## Comparing fragments -/

theorem SpreadOf.key {spread : FragmentSpread} (h : SpreadOf context V spread) :
    ∃ set ∈ documentSets context.document, ∃ node ∈ allDirectSpreads set.selections,
      spread.key = conflictKey context node ∧ spread.node = node := by
  obtain ⟨set, hset, node, hnode, varMap, -, rfl⟩ := h
  exact ⟨set, hset, node, hnode, getFragmentSpread_key _ _ _, getFragmentSpread_node _ _⟩

theorem SpreadOf.varMap (hkeys : KeysDistinguish context V) {spread : FragmentSpread}
    (h : SpreadOf context V spread) : V spread.varMap := by
  obtain ⟨set, hset, node, hnode, varMap, hV, rfl⟩ := h
  exact hkeys.closed set hset node hnode varMap hV

theorem spreadOf_of_represents {set : SelectionSetNode}
    {cached : FieldMap × List FragmentSpread} (hset : set ∈ documentSets context.document)
    (h : types.Represents V set cached) {spread : FragmentSpread} (hspread : spread ∈ cached.2) :
    SpreadOf context V spread := by
  obtain ⟨node, hnode, varMap, hV, rfl⟩ := h.sound spread hspread
  exact ⟨set, hset, node, hnode, varMap, hV, rfl⟩

/-- The spreads with the conflict key are spreads of the fragment. -/
theorem Spreads.eq_of_spreadOf (hkeys : KeysDistinguish context V) {spread : FragmentSpread}
    (hspread : SpreadOf context V spread) {fragmentSet : SelectionSetNode}
    {node : FragmentSpreadNode} (h : Spreads context spread.key fragmentSet node) :
    ∃ fragment, context.getFragment spread.node.name.value = some fragment ∧
      fragment.selectionSet = fragmentSet := by
  obtain ⟨set', hset', node', hnode', hkey, hnode⟩ := hspread.key
  obtain ⟨set, hset, hmem⟩ := h.mem
  obtain ⟨fragment, hfragment, hfragmentSet⟩ := h.fragment
  have hname := hkeys.name_eq _ hset _ hmem _ hset' _ hnode' (h.key_eq.trans hkey)
  rw [hname, ← hnode] at hfragment
  exact ⟨fragment, hfragment, hfragmentSet⟩

/-- A pair that is recorded first and then compared is settled. -/
theorem settled_of_recorded {s1 s' : MergeState} {set : SelectionSetNode} {key : Text}
    {exclusive : Bool} (hnew : s.comparedFieldsAndFragmentPairs.has set key exclusive = false)
    (hs1 : s1 = { s with
      comparedFieldsAndFragmentPairs := s.comparedFieldsAndFragmentPairs.add set key exclusive })
    (hsettled : Settled own s1 s')
    (hcompared : ∀ fragmentSet node, Spreads context key fragmentSet node →
      FragmentCompared own s' exclusive set fragmentSet) :
    Settled own s s' ∧ HasFragment s' set key exclusive := by
  have hself : HasFragment s1 set key exclusive := by
    subst hs1
    exact OrderedPairSet.has_add_self _ _ _ _
  have hgrows : Extends s s1 := by
    subst hs1
    exact ⟨fun _ _ _ hhas => OrderedPairSet.has_add_of_has hnew hhas, fun _ _ _ hhas => hhas⟩
  refine ⟨⟨hgrows.trans hsettled.grows, fun set' key' exclusive' hhas => ?_,
    fun key1 key2 exclusive' hhas => ?_⟩, hsettled.grows.fragment _ _ _ hself⟩
  · rcases hsettled.fragment set' key' exclusive' hhas with hmid | hdone
    · subst hs1
      rcases OrderedPairSet.has_of_has_add hmid with hold | ⟨rfl, rfl, hexclusive⟩
      · exact .inl hold
      · refine .inr fun fragmentSet node hnode => ?_
        cases exclusive with
        | false => exact (hcompared fragmentSet node hnode).weaken exclusive'
        | true =>
            rw [hexclusive rfl]
            exact hcompared fragmentSet node hnode
    · exact .inr hdone
  · refine (hsettled.fragments key1 key2 exclusive' hhas).imp_left fun hmid => ?_
    subst hs1
    exact hmid

theorem settled_of_recorded_fragments {s1 s' : MergeState} {key1 key2 : Text} {exclusive : Bool}
    (hnew : PairSet.has s.comparedFragmentPairs key1 key2 exclusive = false)
    (hs1 : s1 = { s with
      comparedFragmentPairs := PairSet.add s.comparedFragmentPairs key1 key2 exclusive })
    (hsettled : Settled own s1 s')
    (hcompared : ∀ set1 node1 set2 node2, Spreads context key1 set1 node1 →
      Spreads context key2 set2 node2 → FragmentsCompared own s' exclusive key1 set1 key2 set2) :
    Settled own s s' ∧ HasFragments s' key1 key2 exclusive := by
  have hself : HasFragments s1 key1 key2 exclusive := by
    subst hs1
    exact .inr (OrderedPairSet.has_add_self _ _ _ _)
  have hgrows : Extends s s1 := by
    subst hs1
    exact ⟨fun _ _ _ hhas => hhas,
      fun _ _ _ hhas => hhas.imp_right (OrderedPairSet.has_add_of_has hnew)⟩
  refine ⟨⟨hgrows.trans hsettled.grows, fun set key exclusive' hhas => ?_,
    fun key1' key2' exclusive' hhas => ?_⟩, hsettled.grows.fragments _ _ _ hself⟩
  · refine (hsettled.fragment set key exclusive' hhas).imp_left fun hmid => ?_
    subst hs1
    exact hmid
  · rcases hsettled.fragments key1' key2' exclusive' hhas with (heq | hmid) | hdone
    · exact .inl (.inl heq)
    · subst hs1
      rcases OrderedPairSet.has_of_has_add hmid with hold | ⟨h1, h2, hexclusive⟩
      · exact .inl (.inr hold)
      · right
        intro set1 node1 set2 node2 hnode1 hnode2
        have hweaken {set1 set2 : SelectionSetNode}
            (h : FragmentsCompared own s' exclusive key1 set1 key2 set2) :
            FragmentsCompared own s' exclusive' key1 set1 key2 set2 := by
          cases exclusive with
          | false => exact h.weaken exclusive'
          | true =>
              rw [hexclusive rfl]
              exact h
        rcases PairSet.eq_or_swapped (Prod.ext h1 h2) with ⟨rfl, rfl⟩ | ⟨rfl, rfl⟩
        · exact hweaken (hcompared set1 node1 set2 node2 hnode1 hnode2)
        · exact (hweaken (hcompared set2 node2 set1 node1 hnode2 hnode1)).symm
    · exact .inr hdone

/-- After it has been recorded, the pair is compared. -/
theorem checks_recorded {x : Run (List α)} {set : SelectionSetNode} {key : Text} {exclusive : Bool}
    (hnew : s.comparedFieldsAndFragmentPairs.has set key exclusive = false)
    (hcache : types.CacheSound V s)
    (h : ∀ s, types.CacheSound V s → Checks own x (fun s => ∀ fragmentSet node,
      Spreads context key fragmentSet node → FragmentCompared own s exclusive set fragmentSet) s) :
    Ends x { s with comparedFieldsAndFragmentPairs :=
          OrderedPairSet.add s.comparedFieldsAndFragmentPairs set key exclusive }
      (fun found s' => types.CacheSound V s' ∧ (s'.reported = [] → s.reported = []) ∧
        (found = [] → s'.reported = [] → Settled own s s' ∧ HasFragment s' set key exclusive))
      fun _ _ => True :=
  Ends.mono (h _ hcache) fun _ _ ⟨hcache, hreported, hfound⟩ => ⟨hcache, hreported,
    fun hnone hnot => settled_of_recorded hnew rfl (hfound hnone hnot).1 (hfound hnone hnot).2⟩

theorem checks_recorded_fragments {x : Run (List α)} {key1 key2 : Text} {exclusive : Bool}
    (hnew : PairSet.has s.comparedFragmentPairs key1 key2 exclusive = false)
    (hcache : types.CacheSound V s)
    (h : ∀ s, types.CacheSound V s → Checks own x (fun s => ∀ set1 node1 set2 node2,
      Spreads context key1 set1 node1 → Spreads context key2 set2 node2 →
      FragmentsCompared own s exclusive key1 set1 key2 set2) s) :
    Ends x { s with comparedFragmentPairs :=
          PairSet.add s.comparedFragmentPairs key1 key2 exclusive }
      (fun found s' => types.CacheSound V s' ∧ (s'.reported = [] → s.reported = []) ∧
        (found = [] → s'.reported = [] → Settled own s s' ∧ HasFragments s' key1 key2 exclusive))
      fun _ _ => True :=
  Ends.mono (h _ hcache) fun _ _ ⟨hcache, hreported, hfound⟩ => ⟨hcache, hreported,
    fun hnone hnot => settled_of_recorded_fragments hnew rfl (hfound hnone hnot).1
      (hfound hnone hnot).2⟩

theorem collectConflictsBetweenFieldsAndFragment_checks (hkeys : KeysDistinguish context V)
    (hcompare : compare.Complete own) {exclusive : Bool} {set : SelectionSetNode}
    {cached : FieldMap × List FragmentSpread} {spread : FragmentSpread}
    (hset : set ∈ documentSets context.document) (hcached : types.Represents V set cached)
    (hspread : SpreadOf context V spread) (hcache : types.CacheSound V s) :
    Checks own
      (collectConflictsBetweenFieldsAndFragment context compare exclusive cached.1 spread)
      (fun s => HasFragment s set spread.key exclusive) s := by
  rw [collectConflictsBetweenFieldsAndFragment, Checks, ends_bind, memoizeFieldsAndFragment,
    ends_state, hcached.origin]
  cases hnew : s.comparedFieldsAndFragmentPairs.has set spread.key exclusive with
  | true => exact checks_return hcache fun _ => hnew
  | false =>
      simp only [Bool.false_eq_true, if_false]
      refine checks_recorded hnew hcache fun s hcache => ?_
      cases hfragment : context.getFragment spread.node.name.value with
      | none =>
          refine checks_return hcache fun _ fragmentSet node hnode => ?_
          obtain ⟨fragment, hsome, -⟩ := hnode.eq_of_spreadOf hkeys hspread
          rw [hfragment] at hsome
          cases hsome
      | some fragment =>
          have hplaced := types.fragment_mem hfragment
          refine Checks.mono (P := fun s => FragmentCompared own s exclusive set
            fragment.selectionSet) ?_ fun s hcompared fragmentSet node hnode => ?_
          · refine checks_getFieldsAndFragmentSpreads hcache hplaced (hspread.varMap hkeys) ?_
            intro cached2 s hcached2 hcache
            rw [hcached2.origin]
            by_cases hsame : set = fragment.selectionSet
            · rw [if_pos hsame]
              exact checks_return hcache (fun _ => .inl hsame)
            · rw [if_neg hsame]
              have hfields := collectConflictsBetween_checks hcompare exclusive hset
                hcached hkeys.none hplaced.mem hcached2 (hspread.varMap hkeys) hcache
              refine (hfields.append (grows_fieldsCompared _ _ _) (fun s hcache =>
                checks_flatMap own (fun spread2 _ => grows_hasFragment set spread2.key exclusive)
                  (fun spread2 hspread2 s hcache => hcompare.betweenFieldsAndFragment _ _ _ _ hset
                    hcached (spreadOf_of_represents hplaced.mem hcached2 hspread2) s hcache)
                  s hcache) (.ball fun _ _ => grows_hasFragment _ _ _)).mono ?_
              rintro s ⟨hcompared, hspreads⟩
              refine .inr ⟨hcompared, fun node hnode => ?_⟩
              obtain ⟨spread2, hspread2, hkey⟩ := hcached2.found node hnode
              rw [← hkey]
              exact hspreads spread2 hspread2
          · obtain ⟨fragment', hsome, rfl⟩ := hnode.eq_of_spreadOf hkeys hspread
            obtain rfl := Option.some.inj (hfragment.symm.trans hsome)
            exact hcompared

theorem sameArguments_nil (varMap1 varMap2 : VarMap) : sameArguments [] varMap1 [] varMap2 := rfl

theorem collectConflictsBetweenFragments_checks (hkeys : KeysDistinguish context V)
    (hcompare : compare.Complete own) {exclusive : Bool} {spread1 spread2 : FragmentSpread}
    (hspread1 : SpreadOf context V spread1) (hspread2 : SpreadOf context V spread2)
    (hcache : types.CacheSound V s) :
    Checks own (collectConflictsBetweenFragments context compare exclusive spread1 spread2)
      (fun s => HasFragments s spread1.key spread2.key exclusive) s := by
  rw [collectConflictsBetweenFragments]
  split
  · next heq => exact checks_return hcache (fun _ => .inl heq)
  · split
    · -- an error is reported
      rw [Checks, ends_bind, reportError, ends_modify]
      exact ⟨hcache, fun hnone => absurd hnone (by simp), fun _ hnone => absurd hnone (by simp)⟩
    · rw [Checks, ends_bind, memoizeFragments, ends_state]
      cases hnew : PairSet.has s.comparedFragmentPairs spread1.key spread2.key exclusive with
      | true => exact checks_return hcache (fun _ => .inr hnew)
      | false =>
          simp only [Bool.false_eq_true, if_false]
          refine checks_recorded_fragments hnew hcache fun s hcache => ?_
          split
          · next fragment1 fragment2 hfragment1 hfragment2 =>
            have hplaced1 := types.fragment_mem hfragment1
            have hplaced2 := types.fragment_mem hfragment2
            refine Checks.mono (P := fun s => FragmentsCompared own s exclusive spread1.key
              fragment1.selectionSet spread2.key fragment2.selectionSet) ?_
              fun s hcompared set1 node1 set2 node2 hnode1 hnode2 => ?_
            · refine checks_getFieldsAndFragmentSpreads hcache hplaced1 (hspread1.varMap hkeys) ?_
              intro cached1 s hcached1 hcache
              refine checks_getFieldsAndFragmentSpreads hcache hplaced2 (hspread2.varMap hkeys) ?_
              intro cached2 s hcached2 hcache
              have hfields := collectConflictsBetween_checks hcompare exclusive
                hplaced1.mem hcached1 (hspread1.varMap hkeys) hplaced2.mem hcached2
                (hspread2.varMap hkeys) hcache
              have hnested2 (s : MergeState) (hcache : types.CacheSound V s) :
                  Checks own (.flatMap (compare.betweenFragments exclusive spread1) cached2.2)
                    (fun s => ∀ spread ∈ cached2.2,
                      HasFragments s spread1.key spread.key exclusive) s :=
                checks_flatMap own (fun _ _ => grows_hasFragments _ _ _)
                  (fun spread hspread s hcache =>
                  hcompare.betweenFragments _ _ _ hspread1
                    (spreadOf_of_represents hplaced2.mem hcached2 hspread) s hcache) s hcache
              have hnested1 (s : MergeState) (hcache : types.CacheSound V s) :
                  Checks own (.flatMap (fun spread => compare.betweenFragments exclusive spread
                      spread2) cached1.2)
                    (fun s => ∀ spread ∈ cached1.2,
                      HasFragments s spread.key spread2.key exclusive) s :=
                checks_flatMap own (fun _ _ => grows_hasFragments _ _ _)
                  (fun spread hspread s hcache =>
                  hcompare.betweenFragments _ _ _
                    (spreadOf_of_represents hplaced1.mem hcached1 hspread) hspread2 s hcache)
                  s hcache
              refine (hfields.append₃ (grows_fieldsCompared _ _ _) hnested2
                (.ball fun _ _ => grows_hasFragments _ _ _) hnested1
                (.ball fun _ _ => grows_hasFragments _ _ _)).mono ?_
              rintro s ⟨hcompared, hspreads2, hspreads1⟩
              refine ⟨.inl hcompared, fun node hnode => ?_, fun node hnode => ?_⟩
              · obtain ⟨spread, hspread, hkey⟩ := hcached2.found node hnode
                rw [← hkey]
                exact hspreads2 spread hspread
              · obtain ⟨spread, hspread, hkey⟩ := hcached1.found node hnode
                rw [← hkey]
                exact hspreads1 spread hspread
            · obtain ⟨fragment1', hsome1, rfl⟩ := hnode1.eq_of_spreadOf hkeys hspread1
              obtain ⟨fragment2', hsome2, rfl⟩ := hnode2.eq_of_spreadOf hkeys hspread2
              obtain rfl := Option.some.inj (hfragment1.symm.trans hsome1)
              obtain rfl := Option.some.inj (hfragment2.symm.trans hsome2)
              exact hcompared
          · next hmissing =>
            refine checks_return hcache fun _ set1 node1 set2 node2 hnode1 hnode2 => ?_
            obtain ⟨fragment1, hsome1, -⟩ := hnode1.eq_of_spreadOf hkeys hspread1
            obtain ⟨fragment2, hsome2, -⟩ := hnode2.eq_of_spreadOf hkeys hspread2
            exact absurd hsome2 (hmissing _ _ hsome1)

/-! ## Comparing selection sets -/

/-- The fields of a selection set are compared with each fragment that is spread. -/
theorem betweenFieldsAndSpreads_checks (hcompare : compare.Complete own) {exclusive : Bool}
    {set set' : SelectionSetNode} {cached cached' : FieldMap × List FragmentSpread}
    (hset : set ∈ documentSets context.document) (hcached : types.Represents V set cached)
    (hset' : set' ∈ documentSets context.document) (hcached' : types.Represents V set' cached')
    (hcache : types.CacheSound V s) :
    Checks own (.flatMap (compare.betweenFieldsAndFragment exclusive cached.1) cached'.2)
      (fun s => ∀ node ∈ allDirectSpreads set'.selections,
        HasFragment s set (conflictKey context node) exclusive) s := by
  have hchecks := checks_flatMap own (l := cached'.2)
    (f := compare.betweenFieldsAndFragment exclusive cached.1)
    (fun spread _ => grows_hasFragment set spread.key exclusive)
    (fun spread hspread s hcache => hcompare.betweenFieldsAndFragment _ _ _ _ hset hcached
      (spreadOf_of_represents hset' hcached' hspread) s hcache) s hcache
  refine hchecks.mono fun s hspreads node hnode => ?_
  obtain ⟨spread, hspread, hkey⟩ := hcached'.found node hnode
  rw [← hkey]
  exact hspreads spread hspread

theorem findConflictsBetweenSubSelectionSets_checks (hcompare : compare.Complete own)
    {exclusive : Bool} {parentType1 parentType2 : Option Text} {set1 set2 : SelectionSetNode}
    {varMap1 varMap2 : VarMap} (hplaced1 : types.Placed parentType1 set1) (hV1 : V varMap1)
    (hplaced2 : types.Placed parentType2 set2) (hV2 : V varMap2)
    (hcache : types.CacheSound V s) :
    Checks own
      (findConflictsBetweenSubSelectionSets context compare exclusive parentType1 set1 varMap1
        parentType2 set2 varMap2)
      (fun s => FieldsCompared own s exclusive set1 set2 ∧
        SpreadsCompared context s exclusive set1 set2) s := by
  rw [findConflictsBetweenSubSelectionSets]
  refine checks_getFieldsAndFragmentSpreads hcache hplaced1 hV1 fun cached1 s hcached1 hcache => ?_
  refine checks_getFieldsAndFragmentSpreads hcache hplaced2 hV2 fun cached2 s hcached2 hcache => ?_
  have hboth (s : MergeState) (hcache : types.CacheSound V s) :
      Checks own (.flatMap (fun spread1 =>
          .flatMap (compare.betweenFragments exclusive spread1) cached2.2) cached1.2)
        (fun s => ∀ spread1 ∈ cached1.2, ∀ spread2 ∈ cached2.2,
          HasFragments s spread1.key spread2.key exclusive) s :=
    checks_flatMap own (fun _ _ => .ball fun _ _ => grows_hasFragments _ _ _)
      (fun spread1 hspread1 s hcache => checks_flatMap own (fun _ _ => grows_hasFragments _ _ _)
        (fun spread2 hspread2 s hcache => hcompare.betweenFragments _ _ _
          (spreadOf_of_represents hplaced1.mem hcached1 hspread1)
          (spreadOf_of_represents hplaced2.mem hcached2 hspread2) s hcache) s hcache) s hcache
  refine ((collectConflictsBetween_checks hcompare _ hplaced1.mem hcached1 hV1 hplaced2.mem hcached2
    hV2 hcache).append₄ (grows_fieldsCompared _ _ _)
    (fun s => betweenFieldsAndSpreads_checks hcompare hplaced1.mem hcached1 hplaced2.mem hcached2)
    (.ball fun _ _ => grows_hasFragment _ _ _)
    (fun s => betweenFieldsAndSpreads_checks hcompare hplaced2.mem hcached2 hplaced1.mem hcached1)
    (.ball fun _ _ => grows_hasFragment _ _ _) hboth
    (.ball fun _ _ => .ball fun _ _ => grows_hasFragments _ _ _)).mono ?_
  rintro s ⟨hfields, hinFront, hbehind, hfragments⟩
  refine ⟨hfields, hinFront, hbehind, fun node1 hnode1 node2 hnode2 => ?_⟩
  obtain ⟨spread1, hspread1, hkey1⟩ := hcached1.found node1 hnode1
  obtain ⟨spread2, hspread2, hkey2⟩ := hcached2.found node2 hnode2
  rw [← hkey1, ← hkey2]
  exact hfragments spread1 hspread1 spread2 hspread2

/-- The functions check what they are called for, to every depth of calls. -/
theorem comparers_complete (hkeys : KeysDistinguish context V) : ∀ depth,
    (comparers context depth).Complete own
  | 0 =>
      { betweenFieldsAndFragment := fun _ _ _ _ _ _ _ _ _ => trivial
        betweenFragments := fun _ _ _ _ _ _ _ => trivial
        betweenSubSelectionSets := fun _ _ _ _ _ _ _ _ _ _ _ _ _ => trivial }
  | depth + 1 =>
      have hcompare := comparers_complete hkeys depth
      { betweenFieldsAndFragment := fun _ _ _ _ hset hcached hspread _ hcache =>
          collectConflictsBetweenFieldsAndFragment_checks hkeys hcompare hset hcached hspread hcache
        betweenFragments := fun _ _ _ hspread1 hspread2 _ hcache =>
          collectConflictsBetweenFragments_checks hkeys hcompare hspread1 hspread2 hcache
        betweenSubSelectionSets := fun _ _ _ _ _ _ _ hplaced1 hV1 hplaced2 hV2 _ hcache =>
          findConflictsBetweenSubSelectionSets_checks hcompare hplaced1 hV1 hplaced2 hV2 hcache }

/-! ## The selection sets of the document -/

/-- Two fields are the same, or have been compared in one of the orders. -/
def Related (own : OwnCheck types V) (s : MergeState) (exclusive : Bool)
    (field1 field2 : NodeAndDef) : Prop :=
  field1 = field2 ∨ PairCompared types own s exclusive field1 field2 ∨
    PairCompared types own s exclusive field2 field1

theorem Related.symm {exclusive : Bool} {field1 field2 : NodeAndDef}
    (h : Related own s exclusive field1 field2) : Related own s exclusive field2 field1 :=
  h.imp Eq.symm Or.symm

theorem Related.weaken {field1 field2 : NodeAndDef} (h : Related own s false field1 field2)
    (exclusive : Bool) : Related own s exclusive field1 field2 :=
  h.imp_right (Or.imp (fun h => h.weaken exclusive) fun h => h.weaken exclusive)

theorem Related.mono {s' : MergeState} {exclusive : Bool} {field1 field2 : NodeAndDef}
    (h : Related own s exclusive field1 field2) (hgrows : Extends s s') :
    Related own s' exclusive field1 field2 :=
  h.imp_right (Or.imp (fun h => h.mono hgrows) fun h => h.mono hgrows)

/-- The fields and spreads of the selection sets have been compared with each other. -/
structure SetsCompared (own : OwnCheck types V) (s : MergeState) (exclusive : Bool)
    (set1 set2 : SelectionSetNode) : Prop where
  fields : ∀ field1 ∈ types.fields set1, ∀ field2 ∈ types.fields set2,
    SameResponseName field1 field2 → Related own s exclusive field1 field2
  spreads : SpreadsCompared context s exclusive set1 set2

theorem grows_setsCompared (exclusive : Bool) (set1 set2 : SelectionSetNode) :
    Grows fun s => SetsCompared own s exclusive set1 set2 :=
  fun _ _ hgrows h =>
    ⟨fun field1 h1 field2 h2 hname => (h.fields field1 h1 field2 h2 hname).mono hgrows,
      h.spreads.mono hgrows⟩

theorem mem_pairs_of_mem {α : Type} {a b : α} : ∀ {l : List α}, a ∈ l → b ∈ l →
    a = b ∨ (a, b) ∈ pairs l ∨ (b, a) ∈ pairs l
  | [], ha, _ => nomatch ha
  | c :: rest, ha, hb => by
      rw [pairs]
      simp only [List.mem_append]
      rcases List.mem_cons.mp ha with rfl | ha' <;> rcases List.mem_cons.mp hb with rfl | hb'
      · exact .inl rfl
      · exact .inr (.inl (.inl (List.mem_map_of_mem hb')))
      · exact .inr (.inr (.inl (List.mem_map_of_mem ha')))
      · exact (mem_pairs_of_mem ha' hb').imp_right (Or.imp .inr .inr)

theorem collectConflictsWithin_checks (hcompare : compare.Complete own) {set : SelectionSetNode}
    {cached : FieldMap × List FragmentSpread} (hset : set ∈ documentSets context.document)
    (hcached : types.Represents V set cached) (hnone : V none) (hcache : types.CacheSound V s) :
    Checks own (collectConflictsWithin context compare cached.1)
      (fun s => ∀ field1 ∈ types.fields set, ∀ field2 ∈ types.fields set,
        SameResponseName field1 field2 → Related own s false field1 field2) s := by
  have hchecks := checks_flatMap own (l := cached.1.fields.items)
    (f := fun entry => .flatMap (fun pair => Option.toList <$>
      findConflict context compare false entry.1 pair.1 none pair.2 none) (pairs entry.2))
    (P := fun entry s => ∀ pair ∈ pairs entry.2,
      PairCompared types own s false (pair.1.plain context) (pair.2.plain context))
    (fun _ _ => .ball fun _ _ => grows_pairCompared _ _ _) ?_ s hcache
  · refine hchecks.mono fun s hpairs field1 hfield1 field2 hfield2 hname => ?_
    obtain ⟨field1, hnamed1, rfl⟩ := hcached.exists_named hfield1
    obtain ⟨field2, hnamed2, rfl⟩ := hcached.exists_named hfield2
    rw [← hname] at hnamed2
    have hitem := hpairs _ (mem_items_named hnamed1)
    rcases mem_pairs_of_mem hnamed1 hnamed2 with rfl | hpair | hpair
    · exact .inl rfl
    · exact .inr (.inl (hitem _ hpair))
    · exact .inr (.inr (hitem _ hpair))
  · rintro ⟨name, fields⟩ hitem s hcache
    obtain rfl := named_of_mem_items hitem
    refine checks_flatMap own (fun _ _ => grows_pairCompared _ _ _) (fun pair hpair s hcache => ?_)
      s hcache
    obtain ⟨hmem1, hmem2⟩ := Universe.mem_of_mem_pairs hpair
    exact findConflict_checks hcompare hset (hcached.mem_named hmem1).1 hnone hset
      (hcached.mem_named hmem2).1 hnone hcache

theorem compareFragmentSpreads_checks (hcompare : compare.Complete own) {set : SelectionSetNode}
    {cached : FieldMap × List FragmentSpread} (hset : set ∈ documentSets context.document)
    (hcached : types.Represents V set cached) : ∀ {spreads : List FragmentSpread},
    spreads ⊆ cached.2 → ∀ s, types.CacheSound V s →
    Checks own (compareFragmentSpreads compare cached.1 spreads)
      (fun s => (∀ spread ∈ spreads, HasFragment s set spread.key false) ∧
        ∀ spread1 ∈ spreads, ∀ spread2 ∈ spreads,
          HasFragments s spread1.key spread2.key false) s
  | [], _, s, hcache => checks_return hcache fun _ => ⟨fun _ h => (nomatch h), fun _ h => nomatch h⟩
  | spread :: rest, hsub, s, hcache => by
      rw [compareFragmentSpreads]
      have hspread (spread' : FragmentSpread) (hmem : spread' ∈ spread :: rest) :
          SpreadOf context V spread' := spreadOf_of_represents hset hcached (hsub hmem)
      have hrest := compareFragmentSpreads_checks hcompare hset hcached
        (fun _ hmem => hsub (List.mem_cons_of_mem _ hmem) : rest ⊆ cached.2)
      have hfragments (s : MergeState) (hcache : types.CacheSound V s) :
          Checks own (.flatMap (compare.betweenFragments false spread) rest)
            (fun s => ∀ spread' ∈ rest, HasFragments s spread.key spread'.key false) s :=
        checks_flatMap own (fun _ _ => grows_hasFragments _ _ _)
          (fun spread' hmem s hcache => hcompare.betweenFragments _ _ _
            (hspread spread List.mem_cons_self) (hspread spread' (List.mem_cons_of_mem _ hmem))
            s hcache) s hcache
      refine ((hcompare.betweenFieldsAndFragment _ _ _ _ hset hcached
        (hspread spread List.mem_cons_self) s hcache).append₃ (grows_hasFragment _ _ _) hfragments
        (.ball fun _ _ => grows_hasFragments _ _ _) hrest ?_).mono ?_
      · rintro s s' hgrows ⟨hset, hboth⟩
        exact ⟨Grows.ball (fun _ _ => grows_hasFragment _ _ _) s s' hgrows hset,
          Grows.ball (fun _ _ => .ball fun _ _ => grows_hasFragments _ _ _) s s' hgrows hboth⟩
      · rintro s ⟨hfirst, hothers, hset, hboth⟩
        refine ⟨List.forall_mem_cons.mpr ⟨hfirst, hset⟩, fun spread1 h1 spread2 h2 => ?_⟩
        rcases List.mem_cons.mp h1 with rfl | h1' <;> rcases List.mem_cons.mp h2 with rfl | h2'
        · exact .inl rfl
        · exact hothers spread2 h2'
        · exact (hothers spread1 h1').symm
        · exact hboth spread1 h1' spread2 h2'

theorem findConflictsWithinSelectionSet_checks (hcompare : compare.Complete own)
    (hnone : V none) {parentType : Option Text} {set : SelectionSetNode}
    (hplaced : types.Placed parentType set) (hcache : types.CacheSound V s) :
    Checks own (findConflictsWithinSelectionSet context compare parentType set)
      (fun s => SetsCompared own s false set set) s := by
  rw [findConflictsWithinSelectionSet]
  refine checks_getFieldsAndFragmentSpreads hcache hplaced hnone fun cached s hcached hcache => ?_
  refine ((collectConflictsWithin_checks hcompare hplaced.mem hcached hnone hcache).append ?_
    (compareFragmentSpreads_checks hcompare hplaced.mem hcached (List.Subset.refl _)) ?_).mono ?_
  · intro s s' hgrows h field1 h1 field2 h2 hname
    exact (h field1 h1 field2 h2 hname).mono hgrows
  · rintro s s' hgrows ⟨hset, hboth⟩
    exact ⟨Grows.ball (fun _ _ => grows_hasFragment _ _ _) s s' hgrows hset,
      Grows.ball (fun _ _ => .ball fun _ _ => grows_hasFragments _ _ _) s s' hgrows hboth⟩
  · rintro s ⟨hfields, hset, hboth⟩
    have hspreads : ∀ node ∈ allDirectSpreads set.selections,
        HasFragment s set (conflictKey context node) false := by
      intro node hnode
      obtain ⟨spread, hspread, hkey⟩ := hcached.found node hnode
      rw [← hkey]
      exact hset spread hspread
    refine ⟨hfields, hspreads, hspreads, fun node1 hnode1 node2 hnode2 => ?_⟩
    obtain ⟨spread1, hspread1, hkey1⟩ := hcached.found node1 hnode1
    obtain ⟨spread2, hspread2, hkey2⟩ := hcached.found node2 hnode2
    rw [← hkey1, ← hkey2]
    exact hboth spread1 hspread1 spread2 hspread2

end Checks

end GraphqlCore.Validation
