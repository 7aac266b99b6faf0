import GraphqlCore.Data.RefSet
import GraphqlCore.Data.Text
import Mathlib.Data.List.Pairwise

/-!
# Execution plans

The functions of `execution/incremental/build_execution_plan.py`.  Field details and
defer usages are references here, of which a plan reads the defer usage of the details
and the parent of that.
-/

namespace GraphqlCore.Incremental

variable {φ ι : Type}

/-- The references that are read: a defer usage has its parent when it is made, so
there is an end to the parents. -/
structure DeferUsages (φ ι : Type) where
  deferUsage : φ → Option ι
  parentDeferUsage : ι → Option ι
  depth : ι → ℕ
  depth_lt : ∀ usage parent, parentDeferUsage usage = some parent →
    depth parent < depth usage

/-! ## The filtered set -/

namespace DeferUsages

variable [DecidableEq ι] (usages : DeferUsages φ ι)

/-- The defer usages of the details, or nothing if some of them are not deferred. -/
def addDeferUsages : List φ → RefSet ι → Option (RefSet ι)
  | [], set => some set
  | fieldDetails :: rest, set =>
      match usages.deferUsage fieldDetails with
      | none => none
      | some deferUsage => addDeferUsages rest (set.add deferUsage)

/-- Follow the parents until one is in the set. -/
def hasParentIn (set : RefSet ι) (deferUsage : ι) : Bool :=
  match _h : usages.parentDeferUsage deferUsage with
  | none => false
  | some parent => if parent ∈ set then true else hasParentIn set parent
termination_by usages.depth deferUsage
decreasing_by exact usages.depth_lt _ _ _h

def discardNested (set : RefSet ι) (deferUsage : ι) : RefSet ι :=
  if usages.hasParentIn set deferUsage then set.discard deferUsage else set

/-- Get a filtered set of defer usages.  They are removed in place while a copy of the
set is iterated. -/
def getFilteredDeferUsageSet (fieldDetailsList : List φ) : RefSet ι :=
  match usages.addDeferUsages fieldDetailsList RefSet.empty with
  | none => RefSet.empty
  | some set => set.elems.foldl usages.discardNested set

/-! ## The plan -/

end DeferUsages

/-- A plan for executing fields. -/
structure ExecutionPlan (φ ι : Type) where
  groupedFieldSet : Dict Text (List φ) := Dict.empty
  newGroupedFieldSets : List (RefSet ι × Dict Text (List φ)) := []

namespace DeferUsages

variable [DecidableEq ι] (usages : DeferUsages φ ι)

/-- Add a field to the new grouped field set of an equal set of defer usages, or to one
that is added for it. -/
def addToNewGroupedFieldSets (filteredDeferUsageSet : RefSet ι) (responseKey : Text)
    (fieldDetailsList : List φ) :
    List (RefSet ι × Dict Text (List φ)) → List (RefSet ι × Dict Text (List φ))
  | [] => [(filteredDeferUsageSet, Dict.empty.set responseKey fieldDetailsList)]
  | (deferUsageSet, newGroupedFieldSet) :: rest =>
      if deferUsageSet.beq filteredDeferUsageSet then
        (deferUsageSet, newGroupedFieldSet.set responseKey fieldDetailsList) :: rest
      else
        (deferUsageSet, newGroupedFieldSet) ::
          addToNewGroupedFieldSets filteredDeferUsageSet responseKey fieldDetailsList rest

/-- The body of the loop over the original grouped field set. -/
def planField (parentDeferUsages : RefSet ι) (plan : ExecutionPlan φ ι)
    (entry : Text × List φ) : ExecutionPlan φ ι :=
  let filteredDeferUsageSet := usages.getFilteredDeferUsageSet entry.2
  if filteredDeferUsageSet.beq parentDeferUsages then
    ⟨plan.groupedFieldSet.set entry.1 entry.2, plan.newGroupedFieldSets⟩
  else
    ⟨plan.groupedFieldSet, addToNewGroupedFieldSets filteredDeferUsageSet entry.1 entry.2
      plan.newGroupedFieldSets⟩

/-- Build a plan for executing fields. -/
def buildExecutionPlan (originalGroupedFieldSet : Dict Text (List φ))
    (parentDeferUsages : Option (RefSet ι)) : ExecutionPlan φ ι :=
  originalGroupedFieldSet.items.foldl
    (usages.planField (parentDeferUsages.getD RefSet.empty)) {}

end DeferUsages

/-! ## What is left of a set of defer usages -/

section Filtered

variable [DecidableEq ι] {usages : DeferUsages φ ι}

theorem addDeferUsages_eq_none {fieldDetailsList : List φ} {set : RefSet ι} :
    usages.addDeferUsages fieldDetailsList set = none ↔
      ∃ fieldDetails ∈ fieldDetailsList, usages.deferUsage fieldDetails = none := by
  induction fieldDetailsList generalizing set with
  | nil => simp [DeferUsages.addDeferUsages]
  | cons fieldDetails rest ih =>
      rw [DeferUsages.addDeferUsages]
      cases h : usages.deferUsage fieldDetails with
      | none => simp [h]
      | some deferUsage =>
          simp only [ih, List.exists_mem_cons_iff, h]
          simp

theorem mem_addDeferUsages {fieldDetailsList : List φ} {set result : RefSet ι}
    (h : usages.addDeferUsages fieldDetailsList set = some result) (usage : ι) :
    usage ∈ result ↔ usage ∈ set ∨
      ∃ fieldDetails ∈ fieldDetailsList, usages.deferUsage fieldDetails = some usage := by
  induction fieldDetailsList generalizing set with
  | nil =>
      cases h
      simp
  | cons fieldDetails rest ih =>
      rw [DeferUsages.addDeferUsages] at h
      cases hdetails : usages.deferUsage fieldDetails with
      | none =>
          rw [hdetails] at h
          cases h
      | some deferUsage =>
          rw [hdetails] at h
          rw [ih h, RefSet.mem_add, List.exists_mem_cons_iff, hdetails, Option.some_inj,
            or_assoc, eq_comm]

theorem hasParentIn_iff {set : RefSet ι} {usage : ι} :
    usages.hasParentIn set usage ↔
      ∃ a, a ∈ set ∧ Ancestor usages.parentDeferUsage a usage := by
  fun_induction DeferUsages.hasParentIn usages set usage with
  | case1 usage hparent =>
      simp only [Bool.false_eq_true, false_iff, not_exists, not_and]
      intro a _ hanc
      obtain ⟨p, hp, _⟩ := ancestor_iff.mp hanc
      rw [hparent] at hp
      cases hp
  | case2 usage parent hparent hmem =>
      simp only [true_iff]
      exact ⟨parent, hmem, .parent hparent⟩
  | case3 usage parent hparent hmem ih =>
      rw [ih]
      refine exists_congr fun a => and_congr_right fun ha => ?_
      rw [ancestor_iff (g := usage)]
      constructor
      · exact fun hanc => ⟨parent, hparent, .inr hanc⟩
      · rintro ⟨p, hp, hanc⟩
        obtain rfl : parent = p := Option.some_inj.mp (hparent.symm.trans hp)
        rcases hanc with rfl | hanc
        · exact absurd ha hmem
        · exact hanc

/-- What the loop keeps, relative to the set that it iterates: only nodes below others
are gone, and no node that was visited has an ancestor in the set. -/
structure Reduced (usages : DeferUsages φ ι) (set rest : RefSet ι) (visited : List ι) :
    Prop where
  subset : ∀ usage ∈ rest, usage ∈ set
  topmost : ∀ usage, IsTopmost usages.parentDeferUsage (· ∈ set) usage → usage ∈ rest
  visited : ∀ usage ∈ visited, usage ∈ rest →
    IsTopmost usages.parentDeferUsage (· ∈ set) usage

theorem Reduced.discardNested {set rest : RefSet ι} {visited : List ι} {usage : ι}
    (h : Reduced usages set rest visited) (husage : usage ∈ set) :
    Reduced usages set (usages.discardNested rest usage) (visited ++ [usage]) := by
  have habove : usages.hasParentIn rest usage ↔
      ∃ a, a ∈ set ∧ Ancestor usages.parentDeferUsage a usage :=
    hasParentIn_iff.trans (exists_ancestor_iff usages.depth_lt h.subset h.topmost)
  unfold DeferUsages.discardNested
  split
  · rename_i hparent
    obtain ⟨a, ha, hanc⟩ := habove.mp hparent
    refine ⟨fun u hu => h.subset u (RefSet.mem_discard.mp hu).1, fun u hu => ?_, ?_⟩
    · refine RefSet.mem_discard.mpr ⟨h.topmost u hu, ?_⟩
      rintro rfl
      exact hu.no_ancestor a ha hanc
    · intro u hvisited hu
      obtain ⟨hrest, hne⟩ := RefSet.mem_discard.mp hu
      rcases List.mem_append.mp hvisited with hmem | hmem
      · exact h.visited u hmem hrest
      · exact absurd (List.mem_singleton.mp hmem) hne
  · rename_i hparent
    refine ⟨h.subset, h.topmost, ?_⟩
    intro u hvisited hu
    rcases List.mem_append.mp hvisited with hmem | hmem
    · exact h.visited u hmem hu
    · obtain rfl := List.mem_singleton.mp hmem
      exact ⟨husage, fun a ha hanc => hparent (habove.mpr ⟨a, ha, hanc⟩)⟩

theorem Reduced.foldl {set rest : RefSet ι} {visited pending : List ι}
    (h : Reduced usages set rest visited) (hpending : ∀ usage ∈ pending, usage ∈ set) :
    Reduced usages set (pending.foldl usages.discardNested rest) (visited ++ pending) := by
  induction pending generalizing rest visited with
  | nil => simpa using h
  | cons usage pending ih =>
      rw [List.forall_mem_cons] at hpending
      have hnext := ih (h.discardNested hpending.1) hpending.2
      rwa [List.append_assoc, List.singleton_append] at hnext

/-- What the loop leaves of a set are its topmost elements. -/
theorem mem_foldl_discardNested {set : RefSet ι} (usage : ι) :
    usage ∈ set.elems.foldl usages.discardNested set ↔
      IsTopmost usages.parentDeferUsage (· ∈ set) usage := by
  have hstart : Reduced usages set set [] :=
    ⟨fun _ hu => hu, fun _ hu => hu.mem, fun _ hu => absurd hu List.not_mem_nil⟩
  have hend := hstart.foldl fun _ hu => hu
  exact ⟨fun hu => hend.visited usage (hend.subset usage hu) hu, hend.topmost usage⟩

/-- A field that is also needed without deferral has no defer usages. -/
theorem getFilteredDeferUsageSet_immediate {fieldDetailsList : List φ}
    (h : ∃ fieldDetails ∈ fieldDetailsList, usages.deferUsage fieldDetails = none) :
    usages.getFilteredDeferUsageSet fieldDetailsList = RefSet.empty := by
  unfold DeferUsages.getFilteredDeferUsageSet
  rw [addDeferUsages_eq_none.mpr h]

theorem mem_getFilteredDeferUsageSet {fieldDetailsList : List φ}
    (h : ∀ fieldDetails ∈ fieldDetailsList, usages.deferUsage fieldDetails ≠ none)
    (usage : ι) :
    usage ∈ usages.getFilteredDeferUsageSet fieldDetailsList ↔
      IsTopmost usages.parentDeferUsage
        (fun usage => ∃ fieldDetails ∈ fieldDetailsList,
          usages.deferUsage fieldDetails = some usage) usage := by
  unfold DeferUsages.getFilteredDeferUsageSet
  cases hset : usages.addDeferUsages fieldDetailsList RefSet.empty with
  | none =>
      obtain ⟨fieldDetails, hmem, hnone⟩ := addDeferUsages_eq_none.mp hset
      exact absurd hnone (h fieldDetails hmem)
  | some set =>
      have hmem (u : ι) : u ∈ set ↔ ∃ fieldDetails ∈ fieldDetailsList,
          usages.deferUsage fieldDetails = some u := by
        simpa using mem_addDeferUsages hset u
      simp only [mem_foldl_discardNested, hmem]

end Filtered

/-! ## The places of the fields -/

namespace ExecutionPlan

/-- All grouped field sets of a plan. -/
def groupedFieldSets (plan : ExecutionPlan φ ι) : List (Dict Text (List φ)) :=
  plan.groupedFieldSet :: plan.newGroupedFieldSets.map Prod.snd

end ExecutionPlan

section Plan

variable [DecidableEq ι] {usages : DeferUsages φ ι}

theorem items_set_of_not_mem {fields : Dict Text (List φ)} {key : Text}
    {details : List φ} (h : key ∉ fields.keys) :
    (fields.set key details).items = fields.items ++ [(key, details)] :=
  Dict.store_eq_append h

/-- The entry of a new grouped field set that the field is added to. -/
theorem addToNewGroupedFieldSets_perm {filtered : RefSet ι} {key : Text}
    {details : List φ} {sets : List (RefSet ι × Dict Text (List φ))}
    (hkey : ∀ entry ∈ sets, key ∉ entry.2.keys) :
    ((DeferUsages.addToNewGroupedFieldSets filtered key details sets).flatMap
      fun entry => entry.2.items).Perm
      ((sets.flatMap fun entry => entry.2.items) ++ [(key, details)]) := by
  induction sets with
  | nil => simp [DeferUsages.addToNewGroupedFieldSets, Dict.set, Dict.empty, Dict.store]
  | cons entry rest ih =>
      obtain ⟨set, fields⟩ := entry
      rw [List.forall_mem_cons] at hkey
      rw [DeferUsages.addToNewGroupedFieldSets]
      split
      · simp only [List.flatMap_cons, items_set_of_not_mem hkey.1, List.append_assoc]
        exact List.Perm.append_left _ List.perm_append_comm
      · simp only [List.flatMap_cons, List.append_assoc]
        exact List.Perm.append_left _ (ih hkey.2)

/-- The entries afterwards: an entry as before, or one for an equal set with the field
added. -/
theorem mem_addToNewGroupedFieldSets {filtered : RefSet ι} {key : Text}
    {details : List φ} {sets : List (RefSet ι × Dict Text (List φ))}
    {entry : RefSet ι × Dict Text (List φ)}
    (h : entry ∈ DeferUsages.addToNewGroupedFieldSets filtered key details sets) :
    entry ∈ sets ∨ entry.1.beq filtered ∧
      ∃ fields, entry.2 = fields.set key details ∧
        (fields = Dict.empty ∨ (entry.1, fields) ∈ sets) := by
  induction sets with
  | nil =>
      obtain rfl := List.mem_singleton.mp h
      exact .inr ⟨RefSet.beq_iff.mpr fun _ => Iff.rfl, _, rfl, .inl rfl⟩
  | cons first rest ih =>
      obtain ⟨set, fields⟩ := first
      rw [DeferUsages.addToNewGroupedFieldSets] at h
      split at h
      · rename_i hset
        rcases List.mem_cons.mp h with rfl | hmem
        · exact .inr ⟨hset, fields, rfl, .inr List.mem_cons_self⟩
        · exact .inl (List.mem_cons_of_mem _ hmem)
      · rcases List.mem_cons.mp h with rfl | hmem
        · exact .inl List.mem_cons_self
        · rcases ih hmem with hmem | ⟨heq, old, hold, hfrom⟩
          · exact .inl (List.mem_cons_of_mem _ hmem)
          · exact .inr ⟨heq, old, hold, hfrom.imp_right (List.mem_cons_of_mem _)⟩

/-- The sets of the new grouped field sets stay different. -/
theorem pairwise_addToNewGroupedFieldSets {filtered : RefSet ι} {key : Text}
    {details : List φ} {sets : List (RefSet ι × Dict Text (List φ))}
    (h : sets.Pairwise fun a b => ¬ ∀ usage, usage ∈ a.1 ↔ usage ∈ b.1) :
    (DeferUsages.addToNewGroupedFieldSets filtered key details sets).Pairwise
      fun a b => ¬ ∀ usage, usage ∈ a.1 ↔ usage ∈ b.1 := by
  induction sets with
  | nil => exact List.pairwise_singleton _ _
  | cons first rest ih =>
      obtain ⟨set, fields⟩ := first
      rw [List.pairwise_cons] at h
      rw [DeferUsages.addToNewGroupedFieldSets]
      split
      · exact List.pairwise_cons.mpr h
      · rename_i hset
        refine List.pairwise_cons.mpr ⟨fun entry hentry => ?_, ih h.2⟩
        rcases mem_addToNewGroupedFieldSets hentry with hmem | ⟨heq, -⟩
        · exact h.1 entry hmem
        · intro hsame
          refine hset (RefSet.beq_iff.mpr fun usage => ?_)
          rw [hsame usage, RefSet.beq_iff.mp heq usage]

/-- What a plan for the fields up to here satisfies. -/
structure Plans (usages : DeferUsages φ ι) (parents : RefSet ι)
    (entries : List (Text × List φ)) (plan : ExecutionPlan φ ι) : Prop where
  perm : (plan.groupedFieldSets.flatMap Dict.items).Perm entries
  current : ∀ entry ∈ plan.groupedFieldSet.items, ∀ usage,
    usage ∈ usages.getFilteredDeferUsageSet entry.2 ↔ usage ∈ parents
  new : ∀ set ∈ plan.newGroupedFieldSets, ∀ entry ∈ set.2.items,
    (∀ usage, usage ∈ set.1 ↔ usage ∈ usages.getFilteredDeferUsageSet entry.2) ∧
    ¬ ∀ usage, usage ∈ usages.getFilteredDeferUsageSet entry.2 ↔ usage ∈ parents
  distinct : plan.newGroupedFieldSets.Pairwise
    fun a b => ¬ ∀ usage, usage ∈ a.1 ↔ usage ∈ b.1

/-- The fields of a plan are those that were planned. -/
theorem Plans.mem_iff {parents : RefSet ι} {entries : List (Text × List φ)}
    {plan : ExecutionPlan φ ι} (h : Plans usages parents entries plan)
    {entry : Text × List φ} :
    entry ∈ entries ↔ entry ∈ plan.groupedFieldSet.items ∨
      ∃ set ∈ plan.newGroupedFieldSets, entry ∈ set.2.items := by
  rw [← h.perm.mem_iff, ExecutionPlan.groupedFieldSets, List.flatMap_cons,
    List.mem_append, List.flatMap_map, List.mem_flatMap]

theorem Plans.planField {parents : RefSet ι} {entries : List (Text × List φ)}
    {plan : ExecutionPlan φ ι} {entry : Text × List φ}
    (h : Plans usages parents entries plan) (hkey : entry.1 ∉ entries.map Prod.fst) :
    Plans usages parents (entries ++ [entry]) (usages.planField parents plan entry) := by
  obtain ⟨key, details⟩ := entry
  have hcurrent : key ∉ plan.groupedFieldSet.keys := by
    intro hmem
    obtain ⟨other, hother, rfl⟩ := List.mem_map.mp hmem
    exact hkey (List.mem_map.mpr ⟨other, h.mem_iff.mpr (.inl hother), rfl⟩)
  have hnew : ∀ set ∈ plan.newGroupedFieldSets, key ∉ set.2.keys := by
    intro set hset hmem
    obtain ⟨other, hother, rfl⟩ := List.mem_map.mp hmem
    exact hkey (List.mem_map.mpr ⟨other, h.mem_iff.mpr (.inr ⟨set, hset, hother⟩), rfl⟩)
  have hperm := h.perm
  rw [ExecutionPlan.groupedFieldSets, List.flatMap_cons, List.flatMap_map] at hperm
  unfold DeferUsages.planField
  cases hsame : (usages.getFilteredDeferUsageSet details).beq parents with
  | true =>
      simp only [hsame, if_true]
      refine ⟨?_, ?_, h.new, h.distinct⟩
      · rw [ExecutionPlan.groupedFieldSets, List.flatMap_cons, List.flatMap_map,
          items_set_of_not_mem hcurrent, List.append_assoc]
        refine (List.Perm.append_left _ List.perm_append_comm).trans ?_
        rw [← List.append_assoc]
        exact hperm.append_right _
      · intro entry hentry
        rw [items_set_of_not_mem hcurrent] at hentry
        rcases List.mem_append.mp hentry with hmem | hmem
        · exact h.current entry hmem
        · obtain rfl := List.mem_singleton.mp hmem
          exact RefSet.beq_iff.mp hsame
  | false =>
      simp only [hsame, Bool.false_eq_true, if_false]
      refine ⟨?_, h.current, ?_, pairwise_addToNewGroupedFieldSets h.distinct⟩
      · rw [ExecutionPlan.groupedFieldSets, List.flatMap_cons, List.flatMap_map]
        refine (List.Perm.append_left _ (addToNewGroupedFieldSets_perm hnew)).trans ?_
        rw [← List.append_assoc]
        exact hperm.append_right _
      · intro set hset entry hentry
        have hother : ¬ ∀ usage,
            usage ∈ usages.getFilteredDeferUsageSet details ↔ usage ∈ parents := by
          rw [← RefSet.beq_iff, hsame]
          exact Bool.false_ne_true
        rcases mem_addToNewGroupedFieldSets hset with hmem | ⟨heq, fields, hfields, hfrom⟩
        · exact h.new set hmem entry hentry
        · have hfresh : key ∉ fields.keys := by
            rcases hfrom with rfl | hmem
            · exact List.not_mem_nil
            · exact hnew _ hmem
          rw [hfields, items_set_of_not_mem hfresh] at hentry
          rcases List.mem_append.mp hentry with hmem | hmem
          · rcases hfrom with rfl | hfrom
            · cases hmem
            · exact h.new _ hfrom entry hmem
          · obtain rfl := List.mem_singleton.mp hmem
            exact ⟨RefSet.beq_iff.mp heq, hother⟩

theorem Plans.foldl {parents : RefSet ι} {entries pending : List (Text × List φ)}
    {plan : ExecutionPlan φ ι} (h : Plans usages parents entries plan)
    (hkeys : ((entries ++ pending).map Prod.fst).Nodup) :
    Plans usages parents (entries ++ pending)
      (pending.foldl (usages.planField parents) plan) := by
  induction pending generalizing entries plan with
  | nil => simpa using h
  | cons entry pending ih =>
      have hkey : entry.1 ∉ entries.map Prod.fst := by
        rw [List.map_append, List.map_cons] at hkeys
        intro hmem
        exact (List.nodup_append.mp hkeys).2.2 _ hmem _ List.mem_cons_self rfl
      have hnext := ih (h.planField hkey) (by simpa using hkeys)
      simpa using hnext

/-- A plan satisfies the conditions for all the fields. -/
theorem plans_buildExecutionPlan (original : Dict Text (List φ))
    (parents : Option (RefSet ι)) :
    Plans usages (parents.getD RefSet.empty) original.items
      (usages.buildExecutionPlan original parents) := by
  have hstart : Plans usages (parents.getD RefSet.empty) [] {} :=
    ⟨.nil, fun _ h => absurd h List.not_mem_nil, fun _ h => absurd h List.not_mem_nil,
      .nil⟩
  exact hstart.foldl original.nodup_keys

variable {parents : RefSet ι} {original : Dict Text (List φ)} {plan : ExecutionPlan φ ι}
  {key key' : Text} {details details' : List φ}

/-- A field that is planned has its own details. -/
theorem Plans.eq_details (h : Plans usages parents original.items plan)
    (hget : original.get key = some details) {entry : Text × List φ}
    (hentry : entry ∈ plan.groupedFieldSet.items ∨
      ∃ set ∈ plan.newGroupedFieldSets, entry ∈ set.2.items) (hkey : entry.1 = key) :
    entry = (key, details) := by
  obtain ⟨_, other⟩ := entry
  obtain rfl : _ = key := hkey
  have hother := Dict.mem_items_iff.mp (h.mem_iff.mpr hentry)
  rw [hget] at hother
  rw [Option.some_inj.mp hother]

/-- The fields that stay are those with the defer usages of the parent. -/
theorem Plans.mem_current_iff (h : Plans usages parents original.items plan)
    (hget : original.get key = some details) :
    key ∈ plan.groupedFieldSet.keys ↔
      ∀ usage, usage ∈ usages.getFilteredDeferUsageSet details ↔ usage ∈ parents := by
  constructor
  · intro hmem
    obtain ⟨entry, hentry, hkey⟩ := List.mem_map.mp hmem
    obtain rfl := h.eq_details hget (.inl hentry) hkey
    exact h.current _ hentry
  · intro hsame
    rcases h.mem_iff.mp (Dict.mem_items_iff.mpr hget) with hcurrent | ⟨set, hset, hnew⟩
    · exact List.mem_map.mpr ⟨_, hcurrent, rfl⟩
    · exact absurd hsame (h.new set hset _ hnew).2

/-- The new grouped field set of a field that does not stay. -/
theorem Plans.exists_new (h : Plans usages parents original.items plan)
    (hget : original.get key = some details) (hkey : key ∉ plan.groupedFieldSet.keys) :
    ∃ set ∈ plan.newGroupedFieldSets, key ∈ set.2.keys ∧
      ∀ usage, usage ∈ set.1 ↔ usage ∈ usages.getFilteredDeferUsageSet details := by
  rcases h.mem_iff.mp (Dict.mem_items_iff.mpr hget) with hcurrent | ⟨set, hset, hnew⟩
  · exact absurd (List.mem_map.mpr ⟨_, hcurrent, rfl⟩) hkey
  · exact ⟨set, hset, List.mem_map.mpr ⟨_, hnew, rfl⟩, (h.new set hset _ hnew).1⟩

theorem Plans.mem_set_iff (h : Plans usages parents original.items plan)
    (hget : original.get key = some details) {set : RefSet ι × Dict Text (List φ)}
    (hset : set ∈ plan.newGroupedFieldSets) (hkey : key ∈ set.2.keys) (usage : ι) :
    usage ∈ set.1 ↔ usage ∈ usages.getFilteredDeferUsageSet details := by
  obtain ⟨entry, hentry, hkey⟩ := List.mem_map.mp hkey
  obtain rfl := h.eq_details hget (.inr ⟨set, hset, hentry⟩) hkey
  exact (h.new set hset _ hentry).1 usage

/-- Fields share a new grouped field set if they have the same defer usages. -/
theorem Plans.share_iff (h : Plans usages parents original.items plan)
    (hget : original.get key = some details) (hget' : original.get key' = some details')
    (hkey : key ∉ plan.groupedFieldSet.keys) :
    (∃ set ∈ plan.newGroupedFieldSets, key ∈ set.2.keys ∧ key' ∈ set.2.keys) ↔
      ∀ usage, usage ∈ usages.getFilteredDeferUsageSet details ↔
        usage ∈ usages.getFilteredDeferUsageSet details' := by
  constructor
  · rintro ⟨set, hset, hmem, hmem'⟩ usage
    rw [← h.mem_set_iff hget hset hmem, h.mem_set_iff hget' hset hmem']
  · intro hsame
    have hkey' : key' ∉ plan.groupedFieldSet.keys := by
      rw [h.mem_current_iff hget] at hkey
      rw [h.mem_current_iff hget']
      exact fun hparents => hkey fun usage => (hsame usage).trans (hparents usage)
    obtain ⟨set, hset, hmem, hfiltered⟩ := h.exists_new hget hkey
    obtain ⟨set', hset', hmem', hfiltered'⟩ := h.exists_new hget' hkey'
    have hsymm : Std.Symm fun a b : RefSet ι × Dict Text (List φ) =>
        ¬ ∀ usage, usage ∈ a.1 ↔ usage ∈ b.1 :=
      ⟨fun _ _ hne hsame => hne fun usage => (hsame usage).symm⟩
    have heq : set = set' := by
      by_contra hne
      refine h.distinct.forall hset hset' hne fun usage => ?_
      rw [hfiltered, hsame, hfiltered']
    exact ⟨set, hset, hmem, heq ▸ hmem'⟩

end Plan

/-! ## Main result -/

/-- Execution plans partition the fields.  A field stays in the current grouped field
set if its filtered defer usages are those of the parent, and it shares a new grouped
field set with the fields of the same filtered defer usages.  These are topmost among
the defer usages of the field and cover them. -/
theorem executionPlan_partitions [DecidableEq ι] (usages : DeferUsages φ ι)
    (original : Dict Text (List φ)) (parents : Option (RefSet ι)) :
    let plan := usages.buildExecutionPlan original parents
    let filtered := usages.getFilteredDeferUsageSet
    (plan.groupedFieldSets.flatMap Dict.items).Perm original.items ∧
    (∀ key details, original.get key = some details →
      (key ∈ plan.groupedFieldSet.keys ↔
        ∀ usage, usage ∈ filtered details ↔ usage ∈ parents.getD RefSet.empty)) ∧
    (∀ key key' details details', original.get key = some details →
      original.get key' = some details' → key ∉ plan.groupedFieldSet.keys →
      ((∃ set ∈ plan.newGroupedFieldSets, key ∈ set.2.keys ∧ key' ∈ set.2.keys) ↔
        ∀ usage, usage ∈ filtered details ↔ usage ∈ filtered details')) ∧
    (∀ details, (∃ d ∈ details, usages.deferUsage d = none) →
      ∀ usage, usage ∉ filtered details) ∧
    ∀ details, (∀ d ∈ details, usages.deferUsage d ≠ none) →
      (∀ usage ∈ filtered details, ∃ d ∈ details, usages.deferUsage d = some usage) ∧
      (∀ a ∈ filtered details, ∀ usage ∈ filtered details,
        ¬ Ancestor usages.parentDeferUsage a usage) ∧
      ∀ d ∈ details, ∀ usage, usages.deferUsage d = some usage →
        ∃ a ∈ filtered details, a = usage ∨ Ancestor usages.parentDeferUsage a usage := by
  intro plan filtered
  have hplan : Plans usages (parents.getD RefSet.empty) original.items plan :=
    plans_buildExecutionPlan original parents
  refine ⟨hplan.perm, fun _ _ => hplan.mem_current_iff, fun _ _ _ _ => hplan.share_iff,
    ?_, ?_⟩
  · intro details himmediate usage
    have hempty : filtered details = RefSet.empty :=
      getFilteredDeferUsageSet_immediate himmediate
    rw [hempty]
    exact RefSet.not_mem_empty
  · intro details hdeferred
    have hmem (usage : ι) := mem_getFilteredDeferUsageSet hdeferred usage
    refine ⟨fun usage husage => ((hmem usage).mp husage).mem, ?_, ?_⟩
    · intro a ha usage husage
      exact ((hmem usage).mp husage).no_ancestor a ((hmem a).mp ha).mem
    · intro d hd usage husage
      obtain ⟨a, ha, habove⟩ := exists_isTopmost usages.depth_lt
        (s := fun usage => ∃ d ∈ details, usages.deferUsage d = some usage)
        ⟨d, hd, husage⟩
      exact ⟨a, (hmem a).mpr ha, habove⟩

end GraphqlCore.Incremental
