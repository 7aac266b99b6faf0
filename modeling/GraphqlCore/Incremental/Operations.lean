import GraphqlCore.Incremental.WorkQueue
import Mathlib.Algebra.Order.Ring.Int
import Mathlib.Data.List.Count

/-!
# What the operations of the work queue do

Every operation is described by its effect on the parts of the queue that the
invariants talk about: the child groups, the tasks and the pending count of
each group, the task nodes, and the root groups and streams.  Later modules
use these equations and never unfold the operations.
-/

set_option linter.unusedSectionVars false

namespace GraphqlCore.Incremental

variable {G T S V I E : Type} [DecidableEq G] [DecidableEq T]

/-- The node without the tasks in `gone`. -/
def GroupNode.without (n : GroupNode G T) (gone : T → Prop)
    [DecidablePred gone] : GroupNode G T :=
  { n with tasks := n.tasks.filter fun t => ¬gone t }

theorem GroupNode.without_eq_self {n : GroupNode G T} {gone : T → Prop}
    [DecidablePred gone] (h : ∀ t ∈ n.tasks, ¬gone t) : n.without gone = n := by
  have hall : n.tasks.filter (fun t => ¬gone t) = n.tasks := by
    rw [List.filter_eq_self]
    intro t ht
    simpa using h t ht
  simp only [GroupNode.without, hall]

namespace WorkQueue

/-- The child groups of a group with a node. -/
def kids (q : WorkQueue G T S V) (group : G) : Option (List G) :=
  (q.node group).map GroupNode.childGroups

/-- The tasks of a group with a node. -/
def members (q : WorkQueue G T S V) (group : G) : Option (List T) :=
  (q.node group).map GroupNode.tasks

def pendingCount (q : WorkQueue G T S V) (group : G) : Option ℤ :=
  (q.node group).map GroupNode.pending

theorem alive_iff_kids {q : WorkQueue G T S V} {group : G} :
    q.Alive group ↔ ∃ children, q.kids group = some children := by
  simp [Alive, kids, Option.isSome_iff_exists]

theorem alive_iff_node {q : WorkQueue G T S V} {group : G} :
    q.Alive group ↔ ∃ groupNode, q.node group = some groupNode := by
  simp [Alive, Option.isSome_iff_exists]

theorem not_alive_iff {q : WorkQueue G T S V} {group : G} :
    ¬q.Alive group ↔ q.node group = none := by
  simp [Alive]

theorem kids_eq_none_iff {q : WorkQueue G T S V} {group : G} :
    q.kids group = none ↔ ¬q.Alive group := by
  simp [Alive, kids]

/-! ## Changing one node -/

theorem modifyNode_node (q : WorkQueue G T S V) (group g : G)
    (f : GroupNode G T → GroupNode G T) :
    (q.modifyNode group f).node g =
      if g = group then (q.node g).map f else q.node g :=
  Dict.get_modify q.groupNodes group g f

@[simp] theorem modifyNode_taskNode (q : WorkQueue G T S V) (group : G)
    (f : GroupNode G T → GroupNode G T) :
    (q.modifyNode group f).taskNode = q.taskNode := rfl

@[simp] theorem modifyNode_rootGroups (q : WorkQueue G T S V) (group : G)
    (f : GroupNode G T → GroupNode G T) :
    (q.modifyNode group f).rootGroups = q.rootGroups := rfl

/-! ## Starting tasks -/

/-- The two queues differ in their task nodes and running tasks only. -/
structure SameGraph (q q' : WorkQueue G T S V) : Prop where
  node : q'.node = q.node
  rootGroups : q'.rootGroups = q.rootGroups
  rootStreams : q'.rootStreams = q.rootStreams
  stopped : q'.stopped = q.stopped
  pumpTasks : q'.pumpTasks = q.pumpTasks

namespace SameGraph

theorem refl (q : WorkQueue G T S V) : SameGraph q q :=
  ⟨rfl, rfl, rfl, rfl, rfl⟩

theorem trans {q₁ q₂ q₃ : WorkQueue G T S V} (h : SameGraph q₁ q₂)
    (h' : SameGraph q₂ q₃) : SameGraph q₁ q₃ :=
  ⟨h'.node.trans h.node, h'.rootGroups.trans h.rootGroups,
    h'.rootStreams.trans h.rootStreams, h'.stopped.trans h.stopped,
    h'.pumpTasks.trans h.pumpTasks⟩

end SameGraph

theorem startTask_sameGraph (q : WorkQueue G T S V) (task : T) :
    SameGraph q (q.startTask task) := by
  unfold startTask
  split
  · exact .refl q
  · exact ⟨rfl, rfl, rfl, rfl, rfl⟩

theorem startTask_taskNode (q : WorkQueue G T S V) (task t : T) :
    (q.startTask task).taskNode t =
      if t = task ∧ q.taskNode t = none then some {} else q.taskNode t := by
  unfold startTask
  split
  · next m hm =>
    by_cases ht : t = task
    · subst ht
      simp [hm]
    · simp [ht]
  · next hm =>
    by_cases ht : t = task
    · subst ht
      simp [taskNode] at hm ⊢
      simp [hm]
    · simp [taskNode, Dict.get_set, ht]

theorem startTask_runningTasks (q : WorkQueue G T S V) (task : T) :
    (q.startTask task).runningTasks =
      if q.taskNode task = none then q.runningTasks ++ [task]
      else q.runningTasks := by
  unfold startTask
  split
  · next h => simp [h]
  · next h => simp [h]

theorem foldl_startTask_sameGraph (q : WorkQueue G T S V) (tasks : List T) :
    SameGraph q (tasks.foldl startTask q) := by
  induction tasks generalizing q with
  | nil => exact .refl q
  | cons task rest ih => exact (startTask_sameGraph q task).trans (ih _)

theorem foldl_startTask_taskNode (q : WorkQueue G T S V) (tasks : List T)
    (t : T) :
    (tasks.foldl startTask q).taskNode t =
      if t ∈ tasks ∧ q.taskNode t = none then some {} else q.taskNode t := by
  induction tasks generalizing q with
  | nil => simp
  | cons task rest ih =>
      rw [List.foldl_cons, ih, startTask_taskNode]
      by_cases hnone : q.taskNode t = none
      · by_cases ht : t = task
        · subst ht
          simp [hnone]
        · simp [ht, hnone]
      · simp [hnone]

theorem mem_foldl_startTask_runningTasks (q : WorkQueue G T S V)
    (tasks : List T) (t : T) :
    t ∈ (tasks.foldl startTask q).runningTasks ↔
      t ∈ q.runningTasks ∨ (t ∈ tasks ∧ q.taskNode t = none) := by
  induction tasks generalizing q with
  | nil => simp
  | cons task rest ih =>
      rw [List.foldl_cons, ih, startTask_taskNode, startTask_runningTasks]
      by_cases hnone : q.taskNode task = none
      · by_cases ht : t = task
        · subst ht
          simp [hnone]
        · simp [hnone, ht]
      · by_cases ht : t = task
        · subst ht
          simp [hnone]
        · simp [hnone, ht]

theorem nodup_foldl_startTask_runningTasks {q : WorkQueue G T S V}
    {tasks : List T} (h : q.runningTasks.Nodup)
    (hidle : ∀ t ∈ tasks, q.taskNode t = none → t ∉ q.runningTasks) :
    (tasks.foldl startTask q).runningTasks.Nodup := by
  induction tasks generalizing q with
  | nil => exact h
  | cons task rest ih =>
      refine ih ?_ ?_
      · rw [startTask_runningTasks]
        split
        · next hnone =>
          have htask := hidle task List.mem_cons_self hnone
          rw [List.nodup_append]
          refine ⟨h, List.nodup_singleton task, ?_⟩
          rintro t ht t' ht' rfl
          exact htask (List.mem_singleton.mp ht' ▸ ht)
        · exact h
      · intro t ht hnone hmem
        rw [startTask_taskNode] at hnone
        split at hnone
        · simp at hnone
        · next hne =>
          rw [startTask_runningTasks] at hmem
          have hold := hidle t (List.mem_cons_of_mem _ ht) hnone
          split at hmem
          · rcases List.mem_append.mp hmem with hmem | hmem
            · exact hold hmem
            · exact hne ⟨List.mem_singleton.mp hmem, hnone⟩
          · exact hold hmem

theorem startGroup_eq (q : WorkQueue G T S V) (group : G) :
    q.startGroup group = ((q.members group).getD []).foldl startTask q := by
  unfold startGroup members
  cases q.node group <;> rfl

/-! ## Adding and removing tasks -/

theorem foldl_modifyNode_node (q : WorkQueue G T S V) (groups : List G)
    (f : GroupNode G T → GroupNode G T) (g : G) :
    (groups.foldl (fun q group => q.modifyNode group f) q).node g =
      (q.node g).map (f^[groups.count g]) := by
  induction groups generalizing q with
  | nil => simp
  | cons group rest ih =>
      rw [List.foldl_cons, ih, modifyNode_node]
      by_cases hg : g = group
      · subst hg
        simp [Function.iterate_succ]
      · simp [hg, List.count_cons_of_ne (Ne.symm hg)]

/-- Removing a task changes nothing but its node and its memberships. -/
theorem removeTask_node (W : WorkGraph G T) (q : WorkQueue G T S V) (task : T)
    (g : G) :
    (removeTask W q task).node g = (q.node g).map
      (GroupNode.without · fun t => t = task ∧ g ∈ W.groups t) := by
  have hiter : ∀ k, 0 < k → (fun n : GroupNode G T =>
      { n with tasks := OrderedSet.remove n.tasks task })^[k] =
        fun n => { n with tasks := OrderedSet.remove n.tasks task } := by
    intro k hk
    induction k with
    | zero => omega
    | succ k ih =>
        rcases Nat.eq_zero_or_pos k with rfl | hpos
        · rfl
        · rw [Function.iterate_succ, ih hpos]
          funext n
          simp [OrderedSet.remove, List.filter_filter]
  refine (foldl_modifyNode_node q (W.groups task) _ g).trans ?_
  cases q.node g with
  | none => rfl
  | some n =>
      rw [Option.map_some, Option.map_some]
      congr 1
      by_cases hg : g ∈ W.groups task
      · rw [hiter _ (List.count_pos_iff.mpr hg)]
        simp only [GroupNode.without, OrderedSet.remove]
        congr 1
        apply List.filter_congr
        intro t _
        by_cases ht : t = task
        · simp [ht, hg]
        · simp [ht]
      · rw [List.count_eq_zero_of_not_mem hg]
        refine (GroupNode.without_eq_self ?_).symm
        rintro t - ⟨rfl, h⟩
        exact hg h

/-- The two queues differ in their groups and task nodes only. -/
structure SameFrame (q q' : WorkQueue G T S V) : Prop where
  rootGroups : q'.rootGroups = q.rootGroups
  rootStreams : q'.rootStreams = q.rootStreams
  stopped : q'.stopped = q.stopped
  runningTasks : q'.runningTasks = q.runningTasks
  pumpTasks : q'.pumpTasks = q.pumpTasks

namespace SameFrame

theorem refl (q : WorkQueue G T S V) : SameFrame q q :=
  ⟨rfl, rfl, rfl, rfl, rfl⟩

theorem trans {q₁ q₂ q₃ : WorkQueue G T S V} (h : SameFrame q₁ q₂)
    (h' : SameFrame q₂ q₃) : SameFrame q₁ q₃ :=
  ⟨h'.rootGroups.trans h.rootGroups, h'.rootStreams.trans h.rootStreams,
    h'.stopped.trans h.stopped, h'.runningTasks.trans h.runningTasks,
    h'.pumpTasks.trans h.pumpTasks⟩

end SameFrame

theorem foldl_modifyNode_sameFrame (q : WorkQueue G T S V) (groups : List G)
    (f : GroupNode G T → GroupNode G T) :
    SameFrame q (groups.foldl (fun q group => q.modifyNode group f) q) := by
  induction groups generalizing q with
  | nil => exact .refl q
  | cons group rest ih =>
      have h := ih (q.modifyNode group f)
      exact ⟨h.rootGroups, h.rootStreams, h.stopped, h.runningTasks,
        h.pumpTasks⟩

theorem foldl_modifyNode_taskNodes (q : WorkQueue G T S V) (groups : List G)
    (f : GroupNode G T → GroupNode G T) :
    (groups.foldl (fun q group => q.modifyNode group f) q).taskNodes =
      q.taskNodes := by
  induction groups generalizing q with
  | nil => rfl
  | cons group rest ih => exact ih _

theorem removeTask_sameFrame (W : WorkGraph G T) (q : WorkQueue G T S V)
    (task : T) : SameFrame q (removeTask W q task) :=
  have h := foldl_modifyNode_sameFrame q (W.groups task) (fun n =>
    { n with tasks := OrderedSet.remove n.tasks task })
  ⟨h.rootGroups, h.rootStreams, h.stopped, h.runningTasks, h.pumpTasks⟩

theorem removeTask_taskNode (W : WorkGraph G T) (q : WorkQueue G T S V)
    (task t : T) :
    (removeTask W q task).taskNode t =
      if t = task then none else q.taskNode t := by
  have h := foldl_modifyNode_taskNodes q (W.groups task) (fun n =>
    { n with tasks := OrderedSet.remove n.tasks task })
  simp only [removeTask, taskNode, h, Dict.get_pop]

/-- A task whose groups are all gone is only dropped from the task nodes. -/
theorem removeOrphanedTask_node (W : WorkGraph G T) (q : WorkQueue G T S V)
    (task : T) : (removeOrphanedTask W q task).node = q.node := by
  unfold removeOrphanedTask
  split
  · next hdead =>
    funext g
    rw [removeTask_node]
    cases hnode : q.node g with
    | none => rfl
    | some n =>
        rw [Option.map_some, GroupNode.without_eq_self]
        rintro t - ⟨rfl, hg⟩
        exact hdead g hg (alive_iff_node.mpr ⟨n, hnode⟩)
  · rfl

theorem removeOrphanedTask_sameFrame (W : WorkGraph G T)
    (q : WorkQueue G T S V) (task : T) :
    SameFrame q (removeOrphanedTask W q task) := by
  unfold removeOrphanedTask
  split
  · exact removeTask_sameFrame W q task
  · exact .refl q

/-- Task nodes only disappear, and only those of tasks without live groups. -/
def DropsOrphans (W : WorkGraph G T) (q q' : WorkQueue G T S V) : Prop :=
  ∀ t, q'.taskNode t = q.taskNode t ∨
    (q'.taskNode t = none ∧ ∀ g ∈ W.groups t, ¬q'.Alive g)

theorem removeOrphanedTask_drops (W : WorkGraph G T) (q : WorkQueue G T S V)
    (task : T) : DropsOrphans W q (removeOrphanedTask W q task) := by
  intro t
  have hnode := removeOrphanedTask_node W q task
  by_cases hdead : ∀ g ∈ W.groups task, ¬q.Alive g
  · by_cases ht : t = task
    · subst ht
      refine Or.inr ⟨?_, ?_⟩
      · rw [removeOrphanedTask, if_pos hdead, removeTask_taskNode, if_pos rfl]
      · intro g hg
        rw [not_alive_iff, hnode]
        exact not_alive_iff.mp (hdead g hg)
    · left
      rw [removeOrphanedTask, if_pos hdead, removeTask_taskNode, if_neg ht]
  · left
    rw [removeOrphanedTask, if_neg hdead]

theorem foldl_removeOrphanedTask (W : WorkGraph G T) (q : WorkQueue G T S V)
    (tasks : List T) :
    (tasks.foldl (removeOrphanedTask W) q).node = q.node ∧
      SameFrame q (tasks.foldl (removeOrphanedTask W) q) ∧
      DropsOrphans W q (tasks.foldl (removeOrphanedTask W) q) := by
  induction tasks generalizing q with
  | nil => exact ⟨rfl, .refl q, fun t => Or.inl rfl⟩
  | cons task rest ih =>
      obtain ⟨hnode, hframe, hdrops⟩ := ih (removeOrphanedTask W q task)
      rw [List.foldl_cons]
      refine ⟨hnode.trans (removeOrphanedTask_node W q task),
        (removeOrphanedTask_sameFrame W q task).trans hframe, ?_⟩
      intro t
      rcases hdrops t with ht | ht
      · rcases removeOrphanedTask_drops W q task t with h | ⟨h, hdead⟩
        · exact Or.inl (ht.trans h)
        · refine Or.inr ⟨ht.trans h, fun g hg => ?_⟩
          rw [not_alive_iff, hnode]
          exact not_alive_iff.mp (hdead g hg)
      · exact Or.inr ht

/-! ## Removing groups -/

/-- The groups that can be reached from `start` through child groups. -/
inductive Below (kids : G → Option (List G)) (start : List G) : G → Prop
  | start {g : G} (h : g ∈ start) : Below kids start g
  | kid {p c : G} {children : List G} (hp : Below kids start p)
      (hkids : kids p = some children) (hc : c ∈ children) :
      Below kids start c

theorem Below.mono {kids : G → Option (List G)} {start start' : List G} {g : G}
    (h : Below kids start g) (hsub : ∀ x ∈ start, x ∈ start') :
    Below kids start' g := by
  induction h with
  | start hmem => exact .start (hsub _ hmem)
  | kid _ hkids hc ih => exact .kid ih hkids hc

/-- Removing `start` deletes the nodes of exactly the groups in `gone`. -/
structure Removes (W : WorkGraph G T) (q q' : WorkQueue G T S V)
    (start : List G) (gone : Set G) : Prop where
  frame : SameFrame q q'
  drops : DropsOrphans W q q'
  node_gone : ∀ g ∈ gone, q'.node g = none
  node_kept : ∀ g ∉ gone, q'.node g = q.node g
  alive : ∀ g ∈ gone, q.Alive g
  below : ∀ g ∈ gone, Below q.kids start g
  start_gone : ∀ g ∈ start, q.Alive g → g ∈ gone
  kids_gone : ∀ g ∈ gone, ∀ children, q.kids g = some children →
    ∀ c ∈ children, q.Alive c → c ∈ gone

theorem Removes.alive_iff {W : WorkGraph G T} {q q' : WorkQueue G T S V}
    {start : List G} {gone : Set G} (h : Removes W q q' start gone) {g : G} :
    q'.Alive g ↔ q.Alive g ∧ g ∉ gone := by
  by_cases hg : g ∈ gone
  · simp [Alive, h.node_gone g hg, hg]
  · simp [Alive, h.node_kept g hg, hg]

/-- Visiting one group of the list: it is deleted and its children are
visited before the rest. -/
theorem Removes.visit {W : WorkGraph G T} {q q₁ q₂ q' : WorkQueue G T S V}
    {group : G} {rest : List G} {groupNode : GroupNode G T} {gone : Set G}
    (hnode : q.node group = some groupNode)
    (hq₁ : q₁ = { q with groupNodes := q.groupNodes.pop group })
    (hq₂ : q₂.node = q₁.node) (hframe : SameFrame q₁ q₂)
    (hdrops : DropsOrphans W q₁ q₂)
    (h : Removes W q₂ q' (groupNode.childGroups ++ rest) gone) :
    Removes W q q' (group :: rest) (insert group gone) := by
  have hnode₂ : ∀ g, q₂.node g = if g = group then none else q.node g := by
    intro g
    rw [hq₂, hq₁]
    exact Dict.get_pop q.groupNodes group g
  have hkids₂ : ∀ g, q₂.kids g = if g = group then none else q.kids g := by
    intro g
    simp only [kids, hnode₂]
    split <;> rfl
  have halive₂ : ∀ g, q₂.Alive g ↔ q.Alive g ∧ g ≠ group := by
    intro g
    by_cases hg : g = group <;> simp [Alive, hnode₂, hg]
  have hne : ∀ g ∈ gone, g ≠ group := fun g hg =>
    ((halive₂ g).mp (h.alive g hg)).2
  have halive : q.Alive group := alive_iff_node.mpr ⟨groupNode, hnode⟩
  have hkids : q.kids group = some groupNode.childGroups := by
    simp [kids, hnode]
  refine ⟨?_, ?_, ?_, ?_, ?_, ?_, ?_, ?_⟩
  · have hpop : SameFrame q q₁ := hq₁ ▸ ⟨rfl, rfl, rfl, rfl, rfl⟩
    exact (hpop.trans hframe).trans h.frame
  · intro t
    have hstart : q₁.taskNode t = q.taskNode t := by rw [hq₁]; rfl
    rcases h.drops t with ht | ht
    · rcases hdrops t with h₂ | ⟨h₂, hdead⟩
      · exact Or.inl (ht.trans (h₂.trans hstart))
      · exact Or.inr ⟨ht.trans h₂, fun g hg hlive =>
          hdead g hg (h.alive_iff.mp hlive).1⟩
    · exact Or.inr ht
  · rintro g (rfl | hg)
    · by_contra hlive
      obtain ⟨n, hn⟩ := Option.ne_none_iff_exists'.mp hlive
      have hlive' := (h.alive_iff.mp (alive_iff_node.mpr ⟨n, hn⟩)).1
      exact ((halive₂ g).mp hlive').2 rfl
    · exact h.node_gone g hg
  · intro g hg
    rw [Set.mem_insert_iff, not_or] at hg
    rw [h.node_kept g hg.2, hnode₂, if_neg hg.1]
  · rintro g (rfl | hg)
    · exact halive
    · exact ((halive₂ g).mp (h.alive g hg)).1
  · have hlift : ∀ g, Below q₂.kids (groupNode.childGroups ++ rest) g →
        Below q.kids (group :: rest) g := by
      intro g hg
      induction hg with
      | start hmem =>
          rcases List.mem_append.mp hmem with hmem | hmem
          · exact .kid (.start List.mem_cons_self) hkids hmem
          · exact .start (List.mem_cons_of_mem _ hmem)
      | kid _ hk hc ih =>
          rw [hkids₂] at hk
          split at hk
          · simp at hk
          · exact .kid ih hk hc
    rintro g (rfl | hg)
    · exact .start List.mem_cons_self
    · exact hlift g (h.below g hg)
  · intro g hg hlive
    rcases List.mem_cons.mp hg with rfl | hg
    · exact Set.mem_insert g gone
    · by_cases hgroup : g = group
      · exact Or.inl hgroup
      · exact Or.inr (h.start_gone g (List.mem_append_right _ hg)
          ((halive₂ g).mpr ⟨hlive, hgroup⟩))
  · rintro g (rfl | hg) children hchildren c hc hlive
    · by_cases hcg : c = g
      · exact Or.inl hcg
      · rw [hkids] at hchildren
        obtain rfl := Option.some.inj hchildren
        exact Or.inr (h.start_gone c (List.mem_append_left _ hc)
          ((halive₂ c).mpr ⟨hlive, hcg⟩))
    · by_cases hcg : c = group
      · exact Or.inl hcg
      · refine Or.inr (h.kids_gone g hg children ?_ c hc
          ((halive₂ c).mpr ⟨hlive, hcg⟩))
        rw [hkids₂, if_neg (hne g hg), hchildren]

theorem removeGroup_removes (W : WorkGraph G T) (q : WorkQueue G T S V)
    (start : List G) :
    ∃ gone, Removes W q (removeGroup W q start) start gone := by
  induction q, start using removeGroup.induct W with
  | case1 q =>
      rw [removeGroup]
      exact ⟨∅, .refl q, fun t => Or.inl rfl, by simp, by simp, by simp,
        by simp, by simp, by simp⟩
  | case2 q group rest hnode ih =>
      obtain ⟨gone, h⟩ := ih
      rw [removeGroup]
      split
      · refine ⟨gone, h.frame, h.drops, h.node_gone, h.node_kept, h.alive,
          ?_, ?_, h.kids_gone⟩
        · intro g hg
          have hbelow := h.below g hg
          exact hbelow.mono fun _ => List.mem_cons_of_mem _
        · intro g hg hlive
          rcases List.mem_cons.mp hg with rfl | hg
          · exact absurd hlive (not_alive_iff.mpr hnode)
          · exact h.start_gone g hg hlive
      · next n hn =>
        rw [hnode] at hn
        simp at hn
  | case3 q group rest groupNode hnode q₁ ih =>
      obtain ⟨gone, h⟩ := ih
      rw [removeGroup]
      split
      · next hn =>
        rw [hnode] at hn
        simp at hn
      · next n hn =>
        obtain rfl := Option.some.inj (hn.symm.trans hnode)
        obtain ⟨hsame, hframe, hdrops⟩ :=
          foldl_removeOrphanedTask W q₁ n.tasks
        exact ⟨_, Removes.visit hnode rfl hsame hframe hdrops h⟩

/-! ## Pruning groups -/

/-- The run rule of pruning: a property of the nodes, the groups still to visit
and the groups found so far that each visit preserves holds at the end. -/
theorem pruneEmptyGroups_run (nodes : Dict G (GroupNode G T))
    (start out : List G)
    {I : Dict G (GroupNode G T) → List G → List G → Prop}
    (skip : ∀ nodes group rest out, I nodes (group :: rest) out →
      nodes.get group = none → I nodes rest out)
    (keep : ∀ nodes group n rest out, I nodes (group :: rest) out →
      nodes.get group = some n → n.pending ≠ 0 →
      I nodes rest (out ++ [group]))
    (prune : ∀ nodes group n rest out, I nodes (group :: rest) out →
      nodes.get group = some n → n.pending = 0 →
      I (nodes.pop group) (n.childGroups ++ rest) out)
    (h : I nodes start out) :
    I (pruneEmptyGroups nodes start).1 []
      (out ++ (pruneEmptyGroups nodes start).2) := by
  induction nodes, start using pruneEmptyGroups.induct generalizing out with
  | case1 nodes =>
      rw [pruneEmptyGroups]
      simpa using h
  | case2 nodes group rest hnone ih =>
      rw [pruneEmptyGroups]
      split
      · exact ih _ (skip _ _ _ _ h hnone)
      · next n hn => simp [hnone] at hn
  | case3 nodes group rest n hn hpending nodes' newGroups hrec ih =>
      rw [pruneEmptyGroups]
      split
      · next hnone => simp [hnone] at hn
      · next m hm =>
        obtain rfl := Option.some.inj (hm.symm.trans hn)
        have hkept := ih _ (keep _ _ _ _ _ h hn hpending)
        rw [hrec] at hkept
        simpa [hpending, hrec] using hkept
  | case4 nodes group rest n hn hpending ih =>
      rw [pruneEmptyGroups]
      split
      · next hnone => simp [hnone] at hn
      · next m hm =>
        obtain rfl := Option.some.inj (hm.symm.trans hn)
        rw [if_neg hpending]
        exact ih _ (prune _ _ _ _ _ h hn (not_not.mp hpending))

/-- The groups that pruning deletes when it visits `start`. -/
inductive Prunable (kids : G → Option (List G)) (pending : G → Option ℤ)
    (start : List G) : G → Prop
  | start {g : G} (h : g ∈ start) (hpending : pending g = some 0) :
      Prunable kids pending start g
  | kid {p c : G} {children : List G} (hp : Prunable kids pending start p)
      (hkids : kids p = some children) (hc : c ∈ children)
      (hpending : pending c = some 0) : Prunable kids pending start c

/-- The state of pruning with `todo` left to visit: the nodes in `gone` have
been deleted and the groups `out` found. -/
structure Pruning (nodes nodes' : Dict G (GroupNode G T))
    (start todo out : List G) (gone : Set G) : Prop where
  get_gone : ∀ g ∈ gone, nodes'.get g = none
  get_kept : ∀ g ∉ gone, nodes'.get g = nodes.get g
  prunable : ∀ g ∈ gone,
    Prunable (fun g => (nodes.get g).map GroupNode.childGroups)
      (fun g => (nodes.get g).map GroupNode.pending) start g
  out_pending : ∀ g ∈ out, ∃ n, nodes.get g = some n ∧ n.pending ≠ 0
  reached : ∀ g, g ∈ todo ∨ g ∈ out →
    g ∈ start ∨ ∃ p ∈ gone, ∃ n, nodes.get p = some n ∧ g ∈ n.childGroups
  cover : ∀ g, (g ∈ start ∨
      ∃ p ∈ gone, ∃ n, nodes.get p = some n ∧ g ∈ n.childGroups) →
    (∃ n, nodes.get g = some n) → g ∈ gone ∨ g ∈ out ∨ g ∈ todo

theorem Pruning.visit {nodes nodes' : Dict G (GroupNode G T)}
    {start rest out : List G} {gone : Set G} {group : G} {n : GroupNode G T}
    (h : Pruning nodes nodes' start (group :: rest) out gone)
    (hn : nodes'.get group = some n) (hpending : n.pending = 0) :
    Pruning nodes (nodes'.pop group) start (n.childGroups ++ rest) out
      (insert group gone) := by
  have hfresh : group ∉ gone := fun hg => by simp [h.get_gone group hg] at hn
  have hold : nodes.get group = some n := (h.get_kept group hfresh).symm.trans hn
  refine ⟨?_, ?_, ?_, h.out_pending, ?_, ?_⟩
  · rintro g (rfl | hg)
    · simp
    · simp [Dict.get_pop, h.get_gone g hg]
  · intro g hg
    rw [Set.mem_insert_iff, not_or] at hg
    rw [Dict.get_pop, if_neg hg.1, h.get_kept g hg.2]
  · rintro g (rfl | hg)
    · rcases h.reached g (Or.inl List.mem_cons_self) with hs | ⟨p, hp, m, hm, hc⟩
      · exact .start hs (by simp [hold, hpending])
      · exact .kid (h.prunable p hp) (by simp [hm]) hc
          (by simp [hold, hpending])
    · exact h.prunable g hg
  · intro g hg
    have hlift : (g ∈ start ∨
        ∃ p ∈ gone, ∃ n, nodes.get p = some n ∧ g ∈ n.childGroups) →
        g ∈ start ∨ ∃ p ∈ insert group gone,
          ∃ n, nodes.get p = some n ∧ g ∈ n.childGroups := by
      rintro (hstart | ⟨p, hp, hm⟩)
      · exact Or.inl hstart
      · exact Or.inr ⟨p, Or.inr hp, hm⟩
    rcases hg with hg | hg
    · rcases List.mem_append.mp hg with hg | hg
      · exact Or.inr ⟨group, Or.inl rfl, n, hold, hg⟩
      · exact hlift (h.reached g (Or.inl (List.mem_cons_of_mem _ hg)))
    · exact hlift (h.reached g (Or.inr hg))
  · intro g hg hlive
    have hdone : (g ∈ start ∨
        ∃ p ∈ gone, ∃ n, nodes.get p = some n ∧ g ∈ n.childGroups) →
        g ∈ insert group gone ∨ g ∈ out ∨ g ∈ n.childGroups ++ rest := by
      intro hreach
      rcases h.cover g hreach hlive with hg | hg | hg
      · exact Or.inl (Or.inr hg)
      · exact Or.inr (Or.inl hg)
      · rcases List.mem_cons.mp hg with rfl | hg
        · exact Or.inl (Or.inl rfl)
        · exact Or.inr (Or.inr (List.mem_append_right _ hg))
    rcases hg with hg | ⟨p, rfl | hp, m, hm, hc⟩
    · exact hdone (Or.inl hg)
    · obtain rfl := Option.some.inj (hm.symm.trans hold)
      exact Or.inr (Or.inr (List.mem_append_left _ hc))
    · exact hdone (Or.inr ⟨p, hp, m, hm, hc⟩)

theorem pruneEmptyGroups_prunes (nodes : Dict G (GroupNode G T))
    (start : List G) :
    ∃ gone, Pruning nodes (pruneEmptyGroups nodes start).1 start []
      (pruneEmptyGroups nodes start).2 gone := by
  have hrun := pruneEmptyGroups_run nodes start []
    (I := fun nodes' todo out =>
      ∃ gone, Pruning nodes nodes' start todo out gone) ?_ ?_ ?_ ?_
  · simpa using hrun
  · rintro nodes' group rest out ⟨gone, h⟩ hnone
    refine ⟨gone, h.get_gone, h.get_kept, h.prunable, h.out_pending, ?_, ?_⟩
    · exact fun g hg => h.reached g (hg.imp_left (List.mem_cons_of_mem _))
    · intro g hg hlive
      rcases h.cover g hg hlive with hg' | hg' | hg'
      · exact Or.inl hg'
      · exact Or.inr (Or.inl hg')
      · rcases List.mem_cons.mp hg' with rfl | hg'
        · by_cases hgone : g ∈ gone
          · exact Or.inl hgone
          · obtain ⟨n, hn⟩ := hlive
            rw [← h.get_kept g hgone, hnone] at hn
            simp at hn
        · exact Or.inr (Or.inr hg')
  · rintro nodes' group n rest out ⟨gone, h⟩ hn hpending
    refine ⟨gone, h.get_gone, h.get_kept, h.prunable, ?_, ?_, ?_⟩
    · intro g hg
      rcases List.mem_append.mp hg with hg | hg
      · exact h.out_pending g hg
      · rw [List.mem_singleton] at hg
        subst hg
        have hfresh : g ∉ gone := fun hg => by simp [h.get_gone g hg] at hn
        exact ⟨n, (h.get_kept g hfresh).symm.trans hn, hpending⟩
    · rintro g (hg | hg)
      · exact h.reached g (Or.inl (List.mem_cons_of_mem _ hg))
      · rcases List.mem_append.mp hg with hg | hg
        · exact h.reached g (Or.inr hg)
        · rw [List.mem_singleton] at hg
          exact h.reached g (Or.inl (hg ▸ List.mem_cons_self))
    · intro g hg hlive
      rcases h.cover g hg hlive with hg' | hg' | hg'
      · exact Or.inl hg'
      · exact Or.inr (Or.inl (List.mem_append_left _ hg'))
      · rcases List.mem_cons.mp hg' with rfl | hg'
        · exact Or.inr (Or.inl (by simp))
        · exact Or.inr (Or.inr hg')
  · rintro nodes' group n rest out ⟨gone, h⟩ hn hpending
    exact ⟨_, h.visit hn hpending⟩
  · exact ⟨∅, by simp, by simp, by simp, by simp, by simp,
      fun g hg _ => Or.inr (Or.inr (by simpa using hg))⟩

/-! ## Delivering the tasks of a finished group -/

/-- What delivering `tasks` in `q` collects. -/
def deliveryOf (q : WorkQueue G T S V) (tasks : List T) : Delivery S V where
  values := tasks.flatMap fun t =>
    match q.taskNode t with
    | none => []
    | some n => n.value.toList
  newStreams := tasks.flatMap fun t =>
    match q.taskNode t with
    | none => []
    | some n => n.childStreams

theorem deliveryOf_congr {q q' : WorkQueue G T S V} {tasks : List T}
    (h : ∀ t ∈ tasks, q'.taskNode t = q.taskNode t) :
    deliveryOf q' tasks = deliveryOf q tasks := by
  unfold deliveryOf
  congr 1 <;>
  · apply List.flatMap_congr
    intro t ht
    rw [h t ht]

/-- Delivering distinct tasks collects their values and streams and removes
the tasks that have a node. -/
theorem foldl_deliverTask (W : WorkGraph G T) {q : WorkQueue G T S V}
    (d : Delivery S V) {tasks : List T} (hnodup : tasks.Nodup) :
    (tasks.foldl (deliverTask W) (q, d)).2 =
        { values := d.values ++ (deliveryOf q tasks).values
          newStreams := d.newStreams ++ (deliveryOf q tasks).newStreams } ∧
      SameFrame q (tasks.foldl (deliverTask W) (q, d)).1 ∧
      (∀ t, (tasks.foldl (deliverTask W) (q, d)).1.taskNode t =
        if t ∈ tasks then none else q.taskNode t) ∧
      ∀ g, (tasks.foldl (deliverTask W) (q, d)).1.node g = (q.node g).map
        (GroupNode.without · fun t =>
          (t ∈ tasks ∧ (q.taskNode t).isSome) ∧ g ∈ W.groups t) := by
  induction tasks generalizing q d with
  | nil =>
      refine ⟨by simp [deliveryOf], .refl q, by simp, fun g => ?_⟩
      cases hg : q.node g with
      | none => simp [hg]
      | some n =>
          rw [List.foldl_nil, hg, Option.map_some,
            GroupNode.without_eq_self (by simp)]
  | cons task rest ih =>
      rw [List.nodup_cons] at hnodup
      rw [List.foldl_cons]
      cases htask : q.taskNode task with
      | none =>
          have hstep : deliverTask W (q, d) task = (q, d) := by
            simp [deliverTask, htask]
          obtain ⟨hdelivery, hframe, htasks, hnodes⟩ := ih (q := q) d hnodup.2
          rw [hstep]
          refine ⟨?_, hframe, ?_, ?_⟩
          · rw [hdelivery]
            simp [deliveryOf, htask]
          · intro t
            rw [htasks t]
            by_cases ht : t = task
            · subst ht
              simp [htask]
            · simp [ht]
          · intro g
            rw [hnodes g]
            congr 1
            funext n
            simp only [GroupNode.without]
            congr 1
            apply List.filter_congr
            intro t _
            by_cases ht : t = task
            · subst ht
              simp [htask]
            · simp [ht]
      | some m =>
          have hstep : deliverTask W (q, d) task =
              (removeTask W q task,
                { values := d.values ++ m.value.toList
                  newStreams := d.newStreams ++ m.childStreams }) := by
            simp [deliverTask, htask]
          obtain ⟨hdelivery, hframe, htasks, hnodes⟩ := ih
            (q := removeTask W q task)
            { values := d.values ++ m.value.toList
              newStreams := d.newStreams ++ m.childStreams } hnodup.2
          have hrest : ∀ t ∈ rest,
              (removeTask W q task).taskNode t = q.taskNode t := by
            intro t ht
            rw [removeTask_taskNode, if_neg]
            rintro rfl
            exact hnodup.1 ht
          rw [hstep]
          refine ⟨?_, (removeTask_sameFrame W q task).trans hframe, ?_, ?_⟩
          · rw [hdelivery, deliveryOf_congr hrest]
            simp [deliveryOf, htask]
          · intro t
            rw [htasks t, removeTask_taskNode]
            by_cases ht : t = task
            · simp [ht]
            · simp [ht]
          · intro g
            rw [hnodes g, removeTask_node]
            cases q.node g with
            | none => rfl
            | some n =>
                simp only [Option.map_some, GroupNode.without,
                  List.filter_filter]
                congr 2
                apply List.filter_congr
                intro t _
                have hnode := removeTask_taskNode W q task t
                by_cases ht : t = task
                · subst ht
                  simp only [htask, Option.isSome_some]
                  simp
                  tauto
                · rw [if_neg ht] at hnode
                  simp [ht, hnode]

/-! ## Adding tasks -/

/-- The node of `g` after `task` has been added to `groups`. -/
def addedNode (task : T) (groups : List G) (g : G) (n : GroupNode G T) :
    GroupNode G T :=
  { n with
    tasks := if g ∈ groups then OrderedSet.add n.tasks task else n.tasks
    pending := n.pending + groups.count g }

theorem addTaskToGroup_of_dead {q : WorkQueue G T S V} {task : T} {group : G}
    (h : q.node group = none) : addTaskToGroup task q group = q := by
  simp [addTaskToGroup, h]

theorem addTaskToGroup_of_alive {q : WorkQueue G T S V} {task : T} {group : G}
    (h : q.Alive group) :
    addTaskToGroup task q group =
      let q' := q.modifyNode group fun groupNode =>
        { groupNode with
          tasks := OrderedSet.add groupNode.tasks task
          pending := groupNode.pending + 1 }
      if group ∈ q.rootGroups then q'.startTask task else q' := by
  obtain ⟨n, hn⟩ := alive_iff_node.mp h
  unfold addTaskToGroup
  simp only [hn]
  rfl

theorem addTaskToGroup_node (q : WorkQueue G T S V) (task : T) (group g : G) :
    (addTaskToGroup task q group).node g =
      (q.node g).map (addedNode task [group] g) := by
  by_cases hlive : q.Alive group
  · rw [addTaskToGroup_of_alive hlive]
    have hmodify : ∀ f : GroupNode G T → GroupNode G T,
        (if group ∈ q.rootGroups then (q.modifyNode group f).startTask task
        else q.modifyNode group f).node g =
          if g = group then (q.node g).map f else q.node g := by
      intro f
      split
      · rw [(startTask_sameGraph _ task).node, modifyNode_node]
      · rw [modifyNode_node]
    refine (hmodify _).trans ?_
    by_cases hg : g = group
    · subst hg
      cases q.node g with
      | none => simp
      | some n => simp [addedNode]
    · cases q.node g with
      | none => simp [hg]
      | some n => simp [addedNode, hg, List.count_cons_of_ne (Ne.symm hg)]
  · have hnone := not_alive_iff.mp hlive
    rw [addTaskToGroup_of_dead hnone]
    by_cases hg : g = group
    · simp [hg, hnone]
    · cases q.node g with
      | none => rfl
      | some n => simp [addedNode, hg, List.count_cons_of_ne (Ne.symm hg)]

theorem addTaskToGroup_frame (q : WorkQueue G T S V) (task : T) (group : G) :
    (addTaskToGroup task q group).rootGroups = q.rootGroups ∧
      (addTaskToGroup task q group).rootStreams = q.rootStreams ∧
      (addTaskToGroup task q group).stopped = q.stopped ∧
      (addTaskToGroup task q group).pumpTasks = q.pumpTasks := by
  by_cases hlive : q.Alive group
  · rw [addTaskToGroup_of_alive hlive]
    dsimp only
    split
    · have h := startTask_sameGraph (q.modifyNode group fun groupNode =>
        { groupNode with
          tasks := OrderedSet.add groupNode.tasks task
          pending := groupNode.pending + 1 }) task
      exact ⟨h.rootGroups, h.rootStreams, h.stopped, h.pumpTasks⟩
    · exact ⟨rfl, rfl, rfl, rfl⟩
  · rw [addTaskToGroup_of_dead (not_alive_iff.mp hlive)]
    exact ⟨rfl, rfl, rfl, rfl⟩

/-- Adding a task to a group starts it when the group is a root. -/
theorem addTaskToGroup_start (q : WorkQueue G T S V) (task : T) (group : G) :
    (∀ t, (addTaskToGroup task q group).taskNode t =
      if q.Alive group ∧ group ∈ q.rootGroups then (q.startTask task).taskNode t
      else q.taskNode t) ∧
    (addTaskToGroup task q group).runningTasks =
      if q.Alive group ∧ group ∈ q.rootGroups then
        (q.startTask task).runningTasks
      else q.runningTasks := by
  by_cases hlive : q.Alive group
  · rw [addTaskToGroup_of_alive hlive]
    by_cases hroot : group ∈ q.rootGroups
    · simp only [hlive, hroot, and_self, if_true]
      refine ⟨fun t => ?_, ?_⟩
      · rw [startTask_taskNode, startTask_taskNode, modifyNode_taskNode]
      · rw [startTask_runningTasks, startTask_runningTasks,
          modifyNode_taskNode]
        rfl
    · simp only [hroot, and_false, if_false]
      exact ⟨fun t => rfl, rfl⟩
  · rw [addTaskToGroup_of_dead (not_alive_iff.mp hlive)]
    simp [hlive]

theorem addedNode_addedNode (task : T) (group : G) (rest : List G) (g : G)
    (n : GroupNode G T) :
    addedNode task rest g (addedNode task [group] g n) =
      addedNode task (group :: rest) g n := by
  by_cases hg : g = group
  · subst hg
    by_cases hrest : g ∈ rest
    · have hadd : task ∈ OrderedSet.add n.tasks task :=
        OrderedSet.mem_add.mpr (Or.inr rfl)
      simp [addedNode, hrest, OrderedSet.add_of_mem hadd]
      omega
    · simp [addedNode, hrest]
      omega
  · simp [addedNode, hg, List.count_cons_of_ne (Ne.symm hg)]

theorem foldl_addTaskToGroup (q : WorkQueue G T S V) (task : T)
    (groups : List G) :
    let q' := groups.foldl (addTaskToGroup task) q
    let start := ∃ group ∈ groups, q.Alive group ∧ group ∈ q.rootGroups
    (∀ g, q'.node g = (q.node g).map (addedNode task groups g)) ∧
    (q'.rootGroups = q.rootGroups ∧ q'.rootStreams = q.rootStreams ∧
      q'.stopped = q.stopped ∧ q'.pumpTasks = q.pumpTasks) ∧
    (∀ t, q'.taskNode t = if t = task ∧ start ∧ q.taskNode t = none
      then some {} else q.taskNode t) ∧
    (∀ t, t ∈ q'.runningTasks ↔ t ∈ q.runningTasks ∨
      (t = task ∧ start ∧ q.taskNode t = none)) ∧
    (q.runningTasks.Nodup → (q.taskNode task = none → task ∉ q.runningTasks) →
      q'.runningTasks.Nodup) := by
  induction groups generalizing q with
  | nil =>
      refine ⟨fun g => ?_, ⟨rfl, rfl, rfl, rfl⟩, by simp, by simp,
        fun h _ => h⟩
      rw [List.foldl_nil]
      cases hg : q.node g with
      | none => rfl
      | some n => simp [addedNode]
  | cons group rest ih =>
      obtain ⟨hnode, hframe, htask, hrun, hnodup⟩ :=
        ih (addTaskToGroup task q group)
      have hnode₁ := addTaskToGroup_node q task group
      have hframe₁ := addTaskToGroup_frame q task group
      obtain ⟨htask₁, hrun₁⟩ := addTaskToGroup_start q task group
      have halive₁ : ∀ g, (addTaskToGroup task q group).Alive g ↔ q.Alive g := by
        intro g
        simp [Alive, hnode₁]
      have hone : (q.Alive group ∧ group ∈ q.rootGroups →
          ∀ t, (addTaskToGroup task q group).taskNode t =
            if t = task ∧ q.taskNode t = none then some {}
            else q.taskNode t) := by
        intro hs t
        rw [htask₁ t, if_pos hs, startTask_taskNode]
      have hzero : ¬(q.Alive group ∧ group ∈ q.rootGroups) →
          ∀ t, (addTaskToGroup task q group).taskNode t = q.taskNode t := by
        intro hs t
        rw [htask₁ t, if_neg hs]
      intro q' start
      refine ⟨?_, ?_, ?_, ?_, ?_⟩
      · intro g
        refine (hnode g).trans ?_
        rw [hnode₁ g, Option.map_map]
        congr 1
        funext n
        exact addedNode_addedNode task group rest g n
      · exact ⟨hframe.1.trans hframe₁.1, hframe.2.1.trans hframe₁.2.1,
          hframe.2.2.1.trans hframe₁.2.2.1, hframe.2.2.2.trans hframe₁.2.2.2⟩
      · intro t
        refine (htask t).trans ?_
        simp only [halive₁, hframe₁.1]
        by_cases hs : q.Alive group ∧ group ∈ q.rootGroups
        · have hstart : start := ⟨group, List.mem_cons_self, hs⟩
          rw [hone hs t]
          by_cases ht : t = task
          · by_cases hnone : q.taskNode t = none
            · simp [ht, hstart, ht ▸ hnone]
            · simp [ht, ht ▸ hnone]
          · simp [ht]
        · have hstart : start ↔ ∃ g ∈ rest, q.Alive g ∧ g ∈ q.rootGroups := by
            simp only [start, List.mem_cons, exists_eq_or_imp, or_iff_right hs]
          rw [hzero hs t]
          simp only [hstart]
      · intro t
        refine (hrun t).trans ?_
        simp only [halive₁, hframe₁.1]
        by_cases hs : q.Alive group ∧ group ∈ q.rootGroups
        · have hstart : start := ⟨group, List.mem_cons_self, hs⟩
          rw [hone hs t, hrun₁, if_pos hs, startTask_runningTasks]
          by_cases ht : t = task
          · subst ht
            by_cases hnone : q.taskNode t = none
            · simp [hstart, hnone]
            · simp [hnone]
          · by_cases hnone : q.taskNode task = none
            · simp [ht, hnone]
            · simp [ht, hnone]
        · have hstart : start ↔ ∃ g ∈ rest, q.Alive g ∧ g ∈ q.rootGroups := by
            simp only [start, List.mem_cons, exists_eq_or_imp, or_iff_right hs]
          rw [hzero hs t, hrun₁, if_neg hs]
          simp only [hstart]
      · intro hn hidle
        apply hnodup
        · rw [hrun₁]
          split
          · rw [startTask_runningTasks]
            split
            · next hnone =>
              rw [List.nodup_append]
              refine ⟨hn, List.nodup_singleton task, ?_⟩
              rintro t ht t' ht' rfl
              exact hidle hnone (List.mem_singleton.mp ht' ▸ ht)
            · exact hn
          · exact hn
        · intro hnone
          by_cases hs : q.Alive group ∧ group ∈ q.rootGroups
          · rw [hone hs task] at hnone
            split at hnone
            · simp at hnone
            · next hne => exact absurd ⟨rfl, hnone⟩ hne
          · rw [hzero hs task] at hnone
            rw [hrun₁, if_neg hs]
            exact hidle hnone

/-! ## Adding groups -/

/-- Creating the groups `order` one after the other turns `(st, visited)` into
`(st', visited')`, without creating a visited group again. -/
structure CreatesAll (W : WorkGraph G T) (parentTask : Option T)
    (start finish : (WorkQueue G T S V × List G) × List G) (order : List G) :
    Prop where
  state : finish.1 = order.foldl (createGroup W parentTask) start.1
  nodup : order.Nodup
  fresh : ∀ g ∈ order, g ∉ start.2
  visited : ∀ g, g ∈ finish.2 ↔ g ∈ start.2 ∨ g ∈ order

theorem CreatesAll.trans {W : WorkGraph G T} {parentTask : Option T}
    {st₁ st₂ st₃ : (WorkQueue G T S V × List G) × List G} {o₁ o₂ : List G}
    (h₁ : CreatesAll W parentTask st₁ st₂ o₁)
    (h₂ : CreatesAll W parentTask st₂ st₃ o₂) :
    CreatesAll W parentTask st₁ st₃ (o₁ ++ o₂) := by
  have hnot : ∀ g ∈ o₂, g ∉ st₁.2 ∧ g ∉ o₁ := by
    intro g hg
    have := h₂.fresh g hg
    rw [h₁.visited g] at this
    exact not_or.mp this
  refine ⟨?_, ?_, ?_, ?_⟩
  · rw [List.foldl_append, ← h₁.state, h₂.state]
  · rw [List.nodup_append]
    exact ⟨h₁.nodup, h₂.nodup, fun a ha b hb hab =>
      (hnot b hb).2 (hab ▸ ha)⟩
  · intro g hg
    rcases List.mem_append.mp hg with hg | hg
    · exact h₁.fresh g hg
    · exact (hnot g hg).1
  · intro g
    rw [h₂.visited, h₁.visited, List.mem_append, or_assoc]

theorem addGroup_visited (W : WorkGraph G T) (groupSet : List G)
    (parentTask : Option T) (depth : ℕ) (st : WorkQueue G T S V × List G)
    {visited : List G} {group : G} (h : group ∈ visited) :
    addGroup W groupSet parentTask depth (st, visited) group =
      (st, visited) := by
  cases depth <;> rw [addGroup, if_pos h]

/-- Without a recursive call the group itself is created. -/
theorem addGroup_leaf {W : WorkGraph G T} {groupSet : List G}
    (parentTask : Option T) {depth : ℕ} (st : WorkQueue G T S V × List G)
    {visited : List G} {group : G} (h : group ∉ visited)
    (hleaf : depth = 0 ∨ ∀ parent, W.parent group = some parent →
      parent ∉ groupSet) :
    addGroup W groupSet parentTask depth (st, visited) group =
      (createGroup W parentTask st group, group :: visited) := by
  cases depth with
  | zero => rw [addGroup, if_neg h]
  | succ depth =>
      have hnot := hleaf.resolve_left (Nat.succ_ne_zero depth)
      rw [addGroup, if_neg h]
      cases hparent : W.parent group with
      | none => rfl
      | some parent => simp [hnot parent hparent]

/-- A parent in the same work is added before its child. -/
theorem addGroup_parent {W : WorkGraph G T} {groupSet : List G}
    (parentTask : Option T) (depth : ℕ) (st : WorkQueue G T S V × List G)
    {visited : List G} {group parent : G} (h : group ∉ visited)
    (hparent : W.parent group = some parent) (hset : parent ∈ groupSet) :
    addGroup W groupSet parentTask (depth + 1) (st, visited) group =
      let r := addGroup W groupSet parentTask depth (st, group :: visited) parent
      (createGroup W parentTask r.1 group, r.2) := by
  conv_lhs => rw [addGroup]
  simp only [if_neg h, hparent, if_pos hset]

theorem createsAll_nil (W : WorkGraph G T) (parentTask : Option T)
    (st : (WorkQueue G T S V × List G) × List G) :
    CreatesAll W parentTask st st [] :=
  ⟨rfl, List.nodup_nil, by simp, by simp⟩

/-- Creating `group` itself, which has been marked as visited before. -/
theorem CreatesAll.snoc {W : WorkGraph G T} {parentTask : Option T}
    {st : WorkQueue G T S V × List G} {visited : List G}
    {finish : (WorkQueue G T S V × List G) × List G} {order : List G}
    {group : G} (h : group ∉ visited)
    (hcreates : CreatesAll W parentTask (st, group :: visited) finish order) :
    CreatesAll W parentTask (st, visited)
      (createGroup W parentTask finish.1 group, finish.2)
      (order ++ [group]) := by
  refine ⟨?_, ?_, ?_, ?_⟩
  · rw [List.foldl_append, List.foldl_cons, List.foldl_nil, hcreates.state]
  · rw [List.nodup_append]
    refine ⟨hcreates.nodup, List.nodup_singleton group, ?_⟩
    rintro g hg g' hg' rfl
    rw [List.mem_singleton] at hg'
    exact hcreates.fresh g hg (hg' ▸ List.mem_cons_self)
  · intro g hg
    rcases List.mem_append.mp hg with hg | hg
    · exact fun h => hcreates.fresh g hg (List.mem_cons_of_mem _ h)
    · rw [List.mem_singleton] at hg
      exact hg ▸ h
  · intro g
    rw [hcreates.visited g, List.mem_append, List.mem_singleton,
      List.mem_cons]
    tauto

theorem addGroup_creates (W : WorkGraph G T) (groupSet : List G)
    (parentTask : Option T) (depth : ℕ)
    (st : (WorkQueue G T S V × List G) × List G) (group : G) :
    ∃ order, CreatesAll W parentTask st
        (addGroup W groupSet parentTask depth st group) order ∧
      (∀ g ∈ order, g ∈ groupSet ∨ g = group) ∧
      group ∈ (addGroup W groupSet parentTask depth st group).2 := by
  induction depth generalizing st group with
  | zero =>
      obtain ⟨st, visited⟩ := st
      by_cases hmem : group ∈ visited
      · rw [addGroup_visited W groupSet parentTask 0 st hmem]
        exact ⟨[], createsAll_nil W parentTask _, by simp, hmem⟩
      · rw [addGroup_leaf parentTask st hmem (Or.inl rfl)]
        exact ⟨[group], (createsAll_nil W parentTask _).snoc hmem, by simp,
          List.mem_cons_self⟩
  | succ depth ih =>
      obtain ⟨st, visited⟩ := st
      by_cases hmem : group ∈ visited
      · rw [addGroup_visited W groupSet parentTask (depth + 1) st hmem]
        exact ⟨[], createsAll_nil W parentTask _, by simp, hmem⟩
      by_cases hset : ∃ parent, W.parent group = some parent ∧
          parent ∈ groupSet
      · obtain ⟨parent, hparent, hset⟩ := hset
        obtain ⟨order, hcreates, horder, -⟩ := ih (st, group :: visited) parent
        rw [addGroup_parent parentTask depth st hmem hparent hset]
        refine ⟨order ++ [group], hcreates.snoc hmem, ?_, ?_⟩
        · intro g hg
          rcases List.mem_append.mp hg with hg | hg
          · exact Or.inl ((horder g hg).elim id fun h => h ▸ hset)
          · exact Or.inr (List.mem_singleton.mp hg)
        · exact (hcreates.visited group).mpr (Or.inl List.mem_cons_self)
      · rw [addGroup_leaf parentTask st hmem (Or.inr fun parent hparent hp =>
          hset ⟨parent, hparent, hp⟩)]
        exact ⟨[group], (createsAll_nil W parentTask _).snoc hmem, by simp,
          List.mem_cons_self⟩

theorem foldl_addGroup_creates (W : WorkGraph G T) (groupSet : List G)
    (parentTask : Option T) (depth : ℕ)
    (st : (WorkQueue G T S V × List G) × List G) (groups : List G)
    (hsub : ∀ g ∈ groups, g ∈ groupSet) :
    ∃ order, CreatesAll W parentTask st
        (groups.foldl (addGroup W groupSet parentTask depth) st) order ∧
      (∀ g ∈ order, g ∈ groupSet) ∧
      ∀ g ∈ groups,
        g ∈ (groups.foldl (addGroup W groupSet parentTask depth) st).2 := by
  induction groups generalizing st with
  | nil => exact ⟨[], ⟨rfl, List.nodup_nil, by simp, by simp⟩, by simp, by simp⟩
  | cons group rest ih =>
      obtain ⟨o₁, h₁, hsub₁, hmem⟩ :=
        addGroup_creates W groupSet parentTask depth st group
      obtain ⟨o₂, h₂, hsub₂, hall⟩ :=
        ih (addGroup W groupSet parentTask depth st group)
          fun g hg => hsub g (List.mem_cons_of_mem _ hg)
      refine ⟨o₁ ++ o₂, h₁.trans h₂, ?_, ?_⟩
      · intro g hg
        rcases List.mem_append.mp hg with hg | hg
        · rcases hsub₁ g hg with h | h
          · exact h
          · exact h ▸ hsub group List.mem_cons_self
        · exact hsub₂ g hg
      · intro g hg
        rcases List.mem_cons.mp hg with rfl | hg
        · exact (h₂.visited g).mpr (Or.inl hmem)
        · exact hall g hg

/-- Adding groups creates each of them once, in some order. -/
theorem addGroups_eq (W : WorkGraph G T) (q : WorkQueue G T S V)
    (originalGroups : List G) (parentTask : Option T) :
    ∃ order : List G, order.Nodup ∧ (∀ g, g ∈ order ↔ g ∈ originalGroups) ∧
      addGroups W q originalGroups parentTask =
        order.foldl (createGroup W parentTask) (q, []) := by
  obtain ⟨order, h, hsub, hall⟩ := foldl_addGroup_creates W originalGroups
    parentTask originalGroups.length ((q, []), []) originalGroups fun _ => id
  refine ⟨order, h.nodup, fun g => ⟨hsub g, fun hg => ?_⟩, h.state⟩
  simpa using (h.visited g).mp (hall g hg)

/-- The new root groups that creating `group` gives. -/
def newRoots (W : WorkGraph G T) (parentTask : Option T) (group : G) :
    List G :=
  if parentTask = none ∧ W.parent group = none then [group] else []

/-- Creating a group adds an empty node and attaches it to the node of its
parent. -/
theorem createGroup_eq (W : WorkGraph G T) (parentTask : Option T)
    (st : WorkQueue G T S V × List G) (group : G) :
    (createGroup W parentTask st group).2 =
        st.2 ++ newRoots W parentTask group ∧
      SameFrame st.1 (createGroup W parentTask st group).1 ∧
      (createGroup W parentTask st group).1.taskNode = st.1.taskNode ∧
      ∀ g, (createGroup W parentTask st group).1.node g =
        (if g = group then some {} else st.1.node g).map fun n =>
          if W.parent group = some g then
            { n with childGroups := n.childGroups ++ [group] }
          else n := by
  have hset : ∀ g, ({ st.1 with
      groupNodes := st.1.groupNodes.set group {} } : WorkQueue G T S V).node g =
        if g = group then some {} else st.1.node g :=
    fun g => Dict.get_set st.1.groupNodes group g {}
  cases hp : W.parent group with
  | none =>
      have hnode : (createGroup W parentTask st group).1 =
          { st.1 with groupNodes := st.1.groupNodes.set group {} } := by
        unfold createGroup
        simp only [hp]
        cases parentTask <;> rfl
      refine ⟨?_, ?_, ?_, ?_⟩
      · unfold createGroup newRoots
        simp only [hp]
        cases parentTask <;> simp
      · rw [hnode]
        exact ⟨rfl, rfl, rfl, rfl, rfl⟩
      · rw [hnode]
        rfl
      · intro g
        rw [hnode, hset]
        cases hn : (if g = group then some {} else st.1.node g) <;> simp
  | some parent =>
      have hnode : createGroup W parentTask st group =
          (({ st.1 with groupNodes := st.1.groupNodes.set group {} } :
              WorkQueue G T S V).modifyNode parent fun parentNode =>
            { parentNode with
              childGroups := parentNode.childGroups ++ [group] }, st.2) := by
        unfold createGroup
        simp only [hp]
      rw [hnode]
      refine ⟨by simp [newRoots, hp], ⟨rfl, rfl, rfl, rfl, rfl⟩, rfl, ?_⟩
      intro g
      rw [modifyNode_node, hset]
      by_cases hg : g = parent
      · subst hg
        simp
      · have hne : ¬some parent = some g := fun h => hg (Option.some.inj h).symm
        rw [if_neg hg]
        cases hn : (if g = group then some {} else st.1.node g) <;> simp [hne]

theorem createGroup_pendingCount (W : WorkGraph G T) (parentTask : Option T)
    (st : WorkQueue G T S V × List G) {group g : G} (hne : g ≠ group) :
    (createGroup W parentTask st group).1.pendingCount g =
      st.1.pendingCount g := by
  have hnode := (createGroup_eq W parentTask st group).2.2.2 g
  simp only [pendingCount, hnode, if_neg hne, Option.map_map]
  congr 1
  funext n
  simp only [Function.comp_apply]
  split <;> rfl

theorem addTask_pendingCount (W : WorkGraph G T) (q : WorkQueue G T S V)
    (task : T) (g : G) :
    (addTask W q task).pendingCount g =
      (q.pendingCount g).map fun p => p + ((W.groups task).count g : ℤ) := by
  have hnode := (foldl_addTaskToGroup q task (W.groups task)).1 g
  simp only [pendingCount, addTask, hnode, Option.map_map]
  rfl

theorem promoteGroup_pendingCount (q : WorkQueue G T S V) (group : G) :
    (q.promoteGroup group).pendingCount = q.pendingCount := by
  funext g
  have hsame := foldl_startTask_sameGraph
    { q with rootGroups := OrderedSet.add q.rootGroups group }
    ((({ q with rootGroups := OrderedSet.add q.rootGroups group } :
      WorkQueue G T S V).members group).getD [])
  simp only [pendingCount, promoteGroup, startGroup_eq, hsame.node]
  rfl

theorem modifyNode_pendingCount (q : WorkQueue G T S V) (group g : G)
    (f : ℤ → ℤ) :
    (q.modifyNode group fun n => { n with pending := f n.pending }).pendingCount
        g =
      if g = group then (q.pendingCount g).map f else q.pendingCount g := by
  simp only [pendingCount, modifyNode_node]
  split
  · rw [Option.map_map, Option.map_map]
    rfl
  · rfl

/-! ## Finishing a group -/

/-- What finishing `group` makes of the queue: the group and its pruned
descendants are deleted, the tasks it held are delivered and `out` is found. -/
structure Finished (W : WorkGraph G T) (q q' : WorkQueue G T S V) (group : G)
    (n : GroupNode G T) (out : List G) (gone : Set G) : Prop where
  rootGroups : q'.rootGroups = OrderedSet.remove q.rootGroups group
  rootStreams : q'.rootStreams = q.rootStreams
  stopped : q'.stopped = q.stopped
  runningTasks : q'.runningTasks = q.runningTasks
  pumpTasks : q'.pumpTasks = q.pumpTasks
  taskNode : ∀ t, q'.taskNode t =
    if t ∈ n.tasks then none else q.taskNode t
  node_group : q'.node group = none
  node_gone : ∀ g ∈ gone, q'.node g = none
  node_kept : ∀ g ∉ gone, g ≠ group → q'.node g = (q.node g).map
    (GroupNode.without · fun t =>
      (t ∈ n.tasks ∧ (q.taskNode t).isSome) ∧ g ∈ W.groups t)
  group_kept : group ∉ gone
  prunable : ∀ g ∈ gone, Prunable q.kids q.pendingCount n.childGroups g
  out_pending : ∀ g ∈ out, ∃ m, q.node g = some m ∧ m.pending ≠ 0 ∧ g ≠ group
  out_reached : ∀ g ∈ out, g ∈ n.childGroups ∨
    ∃ p ∈ gone, ∃ cs, q.kids p = some cs ∧ g ∈ cs
  cover : ∀ g, (g ∈ n.childGroups ∨
      ∃ p ∈ gone, ∃ cs, q.kids p = some cs ∧ g ∈ cs) →
    q.Alive g → g = group ∨ g ∈ gone ∨ g ∈ out

/-- The child groups that a dictionary of nodes records. -/
def kidsOf (nodes : Dict G (GroupNode G T)) (group : G) : Option (List G) :=
  (nodes.get group).map GroupNode.childGroups

theorem Prunable.exists_start {kids : G → Option (List G)}
    {pending : G → Option ℤ} {start : List G} {g : G}
    (h : Prunable kids pending start g) :
    ∃ x ∈ start, pending x = some 0 := by
  induction h with
  | start hmem hp => exact ⟨_, hmem, hp⟩
  | kid _ _ _ _ ih => exact ih

theorem Prunable.mono {kids kids' : G → Option (List G)}
    {pending pending' : G → Option ℤ} {start : List G} {g : G}
    (h : Prunable kids pending start g)
    (hkids : ∀ g cs, kids g = some cs → kids' g = some cs)
    (hpending : ∀ g, pending g = some 0 → pending' g = some 0) :
    Prunable kids' pending' start g := by
  induction h with
  | start hmem hp => exact .start hmem (hpending _ hp)
  | kid _ hk hc hp ih => exact .kid ih (hkids _ _ hk) hc (hpending _ hp)

/-- `_finish_group_success` on a group whose count has just been changed. -/
theorem finishGroupSuccess_finished (W : WorkGraph G T)
    (q : WorkQueue G T S V) (group : G) (n n' : GroupNode G T)
    (htasks : n'.tasks = n.tasks) (hchildren : n'.childGroups = n.childGroups)
    (hnodup : n.tasks.Nodup) :
    let r : WorkQueue G T S V × GroupFinish G S V I E :=
      finishGroupSuccess W (q.modifyNode group fun _ => n') group n'
    (∃ gone, Finished W q r.1 group n r.2.newGroups gone) ∧
      (∃ nodes : Dict G (GroupNode G T),
        (∀ g, kidsOf nodes g = if g = group then none else q.kids g) ∧
        r.1.kids = kidsOf (pruneEmptyGroups nodes n.childGroups).1 ∧
        r.2.newGroups = (pruneEmptyGroups nodes n.childGroups).2) ∧
      r.2.newStreams = (deliveryOf q n.tasks).newStreams ∧
      r.2.events =
        (if (deliveryOf q n.tasks).values = [] then []
        else [.groupValues group (deliveryOf q n.tasks).values]) ++
          [.groupSuccess group r.2.newGroups r.2.newStreams] := by
  intro r
  set q₁ : WorkQueue G T S V :=
    { q.modifyNode group (fun _ => n') with
      groupNodes := (q.modifyNode group fun _ => n').groupNodes.pop group }
    with hq₁
  have hnode₁ : ∀ g, q₁.node g = if g = group then none else q.node g := by
    intro g
    have hpop : q₁.node g = if g = group then none
        else (q.modifyNode group fun _ => n').node g :=
      Dict.get_pop _ group g
    rw [hpop, modifyNode_node]
    split <;> rfl
  have hdeliver := foldl_deliverTask W (q := q₁) {} hnodup
  obtain ⟨hdelivery, hframe, htask, hnode⟩ := hdeliver
  set st := n.tasks.foldl (deliverTask W) (q₁, {}) with hst
  have hr : r = ({ st.1 with
        groupNodes := (pruneEmptyGroups st.1.groupNodes n.childGroups).1
        rootGroups := OrderedSet.remove st.1.rootGroups group },
      { events :=
          (if st.2.values = [] then []
          else [WorkQueueEvent.groupValues group st.2.values]) ++
            [.groupSuccess group
              (pruneEmptyGroups st.1.groupNodes n.childGroups).2
              st.2.newStreams]
        newGroups := (pruneEmptyGroups st.1.groupNodes n.childGroups).2
        newStreams := st.2.newStreams }) := by
    simp only [r, finishGroupSuccess, htasks, hchildren]
    rfl
  have hsame : deliveryOf q₁ n.tasks = deliveryOf q n.tasks := rfl
  have hvalues : st.2 = deliveryOf q n.tasks := by
    rw [hdelivery, hsame]
    simp
  obtain ⟨gone, hprune⟩ :=
    pruneEmptyGroups_prunes st.1.groupNodes n.childGroups
  have hkids₁ : ∀ g, (st.1.node g).map GroupNode.childGroups =
      if g = group then none else q.kids g := by
    intro g
    rw [hnode g, hnode₁ g, Option.map_map]
    split <;> rfl
  have hpending₁ : ∀ g, (st.1.node g).map GroupNode.pending =
      if g = group then none else q.pendingCount g := by
    intro g
    rw [hnode g, hnode₁ g, Option.map_map]
    split <;> rfl
  have hnone : st.1.node group = none := by
    rw [hnode, hnode₁, if_pos rfl]
    rfl
  -- Everything reached through deleted groups is reached in `q`.
  have hkids_of : ∀ p m, st.1.groupNodes.get p = some m →
      p ≠ group ∧ q.kids p = some m.childGroups := by
    intro p m hm
    have hk := hkids₁ p
    have hm' : st.1.node p = some m := hm
    rw [hm', Option.map_some] at hk
    split at hk
    · simp at hk
    · next hne => exact ⟨hne, hk.symm⟩
  have halive_gone : ∀ g ∈ gone, g ≠ group := by
    intro g hg heq
    have hpr := hprune.prunable g hg
    have hsome : ∃ p : ℤ, (st.1.node g).map GroupNode.pending = some p := by
      cases hpr with
      | start _ hp => exact ⟨0, hp⟩
      | kid _ _ _ hp => exact ⟨0, hp⟩
    obtain ⟨p, hp⟩ := hsome
    rw [heq, hnone] at hp
    simp at hp
  refine ⟨⟨gone, ?_⟩, ⟨st.1.groupNodes, hkids₁, ?_⟩, ?_, ?_⟩
  · rw [hr]
    constructor
    · exact congrArg (OrderedSet.remove · group) hframe.rootGroups
    · exact hframe.rootStreams
    · exact hframe.stopped
    · exact hframe.runningTasks
    · exact hframe.pumpTasks
    · exact htask
    · by_cases hg : group ∈ gone
      · exact hprune.get_gone group hg
      · exact (hprune.get_kept group hg).trans hnone
    · exact hprune.get_gone
    · intro g hg hne
      refine (hprune.get_kept g hg).trans ((hnode g).trans ?_)
      rw [hnode₁ g, if_neg hne]
      rfl
    · exact fun hg => halive_gone group hg rfl
    · intro g hg
      refine (hprune.prunable g hg).mono ?_ ?_
      · intro g cs hk
        have := hkids₁ g
        rw [show (st.1.node g).map GroupNode.childGroups = some cs from hk] at this
        split at this
        · simp at this
        · exact this.symm
      · intro g hp
        have := hpending₁ g
        rw [show (st.1.node g).map GroupNode.pending = some 0 from hp] at this
        split at this
        · simp at this
        · exact this.symm
    · intro g hg
      obtain ⟨m, hm, hp⟩ := hprune.out_pending g hg
      have hm' : st.1.node g = some m := hm
      have hpen := hpending₁ g
      rw [hm', Option.map_some] at hpen
      split at hpen
      · simp at hpen
      · next hne =>
        obtain ⟨m', hm₂, hpm⟩ := Option.map_eq_some_iff.mp hpen.symm
        exact ⟨m', hm₂, hpm ▸ hp, hne⟩
    · intro g hg
      rcases hprune.reached g (Or.inr hg) with h | ⟨p, hp, m, hm, hc⟩
      · exact Or.inl h
      · exact Or.inr ⟨p, hp, _, (hkids_of p m hm).2, hc⟩
    · intro g hreach hlive
      by_cases hne : g = group
      · exact Or.inl hne
      refine Or.inr ?_
      have hlive' : ∃ m, st.1.groupNodes.get g = some m := by
        obtain ⟨m, hm⟩ := alive_iff_node.mp hlive
        have := hnode g
        rw [hnode₁ g, if_neg hne, hm, Option.map_some] at this
        exact ⟨_, this⟩
      have hcover := hprune.cover g ?_ hlive'
      · simpa using hcover
      · rcases hreach with h | ⟨p, hp, cs, hk, hc⟩
        · exact Or.inl h
        · right
          refine ⟨p, hp, ?_⟩
          have hpk := hkids₁ p
          rw [if_neg (halive_gone p hp), hk] at hpk
          obtain ⟨m, hm, rfl⟩ := Option.map_eq_some_iff.mp hpk
          exact ⟨m, hm, hc⟩
  · rw [hr]
    exact ⟨rfl, rfl⟩
  · rw [hr]
    simp only [hvalues]
  · rw [hr]
    simp only [hvalues]

end WorkQueue

end GraphqlCore.Incremental
