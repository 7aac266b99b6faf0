import GraphqlCore.Data.ReleaseForest
import GraphqlCore.Incremental.Operations

/-!
# The ledger of the work queue

The queue forgets a group, a task or a stream as soon as it is done with it.
The ledger remembers what has been introduced and what became of it, and the
invariants of this file relate it to the queue.  They hold at every point of
every handler, also inside its loops.
-/

set_option linter.unusedSectionVars false

namespace GraphqlCore.Incremental

variable {G T S V I E : Type} [DecidableEq G] [DecidableEq T]

/-- What has been introduced into the queue and reported by it so far. -/
structure History (G T S V : Type) where
  groups : Set G := ∅
  tasks : List T := []
  streams : Set S := ∅
  /-- The groups whose failure has been reported. -/
  failed : Set G := ∅
  /-- Streams known to have stopped. -/
  stoppedStreams : Set S := ∅
  /-- The task whose nested work introduced a group. -/
  origin : G → Option T := fun _ => none
  streamOrigin : S → Option T := fun _ => none
  /-- The values of the tasks whose success has been handled. -/
  results : T → Option V := fun _ => none

structure Ledger (G T S V : Type) extends History G T S V where
  /-- The groups of a task whose pending count still includes it. -/
  remaining : T → List G
  /-- Tasks whose success or failure has been handled. -/
  settled : Set T := ∅
  /-- Tasks whose value has been delivered, in the order of delivery. -/
  delivered : List T := []
  /-- The task whose success or failure is being handled. -/
  current : Option T := none
  /-- Tasks whose failure is being handled. -/
  excused : Set T := ∅
  startedStreams : Set S := ∅

/-- How often the pending count of a group includes the tasks so far. -/
def Ledger.owed (γ : Ledger G T S V) (group : G) : ℕ :=
  (γ.tasks.map fun t => (γ.remaining t).count group).sum

structure TaskInv (W : WorkGraph G T) (q : WorkQueue G T S V)
    (γ : Ledger G T S V) : Prop where
  tasks_nodup : γ.tasks.Nodup
  task_groups : ∀ t ∈ γ.tasks, ∀ g ∈ W.groups t, g ∈ γ.groups
  settled_task : ∀ t ∈ γ.settled, t ∈ γ.tasks
  delivered_settled : ∀ t ∈ γ.delivered, t ∈ γ.settled
  remaining_groups : ∀ t, ∀ g ∈ γ.remaining t, g ∈ W.groups t
  remaining_open : ∀ t ∉ γ.settled, γ.remaining t = W.groups t
  remaining_done : ∀ t ∈ γ.settled, γ.current ≠ some t → γ.remaining t = []
  member : ∀ g l, q.members g = some l → ∀ t,
    t ∈ l ↔ t ∈ γ.tasks ∧ g ∈ W.groups t ∧ t ∉ γ.delivered
  members_nodup : ∀ g l, q.members g = some l → l.Nodup
  pending : ∀ g p, q.pendingCount g = some p → p = γ.owed g
  /-- The tasks of root groups have been started. -/
  started : ∀ g ∈ q.rootGroups, ∀ l, q.members g = some l → ∀ t ∈ l,
    t ∉ γ.excused → q.taskNode t ≠ none
  running_open : ∀ t ∈ q.runningTasks, t ∈ γ.tasks ∧ t ∉ γ.settled
  running_nodup : q.runningTasks.Nodup
  open_running : ∀ t, q.taskNode t ≠ none → t ∉ γ.settled →
    t ∈ q.runningTasks
  running_node : ∀ t ∈ q.runningTasks, ∀ g ∈ W.groups t, q.Alive g →
    q.taskNode t ≠ none
  node_task : ∀ t, q.taskNode t ≠ none → t ∈ γ.tasks
  /-- The value of a settled task is kept while a group holds the task. -/
  value : ∀ g l, q.members g = some l → ∀ t ∈ l, t ∈ γ.settled →
    t ∉ γ.excused → ∃ n v, q.taskNode t = some n ∧ n.value = some v
  value_result : ∀ t n v, q.taskNode t = some n → n.value = some v →
    γ.results t = some v ∧ t ∈ γ.settled
  delivered_gone : ∀ t ∈ γ.delivered, q.taskNode t = none
  delivered_nodup : γ.delivered.Nodup

namespace WorkQueue

theorem alive_of_members {q : WorkQueue G T S V} {g : G} {l : List T}
    (h : q.members g = some l) : q.Alive g := by
  cases hn : q.node g with
  | none => simp [members, hn] at h
  | some n => exact alive_iff_node.mpr ⟨n, hn⟩

theorem members_of_alive {q : WorkQueue G T S V} {g : G} (h : q.Alive g) :
    ∃ l, q.members g = some l := by
  obtain ⟨n, hn⟩ := alive_iff_node.mp h
  exact ⟨n.tasks, by simp [members, hn]⟩

end WorkQueue

namespace TaskInv

open WorkQueue

variable {W : WorkGraph G T} {q q' : WorkQueue G T S V}
  {γ : Ledger G T S V}

/-- Groups may be deleted and roots dropped at any time; a task node may go
once no group holds the task. -/
theorem restrict (h : TaskInv W q γ)
    (hnode : ∀ g, q'.node g = none ∨
      (q'.members g = q.members g ∧ q'.pendingCount g = q.pendingCount g))
    (hroots : ∀ g ∈ q'.rootGroups, g ∈ q.rootGroups)
    (hdrops : DropsOrphans W q q')
    (hrun : q'.runningTasks = q.runningTasks) : TaskInv W q' γ := by
  have hmembers : ∀ g l, q'.members g = some l → q.members g = some l := by
    intro g l hl
    rcases hnode g with hnone | ⟨hm, -⟩
    · simp [members, hnone] at hl
    · rw [← hm, hl]
  -- A task that a live group holds keeps its node.
  have hkeep : ∀ t, ∀ g ∈ W.groups t, q'.Alive g →
      q'.taskNode t = q.taskNode t := by
    intro t g hg hlive
    rcases hdrops t with ht | ⟨-, hdead⟩
    · exact ht
    · exact absurd hlive (hdead g hg)
  have hnode_old : ∀ t, q'.taskNode t ≠ none →
      q'.taskNode t = q.taskNode t := by
    intro t ht
    rcases hdrops t with h | ⟨h, -⟩
    · exact h
    · exact absurd h ht
  have hkeep_member : ∀ g l, q'.members g = some l → ∀ t ∈ l,
      q'.taskNode t = q.taskNode t := by
    intro g l hl t ht
    have hg := ((h.member g l (hmembers g l hl) t).mp ht).2.1
    exact hkeep t g hg (alive_of_members hl)
  have halive : ∀ x, q'.Alive x → q.Alive x := by
    intro x hg
    obtain ⟨l, hl⟩ := members_of_alive hg
    exact alive_of_members (hmembers x l hl)
  refine
    { h with
      member := fun g l hl => h.member g l (hmembers g l hl)
      members_nodup := fun g l hl => h.members_nodup g l (hmembers g l hl)
      pending := ?_
      started := ?_
      running_open := hrun ▸ h.running_open
      running_nodup := hrun ▸ h.running_nodup
      open_running := ?_
      running_node := ?_
      node_task := ?_
      value := ?_
      value_result := ?_
      delivered_gone := ?_ }
  · intro g p hp
    rcases hnode g with hnone | ⟨-, hpend⟩
    · simp [pendingCount, hnone] at hp
    · exact h.pending g p (hpend ▸ hp)
  · intro g hg l hl t ht hex
    rw [hkeep_member g l hl t ht]
    exact h.started g (hroots g hg) l (hmembers g l hl) t ht hex
  · intro t ht hopen
    rw [hrun]
    exact h.open_running t (hnode_old t ht ▸ ht) hopen
  · intro t ht g hg hlive
    rw [hrun] at ht
    rw [hkeep t g hg hlive]
    exact h.running_node t ht g hg (halive g hlive)
  · intro t ht
    exact h.node_task t (hnode_old t ht ▸ ht)
  · intro g l hl t ht hset hex
    rw [hkeep_member g l hl t ht]
    exact h.value g l (hmembers g l hl) t ht hset hex
  · intro t n v hn hv
    rw [hnode_old t (by simp [hn])] at hn
    exact h.value_result t n v hn hv
  · intro t ht
    rcases hdrops t with hsame | ⟨hnone, -⟩
    · rw [hsame]
      exact h.delivered_gone t ht
    · exact hnone

/-- Changes that leave the tasks of all groups alone. -/
theorem congr (h : TaskInv W q γ) (hmembers : q'.members = q.members)
    (hpending : q'.pendingCount = q.pendingCount)
    (hroots : q'.rootGroups = q.rootGroups)
    (htask : q'.taskNode = q.taskNode)
    (hrun : q'.runningTasks = q.runningTasks) : TaskInv W q' γ :=
  h.restrict (fun g => Or.inr ⟨congrFun hmembers g, congrFun hpending g⟩)
    (fun _ hg => hroots ▸ hg) (fun t => Or.inl (congrFun htask t)) hrun

/-- A new group has no tasks and is owed by none. -/
theorem create (h : TaskInv W q γ) {g₀ : G} (hfresh : g₀ ∉ γ.groups)
    (hnew : q'.members g₀ = some [] ∧ q'.pendingCount g₀ = some 0)
    (hold : ∀ g, g ≠ g₀ →
      q'.members g = q.members g ∧ q'.pendingCount g = q.pendingCount g)
    (hroots : q'.rootGroups = q.rootGroups) (hroot : g₀ ∉ q.rootGroups)
    (htask : q'.taskNode = q.taskNode)
    (hrun : q'.runningTasks = q.runningTasks) (origin : G → Option T) :
    TaskInv W q'
      { γ with groups := insert g₀ γ.groups, origin := origin } := by
  have hnot : ∀ t ∈ γ.tasks, g₀ ∉ W.groups t := fun t ht hg =>
    hfresh (h.task_groups t ht g₀ hg)
  have howed : γ.owed g₀ = 0 := by
    apply List.sum_eq_zero
    intro n hn
    obtain ⟨t, ht, rfl⟩ := List.mem_map.mp hn
    exact List.count_eq_zero.mpr fun hg =>
      hnot t ht (h.remaining_groups t g₀ hg)
  refine
    { tasks_nodup := h.tasks_nodup
      task_groups := fun t ht g hg => Or.inr (h.task_groups t ht g hg)
      settled_task := h.settled_task
      delivered_settled := h.delivered_settled
      remaining_groups := h.remaining_groups
      remaining_open := h.remaining_open
      remaining_done := h.remaining_done
      member := ?_
      members_nodup := ?_
      pending := ?_
      started := ?_
      running_open := hrun ▸ h.running_open
      running_nodup := hrun ▸ h.running_nodup
      open_running := by rw [htask, hrun]; exact h.open_running
      running_node := ?_
      node_task := by rw [htask]; exact h.node_task
      value := ?_
      value_result := by rw [htask]; exact h.value_result
      delivered_gone := by rw [htask]; exact h.delivered_gone
      delivered_nodup := h.delivered_nodup }
  · intro g l hl t
    by_cases hg : g = g₀
    · subst hg
      rw [hnew.1] at hl
      obtain rfl := Option.some.inj hl
      simp only [List.not_mem_nil, false_iff]
      rintro ⟨ht, hg, -⟩
      exact hnot t ht hg
    · exact h.member g l ((hold g hg).1 ▸ hl) t
  · intro g l hl
    by_cases hg : g = g₀
    · rw [hg, hnew.1] at hl
      obtain rfl := Option.some.inj hl
      exact List.nodup_nil
    · exact h.members_nodup g l ((hold g hg).1 ▸ hl)
  · intro g p hp
    by_cases hg : g = g₀
    · rw [hg, hnew.2] at hp
      obtain rfl := Option.some.inj hp
      have hsame : Ledger.owed
          { γ with groups := insert g₀ γ.groups, origin := origin } g =
            γ.owed g₀ := by rw [hg]; rfl
      rw [hsame, howed]
      rfl
    · exact h.pending g p ((hold g hg).2 ▸ hp)
  · intro g hg l hl t ht hex
    rw [hroots] at hg
    have hne : g ≠ g₀ := fun heq => hroot (heq ▸ hg)
    rw [htask]
    exact h.started g hg l ((hold g hne).1 ▸ hl) t ht hex
  · intro t ht g hg hlive
    rw [hrun] at ht
    rw [htask]
    have hne : g ≠ g₀ := fun heq =>
      hnot t (h.running_open t ht).1 (heq ▸ hg)
    obtain ⟨l, hl⟩ := members_of_alive hlive
    exact h.running_node t ht g hg
      (alive_of_members ((hold g hne).1 ▸ hl))
  · intro g l hl t ht hset hex
    rw [htask]
    by_cases hg : g = g₀
    · rw [hg, hnew.1] at hl
      obtain rfl := Option.some.inj hl
      simp at ht
    · exact h.value g l ((hold g hg).1 ▸ hl) t ht hset hex

/-- Adding a new task to its groups, started if one of them is a root. -/
theorem addTask (h : TaskInv W q γ) {task : T} (hfresh : task ∉ γ.tasks)
    (hgroups : ∀ g ∈ W.groups task, g ∈ γ.groups)
    (hroot : ∀ g ∈ q.rootGroups, q.Alive g) :
    TaskInv W (addTask W q task) { γ with tasks := γ.tasks ++ [task] } := by
  obtain ⟨hnode, ⟨hroots, -⟩, htask, hrun, hnodup⟩ :=
    foldl_addTaskToGroup q task (W.groups task)
  have hopen : task ∉ γ.settled := fun hs => hfresh (h.settled_task task hs)
  have hnone : q.taskNode task = none := by
    by_contra hne
    exact hfresh (h.node_task task hne)
  have hidle : task ∉ q.runningTasks := fun hr =>
    hfresh (h.running_open task hr).1
  have hmembers : ∀ g, (WorkQueue.addTask W q task).members g =
      (q.members g).map fun l =>
        if g ∈ W.groups task then OrderedSet.add l task else l := by
    intro g
    simp only [members, WorkQueue.addTask, hnode g, Option.map_map]
    rfl
  have hpending : ∀ g, (WorkQueue.addTask W q task).pendingCount g =
      (q.pendingCount g).map fun p => p + ((W.groups task).count g : ℤ) := by
    intro g
    simp only [pendingCount, WorkQueue.addTask, hnode g, Option.map_map]
    rfl
  have halive : ∀ g, (WorkQueue.addTask W q task).Alive g ↔ q.Alive g := by
    intro g
    simp [Alive, WorkQueue.addTask, hnode g]
  have howed : ∀ g, Ledger.owed { γ with tasks := γ.tasks ++ [task] } g =
      γ.owed g + (W.groups task).count g := by
    intro g
    simp [Ledger.owed, h.remaining_open task hopen]
  have hother : ∀ t, t ≠ task →
      (WorkQueue.addTask W q task).taskNode t = q.taskNode t := by
    intro t ht
    refine (htask t).trans (if_neg ?_)
    exact fun hc => ht hc.1
  have hstep : ∀ t n, (WorkQueue.addTask W q task).taskNode t = some n →
      (t = task ∧ n = {}) ∨ q.taskNode t = some n := by
    intro t n hn
    have hcase := (htask t).symm.trans hn
    split at hcase
    · next hc => exact Or.inl ⟨hc.1, (Option.some.inj hcase).symm⟩
    · exact Or.inr hcase
  have hmem : ∀ g l, (WorkQueue.addTask W q task).members g = some l →
      ∃ old, q.members g = some old ∧
        ∀ t, t ∈ l ↔ t ∈ old ∨ (t = task ∧ g ∈ W.groups task) := by
    intro g l hl
    rw [hmembers g] at hl
    obtain ⟨old, hold, rfl⟩ := Option.map_eq_some_iff.mp hl
    refine ⟨old, hold, fun t => ?_⟩
    split
    · next hg => simp [hg]
    · next hg => simp [hg]
  refine
    { tasks_nodup := ?_
      task_groups := ?_
      settled_task := fun t ht => List.mem_append_left _ (h.settled_task t ht)
      delivered_settled := h.delivered_settled
      remaining_groups := h.remaining_groups
      remaining_open := h.remaining_open
      remaining_done := h.remaining_done
      member := ?_
      members_nodup := ?_
      pending := ?_
      started := ?_
      running_open := ?_
      running_nodup := hnodup h.running_nodup fun _ => hidle
      open_running := ?_
      running_node := ?_
      node_task := ?_
      value := ?_
      value_result := ?_
      delivered_gone := ?_
      delivered_nodup := h.delivered_nodup }
  · rw [List.nodup_append]
    refine ⟨h.tasks_nodup, List.nodup_singleton task, ?_⟩
    rintro t ht t' ht' rfl
    exact hfresh (List.mem_singleton.mp ht' ▸ ht)
  · intro t ht g hg
    rcases List.mem_append.mp ht with ht | ht
    · exact h.task_groups t ht g hg
    · exact hgroups g (List.mem_singleton.mp ht ▸ hg)
  · intro g l hl t
    obtain ⟨old, hold, hiff⟩ := hmem g l hl
    rw [hiff t, h.member g old hold t]
    constructor
    · rintro (⟨ht, hg, hd⟩ | ⟨rfl, hg⟩)
      · exact ⟨List.mem_append_left _ ht, hg, hd⟩
      · exact ⟨by simp, hg, fun hd => hopen (h.delivered_settled t hd)⟩
    · rintro ⟨ht, hg, hd⟩
      rcases List.mem_append.mp ht with ht | ht
      · exact Or.inl ⟨ht, hg, hd⟩
      · obtain rfl := List.mem_singleton.mp ht
        exact Or.inr ⟨rfl, hg⟩
  · intro g l hl
    rw [hmembers g] at hl
    obtain ⟨old, hold, rfl⟩ := Option.map_eq_some_iff.mp hl
    have hn := h.members_nodup g old hold
    split
    · exact OrderedSet.nodup_add task hn
    · exact hn
  · intro g p hp
    rw [hpending g] at hp
    obtain ⟨old, hold, rfl⟩ := Option.map_eq_some_iff.mp hp
    rw [h.pending g old hold, howed g]
    push_cast
    rfl
  · intro g hg l hl t ht hex
    have hg' : g ∈ q.rootGroups := hroots ▸ hg
    obtain ⟨old, hold, hiff⟩ := hmem g l hl
    have hlive := hroot g hg'
    rcases (hiff t).mp ht with ht | ⟨rfl, hgt⟩
    · have hne : t ≠ task := by
        rintro rfl
        exact hfresh ((h.member g old hold t).mp ht).1
      rw [hother t hne]
      exact h.started g hg' old hold t ht hex
    · intro hnode'
      have hsome := (htask t).symm.trans hnode'
      rw [if_pos ⟨rfl, ⟨g, hgt, hlive, hg'⟩, hnone⟩] at hsome
      simp at hsome
  · intro t ht
    rcases (hrun t).mp ht with ht | ⟨rfl, -, -⟩
    · obtain ⟨ht, hs⟩ := h.running_open t ht
      exact ⟨List.mem_append_left _ ht, hs⟩
    · exact ⟨by simp, hopen⟩
  · intro t ht hs
    obtain ⟨n, hn⟩ := Option.ne_none_iff_exists'.mp ht
    refine (hrun t).mpr ?_
    by_cases heq : t = task
    · have hcase := (htask t).symm.trans hn
      split at hcase
      · next hc => exact Or.inr hc
      · rw [heq, hnone] at hcase
        simp at hcase
    · exact Or.inl (h.open_running t (hother t heq ▸ ht) hs)
  · intro t ht g hg hlive
    rcases (hrun t).mp ht with ht | ⟨heq, hs, hn⟩
    · have hne : t ≠ task := fun heq => hidle (heq ▸ ht)
      rw [hother t hne]
      exact h.running_node t ht g hg ((halive g).mp hlive)
    · intro hnode'
      have hsome := (htask t).symm.trans hnode'
      rw [if_pos ⟨heq, hs, hn⟩] at hsome
      simp at hsome
  · intro t ht
    obtain ⟨n, hn⟩ := Option.ne_none_iff_exists'.mp ht
    rcases hstep t n hn with ⟨rfl, -⟩ | hold
    · simp
    · exact List.mem_append_left _ (h.node_task t (by simp [hold]))
  · intro g l hl t ht hset hex
    obtain ⟨old, hold, hiff⟩ := hmem g l hl
    have hne : t ≠ task := fun heq => hopen (heq ▸ hset)
    rw [hother t hne]
    exact h.value g old hold t
      (((hiff t).mp ht).resolve_right fun hc => hne hc.1) hset hex
  · intro t n v hn hv
    rcases hstep t n hn with ⟨-, rfl⟩ | hold
    · simp at hv
    · exact h.value_result t n v hold hv
  · intro t ht
    have hne : t ≠ task := fun heq =>
      hopen (heq ▸ h.delivered_settled t ht)
    rw [hother t hne]
    exact h.delivered_gone t ht

/-- Making a group a root starts the tasks it holds. -/
theorem promoteGroup (h : TaskInv W q γ) (g₀ : G)
    (hexcused : γ.excused = ∅) :
    TaskInv W (q.promoteGroup g₀) γ := by
  set q₁ : WorkQueue G T S V :=
    { q with rootGroups := OrderedSet.add q.rootGroups g₀ } with hq₁
  set tasks := (q₁.members g₀).getD [] with htasks
  have heq : q.promoteGroup g₀ = tasks.foldl startTask q₁ :=
    startGroup_eq q₁ g₀
  have hsame := foldl_startTask_sameGraph q₁ tasks
  have htask := foldl_startTask_taskNode q₁ tasks
  have hrun := mem_foldl_startTask_runningTasks q₁ tasks
  rw [← heq] at hsame htask hrun
  have hmembers : (q.promoteGroup g₀).members = q.members := by
    funext g
    simp only [members, hsame.node]
    rfl
  have hpending : (q.promoteGroup g₀).pendingCount = q.pendingCount := by
    funext g
    simp only [pendingCount, hsame.node]
    rfl
  have hheld : ∀ t ∈ tasks, ∃ l, q.members g₀ = some l ∧ t ∈ l := by
    intro t ht
    have hmem : q₁.members g₀ = q.members g₀ := rfl
    rw [htasks, hmem] at ht
    cases hl : q.members g₀ with
    | none => simp [hl] at ht
    | some l => exact ⟨l, rfl, by simpa [hl] using ht⟩
  -- A task without a node that a live group holds is neither settled nor
  -- running.
  have hidle : ∀ t ∈ tasks, q.taskNode t = none →
      t ∉ γ.settled ∧ t ∉ q.runningTasks := by
    intro t ht hnone
    obtain ⟨l, hl, htl⟩ := hheld t ht
    have hg := ((h.member g₀ l hl t).mp htl).2.1
    constructor
    · intro hs
      obtain ⟨n, v, hn, -⟩ := h.value g₀ l hl t htl hs (by simp [hexcused])
      simp [hnone] at hn
    · exact fun hr =>
        h.running_node t hr g₀ hg (alive_of_members hl) hnone
  have htask' : ∀ t, (q.promoteGroup g₀).taskNode t =
      if t ∈ tasks ∧ q.taskNode t = none then some {} else q.taskNode t :=
    htask
  have hkeep : ∀ t, q.taskNode t ≠ none →
      (q.promoteGroup g₀).taskNode t = q.taskNode t := by
    intro t ht
    rw [htask' t, if_neg fun hc => ht hc.2]
  have hstep : ∀ t n, (q.promoteGroup g₀).taskNode t = some n →
      (t ∈ tasks ∧ n = {} ∧ q.taskNode t = none) ∨ q.taskNode t = some n := by
    intro t n hn
    rw [htask' t] at hn
    split at hn
    · next hc => exact Or.inl ⟨hc.1, (Option.some.inj hn).symm, hc.2⟩
    · exact Or.inr hn
  refine
    { h with
      member := by rw [hmembers]; exact h.member
      members_nodup := by rw [hmembers]; exact h.members_nodup
      pending := by rw [hpending]; exact h.pending
      started := ?_
      running_open := ?_
      running_nodup := ?_
      open_running := ?_
      running_node := ?_
      node_task := ?_
      value := ?_
      value_result := ?_
      delivered_gone := ?_ }
  · intro g hg l hl t ht hex
    rw [hmembers] at hl
    have hg' : g ∈ q.rootGroups ∨ g = g₀ := by
      have : g ∈ q₁.rootGroups := hsame.rootGroups ▸ hg
      simpa [hq₁] using this
    rcases hg' with hg' | rfl
    · have hne := h.started g hg' l hl t ht hex
      rw [hkeep t hne]
      exact hne
    · by_cases hne : q.taskNode t = none
      · have hmem : t ∈ tasks := by
          have : q₁.members g = some l := hl
          simpa [htasks, this] using ht
        rw [htask' t, if_pos ⟨hmem, hne⟩]
        simp
      · rw [hkeep t hne]
        exact hne
  · intro t ht
    rcases (hrun t).mp ht with ht | ⟨ht, hnone⟩
    · exact h.running_open t ht
    · obtain ⟨l, hl, htl⟩ := hheld t ht
      exact ⟨((h.member g₀ l hl t).mp htl).1, (hidle t ht hnone).1⟩
  · rw [heq]
    exact nodup_foldl_startTask_runningTasks h.running_nodup
      fun t ht hnone => (hidle t ht hnone).2
  · intro t ht hs
    obtain ⟨n, hn⟩ := Option.ne_none_iff_exists'.mp ht
    refine (hrun t).mpr ?_
    rcases hstep t n hn with ⟨hmem, -, hnone⟩ | hold
    · exact Or.inr ⟨hmem, hnone⟩
    · exact Or.inl (h.open_running t (by simp [hold]) hs)
  · intro t ht g hg hlive
    rcases (hrun t).mp ht with ht | ⟨hmem, hnone⟩
    · have hlive' : q.Alive g := by
        obtain ⟨l, hl⟩ := members_of_alive hlive
        exact alive_of_members (hmembers ▸ hl)
      have hne := h.running_node t ht g hg hlive'
      rw [hkeep t hne]
      exact hne
    · have hnone' : q.taskNode t = none := hnone
      rw [htask' t, if_pos ⟨hmem, hnone'⟩]
      simp
  · intro t ht
    obtain ⟨n, hn⟩ := Option.ne_none_iff_exists'.mp ht
    rcases hstep t n hn with ⟨hmem, -, -⟩ | hold
    · obtain ⟨l, hl, htl⟩ := hheld t hmem
      exact ((h.member g₀ l hl t).mp htl).1
    · exact h.node_task t (by simp [hold])
  · intro g l hl t ht hset hex
    rw [hmembers] at hl
    obtain ⟨n, v, hn, hv⟩ := h.value g l hl t ht hset hex
    exact ⟨n, v, by rw [hkeep t (by simp [hn]), hn], hv⟩
  · intro t n v hn hv
    rcases hstep t n hn with ⟨-, rfl, -⟩ | hold
    · simp at hv
    · exact h.value_result t n v hold hv
  · intro t ht
    rw [htask' t, if_neg]
    · exact h.delivered_gone t ht
    · rintro ⟨hmem, -⟩
      obtain ⟨l, hl, htl⟩ := hheld t hmem
      exact ((h.member g₀ l hl t).mp htl).2.2 ht

/-- The success of a running task is taken from the channel and its value
stored. -/
theorem settle (h : TaskInv W q γ) {task : T}
    (hrunning : task ∈ q.runningTasks) (v : V) (hcurrent : γ.current = none)
    (hnode : q'.node = q.node) (hroots : q'.rootGroups = q.rootGroups)
    (hrun : q'.runningTasks = q.runningTasks.erase task)
    (htask : ∀ t, q'.taskNode t =
      if t = task then (q.taskNode t).map fun n => { n with value := some v }
      else q.taskNode t) :
    TaskInv W q'
      { γ with
        settled := insert task γ.settled
        results := Function.update γ.results task (some v)
        current := some task } := by
  have hmembers : q'.members = q.members := by
    funext g
    simp only [members, hnode]
  have hpending : q'.pendingCount = q.pendingCount := by
    funext g
    simp only [pendingCount, hnode]
  have hnone : ∀ t, q'.taskNode t = none ↔ q.taskNode t = none := by
    intro t
    rw [htask t]
    split <;> simp
  have hmem_run : ∀ t, t ∈ q'.runningTasks ↔ t ∈ q.runningTasks ∧ t ≠ task := by
    intro t
    rw [hrun, h.running_nodup.mem_erase_iff, and_comm]
  refine
    { h with
      settled_task := ?_
      delivered_settled := fun t ht => Or.inr (h.delivered_settled t ht)
      remaining_open := fun t ht =>
        h.remaining_open t fun hs => ht (Or.inr hs)
      remaining_done := ?_
      member := by rw [hmembers]; exact h.member
      members_nodup := by rw [hmembers]; exact h.members_nodup
      pending := by rw [hpending]; exact h.pending
      started := ?_
      running_open := ?_
      running_nodup := hrun ▸ h.running_nodup.erase task
      open_running := ?_
      running_node := ?_
      node_task := ?_
      value := ?_
      value_result := ?_
      delivered_gone := ?_ }
  · rintro t (rfl | ht)
    · exact (h.running_open t hrunning).1
    · exact h.settled_task t ht
  · rintro t (rfl | ht) hne
    · exact absurd rfl hne
    · exact h.remaining_done t ht (by simp [hcurrent])
  · intro g hg l hl t ht hex
    rw [hmembers] at hl
    rw [Ne, hnone]
    exact h.started g (hroots ▸ hg) l hl t ht hex
  · intro t ht
    obtain ⟨ht, hne⟩ := (hmem_run t).mp ht
    obtain ⟨hold, hs⟩ := h.running_open t ht
    exact ⟨hold, fun hs' => hs'.elim hne hs⟩
  · intro t ht hs
    rw [Ne, hnone] at ht
    rw [Set.mem_insert_iff, not_or] at hs
    exact (hmem_run t).mpr ⟨h.open_running t ht hs.2, hs.1⟩
  · intro t ht g hg hlive
    rw [Ne, hnone]
    refine h.running_node t ((hmem_run t).mp ht).1 g hg ?_
    simpa [Alive, hnode] using hlive
  · intro t ht
    rw [Ne, hnone] at ht
    exact h.node_task t ht
  · intro g l hl t ht hset hex
    rw [hmembers] at hl
    by_cases heq : t = task
    · subst heq
      have hg := ((h.member g l hl t).mp ht).2.1
      obtain ⟨n, hn⟩ := Option.ne_none_iff_exists'.mp
        (h.running_node t hrunning g hg (alive_of_members hl))
      exact ⟨{ n with value := some v }, v, by simp [htask t, hn], rfl⟩
    · rw [htask t, if_neg heq]
      exact h.value g l hl t ht (hset.resolve_left heq) hex
  · intro t n w hn hw
    rw [htask t] at hn
    split at hn
    · next heq =>
      obtain ⟨m, -, rfl⟩ := Option.map_eq_some_iff.mp hn
      exact ⟨by simp only [heq, Function.update_self]; exact hw, Or.inl heq⟩
    · next hne =>
      obtain ⟨hr, hs⟩ := h.value_result t n w hn hw
      exact ⟨by simp only [Function.update_of_ne hne]; exact hr, Or.inr hs⟩
  · intro t ht
    rw [← Option.not_isSome_iff_eq_none, htask t, if_neg]
    · simp [h.delivered_gone t ht]
    · rintro rfl
      exact (h.running_open t hrunning).2 (h.delivered_settled t ht)

/-- The pending count of a group, if it still has one, gives up one occurrence
of a settled task. -/
theorem countdown (h : TaskInv W q γ) {task : T} {g₀ : G}
    {rest : List G} (hmem : task ∈ γ.tasks) (hset : task ∈ γ.settled)
    (hcurrent : γ.current = some task)
    (hremaining : γ.remaining task = g₀ :: rest) :
    TaskInv W
      (q.modifyNode g₀ fun n => { n with pending := n.pending - 1 })
      { γ with remaining := Function.update γ.remaining task rest } := by
  set q' := q.modifyNode g₀ fun n => { n with pending := n.pending - 1 } with hq'
  have hmembers : q'.members = q.members := by
    funext g
    simp only [members, hq', modifyNode_node]
    split
    · rw [Option.map_map]
      rfl
    · rfl
  have hpending : ∀ g, q'.pendingCount g =
      if g = g₀ then (q.pendingCount g).map (· - 1) else q.pendingCount g := by
    intro g
    simp only [pendingCount, hq', modifyNode_node]
    split
    · rw [Option.map_map, Option.map_map]
      rfl
    · rfl
  have halive : ∀ g, q'.Alive g ↔ q.Alive g := by
    intro g
    simp only [Alive, hq', modifyNode_node]
    split <;> simp
  have howed : ∀ g, γ.owed g =
      Ledger.owed { γ with remaining := Function.update γ.remaining task rest } g
        + if g = g₀ then 1 else 0 := by
    intro g
    obtain ⟨l₁, l₂, hl⟩ := List.append_of_mem hmem
    have hnodup := h.tasks_nodup
    rw [hl, List.nodup_append, List.nodup_cons] at hnodup
    have hsame : ∀ l : List T, task ∉ l →
        l.map (fun t => (Function.update γ.remaining task rest t).count g) =
          l.map fun t => (γ.remaining t).count g := by
      intro l hnot
      apply List.map_congr_left
      intro t ht
      rw [Function.update_of_ne]
      rintro rfl
      exact hnot ht
    have h₁ := hsame l₁ fun ht =>
      hnodup.2.2 task ht task List.mem_cons_self rfl
    have h₂ := hsame l₂ hnodup.2.1.1
    simp only [Ledger.owed, hl, List.map_append, List.map_cons,
      List.sum_append, List.sum_cons, h₁, h₂, Function.update_self, hremaining,
      List.count_cons, beq_iff_eq]
    by_cases hg : g = g₀
    · simp [hg]
      omega
    · simp [hg, Ne.symm hg]
  refine
    { h with
      remaining_groups := ?_
      remaining_open := ?_
      remaining_done := ?_
      member := by rw [hmembers]; exact h.member
      members_nodup := by rw [hmembers]; exact h.members_nodup
      pending := ?_
      started := by rw [hmembers]; exact h.started
      running_node := fun t ht g hg hlive =>
        h.running_node t ht g hg ((halive g).mp hlive)
      value := by rw [hmembers]; exact h.value }
  · intro t g hg
    by_cases heq : t = task
    · subst heq
      simp only [Function.update_self] at hg
      exact h.remaining_groups t g (hremaining ▸ List.mem_cons_of_mem _ hg)
    · simp only [Function.update_of_ne heq] at hg
      exact h.remaining_groups t g hg
  · intro t ht
    have hne : t ≠ task := fun heq => ht (heq ▸ hset)
    simp only [Function.update_of_ne hne]
    exact h.remaining_open t ht
  · intro t ht hne
    have hne' : t ≠ task := fun heq => hne (heq ▸ hcurrent)
    simp only [Function.update_of_ne hne']
    exact h.remaining_done t ht hne
  · intro g p hp
    rw [hpending g] at hp
    have hsum := howed g
    split at hp
    · next hg =>
      obtain ⟨old, hold, rfl⟩ := Option.map_eq_some_iff.mp hp
      rw [h.pending g old hold, hsum, if_pos hg]
      push_cast
      omega
    · next hg =>
      rw [if_neg hg, Nat.add_zero] at hsum
      rw [h.pending g p hp, hsum]

/-- Delivering tasks that are settled and have a node. -/
theorem deliver (h : TaskInv W q γ) {tasks : List T}
    (hnodup : tasks.Nodup) (hset : ∀ t ∈ tasks, t ∈ γ.settled)
    (hsome : ∀ t ∈ tasks, q.taskNode t ≠ none)
    (hnode : ∀ g, q'.node g = (q.node g).map
      (GroupNode.without · fun t =>
        (t ∈ tasks ∧ (q.taskNode t).isSome) ∧ g ∈ W.groups t))
    (hroots : q'.rootGroups = q.rootGroups)
    (hrun : q'.runningTasks = q.runningTasks)
    (htask : ∀ t, q'.taskNode t =
      if t ∈ tasks then none else q.taskNode t) :
    TaskInv W q' { γ with delivered := γ.delivered ++ tasks } := by
  have hmem : ∀ g l, q'.members g = some l → ∃ old, q.members g = some old ∧
      List.Sublist l old ∧ ∀ t, t ∈ l ↔ t ∈ old ∧ t ∉ tasks := by
    intro g l hl
    simp only [members, hnode g, Option.map_map] at hl
    obtain ⟨n, hn, rfl⟩ := Option.map_eq_some_iff.mp hl
    have hold : q.members g = some n.tasks := by simp [members, hn]
    refine ⟨n.tasks, hold, List.filter_sublist, fun t => ?_⟩
    simp only [Function.comp_apply, GroupNode.without, List.mem_filter,
      decide_not, Bool.not_eq_true', decide_eq_false_iff_not]
    refine and_congr_right fun ht => not_congr ⟨fun hc => hc.1.1, fun hc => ?_⟩
    exact ⟨⟨hc, Option.isSome_iff_ne_none.mpr (hsome t hc)⟩,
      ((h.member g n.tasks hold t).mp ht).2.1⟩
  have hpending : q'.pendingCount = q.pendingCount := by
    funext g
    simp only [pendingCount, hnode g, Option.map_map]
    rfl
  have hold : ∀ t, q'.taskNode t ≠ none →
      t ∉ tasks ∧ q'.taskNode t = q.taskNode t := by
    intro t ht
    rw [htask t] at ht ⊢
    split at ht
    · simp at ht
    · next hc => exact ⟨hc, if_neg hc⟩
  refine
    { h with
      delivered_settled := fun t ht =>
        (List.mem_append.mp ht).elim (h.delivered_settled t) (hset t)
      member := ?_
      members_nodup := ?_
      pending := by rw [hpending]; exact h.pending
      started := ?_
      running_open := hrun ▸ h.running_open
      running_nodup := hrun ▸ h.running_nodup
      open_running := ?_
      running_node := ?_
      node_task := fun t ht => h.node_task t ((hold t ht).2 ▸ ht)
      value := ?_
      value_result := ?_
      delivered_gone := ?_
      delivered_nodup := ?_ }
  · intro g l hl t
    obtain ⟨old, hmold, -, hiff⟩ := hmem g l hl
    rw [hiff t, h.member g old hmold t]
    simp only [List.mem_append, not_or]
    tauto
  · intro g l hl
    obtain ⟨old, hmold, hsub, -⟩ := hmem g l hl
    exact (h.members_nodup g old hmold).sublist hsub
  · intro g hg l hl t ht hex
    obtain ⟨old, hmold, -, hiff⟩ := hmem g l hl
    obtain ⟨htold, hnot⟩ := (hiff t).mp ht
    rw [htask t, if_neg hnot]
    exact h.started g (hroots ▸ hg) old hmold t htold hex
  · intro t ht hs
    rw [hrun]
    exact h.open_running t ((hold t ht).2 ▸ ht) hs
  · intro t ht g hg hlive
    rw [hrun] at ht
    have hnot : t ∉ tasks := fun hc => (h.running_open t ht).2 (hset t hc)
    rw [htask t, if_neg hnot]
    refine h.running_node t ht g hg ?_
    simpa [Alive, hnode g] using hlive
  · intro g l hl t ht hs hex
    obtain ⟨old, hmold, -, hiff⟩ := hmem g l hl
    obtain ⟨htold, hnot⟩ := (hiff t).mp ht
    rw [htask t, if_neg hnot]
    exact h.value g old hmold t htold hs hex
  · intro t n v hn hv
    rw [(hold t (by simp [hn])).2] at hn
    exact h.value_result t n v hn hv
  · intro t ht
    rw [htask t]
    split
    · rfl
    · next hnot =>
      exact h.delivered_gone t ((List.mem_append.mp ht).resolve_right hnot)
  · rw [List.nodup_append]
    refine ⟨h.delivered_nodup, hnodup, ?_⟩
    rintro t ht t' ht' rfl
    exact hsome t ht' (h.delivered_gone t ht)

/-- The failure of a running task is taken from the channel and its node
dropped. -/
theorem failBegin (h : TaskInv W q γ) {task : T}
    (hrunning : task ∈ q.runningTasks) (hcurrent : γ.current = none)
    (hnode : q'.node = q.node)
    (hroots : q'.rootGroups = q.rootGroups)
    (hrun : q'.runningTasks = q.runningTasks.erase task)
    (htask : ∀ t, q'.taskNode t = if t = task then none else q.taskNode t) :
    TaskInv W q'
      { γ with
        settled := insert task γ.settled
        current := some task
        excused := insert task γ.excused } := by
  have hmembers : q'.members = q.members := by
    funext g
    simp only [members, hnode]
  have hpending : q'.pendingCount = q.pendingCount := by
    funext g
    simp only [pendingCount, hnode]
  have hmem_run : ∀ t, t ∈ q'.runningTasks ↔ t ∈ q.runningTasks ∧ t ≠ task := by
    intro t
    rw [hrun, h.running_nodup.mem_erase_iff, and_comm]
  have hold : ∀ t, q'.taskNode t ≠ none →
      t ≠ task ∧ q'.taskNode t = q.taskNode t := by
    intro t ht
    rw [htask t] at ht ⊢
    split at ht
    · simp at ht
    · next hc => exact ⟨hc, if_neg hc⟩
  refine
    { h with
      settled_task := ?_
      delivered_settled := fun t ht => Or.inr (h.delivered_settled t ht)
      remaining_open := fun t ht =>
        h.remaining_open t fun hs => ht (Or.inr hs)
      remaining_done := ?_
      member := by rw [hmembers]; exact h.member
      members_nodup := by rw [hmembers]; exact h.members_nodup
      pending := by rw [hpending]; exact h.pending
      started := ?_
      running_open := ?_
      running_nodup := hrun ▸ h.running_nodup.erase task
      open_running := ?_
      running_node := ?_
      node_task := fun t ht => h.node_task t ((hold t ht).2 ▸ ht)
      value := ?_
      value_result := ?_
      delivered_gone := ?_ }
  · rintro t (rfl | ht)
    · exact (h.running_open t hrunning).1
    · exact h.settled_task t ht
  · rintro t (rfl | ht) hne
    · exact absurd rfl hne
    · exact h.remaining_done t ht (by simp [hcurrent])
  · intro g hg l hl t ht hex
    rw [hmembers] at hl
    rw [Set.mem_insert_iff, not_or] at hex
    rw [htask t, if_neg hex.1]
    exact h.started g (hroots ▸ hg) l hl t ht hex.2
  · intro t ht
    obtain ⟨ht, hne⟩ := (hmem_run t).mp ht
    obtain ⟨hmem, hs⟩ := h.running_open t ht
    exact ⟨hmem, fun hs' => hs'.elim hne hs⟩
  · intro t ht hs
    rw [Set.mem_insert_iff, not_or] at hs
    exact (hmem_run t).mpr
      ⟨h.open_running t ((hold t ht).2 ▸ ht) hs.2, hs.1⟩
  · intro t ht g hg hlive
    obtain ⟨ht, hne⟩ := (hmem_run t).mp ht
    rw [htask t, if_neg hne]
    refine h.running_node t ht g hg ?_
    simpa [Alive, hnode] using hlive
  · intro g l hl t ht hset hex
    rw [hmembers] at hl
    rw [Set.mem_insert_iff, not_or] at hex
    rw [htask t, if_neg hex.1]
    exact h.value g l hl t ht (hset.resolve_left hex.1) hex.2
  · intro t n v hn hv
    rw [(hold t (by simp [hn])).2] at hn
    obtain ⟨hr, hs⟩ := h.value_result t n v hn hv
    exact ⟨hr, Or.inr hs⟩
  · intro t ht
    rw [htask t]
    split
    · rfl
    · exact h.delivered_gone t ht

/-- A failed task whose groups are all gone needs no more attention. -/
theorem failEnd (h : TaskInv W q γ) {task : T}
    (hset : task ∈ γ.settled) (hcurrent : γ.current = some task)
    (hdead : ∀ g ∈ W.groups task, ¬q.Alive g) :
    TaskInv W q
      { γ with
        excused := γ.excused \ {task}
        current := none
        remaining := Function.update γ.remaining task [] } := by
  have hnot : ∀ g l, q.members g = some l → task ∉ l := by
    intro g l hl ht
    exact hdead g ((h.member g l hl task).mp ht).2.1 (alive_of_members hl)
  have hex : ∀ g l, q.members g = some l → ∀ t ∈ l, t ∉ γ.excused \ {task} →
      t ∉ γ.excused := by
    intro g l hl t ht hne hmem
    exact hne ⟨hmem, fun heq => hnot g l hl (heq ▸ ht)⟩
  refine
    { h with
      remaining_groups := ?_
      remaining_open := ?_
      remaining_done := ?_
      pending := ?_
      started := fun g hg l hl t ht hne =>
        h.started g hg l hl t ht (hex g l hl t ht hne)
      value := fun g l hl t ht hs hne =>
        h.value g l hl t ht hs (hex g l hl t ht hne) }
  · intro t g hg
    by_cases heq : t = task
    · subst heq
      simp at hg
    · simp only [Function.update_of_ne heq] at hg
      exact h.remaining_groups t g hg
  · intro t ht
    have hne : t ≠ task := fun heq => ht (heq ▸ hset)
    simp only [Function.update_of_ne hne]
    exact h.remaining_open t ht
  · intro t ht _
    by_cases heq : t = task
    · simp [heq]
    · simp only [Function.update_of_ne heq]
      exact h.remaining_done t ht (by simp [hcurrent, Ne.symm heq])
  · intro g p hp
    have hlive : q.Alive g := by
      cases hn : q.node g with
      | none => simp [pendingCount, hn] at hp
      | some n => exact alive_iff_node.mpr ⟨n, hn⟩
    rw [h.pending g p hp]
    simp only [Ledger.owed]
    congr 2
    apply List.map_congr_left
    intro t ht
    by_cases heq : t = task
    · subst heq
      simp only [Function.update_self, List.count_nil, List.count_eq_zero]
      exact fun hg => hdead g (h.remaining_groups t g hg) hlive
    · simp only [Function.update_of_ne heq]

/-- Attaching streams to a task node. -/
theorem attach (h : TaskInv W q γ) {f : T → List S → List S}
    (hnode : q'.node = q.node) (hroots : q'.rootGroups = q.rootGroups)
    (hrun : q'.runningTasks = q.runningTasks)
    (htask : ∀ t, q'.taskNode t = (q.taskNode t).map fun n =>
      { n with childStreams := f t n.childStreams }) :
    TaskInv W q' γ := by
  have hmembers : q'.members = q.members := by
    funext g
    simp only [members, hnode]
  have hpending : q'.pendingCount = q.pendingCount := by
    funext g
    simp only [pendingCount, hnode]
  have hnone : ∀ t, q'.taskNode t = none ↔ q.taskNode t = none := by
    intro t
    rw [htask t, Option.map_eq_none_iff]
  refine
    { h with
      member := by rw [hmembers]; exact h.member
      members_nodup := by rw [hmembers]; exact h.members_nodup
      pending := by rw [hpending]; exact h.pending
      started := ?_
      running_open := hrun ▸ h.running_open
      running_nodup := hrun ▸ h.running_nodup
      open_running := ?_
      running_node := ?_
      node_task := ?_
      value := ?_
      value_result := ?_
      delivered_gone := fun t ht => (hnone t).mpr (h.delivered_gone t ht) }
  · intro g hg l hl t ht hex
    rw [hmembers] at hl
    rw [Ne, hnone]
    exact h.started g (hroots ▸ hg) l hl t ht hex
  · intro t ht hs
    rw [hrun]
    rw [Ne, hnone] at ht
    exact h.open_running t ht hs
  · intro t ht g hg hlive
    rw [hrun] at ht
    rw [Ne, hnone]
    refine h.running_node t ht g hg ?_
    simpa [Alive, hnode] using hlive
  · intro t ht
    rw [Ne, hnone] at ht
    exact h.node_task t ht
  · intro g l hl t ht hs hex
    rw [hmembers] at hl
    obtain ⟨n, v, hn, hv⟩ := h.value g l hl t ht hs hex
    exact ⟨{ n with childStreams := f t n.childStreams }, v,
      by simp [htask t, hn], hv⟩
  · intro t n v hn hv
    rw [htask t] at hn
    obtain ⟨m, hm, rfl⟩ := Option.map_eq_some_iff.mp hn
    exact h.value_result t m v hm hv

/-- A task whose groups have all been counted down needs no more attention. -/
theorem settleEnd (h : TaskInv W q γ) {task : T}
    (hremaining : γ.remaining task = []) (hcurrent : γ.current = some task) :
    TaskInv W q { γ with current := none } :=
  { h with
    remaining_done := by
      intro t ht _
      by_cases heq : t = task
      · exact heq ▸ hremaining
      · exact h.remaining_done t ht (by simp [hcurrent, Ne.symm heq]) }

end TaskInv

end GraphqlCore.Incremental
