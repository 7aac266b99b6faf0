import GraphqlCore.Incremental.Reachability
import Mathlib.Algebra.Order.BigOperators.Group.List
import Mathlib.Algebra.Order.Ring.Nat

/-!
# Progress of the work queue

While handling the success of a task, the queue counts down the groups of the
task one after the other.  A group that is found below a finished group is
promoted with the count it has at that moment, and when the same task counts it
down later in the loop, nobody looks at its count again.  The queue makes
progress in the runs in which every group found this way is still waited for by
another task.
-/

set_option linter.unusedSectionVars false

namespace GraphqlCore.Incremental

open WorkQueue

variable {G T S V I E : Type} [DecidableEq G] [DecidableEq T] [DecidableEq S]
  {W : WorkGraph G T} {C : Conditions G T S V}

/-- The groups that are promoted when `group` finishes: its descendants with
pending tasks, found by pruning those without. -/
def WorkQueue.Promotes (q : WorkQueue G T S V) (group g : G) : Prop :=
  ∃ children, q.kids group = some children ∧
    (g ∈ children ∨ ∃ p, Prunable q.kids q.pendingCount children p ∧
      ∃ cs, q.kids p = some cs ∧ g ∈ cs)

/-- Every group promoted when `group` finishes has more pending tasks than the
rest of the loop will count down. -/
def WorkQueue.PromotedWaits (q : WorkQueue G T S V) (group : G)
    (rest : List G) : Prop :=
  ∀ g p, q.Promotes group g → q.pendingCount g = some p → p ≠ 0 →
    (rest.count g : ℤ) < p

def progressConditions (G T S V : Type) [DecidableEq G] :
    Conditions G T S V where
  finish := WorkQueue.PromotedWaits

/-- The groups that finish in a stage of a run that meets the conditions leave
groups behind that are waited for. -/
def Stage.LeavesWaiting (C : Conditions G T S V) (s : Stage G T S V I E) :
    Prop :=
  ∀ task group rest, s.ledger.current = some task →
    s.ledger.remaining task = group :: rest → s.queue.Finishes group →
    C.finish s.queue group rest → s.queue.PromotedWaits group rest

/-- Root groups have pending tasks, and groups to be promoted have tasks that
are not settled. -/
structure Waiting (W : WorkGraph G T) (s : Stage G T S V I E) : Prop where
  roots : ∀ g ∈ s.queue.rootGroups, ∀ p, s.queue.pendingCount g = some p →
    0 < p
  limbo : ∀ g ∈ s.limbo, ∃ t ∈ s.ledger.tasks, t ∉ s.ledger.settled ∧
    g ∈ W.groups t

namespace Inv

variable {s : Stage G T S V I E}

/-- A group with an open task has a positive pending count. -/
theorem pending_pos (h : Inv W s) {g : G} {t : T} (ht : t ∈ s.ledger.tasks)
    (hopen : t ∉ s.ledger.settled) (hg : g ∈ W.groups t) {p : ℤ}
    (hp : s.queue.pendingCount g = some p) : 0 < p := by
  rw [h.tasks.pending g p hp]
  have hterm : 0 < (s.ledger.remaining t).count g := by
    rw [h.tasks.remaining_open t hopen]
    exact List.count_pos_iff.mpr hg
  have hsum : (s.ledger.remaining t).count g ≤ s.ledger.owed g :=
    List.single_le_sum (fun _ _ => Nat.zero_le _) _
      (List.mem_map.mpr ⟨t, ht, rfl⟩)
  exact_mod_cast lt_of_lt_of_le hterm hsum

/-- A group with more pending tasks than those that the current task still has
to count down has an open task. -/
theorem exists_open (h : Inv W s) {g : G} {p : ℤ}
    (hp : s.queue.pendingCount g = some p)
    (hlt : (((s.ledger.current.elim [] s.ledger.remaining).count g : ℕ) : ℤ) <
      p) :
    ∃ t ∈ s.ledger.tasks, t ∉ s.ledger.settled ∧ g ∈ W.groups t := by
  by_contra hnone
  push Not at hnone
  rw [h.tasks.pending g p hp, Nat.cast_lt] at hlt
  -- Only the current task can contribute to the count.
  have hzero : ∀ t ∈ s.ledger.tasks, s.ledger.current ≠ some t →
      (s.ledger.remaining t).count g = 0 := by
    intro t ht hne
    rw [List.count_eq_zero]
    by_cases hs : t ∈ s.ledger.settled
    · simp [h.tasks.remaining_done t hs hne]
    · rw [h.tasks.remaining_open t hs]
      exact hnone t ht hs
  have hle : s.ledger.owed g ≤
      (s.ledger.current.elim [] s.ledger.remaining).count g := by
    have hnodup := h.tasks.tasks_nodup
    unfold Ledger.owed
    generalize s.ledger.tasks = tasks at hzero hnodup
    induction tasks with
    | nil => simp
    | cons t rest ih =>
        rw [List.nodup_cons] at hnodup
        rw [List.map_cons, List.sum_cons]
        by_cases hc : s.ledger.current = some t
        · have hrest : (rest.map fun t =>
              (s.ledger.remaining t).count g).sum = 0 := by
            apply List.sum_eq_zero
            intro n hn
            obtain ⟨t', ht', rfl⟩ := List.mem_map.mp hn
            refine hzero t' (List.mem_cons_of_mem _ ht') ?_
            rw [hc]
            rintro heq
            exact hnodup.1 (Option.some.inj heq ▸ ht')
          rw [hrest, hc]
          simp
        · rw [hzero t List.mem_cons_self hc, Nat.zero_add]
          exact ih (fun t' ht' => hzero t' (List.mem_cons_of_mem _ ht'))
            hnodup.2
  omega

end Inv

/-! ## What one move preserves -/

theorem Waiting.congr {s s' : Stage G T S V I E} (h : Waiting W s)
    (hroots : ∀ g ∈ s'.queue.rootGroups, g ∈ s.queue.rootGroups)
    (hpending : ∀ g p, s'.queue.pendingCount g = some p →
      s.queue.pendingCount g = some p)
    (hlimbo : s'.limbo = [] ∨ (s'.limbo = s.limbo ∧
      s'.ledger.tasks = s.ledger.tasks ∧
      s'.ledger.settled = s.ledger.settled)) : Waiting W s' where
  roots := fun g hg p hp => h.roots g (hroots g hg) p (hpending g p hp)
  limbo := by
    rcases hlimbo with hnil | ⟨heq, htasks, hsettled⟩
    · simp [hnil]
    · rw [heq, htasks, hsettled]
      exact h.limbo

theorem Waiting.move {s s' : Stage G T S V I E} (hinv : Inv W s)
    (h : Waiting W s) (hC : s.LeavesWaiting C) (hmove : Move W C s s') :
    Waiting W s' := by
  cases hmove with
  | create parentTask group hfresh hlimbo _ =>
      have hroots := (createGroup_eq W parentTask
        (s.queue, s.found) group).2.1.rootGroups
      refine ⟨?_, by simp [hlimbo]⟩
      intro g hg p hp
      rw [hroots] at hg
      have hne : g ≠ group := by
        rintro rfl
        exact hfresh (hinv.alive_introduced (hinv.root_alive hg))
      rw [createGroup_pendingCount W parentTask _ hne] at hp
      exact h.roots g hg p hp
  | addTask task hfresh hgroups hlimbo =>
      refine ⟨?_, by simp [hlimbo]⟩
      intro g hg p hp
      rw [addTask_rootGroups] at hg
      rw [addTask_pendingCount] at hp
      obtain ⟨old, hold, rfl⟩ := Option.map_eq_some_iff.mp hp
      have hpos := h.roots g hg old hold
      omega
  | addStreams parentTask streams =>
      refine h.congr ?_ ?_ (Or.inr ⟨rfl, rfl, rfl⟩)
      · cases parentTask <;> exact fun g hg => hg
      · cases parentTask <;> exact fun g p hp => hp
  | prune hcurrent =>
      obtain ⟨gone, hprune⟩ :=
        pruneEmptyGroups_prunes s.queue.groupNodes s.found
      have hkept : ∀ g p, pendingCount { s.queue with
          groupNodes := (pruneEmptyGroups s.queue.groupNodes s.found).1 } g =
            some p → s.queue.pendingCount g = some p := by
        intro g p hp
        by_cases hg : g ∈ gone
        · simp [pendingCount, node, hprune.get_gone g hg] at hp
        · simpa [pendingCount, node, hprune.get_kept g hg] using hp
      refine ⟨fun g hg p hp => h.roots g hg p (hkept g p hp), ?_⟩
      intro g hg
      rcases List.mem_append.mp hg with hg | hg
      · exact h.limbo g hg
      · obtain ⟨n, hn, hne⟩ := hprune.out_pending g hg
        have hp : s.queue.pendingCount g = some n.pending := by
          simp [pendingCount, node, hn]
        have howed := hinv.tasks.pending g _ hp
        refine hinv.exists_open hp ?_
        rw [hcurrent]
        simp only [Option.elim_none, List.count_nil]
        omega
  | promote group rest hlimbo hexcused =>
      constructor
      · intro g hg p hp
        rw [promoteGroup_rootGroups, OrderedSet.mem_add] at hg
        rw [promoteGroup_pendingCount] at hp
        rcases hg with hg | rfl
        · exact h.roots g hg p hp
        · obtain ⟨t, ht, hopen, hgt⟩ :=
            h.limbo g (hlimbo ▸ List.mem_cons_self)
          exact hinv.pending_pos ht hopen hgt hp
      · intro g hg
        exact h.limbo g (hlimbo ▸ List.mem_cons_of_mem _ hg)
  | promoteStream stream rest =>
      exact h.congr (fun g hg => hg) (fun g p hp => hp)
        (Or.inr ⟨rfl, rfl, rfl⟩)
  | settle task value _ _ hlimbo =>
      exact h.congr (fun g hg => hg) (fun g p hp => hp) (Or.inl hlimbo)
  | countdown task group rest hcurrent hremaining hnot =>
      refine ⟨?_, h.limbo⟩
      intro g hg p hp
      rw [modifyNode_rootGroups] at hg
      rw [modifyNode_pendingCount s.queue group g (· - 1)] at hp
      split at hp
      · next heq =>
        obtain ⟨old, hold, rfl⟩ := Option.map_eq_some_iff.mp hp
        have hpos := h.roots g hg old hold
        have hne : old ≠ 1 := by
          rintro rfl
          exact hnot (heq ▸ ⟨hg, hold⟩)
        omega
      · exact h.roots g hg p hp
  | finish task group rest n n' hcurrent hremaining hfinishes hexcused _ _
      hfound hn hn' hcond r hr =>
      have hmembers : s.queue.members group = some n.tasks := by
        simp [members, hn]
      obtain ⟨⟨gone, hfin⟩, -⟩ :=
        finishGroupSuccess_finished (I := I) (E := E) W s.queue group n n'
          (by rw [hn']) (by rw [hn'])
          (hinv.tasks.members_nodup group _ hmembers)
      rw [← hr] at hfin
      constructor
      · intro g hg p hp
        rw [hfin.rootGroups, OrderedSet.mem_remove] at hg
        by_cases hgone : g ∈ gone
        · simp [pendingCount, hfin.node_gone g hgone] at hp
        · rw [pendingCount, hfin.node_kept g hgone hg.2, Option.map_map] at hp
          exact h.roots g hg.1 p hp
      · intro g hg
        rcases List.mem_append.mp hg with hg | hg
        · exact h.limbo g hg
        · obtain ⟨m, hm, hne, hng⟩ := hfin.out_pending g hg
          have hp : s.queue.pendingCount g = some m.pending := by
            simp [pendingCount, hm]
          have hpromotes : s.queue.Promotes group g := by
            refine ⟨n.childGroups, by simp [kids, hn], ?_⟩
            rcases hfin.out_reached g hg with hc | ⟨p, hpg, hc⟩
            · exact Or.inl hc
            · exact Or.inr ⟨p, hfin.prunable p hpg, hc⟩
          have hlt := hC task group rest hcurrent hremaining hfinishes hcond
            g m.pending hpromotes hp hne
          refine hinv.exists_open hp ?_
          rw [hcurrent]
          simp only [Option.elim_some, hremaining]
          rw [List.count_cons_of_ne (Ne.symm hng)]
          exact hlt
  | settleEnd task _ _ hlimbo =>
      exact h.congr (fun g hg => hg) (fun g p hp => hp) (Or.inl hlimbo)
  | failBegin task _ _ hlimbo =>
      exact h.congr (fun g hg => hg) (fun g p hp => hp) (Or.inl hlimbo)
  | fail group error _ hlimbo _ _ _ r hr =>
      obtain ⟨gone, hremoves⟩ := removeGroup_removes W s.queue [group]
      refine h.congr ?_ ?_ (Or.inl hlimbo)
      · intro g hg
        rw [hr] at hg
        have hg' : g ∈ OrderedSet.remove
            (removeGroup W s.queue [group]).rootGroups group := hg
        rw [OrderedSet.mem_remove, hremoves.frame.rootGroups] at hg'
        exact hg'.1
      · intro g p hp
        rw [hr] at hp
        have hp' : (removeGroup W s.queue [group]).pendingCount g = some p := hp
        by_cases hg : g ∈ gone
        · simp [pendingCount, hremoves.node_gone g hg] at hp'
        · rwa [pendingCount, hremoves.node_kept g hg] at hp'
  | failEnd task =>
      exact h.congr (fun g hg => hg) (fun g p hp => hp)
        (Or.inr ⟨rfl, rfl, rfl⟩)
  | streamValues stream values _ hlimbo =>
      exact h.congr (fun g hg => hg) (fun g p hp => hp) (Or.inl hlimbo)
  | streamStop stream =>
      exact h.congr (fun g hg => hg) (fun g p hp => hp)
        (Or.inr ⟨rfl, rfl, rfl⟩)
  | streamEnd stream =>
      exact h.congr (fun g hg => hg) (fun g p hp => hp)
        (Or.inr ⟨rfl, rfl, rfl⟩)
  | streamExit stream =>
      exact h.congr (fun g hg => hg) (fun g p hp => hp)
        (Or.inr ⟨rfl, rfl, rfl⟩)
  | streamFail stream =>
      exact h.congr (fun g hg => hg) (fun g p hp => hp)
        (Or.inr ⟨rfl, rfl, rfl⟩)

/-! ## The loop is never stuck -/

/-- Every root group waits for a task that is running, and when nothing is
running any more, no root is left and the loop terminates: it has done so, or
does so when it closes the batch it is in. -/
structure EventLoop.Progressing (W : WorkGraph G T)
    (c : EventLoop G T S V I E) : Prop where
  roots : ∀ g ∈ c.queue.rootGroups, ∃ t ∈ c.history.tasks,
    g ∈ W.groups t ∧ t ∈ c.queue.runningTasks
  quiescent : c.queue.runningTasks = [] → c.queue.pumpTasks = [] →
    c.queue.rootGroups = [] ∧ c.queue.rootStreams = [] ∧
      (.termination ∈ c.batches.flatten ∨
        c.handling = true ∧ .termination ∈ c.flush.batches.flatten)

/-- The initial work gives a root group or stream to wait for. -/
def HasRoots (V : Type) (W : WorkGraph G T) (work : Option (Work G T S)) :
    Prop :=
  (WorkQueue.init W work : WorkQueue G T S V).rootGroups ≠ [] ∨
    (WorkQueue.init W work : WorkQueue G T S V).rootStreams ≠ []

theorem startRoots_roots (q : WorkQueue G T S V) :
    (startRoots q).rootGroups = q.rootGroups ∧
      (startRoots q).rootStreams = q.rootStreams := by
  have hstreams : ∀ (streams : List S) (q : WorkQueue G T S V),
      (streams.foldl startStream q).rootGroups = q.rootGroups ∧
        (streams.foldl startStream q).rootStreams = q.rootStreams := by
    intro streams
    induction streams with
    | nil => exact fun q => ⟨rfl, rfl⟩
    | cons x rest ih => exact fun q => ih (q.startStream x)
  have hgroups := foldl_startGroup_withRoots q.rootGroups q q.rootGroups
    q.rootStreams
  have h := hstreams q.rootStreams (q.rootGroups.foldl startGroup q)
  have h₁ := congrArg WorkQueue.rootGroups hgroups
  have h₂ := congrArg WorkQueue.rootStreams hgroups
  exact ⟨h.1.trans h₁, h.2.trans h₂⟩

/-- A loop that has stopped has said so, and one that waits for an event has a
root. -/
theorem Reachable.stopped_or_roots {work : Option (Work G T S)}
    {c : EventLoop G T S V I E} (hinitial : HasRoots V W work)
    (h : Reachable W C work c) :
    (c.queue.stopped = true → .termination ∈ c.batches.flatten) ∧
      (c.queue.stopped = false → c.handling = false →
        c.queue.rootGroups ≠ [] ∨ c.queue.rootStreams ≠ []) := by
  induction h with
  | start hfresh hmeets =>
      obtain ⟨s₁, hs₁⟩ := start_started (I := I) (E := E) hfresh hmeets
      have hnot := hs₁.inv.not_stopped
      rw [hs₁.queue] at hnot
      refine ⟨fun hs => absurd (hs.symm.trans hnot) (by decide), fun _ _ => ?_⟩
      obtain ⟨hgroups, hstreams⟩ :=
        startRoots_roots (WorkQueue.init W work : WorkQueue G T S V)
      rcases hinitial with hinitial | hinitial
      · left
        exact fun hnil => hinitial (hgroups.symm.trans hnil)
      · right
        exact fun hnil => hinitial (hstreams.symm.trans hnil)
  | handle h event hrun hlegal hmeets _ =>
      refine ⟨fun hs => ?_, fun _ hhandling => by cases hhandling⟩
      obtain ⟨s₁, s, hs₁, hmoves, htracks⟩ := h.tracked
      obtain ⟨-, -, -, hnot⟩ := htracks.handle (hs₁.inv.moves hmoves) hrun
        hlegal hmeets
      exact absurd (hs.symm.trans hnot) (by decide)
  | @flush c _ hrun _ _ =>
      unfold EventLoop.flush
      split
      · exact ⟨fun _ => by simp, fun hs => by cases hs⟩
      · next hroots =>
        refine ⟨fun hs => absurd (hs.symm.trans hrun) (by decide), ?_⟩
        intro _ _
        exact not_and_or.mp hroots
  | @discard c _ event hstopped ih =>
      have hsame : (c.discard event).queue.stopped = true ∧
          (c.discard event).batches = c.batches := by
        cases event <;> exact ⟨hstopped, rfl⟩
      rw [hsame.1, hsame.2]
      exact ⟨fun _ => ih.1 hstopped, fun hs => by cases hs⟩

/-- Where root groups have pending tasks, a task of theirs is running. -/
theorem Waiting.exists_running {c : EventLoop G T S V I E}
    {s : Stage G T S V I E} (h : Waiting W s) (hinv : Inv W s)
    (htracks : Tracks c s) {g : G} (hg : g ∈ c.queue.rootGroups) :
    ∃ t ∈ c.history.tasks, g ∈ W.groups t ∧ t ∈ c.queue.runningTasks := by
  have hrun : c.queue.stopped = false := by
    by_contra hstopped
    rw [Bool.not_eq_false] at hstopped
    rw [(htracks.stopped hstopped).1] at hg
    cases hg
  rw [← htracks.rootGroups] at hg
  rw [← htracks.history, ← htracks.running hrun]
  obtain ⟨n, hn⟩ := alive_iff_node.mp (hinv.root_alive hg)
  have hpending : s.queue.pendingCount g = some n.pending := by
    simp [pendingCount, hn]
  obtain ⟨t, ht, hopen, hgt⟩ := hinv.exists_open hpending (by
    rw [htracks.idle.current]
    exact h.roots g hg _ hpending)
  have hmembers : s.queue.members g = some n.tasks := by
    simp [members, hn]
  have hmem : t ∈ n.tasks := (hinv.tasks.member g _ hmembers t).mpr
    ⟨ht, hgt, fun hd => hopen (hinv.tasks.delivered_settled t hd)⟩
  have hnode := hinv.tasks.started g hg _ hmembers t hmem
    (by simp [htracks.idle.excused])
  exact ⟨t, ht, hgt, hinv.tasks.open_running t hnode hopen⟩

theorem Waiting.roots_nil {c : EventLoop G T S V I E} {s : Stage G T S V I E}
    (h : Waiting W s) (hinv : Inv W s) (htracks : Tracks c s)
    (htasks : c.queue.runningTasks = []) : c.queue.rootGroups = [] := by
  rw [List.eq_nil_iff_forall_not_mem]
  intro g hg
  obtain ⟨t, -, -, ht⟩ := h.exists_running hinv htracks hg
  rw [htasks] at ht
  cases ht

theorem waiting_empty : Waiting W (Stage.empty W : Stage G T S V I E) :=
  ⟨by simp [Stage.empty], by simp [Stage.empty]⟩

/-- **Progress.**  In a run that starts with a root and in which every group
that is promoted while a task is counted down has another task to wait for, the
loop is never stuck. -/
theorem reachable_progressing {work : Option (Work G T S)}
    {c : EventLoop G T S V I E} (hinitial : HasRoots V W work)
    (h : Reachable W (progressConditions G T S V) work c) :
    c.Progressing W := by
  obtain ⟨s, hinv, hwaiting, htracks⟩ := h.stage (P := Waiting W) waiting_empty
    (fun s s' hinv hs hmove =>
      hs.move hinv (fun _ _ _ _ _ _ hcond => hcond) hmove)
    (fun s hs => ⟨hs.roots, hs.limbo⟩)
  refine ⟨fun g hg => hwaiting.exists_running hinv htracks hg,
    fun htasks hpumps => ?_⟩
  have hnil := hwaiting.roots_nil hinv htracks htasks
  obtain ⟨hdone, hidle⟩ := h.stopped_or_roots hinitial
  cases hstopped : c.queue.stopped with
  | true => exact ⟨hnil, (htracks.stopped hstopped).2, Or.inl (hdone hstopped)⟩
  | false =>
      have hstreams : c.queue.rootStreams = [] := by
        rw [List.eq_nil_iff_forall_not_mem]
        intro x hx
        have hroot := hinv.streams.root_iff x
        rw [htracks.running hstopped, hpumps] at hroot
        exact absurd (hroot.mp hx).1 (by simp)
      refine ⟨hnil, hstreams, Or.inr ⟨?_, ?_⟩⟩
      · by_contra hnot
        rw [Bool.not_eq_true] at hnot
        rcases hidle hstopped hnot with h | h
        · exact h hnil
        · exact h hstreams
      · simp [EventLoop.flush, hnil, hstreams]

/-- The group `1` below the group `0`, and a task of its own for each. -/
def nestedGraph : WorkGraph ℕ ℕ where
  parent := fun g => if g = 1 then some 0 else none
  groups := fun t => [t]

def nestedWork : Work ℕ ℕ ℕ := { groups := [0, 1], tasks := [0, 1] }

/-- The child group waits for its own task when its parent finishes. -/
theorem nestedWork_progressing :
    ((EventLoop.start nestedGraph (some nestedWork) :
      EventLoop ℕ ℕ ℕ ℕ ℕ ℕ).handle nestedGraph
        (.taskSuccess 0 { value := 7 })).Progressing nestedGraph := by
  have hinitial : HasRoots ℕ nestedGraph (some nestedWork) :=
    Or.inl (by decide +kernel)
  refine reachable_progressing hinitial (.handle (.start ?_ ?_) _ ?_ ?_ ?_)
  · rintro w ⟨⟩
    constructor <;> simp [nestedWork, nestedGraph]
  · exact fun w _ => ⟨fun _ _ _ => trivial, fun _ _ => trivial⟩
  · decide +kernel
  · refine ⟨by decide +kernel, ?_⟩
    rintro w ⟨⟩
  · refine ⟨fun w hw => (by cases hw), fun _ => ?_, trivial⟩
    rintro g p ⟨children, hkids, hreach⟩ hp -
    obtain rfl : children = [1] :=
      Option.some.inj (hkids.symm.trans (by decide +kernel))
    rcases hreach with hg | ⟨x, hx, -⟩
    · obtain rfl := List.mem_singleton.mp hg
      obtain rfl : p = 1 := Option.some.inj (hp.symm.trans (by decide +kernel))
      decide
    · -- The child is not pruned, since its count is not zero.
      obtain ⟨y, hy, hzero⟩ := hx.exists_start
      obtain rfl := List.mem_singleton.mp hy
      have hone : some (0 : ℤ) = some 1 :=
        hzero.symm.trans (by decide +kernel)
      exact absurd hone (by decide)

/-! ## A task of a group and its child -/

/-- The group `1` below the group `0`, and a task that belongs to both. -/
def sharedGraph : WorkGraph ℕ ℕ where
  parent := fun g => if g = 1 then some 0 else none
  groups := fun _ => [0, 1]

def sharedWork : Work ℕ ℕ ℕ := { groups := [0, 1], tasks := [0] }

/-- The loop after the success of the only task. -/
def sharedLoop : EventLoop ℕ ℕ ℕ ℕ ℕ ℕ :=
  (EventLoop.start sharedGraph (some sharedWork)).handle sharedGraph
    (.taskSuccess 0 { value := 0 })

/-- When the parent group finishes, its child is promoted with the count it has
then, and is counted down without being finished. -/
theorem sharedLoop_stuck :
    Reachable sharedGraph {} (some sharedWork) sharedLoop ∧
      sharedLoop.queue.rootGroups = [1] ∧
      sharedLoop.queue.runningTasks = [] ∧
      ¬sharedLoop.Progressing sharedGraph := by
  have hroots : sharedLoop.queue.rootGroups = [1] := by decide +kernel
  have hrunning : sharedLoop.queue.runningTasks = [] := by decide +kernel
  refine ⟨?_, hroots, hrunning, ?_⟩
  · refine .handle (.start ?_ fun _ _ => workMeets_trivial _ _ _ _ _) _ ?_ ?_
      (meets_trivial _ _ _ _)
    · rintro w ⟨⟩
      constructor <;> simp [sharedWork, sharedGraph]
    · decide +kernel
    · refine ⟨by decide +kernel, ?_⟩
      rintro w ⟨⟩
  · intro h
    obtain ⟨t, -, -, ht⟩ := h.roots 1 (by rw [hroots]; simp)
    rw [hrunning] at ht
    cases ht

end GraphqlCore.Incremental
