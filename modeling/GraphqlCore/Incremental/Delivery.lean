import GraphqlCore.Incremental.Releases

/-!
# Every value is delivered once

The value of a successful task is held until one of its groups finishes.  When
a group finishes, the empty groups below it are pruned; a group all of whose
tasks have completed counts as empty, also when it still holds values that no
group has delivered.  The values are delivered, each once, in the runs in which
no such group is pruned and tasks are added to groups that are still there.
-/

set_option linter.unusedSectionVars false

namespace GraphqlCore.Incremental

open WorkQueue

variable {G T S V I E : Type} [DecidableEq G] [DecidableEq T] [DecidableEq S]
  {W : WorkGraph G T} {C : Conditions G T S V}

/-- No task belongs to both a group and one of its ancestors. -/
def WorkGraph.NoAncestor (W : WorkGraph G T) : Prop :=
  ∀ t, ∀ g ∈ W.groups t, ∀ g' ∈ W.groups t, ¬Ancestor W.parent g g'

/-- The groups that are pruned when `group` finishes hold no tasks but those
that are delivered with it. -/
def WorkQueue.PrunesClean (q : WorkQueue G T S V) (group : G) : Prop :=
  ∀ children, q.kids group = some children →
    ∀ g, Prunable q.kids q.pendingCount children g →
      ∀ t ∈ (q.members g).getD [], t ∈ (q.members group).getD []

/-- Tasks are added while each of their groups is below a root group, or lost;
and pruning is clean. -/
def deliveryConditions (W : WorkGraph G T) (S V : Type) :
    Conditions G T S V where
  join := fun failed _ roots kids t => ∀ g ∈ W.groups t,
    Below kids roots g ∨ Lost W.parent failed g
  finish := fun q group _ => q.PrunesClean group

/-- Where the tasks that have not been delivered are held. -/
structure Held (W : WorkGraph G T) (s : Stage G T S V I E) : Prop where
  released : ∀ t ∈ s.ledger.tasks, ∀ g ∈ W.groups t, s.Released W g →
    t ∈ s.ledger.delivered
  delivered : ∀ t ∈ s.ledger.delivered, ∃ g ∈ W.groups t, s.Released W g
  attached : ∀ t ∈ s.ledger.tasks, t ∉ s.ledger.delivered → ∀ g ∈ W.groups t,
    Lost W.parent s.ledger.failed g ∨ s.Attached g
  /-- New groups have new tasks only. -/
  fresh : ∀ g, Below s.queue.kids s.found g → ∀ t ∈ s.ledger.tasks,
    g ∈ W.groups t → t ∉ s.ledger.settled

theorem held_empty : Held W (Stage.empty W : Stage G T S V I E) :=
  ⟨by simp [Stage.empty], by simp [Stage.empty], by simp [Stage.empty],
    by simp [Stage.empty]⟩

/-! ## What one move preserves -/

theorem not_below_nil {kids : G → Option (List G)} {g : G} :
    ¬Below kids [] g := by
  intro h
  induction h with
  | start hmem => cases hmem
  | kid _ _ _ ih => exact ih

namespace Move

variable {s s' : Stage G T S V I E}

theorem delivered_mono (hmove : Move W C s s') {t : T}
    (ht : t ∈ s.ledger.delivered) : t ∈ s'.ledger.delivered := by
  cases hmove with
  | finish => exact List.mem_append_left _ ht
  | _ => exact ht

theorem failed_mono (hmove : Move W C s s') :
    s.ledger.failed ⊆ s'.ledger.failed := by
  intro g hg
  cases hmove with
  | fail => exact Or.inr hg
  | _ => exact hg

theorem new_task (hmove : Move W C s s') {t : T} (ht : t ∈ s'.ledger.tasks)
    (hnew : t ∉ s.ledger.tasks) :
    s.limbo = [] ∧ (∀ g ∈ W.groups t, g ∈ s.ledger.groups) ∧
      C.join s.ledger.failed s.ledger.origin (s.queue.rootGroups ++ s.found)
        s.queue.kids t ∧
      s' = { s with
        queue := WorkQueue.addTask W s.queue t
        ledger := { s.ledger with tasks := s.ledger.tasks ++ [t] } } := by
  cases hmove with
  | addTask task hfresh hgroups hlimbo hcond =>
      obtain rfl : t = task :=
        List.mem_singleton.mp ((List.mem_append.mp ht).resolve_left hnew)
      exact ⟨hlimbo, hgroups, hcond, rfl⟩
  | _ => exact absurd ht hnew

theorem new_delivered (hmove : Move W C s s') (hinv : Inv W s) {t : T}
    (ht : t ∈ s'.ledger.delivered) (hnew : t ∉ s.ledger.delivered) :
    ∃ g ∈ W.groups t, s'.Released W g := by
  cases hmove with
  | finish task group rest n n' hcurrent hremaining hfinishes hexcused _ _
      hfound hn hn' hcond r hr =>
      obtain ⟨gone, hlets, -⟩ := hinv.finish_letsGo hfinishes.1 hn hn' hfound hr
      have hmembers : s.queue.members group = some n.tasks := by
        simp [members, hn]
      have hmem := (List.mem_append.mp ht).resolve_left hnew
      refine ⟨group, ((hinv.tasks.member group _ hmembers t).mp hmem).2.1, ?_⟩
      refine Stage.LetsGo.released (hlets _ ?_ ?_ ?_ ?_ ?_) hinv (Or.inl rfl)
      all_goals rfl
  | _ => exact absurd ht hnew

end Move

namespace Held

variable {s s' : Stage G T S V I E}

theorem released_move (h : Held W s) (hinv : Inv W s)
    (hmove : Move W (deliveryConditions W S V) s s') :
    ∀ t ∈ s'.ledger.tasks, ∀ g ∈ W.groups t, s'.Released W g →
      t ∈ s'.ledger.delivered := by
  intro t ht g hgt hg
  by_cases hold : t ∈ s.ledger.tasks
  · rcases hinv.released_cases hmove hg with
      hg | ⟨-, hprunable⟩ | ⟨group, rest, n, hn, hclean, hdelivered, hcase⟩
    · exact hmove.delivered_mono (h.released t hold g hgt hg)
    · -- A new group that is pruned has no tasks at all.
      have hopen := h.fresh g hprunable.toBelow t hold hgt
      exact absurd (hinv.pending_pos hold hopen hgt hprunable.pending_zero)
        (lt_irrefl 0)
    · rw [hdelivered]
      by_cases hd : t ∈ s.ledger.delivered
      · exact List.mem_append_left _ hd
      · refine List.mem_append_right _ ?_
        have hmembers : s.queue.members group = some n.tasks := by
          simp [members, hn]
        rcases hcase with rfl | hprunable
        · exact (hinv.tasks.member g _ hmembers t).mpr ⟨hold, hgt, hd⟩
        · obtain ⟨l, hl⟩ := members_of_alive
            (alive_of_pendingCount hprunable.pending_zero)
          have hkids : s.queue.kids group = some n.childGroups := by
            simp [kids, hn]
          have hmem : t ∈ l := (hinv.tasks.member g l hl t).mpr ⟨hold, hgt, hd⟩
          have hgroup := hclean _ hkids g hprunable t (by simpa [hl] using hmem)
          simpa [hmembers] using hgroup
  · obtain ⟨-, -, hjoin, rfl⟩ := hmove.new_task ht hold
    obtain ⟨hintro, hgone, hlost⟩ := hg
    rw [addTask_kids] at hgone
    rcases hjoin g hgt with hbelow | hl
    · exfalso
      cases hbelow with
      | start hmem =>
          refine kids_eq_none_iff.mp hgone ?_
          rcases List.mem_append.mp hmem with hroot | hfound
          · exact hinv.root_alive hroot
          · exact hinv.limbo_alive g (List.mem_append_right _ hfound)
      | kid _ hk hc =>
          exact hinv.forest.kid_not_released hk hc
            (Or.inr (Or.inr ⟨hintro, hgone, hlost⟩))
    · exact absurd hl hlost

theorem fresh_move (h : Held W s) (hinv : Inv W s)
    (hmove : Move W (deliveryConditions W S V) s s') :
    ∀ g, Below s'.queue.kids s'.found g → ∀ t ∈ s'.ledger.tasks,
      g ∈ W.groups t → t ∉ s'.ledger.settled := by
  intro g hg t ht hgt
  cases hmove with
  | create parentTask group hfresh =>
      refine h.fresh g ?_ t ht hgt
      have hne : g ≠ group := by
        rintro rfl
        exact hfresh (hinv.tasks.task_groups t ht g hgt)
      clear hgt
      have hkids := createGroup_kids W parentTask (s.queue, s.found) group
      induction hg with
      | @start g hmem =>
          refine .start ((List.mem_append.mp hmem).resolve_right fun hnew => ?_)
          unfold newRoots at hnew
          split at hnew
          · exact hne (List.mem_singleton.mp hnew)
          · cases hnew
      | @kid p c cs _ hk hc ih =>
          rw [hkids p] at hk
          obtain ⟨old, hold, rfl⟩ := Option.map_eq_some_iff.mp hk
          have hmem : c ∈ old := by
            split at hc
            · rcases List.mem_append.mp hc with hc | hc
              · exact hc
              · exact absurd (List.mem_singleton.mp hc) hne
            · exact hc
          by_cases hp : p = group
          · rw [if_pos hp] at hold
            obtain rfl := Option.some.inj hold
            cases hmem
          · rw [if_neg hp] at hold
            exact .kid (ih hp) hold hmem
  | addTask task hfresh =>
      rw [addTask_kids] at hg
      rcases List.mem_append.mp ht with ht | ht
      · exact h.fresh g hg t ht hgt
      · obtain rfl := List.mem_singleton.mp ht
        exact fun hs => hfresh (hinv.tasks.settled_task t hs)
  | addStreams parentTask streams =>
      cases parentTask <;> exact h.fresh g hg t ht hgt
  | prune => exact absurd hg not_below_nil
  | promote group =>
      rw [promoteGroup_kids] at hg
      exact h.fresh g hg t ht hgt
  | settle task value _ _ _ hfound =>
      rw [hfound] at hg
      exact absurd hg not_below_nil
  | countdown task group =>
      have hkids := modifyNode_kids s.queue group
        (f := fun n => { n with pending := n.pending - 1 }) fun _ => rfl
      rw [hkids] at hg
      exact h.fresh g hg t ht hgt
  | finish task group rest n n' _ _ _ _ _ _ hfound =>
      rw [hfound] at hg
      exact absurd hg not_below_nil
  | failBegin task _ _ _ hfound =>
      rw [hfound] at hg
      exact absurd hg not_below_nil
  | fail group error _ _ hfound =>
      rw [hfound] at hg
      exact absurd hg not_below_nil
  | _ => exact h.fresh g hg t ht hgt

theorem move (h : Held W s) (hinv : Inv W s)
    (hmove : Move W (deliveryConditions W S V) s s') : Held W s' := by
  have hreleased := h.released_move hinv hmove
  have hinv' := hinv.move hmove
  refine ⟨hreleased, ?_, ?_, h.fresh_move hinv hmove⟩
  · intro t ht
    by_cases hold : t ∈ s.ledger.delivered
    · obtain ⟨g, hgt, hg⟩ := h.delivered t hold
      exact ⟨g, hgt, hinv.released_mono hmove hg⟩
    · exact hmove.new_delivered hinv ht hold
  · intro t ht hd g hgt
    by_cases hlive : s'.queue.Alive g
    · by_cases hold : t ∈ s.ledger.tasks
      · have hd' : t ∉ s.ledger.delivered := fun hmem =>
          hd (hmove.delivered_mono hmem)
        rcases h.attached t hold hd' g hgt with hlost | hattached
        · exact Or.inl (hlost.mono hmove.failed_mono)
        · exact Or.inr (hinv.attached_move hmove hattached hlive)
      · obtain ⟨hlimbo, -, hjoin, rfl⟩ := hmove.new_task ht hold
        refine (hjoin g hgt).symm.imp id fun hbelow => ⟨hlive, ?_⟩
        rw [addTask_kids]
        simpa [Stage.tops, hlimbo, addTask_rootGroups] using hbelow
    · -- A group that is gone has not been released, so it is lost.
      left
      by_contra hlost
      refine hd (hreleased t ht g hgt ⟨?_, kids_eq_none_iff.mpr hlive, hlost⟩)
      exact hinv'.tasks.task_groups t ht g hgt

end Held

/-! ## Runs -/

/-- A group promoted with a finished one is none of the other groups of a task
of the finished one. -/
theorem WorkGraph.NoAncestor.leavesWaiting (hno : W.NoAncestor)
    {s : Stage G T S V I E} (hinv : Inv W s) : s.LeavesWaiting C := by
  intro task group rest hcurrent hremaining hfinishes _ g p hpromotes hp hne
  have hmem : ∀ x ∈ group :: rest, x ∈ W.groups task := by
    rw [← hremaining]
    exact hinv.tasks.remaining_groups task
  have hanc : Ancestor W.parent group g := by
    obtain ⟨children, hkids, hreach⟩ := hpromotes
    have hpruned : ∀ x, Prunable s.queue.kids s.queue.pendingCount children x →
        Ancestor W.parent group x := by
      intro x hx
      induction hx with
      | start hmem _ =>
          exact .parent (hinv.forest.kid_parent group _ hkids _ hmem)
      | kid _ hk hc _ ih => exact .step (hinv.forest.kid_parent _ _ hk _ hc) ih
    rcases hreach with hc | ⟨x, hx, cs, hk, hc⟩
    · exact .parent (hinv.forest.kid_parent group _ hkids _ hc)
    · exact .step (hinv.forest.kid_parent x cs hk _ hc) (hpruned x hx)
  have hnot : g ∉ rest := fun hg => hno task group
    (hmem group List.mem_cons_self) g (hmem g (List.mem_cons_of_mem _ hg)) hanc
  have howed := hinv.tasks.pending g p hp
  rw [List.count_eq_zero.mpr hnot]
  omega

/-- The delivered values are those of the tasks that the ledger records. -/
theorem Tracks.values {c : EventLoop G T S V I E} {s : Stage G T S V I E}
    (htracks : Tracks c s) (hinv : Inv W s) :
    (∀ t ∈ s.ledger.delivered, (c.history.results t).isSome) ∧
      deliveredValues c.events =
        s.ledger.delivered.filterMap c.history.results := by
  rw [← htracks.history]
  constructor
  · intro t ht
    obtain ⟨v, hv⟩ := hinv.delivered_result t ht
    simp [hv]
  · rw [htracks.events, deliveredValues_append, hinv.values]
    split <;> simp [deliveredValues, WorkQueueEvent.delivered]

/-- The delivered values are those of distinct tasks: the tasks with a group
that has neither failed nor lies below a group that has. -/
def EventLoop.DeliversOnce (W : WorkGraph G T) (c : EventLoop G T S V I E) :
    Prop :=
  ∃ tasks : List T, tasks.Nodup ∧
    (∀ t ∈ tasks, (c.history.results t).isSome) ∧
    deliveredValues c.events = tasks.filterMap c.history.results ∧
    ∀ t ∈ c.history.tasks, t ∈ tasks ↔
      ∃ g ∈ W.groups t, ¬Lost W.parent c.history.failed g

/-- **Delivery.**  In a run in which tasks are added to groups that are there
and no group is pruned that holds an undelivered value, every value has been
delivered once when no task is left, unless all groups of its task are lost. -/
theorem reachable_deliversOnce {work : Option (Work G T S)}
    {c : EventLoop G T S V I E} (hno : W.NoAncestor)
    (h : Reachable W (deliveryConditions W S V) work c)
    (htasks : c.queue.runningTasks = []) : c.DeliversOnce W := by
  obtain ⟨s, hinv, ⟨hheld, hwaiting⟩, htracks⟩ := h.stage
    (P := fun s => Held W s ∧ Waiting W s) ⟨held_empty, waiting_empty⟩
    (fun s s' hinv hs hmove => ⟨hs.1.move hinv hmove,
      hs.2.move hinv (hno.leavesWaiting hinv) hmove⟩)
    (fun s hs => ⟨⟨hs.1.released, hs.1.delivered, hs.1.attached, hs.1.fresh⟩,
      ⟨hs.2.roots, hs.2.limbo⟩⟩)
  have hroots := hwaiting.roots_nil hinv htracks htasks
  have htops : s.tops = [] := by
    rw [Stage.tops, htracks.rootGroups, hroots, htracks.idle.limbo,
      htracks.idle.found]
    rfl
  obtain ⟨hresults, hvalues⟩ := htracks.values hinv
  refine ⟨s.ledger.delivered, hinv.tasks.delivered_nodup, hresults, hvalues, ?_⟩
  rw [← htracks.history]
  intro t ht
  constructor
  · intro hd
    obtain ⟨g, hgt, hg⟩ := hheld.delivered t hd
    exact ⟨g, hgt, hg.not_lost⟩
  · rintro ⟨g, hgt, hlost⟩
    by_contra hd
    rcases hheld.attached t ht hd g hgt with hl | ⟨-, hbelow⟩
    · exact hlost hl
    · rw [htops] at hbelow
      exact not_below_nil hbelow

/-- The run on `nestedWork` in which both tasks succeed. -/
def nestedLoop : EventLoop ℕ ℕ ℕ ℕ ℕ ℕ :=
  ((EventLoop.start nestedGraph (some nestedWork)).handle nestedGraph
    (.taskSuccess 0 { value := 7 })).handle nestedGraph
      (.taskSuccess 1 { value := 8 })

theorem nestedLoop_deliversOnce : nestedLoop.DeliversOnce nestedGraph := by
  have hclean : ∀ (q : WorkQueue ℕ ℕ ℕ ℕ) (group : ℕ) (children : List ℕ),
      q.kids group = some children →
      (∀ x ∈ children, q.pendingCount x ≠ some 0) → q.PrunesClean group := by
    intro q group children hkids hpending cs hcs g hg
    obtain rfl := Option.some.inj (hkids.symm.trans hcs)
    obtain ⟨x, hx, hzero⟩ := hg.exists_start
    exact absurd hzero (hpending x hx)
  have h : Reachable nestedGraph (deliveryConditions nestedGraph ℕ ℕ)
      (some nestedWork) nestedLoop := by
    refine .handle (.handle (.start ?_ ?_) _ ?_ ?_ ?_) _ ?_ ?_ ?_
    · rintro w ⟨⟩
      constructor <;> simp [nestedWork, nestedGraph]
    · rintro w ⟨⟩
      refine ⟨fun _ _ _ => trivial, fun t ht g hg => Or.inl ?_⟩
      obtain rfl := List.mem_singleton.mp hg
      have hmem : g = 0 ∨ g = 1 := by simpa [nestedWork] using ht
      have hroot : Below (addGroups nestedGraph
          ({} : WorkQueue ℕ ℕ ℕ ℕ) [0, 1] none).1.kids [0] 0 :=
        .start (List.mem_singleton_self 0)
      rcases hmem with rfl | rfl
      · exact hroot
      · exact hroot.kid (by decide +kernel : _ = some [1])
          (List.mem_singleton_self 1)
    · decide +kernel
    · refine ⟨by decide +kernel, ?_⟩
      rintro w ⟨⟩
    · refine ⟨fun w hw => (by cases hw), fun _ => ?_, trivial⟩
      exact hclean _ _ [1] (by decide +kernel) (by decide +kernel)
    · decide +kernel
    · refine ⟨by decide +kernel, ?_⟩
      rintro w ⟨⟩
    · refine ⟨fun w hw => (by cases hw), fun _ => ?_, trivial⟩
      exact hclean _ _ [] (by decide +kernel) (by simp)
  refine reachable_deliversOnce ?_ h ?_
  · intro t g hg g' hg' hanc
    obtain rfl := List.mem_singleton.mp hg
    obtain rfl := List.mem_singleton.mp hg'
    exact lt_irrefl _ (hanc.lt_of_parent_lt fun g p hp => by
      simp only [nestedGraph] at hp
      split at hp <;> simp_all)
  · decide +kernel

/-! ## A pruned group that holds a value -/

/-- The group `2` below the group `1`, and a task that belongs to the groups
`0` and `2`. -/
def prunedGraph : WorkGraph ℕ ℕ where
  parent := fun g => if g = 2 then some 1 else none
  groups := fun t => if t = 0 then [0, 2] else if t = 1 then [1] else [0]

def prunedWork : Work ℕ ℕ ℕ := { groups := [0, 1, 2], tasks := [0, 1, 2] }

/-- The shared task succeeds, the group `1` finishes, and the group `0`
fails. -/
def prunedLoop : EventLoop ℕ ℕ ℕ ℕ ℕ ℕ :=
  (((EventLoop.start prunedGraph (some prunedWork)).handle prunedGraph
    (.taskSuccess 0 { value := 10 })).handle prunedGraph
      (.taskSuccess 1 { value := 11 })).handle prunedGraph (.taskFailure 2 0)

theorem prunedLoop_reachable :
    Reachable prunedGraph {} (some prunedWork) prunedLoop := by
  refine .handle (.handle (.handle (.start ?_ fun _ _ =>
    workMeets_trivial _ _ _ _ _) _ ?_ ?_ (meets_trivial _ _ _ _)) _ ?_ ?_
    (meets_trivial _ _ _ _)) _ ?_ ?_ (meets_trivial _ _ _ _)
  · rintro w ⟨⟩
    constructor <;> simp [prunedWork, prunedGraph]
  · decide +kernel
  · refine ⟨by decide +kernel, ?_⟩
    rintro w ⟨⟩
  · decide +kernel
  · refine ⟨by decide +kernel, ?_⟩
    rintro w ⟨⟩
  · decide +kernel
  · show 2 ∈ _
    decide +kernel

theorem prunedGraph_parent {g p : ℕ} (hp : prunedGraph.parent g = some p) :
    g = 2 ∧ p = 1 := by
  simp only [prunedGraph] at hp
  split at hp
  · next h => exact ⟨h, (Option.some.inj hp).symm⟩
  · cases hp

theorem prunedGraph_noAncestor : prunedGraph.NoAncestor := by
  have hancestor : ∀ a g, Ancestor prunedGraph.parent a g → a = 1 ∧ g = 2 := by
    intro a g hanc
    induction hanc with
    | parent hp =>
        have := prunedGraph_parent hp
        omega
    | step hp _ ih =>
        have := prunedGraph_parent hp
        omega
  intro t g hg g' hg' hanc
  have := hancestor g g' hanc
  simp only [prunedGraph] at hg hg'
  split_ifs at hg hg' <;> simp at hg hg' <;> omega

theorem prunedLoop_loses :
    prunedGraph.NoAncestor ∧
      Reachable prunedGraph {} (some prunedWork) prunedLoop ∧
      prunedLoop.queue.runningTasks = [] ∧ prunedLoop.queue.pumpTasks = [] ∧
      prunedLoop.history.results 0 = some 10 ∧
      ¬Lost prunedGraph.parent prunedLoop.history.failed 2 ∧
      10 ∉ deliveredValues prunedLoop.events := by
  refine ⟨prunedGraph_noAncestor, prunedLoop_reachable, by decide +kernel,
    by decide +kernel, by decide +kernel, ?_, by decide +kernel⟩
  have hfailed : ∀ g, g ∈ prunedLoop.history.failed → g = 0 := by
    intro g hg
    rcases hg with hg | ⟨error, hmem⟩
    · exact hg.elim
    · have hevents : (handleGraphEvent (I := ℕ) prunedGraph
          (((EventLoop.start prunedGraph (some prunedWork) :
            EventLoop ℕ ℕ ℕ ℕ ℕ ℕ).handle prunedGraph
              (.taskSuccess 0 { value := 10 })).handle prunedGraph
                (.taskSuccess 1 { value := 11 })).queue
          (.taskFailure 2 0)).2 = [.groupFailure 0 0] := by
        decide +kernel
      have hmem' : WorkQueueEvent.groupFailure g error ∈
          [.groupFailure (V := ℕ) (S := ℕ) (I := ℕ) (0 : ℕ) (0 : ℕ)] :=
        hevents ▸ hmem
      have hboth : g = 0 ∧ error = 0 := by simpa using hmem'
      exact hboth.1
  rw [lost_iff]
  rintro (hf | ⟨p, hp, hlost⟩)
  · exact absurd (hfailed 2 hf) (by decide)
  · obtain ⟨-, rfl⟩ := prunedGraph_parent hp
    rw [lost_iff] at hlost
    rcases hlost with hf | ⟨p, hp, -⟩
    · exact absurd (hfailed 1 hf) (by decide)
    · exact absurd (prunedGraph_parent hp).1 (by decide)

end GraphqlCore.Incremental
