import GraphqlCore.Incremental.Handlers

/-!
# Every state of a run is an idle stage

The run lemma: whatever the order of the completions, a reachable state of the
event loop is described by an idle stage, which moves lead to from the start.
Properties of runs follow from what one move preserves.
-/

set_option linter.unusedSectionVars false

namespace GraphqlCore.Incremental

open WorkQueue

variable {G T S V I E : Type} [DecidableEq G] [DecidableEq T] [DecidableEq S]
  {W : WorkGraph G T} {C : Conditions G T S V}

/-! ## The start of the loop -/

/-- The stage before any work. -/
def Stage.empty (W : WorkGraph G T) : Stage G T S V I E where
  queue := {}
  ledger := { remaining := W.groups }

theorem inv_empty : Inv W (Stage.empty W : Stage G T S V I E) where
  forest :=
    { present_introduced := fun g hg => absurd rfl hg
      kid_parent := fun p cs hp => by cases hp
      kid_introduced := fun p cs hp => by cases hp
      kids_nodup := fun p cs hp => by cases hp
      root_present := fun g hg => by cases hg
      limbo_introduced := fun g hg => by cases hg
      limbo_nodup := List.nodup_nil
      limbo_not_root := fun g hg => by cases hg
      failed_gone := fun g _ => rfl
      parent_released := by
        rintro g (hg | hg | ⟨hi, -, -⟩)
        · cases hg
        · cases hg
        · exact hi.elim }
  limbo_alive := fun g hg => by cases hg
  not_stopped := rfl
  tasks :=
    { tasks_nodup := List.nodup_nil
      task_groups := fun t ht => by cases ht
      settled_task := fun t ht => ht.elim
      delivered_settled := fun t ht => by cases ht
      remaining_groups := fun t g hg => hg
      remaining_open := fun t _ => rfl
      remaining_done := fun t ht => ht.elim
      member := fun g l hl => by cases hl
      members_nodup := fun g l hl => by cases hl
      pending := fun g p hp => by cases hp
      started := fun g hg => by cases hg
      running_open := fun t ht => by cases ht
      running_nodup := List.nodup_nil
      open_running := fun t ht => absurd rfl ht
      running_node := fun t ht => by cases ht
      node_task := fun t ht => absurd rfl ht
      value := fun g l hl => by cases hl
      value_result := fun t n v hn => by cases hn
      delivered_gone := fun t ht => by cases ht
      delivered_nodup := List.nodup_nil }
  streams :=
    { child_origin := fun t n hn => by cases hn
      child_nodup := fun t n hn => by cases hn
      released := fun s hs => hs.elim (fun h => by cases h) fun h => h.elim
      limbo_nodup := List.nodup_nil
      limbo_idle := fun s hs => by cases hs
      root_iff := fun s => by simp [Stage.empty]
      pump_started := fun s hs => by cases hs
      pump_nodup := List.nodup_nil
      stopped_started := fun s hs => hs.elim }
  failed_groups := fun g hg => hg.elim
  current_settled := fun t ht => by cases ht
  results_settled := fun t v hv => by cases hv
  values := rfl
  delivered_result := fun t ht => by cases ht

/-- Starting a group does not look at the root groups and streams. -/
theorem startGroup_withRoots (q : WorkQueue G T S V) (roots : List G)
    (rootStreams : List S) (group : G) :
    startGroup { q with rootGroups := roots, rootStreams := rootStreams } group =
      { startGroup q group with
        rootGroups := roots
        rootStreams := rootStreams } := by
  have hstart : ∀ (tasks : List T) (q : WorkQueue G T S V),
      tasks.foldl startTask
          { q with rootGroups := roots, rootStreams := rootStreams } =
        { tasks.foldl startTask q with
          rootGroups := roots
          rootStreams := rootStreams } := by
    intro tasks
    induction tasks with
    | nil => exact fun q => rfl
    | cons task rest ih =>
        intro q
        have htask : startTask
            { q with rootGroups := roots, rootStreams := rootStreams } task =
            { startTask q task with
              rootGroups := roots
              rootStreams := rootStreams } := by
          have hnode : taskNode
              { q with rootGroups := roots, rootStreams := rootStreams } task =
                q.taskNode task := rfl
          unfold startTask
          rw [hnode]
          cases q.taskNode task <;> rfl
        rw [List.foldl_cons, List.foldl_cons, htask, ih]
  rw [startGroup_eq, startGroup_eq]
  exact hstart _ q

theorem foldl_startGroup_withRoots (groups : List G) (q : WorkQueue G T S V)
    (roots : List G) (rootStreams : List S) :
    groups.foldl startGroup
        { q with rootGroups := roots, rootStreams := rootStreams } =
      { groups.foldl startGroup q with
        rootGroups := roots
        rootStreams := rootStreams } := by
  induction groups generalizing q with
  | nil => rfl
  | cons group rest ih =>
      rw [List.foldl_cons, startGroup_withRoots, ih]
      rfl

theorem foldl_startGroup_rootStreams (groups : List G)
    (q : WorkQueue G T S V) :
    (groups.foldl startGroup q).rootStreams = q.rootStreams := by
  have h := congrArg WorkQueue.rootStreams
    (foldl_startGroup_withRoots groups q q.rootGroups q.rootStreams)
  exact h

theorem foldl_promoteGroup (groups : List G) (q : WorkQueue G T S V) :
    groups.foldl WorkQueue.promoteGroup q =
      { groups.foldl startGroup q with
        rootGroups := groups.foldl OrderedSet.add q.rootGroups } := by
  induction groups generalizing q with
  | nil => rfl
  | cons group rest ih =>
      have hstep : q.promoteGroup group =
          { startGroup q group with
            rootGroups := OrderedSet.add q.rootGroups group
            rootStreams := q.rootStreams } :=
        startGroup_withRoots q _ q.rootStreams group
      have hsame : (startGroup q group).rootStreams = q.rootStreams :=
        foldl_startGroup_rootStreams [group] q
      rw [List.foldl_cons, ih, hstep, foldl_startGroup_withRoots]
      simp only [List.foldl_cons, foldl_startGroup_rootStreams, hsame]

theorem foldl_promoteStream (streams : List S) (q : WorkQueue G T S V) :
    streams.foldl WorkQueue.promoteStream q =
      streams.foldl startStream
        { q with rootStreams := streams.foldl OrderedSet.add q.rootStreams } := by
  have hcomm : ∀ (streams : List S) (q : WorkQueue G T S V) (roots : List S),
      streams.foldl startStream { q with rootStreams := roots } =
        { streams.foldl startStream q with rootStreams := roots } := by
    intro streams
    induction streams with
    | nil => exact fun q roots => rfl
    | cons x rest ih => exact fun q roots => ih (q.startStream x) roots
  induction streams generalizing q with
  | nil => rfl
  | cons x rest ih =>
      rw [List.foldl_cons, ih]
      rfl

/-- The roots are started as new work is, one after the other. -/
theorem startRoots_init (work : Option (Work G T S))
    (hroots : (initialWork (V := V) W work).1.rootGroups = [])
    (hstreams : (initialWork (V := V) W work).1.rootStreams = [])
    (hgroups : (initialGroups V W work).Nodup)
    (hnodup : (initialStreams V W work).Nodup) :
    startRoots (WorkQueue.init W work : WorkQueue G T S V) =
      startNewWork (initialWork W work).1 (initialGroups V W work)
        (initialStreams V W work) := by
  set q := (initialWork (V := V) W work).1 with hq
  have hadd : (initialGroups V W work).foldl OrderedSet.add [] =
      initialGroups V W work := by
    simpa using OrderedSet.foldl_add_of_nodup (l := []) (by simpa using hgroups)
  have hadd' : (initialStreams V W work).foldl OrderedSet.add [] =
      initialStreams V W work := by
    simpa using OrderedSet.foldl_add_of_nodup (l := []) (by simpa using hnodup)
  have hinit : (WorkQueue.init W work : WorkQueue G T S V) =
      { q with
        rootGroups := initialGroups V W work
        rootStreams := initialStreams V W work } := by
    have hunfold : (WorkQueue.init W work : WorkQueue G T S V) =
        { q with
          rootGroups :=
            (initialGroups V W work).foldl OrderedSet.add q.rootGroups
          rootStreams :=
            (initialStreams V W work).foldl OrderedSet.add q.rootStreams } :=
      rfl
    rw [hunfold, hroots, hstreams, hadd, hadd']
  rw [startNewWork, foldl_promoteStream, foldl_promoteGroup, hinit, startRoots]
  simp only [foldl_startGroup_withRoots]
  have hsame := foldl_startGroup_rootStreams (initialGroups V W work) q
  simp only [hsame, hroots, hstreams, hadd, hadd']

theorem maybeIntegrateWork_rootGroups (q : WorkQueue G T S V)
    (work : Option (Work G T S)) (parentTask : Option T) :
    (maybeIntegrateWork W q work parentTask).1.rootGroups = q.rootGroups := by
  cases work with
  | none => rfl
  | some w =>
      obtain ⟨order, -, -, heq⟩ := addGroups_eq W q w.groups parentTask
      have hadd : ∀ (tasks : List T) (q : WorkQueue G T S V),
          (tasks.foldl (WorkQueue.addTask W) q).rootGroups = q.rootGroups := by
        intro tasks
        induction tasks with
        | nil => exact fun q => rfl
        | cons task rest ih =>
            intro q
            rw [List.foldl_cons, ih, addTask_rootGroups]
      have hstreams : ∀ q : WorkQueue G T S V,
          (WorkQueue.addStreams q w.streams parentTask).1.rootGroups =
            q.rootGroups := by
        intro q
        cases parentTask <;> rfl
      simp only [maybeIntegrateWork, heq, hstreams, hadd,
        foldl_createGroup_roots]

/-- The stage in which the initial result is built. -/
structure Started (W : WorkGraph G T) (C : Conditions G T S V)
    (work : Option (Work G T S)) (s : Stage G T S V I E) : Prop where
  moves : Moves W C (Stage.empty W) s
  queue : s.queue = startRoots (WorkQueue.init W work)
  history : s.ledger.toHistory = ({} : History G T S V).addWork none work
  news : s.news = initialGroups V W work
  newStreams : s.newStreams = initialStreams V W work
  idle : Stage.Idle { s with news := [], newStreams := [] }
  events : s.events = []

theorem start_started {work : Option (Work G T S)}
    (hfresh : ∀ w ∈ work, Fresh W ({} : History G T S V) w)
    (hmeets : ∀ w ∈ work, WorkMeets W C ({} : History G T S V) {} none w) :
    ∃ s : Stage G T S V I E, Started W C work s := by
  have haccept := accept_moves (W := W) (C := C) (I := I) (E := E)
    (s := Stage.empty W) inv_empty rfl rfl rfl rfl hfresh hmeets
  have hinv := inv_empty.moves haccept
  obtain ⟨started, hpromote⟩ := startNewWork_moves (W := W) (C := C)
    (s := (Stage.empty W : Stage G T S V I E).accept W work) rfl
  have hgroups : (initialGroups V W work).Nodup := by
    have h := hinv.forest.limbo_nodup
    rw [List.nodup_append] at h
    exact h.1
  have hstreams : (initialStreams V W work).Nodup := hinv.streams.limbo_nodup
  refine ⟨_, haccept.trans hpromote, ?_, ?_, ?_, ?_, ?_, ?_⟩
  · symm
    exact startRoots_init work
      (maybeIntegrateWork_rootGroups (W := W) ({} : WorkQueue G T S V) work none)
      (maybeIntegrateWork_rootStreams (W := W) ({} : WorkQueue G T S V) work
        none)
      hgroups hstreams
  · rfl
  · rfl
  · rfl
  · exact ⟨rfl, rfl, rfl, rfl, rfl, rfl, rfl⟩
  · rfl

theorem Started.inv {work : Option (Work G T S)} {s : Stage G T S V I E}
    (h : Started W C work s) :
    Inv W { s with news := [], newStreams := [] } :=
  { inv_empty.moves h.moves with }

/-! ## The run lemma -/

/-- The stage describes the state of the event loop; what ends after the loop
has stopped is no longer followed. -/
structure Tracks (c : EventLoop G T S V I E) (s : Stage G T S V I E) :
    Prop where
  idle : s.Idle
  history : s.ledger.toHistory = c.history
  events : c.events = s.events ++
    if c.queue.stopped then [.termination] else []
  rootGroups : s.queue.rootGroups = c.queue.rootGroups
  rootStreams : s.queue.rootStreams = c.queue.rootStreams
  running : c.queue.stopped = false → s.queue = c.queue
  stopped : c.queue.stopped = true →
    c.queue.rootGroups = [] ∧ c.queue.rootStreams = []

theorem Tracks.handle {c : EventLoop G T S V I E} {s : Stage G T S V I E}
    (h : Tracks c s) (hinv : Inv W s) {event : GraphEvent G T S V I E}
    (hrun : c.queue.stopped = false) (hlegal : Legal W c.history c.queue event)
    (hmeets : Meets W C c.history c.queue event) :
    ∃ s', Moves W C s s' ∧ Tracks (c.handle W event) s' ∧
      (c.handle W event).queue.stopped = false := by
  have hqueue := h.running hrun
  rw [← h.history, ← hqueue] at hlegal hmeets
  obtain ⟨s', hmoves, hidle, hq, hhistory, hevents⟩ :=
    handleGraphEvent_handles hinv h.idle hlegal hmeets
  have hstopped : (c.handle W event).queue.stopped = false := by
    have hnot := (hinv.moves hmoves).not_stopped
    rw [hq, hqueue] at hnot
    exact hnot
  have hsame : s'.queue = (c.handle W event).queue := by
    rw [hq, hqueue]
    rfl
  refine ⟨s', hmoves, ⟨hidle, ?_, ?_, by rw [hsame], by rw [hsame],
    fun _ => hsame, ?_⟩, hstopped⟩
  · rw [hhistory, hqueue, h.history]
    rfl
  · have hold := h.events
    rw [hrun] at hold
    simp only [Bool.false_eq_true, if_false, List.append_nil] at hold
    rw [hstopped, hevents, ← hold, hqueue]
    simp only [Bool.false_eq_true, if_false, List.append_nil,
      EventLoop.events, EventLoop.handle, List.append_assoc]
  · intro hs
    rw [hstopped] at hs
    cases hs

theorem Tracks.flush {c : EventLoop G T S V I E} {s : Stage G T S V I E}
    (h : Tracks c s) (hrun : c.queue.stopped = false) :
    Tracks c.flush s := by
  have hqueue := h.running hrun
  have hold := h.events
  rw [hrun] at hold
  simp only [Bool.false_eq_true, if_false, List.append_nil] at hold
  unfold EventLoop.flush
  split
  · next hempty =>
    refine ⟨h.idle, h.history, ?_, h.rootGroups, h.rootStreams, ?_,
      fun _ => hempty⟩
    · rw [← hold]
      simp [EventLoop.events]
    · intro hs
      cases hs
  · refine ⟨h.idle, h.history, ?_, h.rootGroups, h.rootStreams,
      fun _ => hqueue, ?_⟩
    · rw [← hold]
      by_cases hnil : c.batch = []
      · simp [EventLoop.events, hrun, hnil]
      · simp [EventLoop.events, hrun, hnil]
    · intro hs
      rw [hrun] at hs
      cases hs

theorem Tracks.discard {c : EventLoop G T S V I E} {s : Stage G T S V I E}
    (h : Tracks c s) (hstopped : c.queue.stopped = true)
    (event : GraphEvent G T S V I E) : Tracks (c.discard event) s := by
  have hsame : (c.discard event).queue.stopped = true ∧
      (c.discard event).history = c.history ∧
      (c.discard event).events = c.events ∧
      (c.discard event).queue.rootGroups = c.queue.rootGroups ∧
      (c.discard event).queue.rootStreams = c.queue.rootStreams := by
    cases event <;> exact ⟨hstopped, rfl, rfl, rfl, rfl⟩
  refine ⟨h.idle, ?_, ?_, ?_, ?_, ?_, fun _ => ?_⟩
  · rw [hsame.2.1]
    exact h.history
  · rw [hsame.1, hsame.2.2.1, h.events, hstopped]
  · rw [hsame.2.2.2.1, h.rootGroups]
  · rw [hsame.2.2.2.2, h.rootStreams]
  · intro hs
    rw [hsame.1] at hs
    cases hs
  · rw [hsame.2.2.2.1, hsame.2.2.2.2]
    exact h.stopped hstopped

/-- A reachable state is described by an idle stage, reached by moves from the
stage of the initial result. -/
theorem Reachable.tracked {work : Option (Work G T S)}
    {c : EventLoop G T S V I E} (h : Reachable W C work c) :
    ∃ s₁ s : Stage G T S V I E, Started W C work s₁ ∧
      Moves W C { s₁ with news := [], newStreams := [] } s ∧ Tracks c s := by
  induction h with
  | start hfresh hmeets =>
      obtain ⟨s₁, hs₁⟩ := start_started (I := I) (E := E) hfresh hmeets
      refine ⟨s₁, _, hs₁, .refl, hs₁.idle, hs₁.history, ?_, ?_, ?_, ?_, ?_⟩
      · have hstopped : (EventLoop.start W work :
            EventLoop G T S V I E).queue.stopped = false := by
          have hnot := hs₁.inv.not_stopped
          rw [hs₁.queue] at hnot
          exact hnot
        rw [hstopped, hs₁.events]
        rfl
      · exact congrArg WorkQueue.rootGroups hs₁.queue
      · exact congrArg WorkQueue.rootStreams hs₁.queue
      · exact fun _ => hs₁.queue
      · intro hs
        have hnot := hs₁.inv.not_stopped
        rw [hs₁.queue] at hnot
        exact absurd (hs.symm.trans hnot) (by decide)
  | handle _ event hrun hlegal hmeets ih =>
      obtain ⟨s₁, s, hs₁, hmoves, hs⟩ := ih
      obtain ⟨s', hmoves', hs', -⟩ := hs.handle (hs₁.inv.moves hmoves) hrun
        hlegal hmeets
      exact ⟨s₁, s', hs₁, hmoves.trans hmoves', hs'⟩
  | flush _ hrun _ ih =>
      obtain ⟨s₁, s, hs₁, hmoves, hs⟩ := ih
      exact ⟨s₁, s, hs₁, hmoves, hs.flush hrun⟩
  | discard _ event hstopped ih =>
      obtain ⟨s₁, s, hs₁, hmoves, hs⟩ := ih
      exact ⟨s₁, s, hs₁, hmoves, hs.discard hstopped event⟩

/-- What holds of the stage before any work, is preserved by every move and
does not depend on what the next event of a stream will announce, holds of the
stage of the initial result and of a stage that describes the state reached. -/
theorem Reachable.stages {work : Option (Work G T S)}
    {c : EventLoop G T S V I E} (h : Reachable W C work c)
    {P : Stage G T S V I E → Prop} (hempty : P (Stage.empty W))
    (hmove : ∀ s s', Inv W s → P s → Move W C s s' → P s')
    (hannounce : ∀ s, P s → P { s with news := [], newStreams := [] }) :
    ∃ s₁ s, Started W C work s₁ ∧ P s₁ ∧
      Moves W C { s₁ with news := [], newStreams := [] } s ∧ Inv W s ∧ P s ∧
        Tracks c s := by
  have hmoves : ∀ {s s'}, Inv W s → P s → Moves W C s s' → P s' := by
    intro s s' hinv hs hmoves
    induction hmoves with
    | refl => exact hs
    | tail hmoves hlast ih => exact hmove _ _ (hinv.moves hmoves) ih hlast
  obtain ⟨s₁, s, hs₁, hrest, htracks⟩ := h.tracked
  have hstart := hmoves inv_empty hempty hs₁.moves
  exact ⟨s₁, s, hs₁, hstart, hrest, hs₁.inv.moves hrest,
    hmoves hs₁.inv (hannounce s₁ hstart) hrest, htracks⟩

theorem Reachable.stage {work : Option (Work G T S)}
    {c : EventLoop G T S V I E} (h : Reachable W C work c)
    {P : Stage G T S V I E → Prop} (hempty : P (Stage.empty W))
    (hmove : ∀ s s', Inv W s → P s → Move W C s s' → P s')
    (hannounce : ∀ s, P s → P { s with news := [], newStreams := [] }) :
    ∃ s, Inv W s ∧ P s ∧ Tracks c s := by
  obtain ⟨-, s, -, -, -, hinv, hs, htracks⟩ := h.stages hempty hmove hannounce
  exact ⟨s, hinv, hs, htracks⟩

end GraphqlCore.Incremental
