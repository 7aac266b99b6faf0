import GraphqlCore.Incremental.Ledger

/-!
# Stages of a run and the moves between them

A stage is a point inside the handling of a graph event: the queue, the ledger,
and what the running handler holds in its local variables.  Every handler is a
sequence of moves, each of which calls one operation of the queue.  A move may
require a condition on the operation's arguments; the conditions are a
parameter, so that a property can be proved for the runs that meet its own.
-/

set_option linter.unusedSectionVars false

namespace GraphqlCore.Incremental

open WorkQueue

variable {G T S V I E : Type} [DecidableEq G] [DecidableEq T] [DecidableEq S]

/-- The values that an event delivers. -/
def WorkQueueEvent.delivered : WorkQueueEvent G S V I E → List V
  | .groupValues _ values => values
  | _ => []

/-- The values that a sequence of events delivers. -/
def deliveredValues (events : List (WorkQueueEvent G S V I E)) : List V :=
  events.flatMap WorkQueueEvent.delivered

@[simp] theorem deliveredValues_nil :
    deliveredValues ([] : List (WorkQueueEvent G S V I E)) = [] := rfl

@[simp] theorem deliveredValues_append
    (events events' : List (WorkQueueEvent G S V I E)) :
    deliveredValues (events ++ events') =
      deliveredValues events ++ deliveredValues events' :=
  List.flatMap_append

/-- The group finishes with the next task of its that completes. -/
def WorkQueue.Finishes (q : WorkQueue G T S V) (group : G) : Prop :=
  group ∈ q.rootGroups ∧ q.pendingCount group = some 1

instance (q : WorkQueue G T S V) (group : G) : Decidable (q.Finishes group) :=
  inferInstanceAs (Decidable (_ ∧ _))

/-- Conditions on the arguments of the queue's operations. -/
structure Conditions (G T S V : Type) where
  /-- On groups that are added to the graph below a root group, by the task
  that returned them. -/
  introduce : Option T → G → Prop := fun _ _ => True
  /-- On tasks that are added to the graph, given the groups that have failed,
  the tasks that groups come from, the old and new root groups and the child
  groups. -/
  join : Set G → (G → Option T) → List G → (G → Option (List G)) → T → Prop :=
    fun _ _ _ _ _ => True
  /-- Before a group finishes, given the later groups of the task. -/
  finish : WorkQueue G T S V → G → List G → Prop := fun _ _ _ => True
  /-- Before a group fails. -/
  fail : WorkQueue G T S V → G → Prop := fun _ _ => True

structure Stage (G T S V I E : Type) where
  queue : WorkQueue G T S V
  ledger : Ledger G T S V
  /-- New root groups that have not been pruned. -/
  found : List G := []
  /-- Groups and streams to be promoted to root. -/
  limbo : List G := []
  limboStreams : List S := []
  /-- Groups and streams to be announced by the next event of a stream. -/
  news : List G := []
  newStreams : List S := []
  events : List (WorkQueueEvent G S V I E) := []

inductive Move (W : WorkGraph G T) (C : Conditions G T S V) :
    Stage G T S V I E → Stage G T S V I E → Prop
  | create {s : Stage G T S V I E} (parentTask : Option T) (group : G)
      (hfresh : group ∉ s.ledger.groups) (hlimbo : s.limbo = [])
      (hparent : parentTask = s.ledger.current)
      (hfound : parentTask ≠ none → s.found = [])
      (hcond : Below (createGroup W parentTask (s.queue, s.found) group).1.kids
        s.queue.rootGroups group → C.introduce parentTask group) :
      Move W C s
        { s with
          queue := (createGroup W parentTask (s.queue, s.found) group).1
          found := s.found ++ newRoots W parentTask group
          ledger := { s.ledger with
            groups := insert group s.ledger.groups
            origin := Function.update s.ledger.origin group parentTask } }
  | addTask {s : Stage G T S V I E} (task : T)
      (hfresh : task ∉ s.ledger.tasks)
      (hgroups : ∀ g ∈ W.groups task, g ∈ s.ledger.groups)
      (hlimbo : s.limbo = [])
      (hcond : C.join s.ledger.failed s.ledger.origin
        (s.queue.rootGroups ++ s.found) s.queue.kids task) :
      Move W C s
        { s with
          queue := WorkQueue.addTask W s.queue task
          ledger := { s.ledger with tasks := s.ledger.tasks ++ [task] } }
  | addStreams {s : Stage G T S V I E} (parentTask : Option T)
      (streams : List S) (hnodup : streams.Nodup)
      (hfresh : ∀ x ∈ streams, x ∉ s.ledger.streams) :
      Move W C s
        { s with
          queue := (WorkQueue.addStreams s.queue streams parentTask).1
          limboStreams := s.limboStreams ++
            (WorkQueue.addStreams s.queue streams parentTask).2
          newStreams := s.newStreams ++
            (WorkQueue.addStreams s.queue streams parentTask).2
          ledger := { s.ledger with
            streams := s.ledger.streams ∪ { x | x ∈ streams }
            streamOrigin := fun x =>
              if x ∈ streams then parentTask else s.ledger.streamOrigin x } }
  | prune {s : Stage G T S V I E} (hcurrent : s.ledger.current = none) :
      Move W C s
        { s with
          queue := { s.queue with
            groupNodes :=
              (pruneEmptyGroups s.queue.groupNodes s.found).1 }
          found := []
          limbo := s.limbo ++
            (pruneEmptyGroups s.queue.groupNodes s.found).2
          news := s.news ++
            (pruneEmptyGroups s.queue.groupNodes s.found).2 }
  | promote {s : Stage G T S V I E} (group : G) (rest : List G)
      (hlimbo : s.limbo = group :: rest) (hexcused : s.ledger.excused = ∅) :
      Move W C s
        { s with
          queue := s.queue.promoteGroup group
          limbo := rest }
  | promoteStream {s : Stage G T S V I E} (stream : S) (rest : List S)
      (hlimbo : s.limboStreams = stream :: rest) :
      Move W C s
        { s with
          queue := s.queue.promoteStream stream
          limboStreams := rest
          ledger := { s.ledger with
            startedStreams := insert stream s.ledger.startedStreams } }
  | settle {s : Stage G T S V I E} (task : T) (value : V)
      (hrunning : task ∈ s.queue.runningTasks)
      (hcurrent : s.ledger.current = none) (hlimbo : s.limbo = [])
      (hfound : s.found = []) :
      Move W C s
        { s with
          queue := { s.queue with
            runningTasks := s.queue.runningTasks.erase task
            taskNodes := s.queue.taskNodes.modify task fun taskNode =>
              { taskNode with value := some value } }
          ledger := { s.ledger with
            settled := insert task s.ledger.settled
            results := Function.update s.ledger.results task (some value)
            current := some task } }
  | countdown {s : Stage G T S V I E} (task : T) (group : G) (rest : List G)
      (hcurrent : s.ledger.current = some task)
      (hremaining : s.ledger.remaining task = group :: rest)
      (hnot : ¬s.queue.Finishes group) (hexcused : s.ledger.excused = ∅) :
      Move W C s
        { s with
          queue := s.queue.modifyNode group fun n =>
            { n with pending := n.pending - 1 }
          ledger := { s.ledger with
            remaining := Function.update s.ledger.remaining task rest } }
  | finish {s : Stage G T S V I E} (task : T) (group : G) (rest : List G)
      (n n' : GroupNode G T) (hcurrent : s.ledger.current = some task)
      (hremaining : s.ledger.remaining task = group :: rest)
      (hfinishes : s.queue.Finishes group) (hexcused : s.ledger.excused = ∅)
      (hnews : s.news = []) (hstreams : s.newStreams = [])
      (hfound : s.found = [])
      (hn : s.queue.node group = some n)
      (hn' : n' = { n with pending := n.pending - 1 })
      (hcond : C.finish s.queue group rest)
      (r : WorkQueue G T S V × GroupFinish G S V I E)
      (hr : r = finishGroupSuccess W
        (s.queue.modifyNode group fun _ => n') group n') :
      Move W C s
        { s with
          queue := r.1
          limbo := s.limbo ++ r.2.newGroups
          limboStreams := s.limboStreams ++ r.2.newStreams
          events := s.events ++ r.2.events
          ledger := { s.ledger with
            remaining := Function.update s.ledger.remaining task rest
            delivered := s.ledger.delivered ++ n.tasks } }
  | settleEnd {s : Stage G T S V I E} (task : T)
      (hcurrent : s.ledger.current = some task)
      (hremaining : s.ledger.remaining task = [])
      (hlimbo : s.limbo = []) :
      Move W C s { s with ledger := { s.ledger with current := none } }
  | failBegin {s : Stage G T S V I E} (task : T)
      (hrunning : task ∈ s.queue.runningTasks)
      (hcurrent : s.ledger.current = none) (hlimbo : s.limbo = [])
      (hfound : s.found = []) :
      Move W C s
        { s with
          queue := { s.queue with
            runningTasks := s.queue.runningTasks.erase task
            taskNodes := s.queue.taskNodes.pop task }
          ledger := { s.ledger with
            settled := insert task s.ledger.settled
            current := some task
            excused := insert task s.ledger.excused } }
  | fail {s : Stage G T S V I E} (group : G) (error : E)
      (halive : s.queue.Alive group) (hlimbo : s.limbo = [])
      (hfound : s.found = []) (hnews : s.news = [])
      (hcond : C.fail s.queue group)
      (r : WorkQueue G T S V × WorkQueueEvent G S V I E)
      (hr : r = finishGroupFailure W s.queue group error) :
      Move W C s
        { s with
          queue := r.1
          events := s.events ++ [r.2]
          ledger := { s.ledger with
            failed := insert group s.ledger.failed } }
  | failEnd {s : Stage G T S V I E} (task : T)
      (hcurrent : s.ledger.current = some task)
      (hsettled : task ∈ s.ledger.settled)
      (hdead : ∀ g ∈ W.groups task, ¬s.queue.Alive g) :
      Move W C s
        { s with
          ledger := { s.ledger with
            excused := s.ledger.excused \ {task}
            current := none
            remaining := Function.update s.ledger.remaining task [] } }
  | streamValues {s : Stage G T S V I E} (stream : S) (values : List I)
      (hroot : stream ∈ s.queue.rootStreams) (hlimbo : s.limbo = [])
      (hstreams : s.limboStreams = []) (hfound : s.found = [])
      (hnew : stream ∉ s.newStreams) :
      Move W C s
        { s with
          news := []
          newStreams := []
          events := s.events ++
            [.streamValues stream values s.news s.newStreams] }
  | streamStop {s : Stage G T S V I E} (stream : S)
      (hroot : stream ∈ s.queue.rootStreams) (hstreams : s.newStreams = []) :
      Move W C s
        { s with
          queue := { s.queue with
            rootStreams := OrderedSet.remove s.queue.rootStreams stream }
          events := s.events ++ [.streamSuccess stream]
          ledger := { s.ledger with
            stoppedStreams := insert stream s.ledger.stoppedStreams } }
  | streamEnd {s : Stage G T S V I E} (stream : S)
      (hroot : stream ∈ s.queue.rootStreams) (hstreams : s.newStreams = []) :
      Move W C s
        { s with
          queue := { s.queue with
            pumpTasks := s.queue.pumpTasks.erase stream
            rootStreams := OrderedSet.remove s.queue.rootStreams stream }
          events := s.events ++ [.streamSuccess stream] }
  | streamExit {s : Stage G T S V I E} (stream : S)
      (hroot : stream ∉ s.queue.rootStreams) :
      Move W C s
        { s with
          queue := { s.queue with
            pumpTasks := s.queue.pumpTasks.erase stream } }
  | streamFail {s : Stage G T S V I E} (stream : S) (error : E)
      (hroot : stream ∈ s.queue.rootStreams) (hstreams : s.newStreams = []) :
      Move W C s
        { s with
          queue := { s.queue with
            pumpTasks := s.queue.pumpTasks.erase stream
            rootStreams := OrderedSet.remove s.queue.rootStreams stream }
          events := s.events ++ [.streamFailure stream error] }

/-! ## The invariants of all stages -/

/-- Where the streams are: held by the task that introduced them, in limbo, or
started. -/
structure StreamInv (q : WorkQueue G T S V) (γ : Ledger G T S V)
    (limbo : List S) : Prop where
  child_origin : ∀ t n, q.taskNode t = some n → ∀ s ∈ n.childStreams,
    s ∈ γ.streams ∧ γ.streamOrigin s = some t
  child_nodup : ∀ t n, q.taskNode t = some n → n.childStreams.Nodup
  /-- Streams leave their task when its value is delivered. -/
  released : ∀ s, s ∈ limbo ∨ s ∈ γ.startedStreams → s ∈ γ.streams ∧
    ∀ t, γ.streamOrigin s = some t → t ∈ γ.delivered
  limbo_nodup : limbo.Nodup
  limbo_idle : ∀ s ∈ limbo, s ∉ γ.startedStreams
  root_iff : ∀ s, s ∈ q.rootStreams ↔
    s ∈ q.pumpTasks ∧ s ∉ γ.stoppedStreams
  pump_started : ∀ s ∈ q.pumpTasks, s ∈ γ.startedStreams
  pump_nodup : q.pumpTasks.Nodup
  stopped_started : ∀ s ∈ γ.stoppedStreams, s ∈ γ.startedStreams

namespace StreamInv

variable {q q' : WorkQueue G T S V} {γ γ' : Ledger G T S V} {limbo : List S}

/-- Operations that neither move nor add streams. -/
theorem keep (h : StreamInv q γ limbo)
    (hchild : ∀ t n', q'.taskNode t = some n' → n'.childStreams = [] ∨
      ∃ n, q.taskNode t = some n ∧ n.childStreams = n'.childStreams)
    (hroots : q'.rootStreams = q.rootStreams)
    (hpump : q'.pumpTasks = q.pumpTasks)
    (hstreams : γ'.streams = γ.streams)
    (horigin : γ'.streamOrigin = γ.streamOrigin)
    (hstarted : γ'.startedStreams = γ.startedStreams)
    (hstopped : γ'.stoppedStreams = γ.stoppedStreams)
    (hdelivered : γ'.delivered = γ.delivered) : StreamInv q' γ' limbo := by
  constructor
  · intro t n' hn' s hs
    rw [hstreams, horigin]
    rcases hchild t n' hn' with hnil | ⟨n, hn, heq⟩
    · simp [hnil] at hs
    · exact h.child_origin t n hn s (heq ▸ hs)
  · intro t n' hn'
    rcases hchild t n' hn' with hnil | ⟨n, hn, heq⟩
    · simp [hnil]
    · exact heq ▸ h.child_nodup t n hn
  · rw [hstreams, horigin, hstarted, hdelivered]
    exact h.released
  · exact h.limbo_nodup
  · rw [hstarted]
    exact h.limbo_idle
  · rw [hroots, hpump, hstopped]
    exact h.root_iff
  · rw [hpump, hstarted]
    exact h.pump_started
  · rw [hpump]
    exact h.pump_nodup
  · rw [hstopped, hstarted]
    exact h.stopped_started

/-- New streams go into limbo, or to the task that produced them. -/
theorem add (h : StreamInv q γ limbo) {parentTask : Option T}
    {streams : List S} (hnodup : streams.Nodup)
    (hfresh : ∀ x ∈ streams, x ∉ γ.streams) :
    StreamInv (addStreams q streams parentTask).1
      { γ with
        streams := γ.streams ∪ { x | x ∈ streams }
        streamOrigin := fun x =>
          if x ∈ streams then parentTask else γ.streamOrigin x }
      (limbo ++ (addStreams q streams parentTask).2) := by
  have hold : ∀ x ∈ γ.streams, x ∉ streams := fun x hx hmem =>
    hfresh x hmem hx
  have hstarted : ∀ x ∈ streams, x ∉ γ.startedStreams := fun x hx hs =>
    hfresh x hx (h.released x (Or.inr hs)).1
  cases parentTask with
  | none =>
      constructor
      · intro t n hn s hs
        obtain ⟨hmem, horigin⟩ := h.child_origin t n hn s hs
        exact ⟨Or.inl hmem, by simp [hold s hmem, horigin]⟩
      · exact h.child_nodup
      · intro s hs
        by_cases hnew : s ∈ streams
        · exact ⟨Or.inr hnew, by simp [hnew]⟩
        · have hs' : s ∈ limbo ∨ s ∈ γ.startedStreams :=
            hs.imp_left fun hl => (List.mem_append.mp hl).resolve_right hnew
          obtain ⟨hmem, horigin⟩ := h.released s hs'
          exact ⟨Or.inl hmem, by simpa [hnew] using horigin⟩
      · rw [List.nodup_append]
        refine ⟨h.limbo_nodup, hnodup, ?_⟩
        rintro x hx y hy rfl
        exact hfresh x hy (h.released x (Or.inl hx)).1
      · intro s hs
        rcases List.mem_append.mp hs with hl | hl
        · exact h.limbo_idle s hl
        · exact hstarted s hl
      · exact h.root_iff
      · exact h.pump_started
      · exact h.pump_nodup
      · exact h.stopped_started
  | some task =>
      have hnode : ∀ t n', (addStreams q streams (some task)).1.taskNode t =
          some n' → ∃ n, q.taskNode t = some n ∧
            n'.childStreams = n.childStreams ++ if t = task then streams else [] := by
        intro t n' hn'
        have hget : (addStreams q streams (some task)).1.taskNode t =
            if t = task then (q.taskNode t).map fun taskNode =>
              { taskNode with childStreams := taskNode.childStreams ++ streams }
            else q.taskNode t := Dict.get_modify q.taskNodes task t _
        rw [hget] at hn'
        split at hn'
        · next ht =>
          obtain ⟨n, hn, rfl⟩ := Option.map_eq_some_iff.mp hn'
          exact ⟨n, hn, by simp [ht]⟩
        · next ht => exact ⟨n', hn', by simp [ht]⟩
      have hsnd : (addStreams q streams (some task)).2 = [] := rfl
      rw [hsnd, List.append_nil]
      constructor
      · intro t n' hn' s hs
        obtain ⟨n, hn, heq⟩ := hnode t n' hn'
        rw [heq] at hs
        rcases List.mem_append.mp hs with hs | hs
        · obtain ⟨hmem, horigin⟩ := h.child_origin t n hn s hs
          exact ⟨Or.inl hmem, by simp [hold s hmem, horigin]⟩
        · split at hs
          · next ht => exact ⟨Or.inr hs, by simp [ht, hs]⟩
          · simp at hs
      · intro t n' hn'
        obtain ⟨n, hn, heq⟩ := hnode t n' hn'
        rw [heq, List.nodup_append]
        refine ⟨h.child_nodup t n hn, ?_, ?_⟩
        · split
          · exact hnodup
          · exact List.nodup_nil
        · rintro x hx y hy rfl
          split at hy
          · exact hfresh x hy (h.child_origin t n hn x hx).1
          · simp at hy
      · intro s hs
        obtain ⟨hmem, horigin⟩ := h.released s hs
        exact ⟨Or.inl hmem, by simpa [hold s hmem] using horigin⟩
      · exact h.limbo_nodup
      · exact h.limbo_idle
      · exact h.root_iff
      · exact h.pump_started
      · exact h.pump_nodup
      · exact h.stopped_started

theorem promoteStream {x : S} {rest : List S} (h : StreamInv q γ (x :: rest)) :
    StreamInv (q.promoteStream x)
      { γ with startedStreams := insert x γ.startedStreams } rest := by
  have hidle : x ∉ γ.startedStreams := h.limbo_idle x List.mem_cons_self
  have hrest := List.nodup_cons.mp h.limbo_nodup
  constructor
  · exact h.child_origin
  · exact h.child_nodup
  · rintro s (hs | rfl | hs)
    · exact h.released s (Or.inl (List.mem_cons_of_mem _ hs))
    · exact h.released s (Or.inl List.mem_cons_self)
    · exact h.released s (Or.inr hs)
  · exact hrest.2
  · rintro s hs (rfl | hstarted)
    · exact hrest.1 hs
    · exact h.limbo_idle s (List.mem_cons_of_mem _ hs) hstarted
  · intro s
    have hroots : (q.promoteStream x).rootStreams =
        OrderedSet.add q.rootStreams x := rfl
    have hpump : (q.promoteStream x).pumpTasks = q.pumpTasks ++ [x] := rfl
    rw [hroots, hpump, OrderedSet.mem_add, List.mem_append,
      List.mem_singleton, h.root_iff]
    by_cases hs : s = x
    · subst hs
      simpa using fun hstopped => hidle (h.stopped_started s hstopped)
    · simp [hs]
  · intro s hs
    have hpump : (q.promoteStream x).pumpTasks = q.pumpTasks ++ [x] := rfl
    rw [hpump] at hs
    rcases List.mem_append.mp hs with hs | hs
    · exact Or.inr (h.pump_started s hs)
    · exact Or.inl (List.mem_singleton.mp hs)
  · have hpump : (q.promoteStream x).pumpTasks = q.pumpTasks ++ [x] := rfl
    rw [hpump, List.nodup_append]
    refine ⟨h.pump_nodup, List.nodup_singleton x, ?_⟩
    rintro s hs s' hs' rfl
    exact hidle (h.pump_started x (List.mem_singleton.mp hs' ▸ hs))
  · exact fun s hs => Or.inr (h.stopped_started s hs)

/-- Delivered tasks release their streams. -/
theorem deliver (h : StreamInv q γ limbo) {tasks : List T}
    (hnodup : tasks.Nodup) (hnew : ∀ t ∈ tasks, t ∉ γ.delivered)
    (htask : ∀ t, q'.taskNode t = if t ∈ tasks then none else q.taskNode t)
    (hroots : q'.rootStreams = q.rootStreams)
    (hpump : q'.pumpTasks = q.pumpTasks)
    (hstreams : γ'.streams = γ.streams)
    (horigin : γ'.streamOrigin = γ.streamOrigin)
    (hstarted : γ'.startedStreams = γ.startedStreams)
    (hstopped : γ'.stoppedStreams = γ.stoppedStreams)
    (hdelivered : γ'.delivered = γ.delivered ++ tasks) :
    StreamInv q' γ' (limbo ++ (deliveryOf q tasks).newStreams) := by
  have hold : ∀ t n, q'.taskNode t = some n → q.taskNode t = some n := by
    intro t n hn
    rw [htask t] at hn
    split at hn
    · simp at hn
    · exact hn
  have hmem : ∀ x ∈ (deliveryOf q tasks).newStreams, ∃ t ∈ tasks, ∃ n,
      q.taskNode t = some n ∧ x ∈ n.childStreams := by
    intro x hx
    obtain ⟨t, ht, hx⟩ := List.mem_flatMap.mp hx
    cases hn : q.taskNode t with
    | none => simp [hn] at hx
    | some n => exact ⟨t, ht, n, hn, by simpa [hn] using hx⟩
  have hfresh : ∀ x ∈ (deliveryOf q tasks).newStreams,
      ¬(x ∈ limbo ∨ x ∈ γ.startedStreams) := by
    intro x hx hreleased
    obtain ⟨t, ht, n, hn, hx⟩ := hmem x hx
    exact hnew t ht
      ((h.released x hreleased).2 t (h.child_origin t n hn x hx).2)
  have hnodup' : (deliveryOf q tasks).newStreams.Nodup := by
    refine List.nodup_flatMap.mpr ⟨?_, ?_⟩
    · intro t _
      cases hn : q.taskNode t with
      | none => simp
      | some n => exact h.child_nodup t n hn
    · refine List.Pairwise.imp_of_mem ?_ hnodup
      intro t t' _ _ hne x hx hx'
      cases hn : q.taskNode t with
      | none => simp [hn] at hx
      | some n =>
          cases hn' : q.taskNode t' with
          | none => simp [hn'] at hx'
          | some n' =>
              have h₁ := (h.child_origin t n hn x (by simpa [hn] using hx)).2
              have h₂ := (h.child_origin t' n' hn' x (by simpa [hn'] using hx')).2
              exact hne (Option.some.inj (h₁.symm.trans h₂))
  constructor
  · rw [hstreams, horigin]
    exact fun t n hn => h.child_origin t n (hold t n hn)
  · exact fun t n hn => h.child_nodup t n (hold t n hn)
  · rw [hstreams, horigin, hstarted, hdelivered]
    intro s hs
    have hcase : (s ∈ limbo ∨ s ∈ γ.startedStreams) ∨
        s ∈ (deliveryOf q tasks).newStreams := by
      rcases hs with hs | hs
      · exact (List.mem_append.mp hs).imp_left Or.inl
      · exact Or.inl (Or.inr hs)
    rcases hcase with hs | hs
    · obtain ⟨hstream, hs⟩ := h.released s hs
      exact ⟨hstream, fun t ht => List.mem_append_left _ (hs t ht)⟩
    · obtain ⟨t, ht, n, hn, hx⟩ := hmem s hs
      obtain ⟨hstream, heq⟩ := h.child_origin t n hn s hx
      refine ⟨hstream, fun t' ht' => ?_⟩
      obtain rfl := Option.some.inj (heq.symm.trans ht')
      exact List.mem_append_right _ ht
  · rw [List.nodup_append]
    refine ⟨h.limbo_nodup, hnodup', ?_⟩
    rintro x hx y hy rfl
    exact hfresh x hy (Or.inl hx)
  · rw [hstarted]
    intro s hs
    rcases List.mem_append.mp hs with hs | hs
    · exact h.limbo_idle s hs
    · exact fun hs' => hfresh s hs (Or.inr hs')
  · rw [hroots, hpump, hstopped]
    exact h.root_iff
  · rw [hpump, hstarted]
    exact h.pump_started
  · rw [hpump]
    exact h.pump_nodup
  · rw [hstopped, hstarted]
    exact h.stopped_started

/-- A root stream is stopped or ends. -/
theorem stop (h : StreamInv q γ limbo) (x : S)
    (htask : q'.taskNode = q.taskNode)
    (hroots : q'.rootStreams = OrderedSet.remove q.rootStreams x)
    (hpump : q'.pumpTasks = q.pumpTasks.erase x ∧
        γ'.stoppedStreams = γ.stoppedStreams ∨
      q'.pumpTasks = q.pumpTasks ∧ x ∈ q.pumpTasks ∧
        γ'.stoppedStreams = insert x γ.stoppedStreams)
    (hstreams : γ'.streams = γ.streams)
    (horigin : γ'.streamOrigin = γ.streamOrigin)
    (hstarted : γ'.startedStreams = γ.startedStreams)
    (hdelivered : γ'.delivered = γ.delivered) : StreamInv q' γ' limbo := by
  have hsub : ∀ s ∈ q'.pumpTasks, s ∈ q.pumpTasks := by
    intro s hs
    rcases hpump with ⟨hpump, -⟩ | ⟨hpump, -, -⟩
    · exact List.mem_of_mem_erase (hpump ▸ hs)
    · exact hpump ▸ hs
  constructor
  · rw [htask, hstreams, horigin]
    exact h.child_origin
  · rw [htask]
    exact h.child_nodup
  · rw [hstreams, horigin, hstarted, hdelivered]
    exact h.released
  · exact h.limbo_nodup
  · rw [hstarted]
    exact h.limbo_idle
  · intro s
    rw [hroots, OrderedSet.mem_remove, h.root_iff]
    rcases hpump with ⟨hpump, hstopped⟩ | ⟨hpump, -, hstopped⟩
    · rw [hpump, hstopped, h.pump_nodup.mem_erase_iff]
      tauto
    · rw [hpump, hstopped, Set.mem_insert_iff]
      tauto
  · rw [hstarted]
    exact fun s hs => h.pump_started s (hsub s hs)
  · rcases hpump with ⟨hpump, -⟩ | ⟨hpump, -, -⟩
    · rw [hpump]
      exact h.pump_nodup.erase x
    · rw [hpump]
      exact h.pump_nodup
  · rw [hstarted]
    intro s hs
    rcases hpump with ⟨-, hstopped⟩ | ⟨-, hx, hstopped⟩
    · exact h.stopped_started s (hstopped ▸ hs)
    · rw [hstopped] at hs
      rcases hs with rfl | hs
      · exact h.pump_started s hx
      · exact h.stopped_started s hs

end StreamInv

end GraphqlCore.Incremental
