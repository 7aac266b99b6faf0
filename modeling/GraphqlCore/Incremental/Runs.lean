import GraphqlCore.Incremental.Stages

/-!
# Runs of the event loop

`WorkQueue.events` handles the graph events that the started tasks and pumps
push into its channel, and yields the resulting events in batches.  A run may
handle these events in any order and batch them in any way; the work that a
completion brings along consists of new groups, tasks and streams.
-/

set_option linter.unusedSectionVars false

namespace GraphqlCore.Incremental

open WorkQueue

variable {G T S V I E : Type} [DecidableEq G] [DecidableEq T] [DecidableEq S]

/-! ## New work -/

def History.addWork (h : History G T S V) (parentTask : Option T) :
    Option (Work G T S) → History G T S V
  | none => h
  | some work =>
      { h with
        groups := h.groups ∪ { g | g ∈ work.groups }
        tasks := h.tasks ++ work.tasks
        streams := h.streams ∪ { s | s ∈ work.streams }
        origin := fun g => if g ∈ work.groups then parentTask else h.origin g
        streamOrigin := fun s =>
          if s ∈ work.streams then parentTask else h.streamOrigin s }

/-- The work consists of new objects, and its tasks belong to groups that have
been introduced before or with them. -/
structure Fresh (W : WorkGraph G T) (h : History G T S V)
    (work : Work G T S) : Prop where
  groups : ∀ g ∈ work.groups, g ∉ h.groups
  tasks : ∀ t ∈ work.tasks, t ∉ h.tasks
  tasks_nodup : work.tasks.Nodup
  streams : ∀ s ∈ work.streams, s ∉ h.streams
  streams_nodup : work.streams.Nodup
  task_groups : ∀ t ∈ work.tasks, ∀ g ∈ W.groups t,
    g ∈ h.groups ∨ g ∈ work.groups

/-- The work of each item is new after that of the items before it. -/
def FreshItems (W : WorkGraph G T) :
    History G T S V → List (WorkResult G T S I) → Prop
  | _, [] => True
  | h, item :: rest =>
      (∀ work ∈ item.work, Fresh W h work) ∧
        FreshItems W (h.addWork none item.work) rest

/-! ## Conditions along a handler -/

def WorkMeets (W : WorkGraph G T) (C : Conditions G T S V)
    (h : History G T S V) (q : WorkQueue G T S V) (parentTask : Option T)
    (work : Work G T S) : Prop :=
  let added := addGroups W q work.groups parentTask
  (∀ g ∈ work.groups, Below added.1.kids q.rootGroups g →
    C.introduce parentTask g) ∧
  ∀ t ∈ work.tasks, C.join h.failed (h.addWork parentTask (some work)).origin
    (q.rootGroups ++ added.2) added.1.kids t

/-- Each group that finishes in the loop of `_task_success` meets its
condition. -/
def SettleMeets (W : WorkGraph G T) (C : Conditions G T S V) :
    SuccessLoop G T S V I E → List G → Prop
  | _, [] => True
  | st, group :: rest =>
      (st.queue.Finishes group → C.finish st.queue group rest) ∧
        SettleMeets W C (settleGroup W st group) rest

/-- Each group that fails in the loop of `_task_failure` meets its
condition. -/
def FailMeets (W : WorkGraph G T) (C : Conditions G T S V) (error : E) :
    WorkQueue G T S V × List (WorkQueueEvent G S V I E) → List G → Prop
  | _, [] => True
  | st, group :: rest =>
      (st.1.Alive group → C.fail st.1 group) ∧
        FailMeets W C error (failGroup W error st group) rest

def ItemsMeet (W : WorkGraph G T) (C : Conditions G T S V) :
    History G T S V → ItemsLoop G T S V I → List (WorkResult G T S I) → Prop
  | _, _, [] => True
  | h, st, item :: rest =>
      (∀ work ∈ item.work, WorkMeets W C h st.queue none work) ∧
        ItemsMeet W C (h.addWork none item.work) (streamItem W st item) rest

/-- Handling a graph event meets the conditions at every operation. -/
def Meets (W : WorkGraph G T) (C : Conditions G T S V) (h : History G T S V)
    (q : WorkQueue G T S V) : GraphEvent G T S V I E → Prop
  | .taskSuccess task result =>
      let q := { q with runningTasks := q.runningTasks.erase task }
      (∀ work ∈ result.work,
        WorkMeets W C h (storeValue q task result.value) (some task) work) ∧
      SettleMeets (I := I) (E := E) W C
        { queue := storeResult W q task result } (W.groups task)
  | .taskFailure task error =>
      FailMeets (I := I) W C error
        ({ q with
           runningTasks := q.runningTasks.erase task
           taskNodes := q.taskNodes.pop task }, []) (W.groups task)
  | .streamItems _ items _ => ItemsMeet W C h { queue := q } items
  | .streamSuccess _ => True
  | .streamFailure _ _ => True

/-! ## The event loop -/

structure EventLoop (G T S V I E : Type) where
  queue : WorkQueue G T S V
  history : History G T S V
  /-- The events of the batch that is being collected. -/
  batch : List (WorkQueueEvent G S V I E) := []
  /-- Whether the current batch has taken an event from the channel. -/
  handling : Bool := false
  /-- The batches that have been yielded. -/
  batches : List (List (WorkQueueEvent G S V I E)) := []

/-- The graph events that the started tasks and pumps can push. -/
def Legal (W : WorkGraph G T) (h : History G T S V) (q : WorkQueue G T S V) :
    GraphEvent G T S V I E → Prop
  | .taskSuccess task result =>
      task ∈ q.runningTasks ∧ ∀ work ∈ result.work, Fresh W h work
  | .taskFailure task _ => task ∈ q.runningTasks
  | .streamItems stream items _ =>
      stream ∈ q.pumpTasks ∧ stream ∉ h.stoppedStreams ∧ FreshItems W h items
  | .streamSuccess stream => stream ∈ q.pumpTasks
  | .streamFailure stream _ => stream ∈ q.pumpTasks ∧ stream ∉ h.stoppedStreams

def History.record (h : History G T S V)
    (events : List (WorkQueueEvent G S V I E)) :
    GraphEvent G T S V I E → History G T S V
  | .taskSuccess task result =>
      { h.addWork (some task) result.work with
        results := Function.update h.results task (some result.value) }
  | .taskFailure _ _ =>
      { h with
        failed := h.failed ∪
          { g | ∃ error, WorkQueueEvent.groupFailure g error ∈ events } }
  | .streamItems stream items isStopped =>
      let h := items.foldl (fun h item => h.addWork none item.work) h
      if isStopped then
        { h with stoppedStreams := insert stream h.stoppedStreams }
      else h
  | .streamSuccess _ => h
  | .streamFailure _ _ => h

namespace EventLoop

/-- The loop before its first event: the root groups and streams started. -/
def start (W : WorkGraph G T) (work : Option (Work G T S)) :
    EventLoop G T S V I E where
  queue := startRoots (WorkQueue.init W work)
  history := ({} : History G T S V).addWork none work

/-- Handle a graph event within the current batch. -/
def handle (W : WorkGraph G T) (c : EventLoop G T S V I E)
    (event : GraphEvent G T S V I E) : EventLoop G T S V I E :=
  let (q, events) := handleGraphEvent W c.queue event
  { c with
    queue := q
    history := c.history.record events event
    batch := c.batch ++ events
    handling := true }

/-- Close the current batch when the channel is empty. -/
def flush (c : EventLoop G T S V I E) : EventLoop G T S V I E :=
  if c.queue.rootGroups = [] ∧ c.queue.rootStreams = [] then
    { c with
      queue := { c.queue with stopped := true }
      batch := []
      handling := false
      batches := c.batches ++ [c.batch ++ [.termination]] }
  else
    { c with
      batch := []
      handling := false
      batches := if c.batch = [] then c.batches else c.batches ++ [c.batch] }

/-- A task or pump ends after the loop has stopped: nothing is pushed. -/
def discard (c : EventLoop G T S V I E) :
    GraphEvent G T S V I E → EventLoop G T S V I E
  | .taskSuccess task _ | .taskFailure task _ =>
      { c with queue := { c.queue with
          runningTasks := c.queue.runningTasks.erase task } }
  | .streamItems _ _ _ => c
  | .streamSuccess stream | .streamFailure stream _ =>
      { c with queue := { c.queue with
          pumpTasks := c.queue.pumpTasks.erase stream } }

/-- All events so far, in order. -/
def events (c : EventLoop G T S V I E) : List (WorkQueueEvent G S V I E) :=
  c.batches.flatten ++ c.batch

end EventLoop

/-- The states of the runs on `work` whose steps all meet the conditions. -/
inductive Reachable (W : WorkGraph G T) (C : Conditions G T S V)
    (work : Option (Work G T S)) : EventLoop G T S V I E → Prop
  | start (hfresh : ∀ w ∈ work, Fresh W ({} : History G T S V) w)
      (hmeets : ∀ w ∈ work, WorkMeets W C {} {} none w) :
      Reachable W C work (EventLoop.start W work)
  | handle {c : EventLoop G T S V I E} (h : Reachable W C work c)
      (event : GraphEvent G T S V I E) (hrun : c.queue.stopped = false)
      (hlegal : Legal W c.history c.queue event)
      (hmeets : Meets W C c.history c.queue event) :
      Reachable W C work (c.handle W event)
  | flush {c : EventLoop G T S V I E} (h : Reachable W C work c)
      (hrun : c.queue.stopped = false) (hhandling : c.handling = true) :
      Reachable W C work c.flush
  | discard {c : EventLoop G T S V I E} (h : Reachable W C work c)
      (event : GraphEvent G T S V I E) (hstopped : c.queue.stopped = true) :
      Reachable W C work (c.discard event)

/-! ## Runs without conditions -/

theorem workMeets_trivial (W : WorkGraph G T) (h : History G T S V)
    (q : WorkQueue G T S V) (parentTask : Option T) (work : Work G T S) :
    WorkMeets W {} h q parentTask work :=
  ⟨fun _ _ _ => trivial, fun _ _ => trivial⟩

theorem meets_trivial (W : WorkGraph G T) (h : History G T S V)
    (q : WorkQueue G T S V) (event : GraphEvent G T S V I E) :
    Meets W {} h q event := by
  cases event with
  | taskSuccess task result =>
      refine ⟨fun work _ => workMeets_trivial W h _ _ work, ?_⟩
      generalize W.groups task = groups
      generalize SuccessLoop.mk _ _ _ _ = st
      induction groups generalizing st with
      | nil => trivial
      | cons group rest ih => exact ⟨fun _ => trivial, ih _⟩
  | taskFailure task error =>
      simp only [Meets]
      generalize W.groups task = groups
      generalize Prod.mk _ _ = st
      induction groups generalizing st with
      | nil => trivial
      | cons group rest ih => exact ⟨fun _ => trivial, ih _⟩
  | streamItems stream items isStopped =>
      simp only [Meets]
      generalize ItemsLoop.mk _ _ _ _ = st
      induction items generalizing h st with
      | nil => trivial
      | cons item rest ih =>
          exact ⟨fun work _ => workMeets_trivial W h _ _ work, ih _ _⟩
  | streamSuccess stream => trivial
  | streamFailure stream error => trivial

end GraphqlCore.Incremental
