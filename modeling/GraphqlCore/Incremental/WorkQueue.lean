import GraphqlCore.Data.Dict

/-!
# The work queue of incremental delivery

The scheduler of `execution/incremental/work_queue.py`.  Groups, tasks and
streams are compared by identity in the source, so they are elements of
arbitrary types here; the attributes the queue reads from them (the parent of a
group, the groups of a task) are functions.

The futures and pumps that feed the channel are represented by the started
tasks and pumps whose last graph event has not been handled yet; in which order
their events reach the queue is left open (see `Runs`).
-/

namespace GraphqlCore.Incremental

/-- The attributes of groups and tasks that the work queue reads. -/
structure WorkGraph (G T : Type) where
  parent : G → Option G
  groups : T → List G

/-- New work produced during execution. -/
structure Work (G T S : Type) where
  groups : List G := []
  tasks : List T := []
  streams : List S := []

/-- The value produced by a task or stream item, with new nested work. -/
structure WorkResult (G T S V : Type) where
  value : V
  work : Option (Work G T S) := none

/-- The internal graph events.  A batch of stream items comes with the answer
that `stream.queue.is_stopped()` gives when the batch is handled. -/
inductive GraphEvent (G T S V I E : Type)
  | taskSuccess (task : T) (result : WorkResult G T S V)
  | taskFailure (task : T) (error : E)
  | streamItems (stream : S) (items : List (WorkResult G T S I))
      (isStopped : Bool)
  | streamSuccess (stream : S)
  | streamFailure (stream : S) (error : E)

/-- The public work queue events. -/
inductive WorkQueueEvent (G S V I E : Type)
  | groupValues (group : G) (values : List V)
  | groupSuccess (group : G) (newGroups : List G) (newStreams : List S)
  | groupFailure (group : G) (error : E)
  | streamValues (stream : S) (values : List I) (newGroups : List G)
      (newStreams : List S)
  | streamSuccess (stream : S)
  | streamFailure (stream : S) (error : E)
  | termination
  deriving DecidableEq

/-- Bookkeeping for a group in the work graph. -/
structure GroupNode (G T : Type) where
  childGroups : List G := []
  tasks : List T := []
  pending : ℤ := 0

/-- Bookkeeping for a started task in the work graph. -/
structure TaskNode (S V : Type) where
  value : Option V := none
  childStreams : List S := []

structure WorkQueue (G T S V : Type) where
  rootGroups : List G := []
  rootStreams : List S := []
  groupNodes : Dict G (GroupNode G T) := Dict.empty
  taskNodes : Dict T (TaskNode S V) := Dict.empty
  stopped : Bool := false
  /-- Started tasks whose success or failure has not been handled. -/
  runningTasks : List T := []
  /-- Started pumps whose success or failure has not been handled. -/
  pumpTasks : List S := []

variable {G T S V I E : Type} [DecidableEq G] [DecidableEq T]

namespace WorkQueue

def node (q : WorkQueue G T S V) (group : G) : Option (GroupNode G T) :=
  q.groupNodes.get group

def taskNode (q : WorkQueue G T S V) (task : T) : Option (TaskNode S V) :=
  q.taskNodes.get task

/-- The group has a node in the work graph. -/
def Alive (q : WorkQueue G T S V) (group : G) : Prop :=
  (q.node group).isSome

instance (q : WorkQueue G T S V) (group : G) : Decidable (q.Alive group) :=
  inferInstanceAs (Decidable ((q.node group).isSome = true))

def modifyNode (q : WorkQueue G T S V) (group : G)
    (f : GroupNode G T → GroupNode G T) : WorkQueue G T S V :=
  { q with groupNodes := q.groupNodes.modify group f }

/-! ## Starting tasks and streams -/

/-- Start a task; its graph event will be pushed when its computation
settles. -/
def startTask (q : WorkQueue G T S V) (task : T) : WorkQueue G T S V :=
  match q.taskNode task with
  | some _ => q
  | none =>
      { q with
        taskNodes := q.taskNodes.set task {}
        runningTasks := q.runningTasks ++ [task] }

/-- Start all tasks of a group. -/
def startGroup (q : WorkQueue G T S V) (group : G) : WorkQueue G T S V :=
  match q.node group with
  | none => q
  | some groupNode => groupNode.tasks.foldl startTask q

/-- Start pumping the batches of a stream into the channel. -/
def startStream (q : WorkQueue G T S V) (stream : S) : WorkQueue G T S V :=
  { q with pumpTasks := q.pumpTasks ++ [stream] }

def promoteGroup (q : WorkQueue G T S V) (group : G) : WorkQueue G T S V :=
  startGroup { q with rootGroups := OrderedSet.add q.rootGroups group } group

def promoteStream [DecidableEq S] (q : WorkQueue G T S V) (stream : S) :
    WorkQueue G T S V :=
  startStream { q with rootStreams := OrderedSet.add q.rootStreams stream }
    stream

/-- Promote new groups and streams to root and start them. -/
def startNewWork [DecidableEq S] (q : WorkQueue G T S V) (newGroups : List G)
    (newStreams : List S) : WorkQueue G T S V :=
  newStreams.foldl promoteStream (newGroups.foldl promoteGroup q)

/-! ## Integrating new work -/

/-- The part of `_add_group` after its recursive call: create the node and
attach it to the node of its parent, or collect it as a new root. -/
def createGroup (W : WorkGraph G T) (parentTask : Option T)
    (st : WorkQueue G T S V × List G) (group : G) :
    WorkQueue G T S V × List G :=
  let q := { st.1 with groupNodes := st.1.groupNodes.set group {} }
  match parentTask, W.parent group with
  | none, none => (q, st.2 ++ [group])
  | some _, none => (q, st.2)
  | _, some parent =>
      (q.modifyNode parent fun parentNode =>
        { parentNode with childGroups := parentNode.childGroups ++ [group] },
       st.2)

/-- Add a new group to the graph, parents first.  The state is the queue with
the new root groups, and the visited groups; every nested call visits another
member of `groupSet`, whose size bounds their depth. -/
def addGroup (W : WorkGraph G T) (groupSet : List G) (parentTask : Option T) :
    ℕ → (WorkQueue G T S V × List G) × List G → G →
      (WorkQueue G T S V × List G) × List G
  | depth, (st, visited), group =>
      if group ∈ visited then (st, visited) else
      let visited := group :: visited
      let (st, visited) :=
        match depth, W.parent group with
        | depth + 1, some parent =>
            if parent ∈ groupSet then
              addGroup W groupSet parentTask depth (st, visited) parent
            else (st, visited)
        | _, _ => (st, visited)
      (createGroup W parentTask st group, visited)

/-- Add new groups to the graph, returning the new root groups. -/
def addGroups (W : WorkGraph G T) (q : WorkQueue G T S V)
    (originalGroups : List G) (parentTask : Option T) :
    WorkQueue G T S V × List G :=
  (originalGroups.foldl
    (addGroup W originalGroups parentTask originalGroups.length)
    ((q, []), [])).1

/-- The body of the loop of `_add_task` for one group of the task. -/
def addTaskToGroup (task : T) (q : WorkQueue G T S V) (group : G) :
    WorkQueue G T S V :=
  match q.node group with
  | none => q
  | some _ =>
      let q := q.modifyNode group fun groupNode =>
        { groupNode with
          tasks := OrderedSet.add groupNode.tasks task
          pending := groupNode.pending + 1 }
      if group ∈ q.rootGroups then q.startTask task else q

/-- Add a new task to the graph, starting it if its group is a root. -/
def addTask (W : WorkGraph G T) (q : WorkQueue G T S V) (task : T) :
    WorkQueue G T S V :=
  (W.groups task).foldl (addTaskToGroup task) q

/-- Add new streams, attaching them to the producing task if any. -/
def addStreams (q : WorkQueue G T S V) (streams : List S)
    (parentTask : Option T) : WorkQueue G T S V × List S :=
  match parentTask with
  | none => (q, streams)
  | some task =>
      ({ q with
         taskNodes := q.taskNodes.modify task fun taskNode =>
           { taskNode with
             childStreams := taskNode.childStreams ++ streams } }, [])

/-- Integrate new work into the graph, returning new root work. -/
def maybeIntegrateWork (W : WorkGraph G T) (q : WorkQueue G T S V)
    (work : Option (Work G T S)) (parentTask : Option T) :
    WorkQueue G T S V × List G × List S :=
  match work with
  | none => (q, [], [])
  | some work =>
      let (q, newGroups) := addGroups W q work.groups parentTask
      let q := work.tasks.foldl (addTask W) q
      let (q, newStreams) := addStreams q work.streams parentTask
      (q, newGroups, newStreams)

/-! ## Removing groups and tasks -/

/-- What a traversal that deletes groups can still visit below its nodes. -/
def childWeight (nodes : Dict G (GroupNode G T)) : ℕ :=
  nodes.weigh fun groupNode => groupNode.childGroups.length + 1

omit [DecidableEq T] in
theorem childWeight_pop {nodes : Dict G (GroupNode G T)} {group : G}
    {groupNode : GroupNode G T} (h : nodes.get group = some groupNode) :
    childWeight (nodes.pop group) + groupNode.childGroups.length + 1 =
      childWeight nodes := by
  have hpop := Dict.weigh_pop
    (fun groupNode : GroupNode G T => groupNode.childGroups.length + 1) h
  simpa [childWeight, Nat.add_assoc] using hpop

/-- Prune empty groups, promoting their non-empty descendants.  The source
recurses into the children of a pruned group before it goes on with its
siblings; the list of groups to visit makes the order of the visits explicit. -/
def pruneEmptyGroups (nodes : Dict G (GroupNode G T)) :
    List G → Dict G (GroupNode G T) × List G
  | [] => (nodes, [])
  | newGroup :: rest =>
      match _hnode : nodes.get newGroup with
      | none => pruneEmptyGroups nodes rest
      | some newGroupNode =>
          if newGroupNode.pending ≠ 0 then
            let (nodes, nonEmptyNewGroups) := pruneEmptyGroups nodes rest
            (nodes, newGroup :: nonEmptyNewGroups)
          else
            pruneEmptyGroups (nodes.pop newGroup)
              (newGroupNode.childGroups ++ rest)
termination_by groups => childWeight nodes + groups.length
decreasing_by
  · simp
  · simp
  · have hpop := childWeight_pop _hnode
    simp only [List.length_append, List.length_cons]
    omega

/-- Remove a task from all its groups and from the graph. -/
def removeTask (W : WorkGraph G T) (q : WorkQueue G T S V) (task : T) :
    WorkQueue G T S V :=
  let q := (W.groups task).foldl (fun q group =>
    q.modifyNode group fun groupNode =>
      { groupNode with tasks := OrderedSet.remove groupNode.tasks task }) q
  { q with taskNodes := q.taskNodes.pop task }

/-- Remove a task that no group of the graph holds any more. -/
def removeOrphanedTask (W : WorkGraph G T) (q : WorkQueue G T S V) (task : T) :
    WorkQueue G T S V :=
  if ∀ taskGroup ∈ W.groups task, ¬q.Alive taskGroup then removeTask W q task
  else q

omit [DecidableEq T] in
theorem childWeight_modifyNode (q : WorkQueue G T S V) (group : G)
    {f : GroupNode G T → GroupNode G T}
    (hf : ∀ n, (f n).childGroups = n.childGroups) :
    childWeight (q.modifyNode group f).groupNodes =
      childWeight q.groupNodes :=
  Dict.weigh_modify _ _ _ fun n => by rw [hf n]

theorem childWeight_removeTask (W : WorkGraph G T) (q : WorkQueue G T S V)
    (task : T) :
    childWeight (removeTask W q task).groupNodes =
      childWeight q.groupNodes := by
  unfold removeTask
  generalize W.groups task = groups
  induction groups generalizing q with
  | nil => rfl
  | cons group rest ih =>
      rw [List.foldl_cons]
      exact (ih _).trans
        (childWeight_modifyNode q group (f := fun groupNode =>
          { groupNode with tasks := OrderedSet.remove groupNode.tasks task })
          fun _ => rfl)

theorem childWeight_removeOrphanedTask (W : WorkGraph G T)
    (q : WorkQueue G T S V) (task : T) :
    childWeight (removeOrphanedTask W q task).groupNodes =
      childWeight q.groupNodes := by
  unfold removeOrphanedTask
  split
  · exact childWeight_removeTask W q task
  · rfl

theorem childWeight_removeOrphanedTasks (W : WorkGraph G T)
    (q : WorkQueue G T S V) (tasks : List T) :
    childWeight (tasks.foldl (removeOrphanedTask W) q).groupNodes =
      childWeight q.groupNodes := by
  induction tasks generalizing q with
  | nil => rfl
  | cons task rest ih =>
      rw [List.foldl_cons, ih, childWeight_removeOrphanedTask]

/-- Remove groups with their tasks and child groups from the graph, in the
order in which `_remove_group` visits them. -/
def removeGroup (W : WorkGraph G T) (q : WorkQueue G T S V) :
    List G → WorkQueue G T S V
  | [] => q
  | group :: rest =>
      match _hnode : q.node group with
      | none => removeGroup W q rest
      | some groupNode =>
          let q := { q with groupNodes := q.groupNodes.pop group }
          removeGroup W (groupNode.tasks.foldl (removeOrphanedTask W) q)
            (groupNode.childGroups ++ rest)
termination_by groups => childWeight q.groupNodes + groups.length
decreasing_by
  · simp
  · have hpop := childWeight_pop _hnode
    rw [childWeight_removeOrphanedTasks]
    simp only [List.length_append, List.length_cons]
    omega

/-! ## Finishing groups -/

/-- The values and streams that a finished group has collected so far. -/
structure Delivery (S V : Type) where
  values : List V := []
  newStreams : List S := []

/-- The body of the loop over the tasks of a finished group. -/
def deliverTask (W : WorkGraph G T) (st : WorkQueue G T S V × Delivery S V)
    (task : T) : WorkQueue G T S V × Delivery S V :=
  match st.1.taskNode task with
  | none => st
  | some taskNode =>
      (removeTask W st.1 task,
        { values := st.2.values ++ taskNode.value.toList
          newStreams := st.2.newStreams ++ taskNode.childStreams })

/-- What `_finish_group_success` returns. -/
structure GroupFinish (G S V I E : Type) where
  events : List (WorkQueueEvent G S V I E)
  newGroups : List G
  newStreams : List S

/-- Finish a successfully completed group, promoting its children. -/
def finishGroupSuccess (W : WorkGraph G T) (q : WorkQueue G T S V) (group : G)
    (groupNode : GroupNode G T) :
    WorkQueue G T S V × GroupFinish G S V I E :=
  let q := { q with groupNodes := q.groupNodes.pop group }
  let (q, delivery) := groupNode.tasks.foldl (deliverTask W) (q, {})
  let (nodes, newGroups) :=
    pruneEmptyGroups q.groupNodes groupNode.childGroups
  let q :=
    { q with
      groupNodes := nodes
      rootGroups := OrderedSet.remove q.rootGroups group }
  let valuesEvent :=
    if delivery.values = [] then []
    else [WorkQueueEvent.groupValues group delivery.values]
  (q,
    { events := valuesEvent ++
        [WorkQueueEvent.groupSuccess group newGroups delivery.newStreams]
      newGroups := newGroups
      newStreams := delivery.newStreams })

/-- Finish a failed group, removing its whole subtree. -/
def finishGroupFailure (W : WorkGraph G T) (q : WorkQueue G T S V) (group : G)
    (error : E) : WorkQueue G T S V × WorkQueueEvent G S V I E :=
  let q := removeGroup W q [group]
  ({ q with rootGroups := OrderedSet.remove q.rootGroups group },
    .groupFailure group error)

/-! ## Handling graph events -/

/-- The state of the loop over the groups of a successful task. -/
structure SuccessLoop (G T S V I E : Type) where
  queue : WorkQueue G T S V
  groupEvents : List (WorkQueueEvent G S V I E) := []
  newGroups : List G := []
  newStreams : List S := []

/-- The body of the loop of `_task_success` for one group of the task. -/
def settleGroup (W : WorkGraph G T) (st : SuccessLoop G T S V I E) (group : G) :
    SuccessLoop G T S V I E :=
  match st.queue.node group with
  | none => st
  | some groupNode =>
      let groupNode := { groupNode with pending := groupNode.pending - 1 }
      let q := st.queue.modifyNode group fun _ => groupNode
      if group ∈ q.rootGroups ∧ groupNode.pending = 0 then
        let (q, finish) := finishGroupSuccess W q group groupNode
        { queue := q
          groupEvents := st.groupEvents ++ finish.events
          newGroups := st.newGroups ++ finish.newGroups
          newStreams := st.newStreams ++ finish.newStreams }
      else { st with queue := q }

/-- Store the value of a successful task in its node, if it has one. -/
def storeValue (q : WorkQueue G T S V) (task : T) (value : V) :
    WorkQueue G T S V :=
  { q with
    taskNodes := q.taskNodes.modify task fun taskNode =>
      { taskNode with value := some value } }

/-- The queue in which `_task_success` starts its loop: the value of the task
is stored and its nested work integrated. -/
def storeResult (W : WorkGraph G T) (q : WorkQueue G T S V) (task : T)
    (result : WorkResult G T S V) : WorkQueue G T S V :=
  (maybeIntegrateWork W (storeValue q task result.value) result.work
    (some task)).1

/-- Handle a task success, finishing groups that become complete. -/
def taskSuccess [DecidableEq S] (W : WorkGraph G T) (q : WorkQueue G T S V) (task : T)
    (result : WorkResult G T S V) :
    WorkQueue G T S V × List (WorkQueueEvent G S V I E) :=
  let st := (W.groups task).foldl (settleGroup W)
    { queue := storeResult W q task result }
  (startNewWork st.queue st.newGroups st.newStreams, st.groupEvents)

/-- The body of the loop of `_task_failure` for one group of the task. -/
def failGroup (W : WorkGraph G T) (error : E)
    (st : WorkQueue G T S V × List (WorkQueueEvent G S V I E)) (group : G) :
    WorkQueue G T S V × List (WorkQueueEvent G S V I E) :=
  match st.1.node group with
  | none => st
  | some _ =>
      let (q, event) := finishGroupFailure W st.1 group error
      (q, st.2 ++ [event])

/-- Handle a task failure, removing all groups it belongs to. -/
def taskFailure (W : WorkGraph G T) (q : WorkQueue G T S V) (task : T)
    (error : E) : WorkQueue G T S V × List (WorkQueueEvent G S V I E) :=
  (W.groups task).foldl (failGroup W error)
    ({ q with taskNodes := q.taskNodes.pop task }, [])

/-- The state of the loop over the items of a batch. -/
structure ItemsLoop (G T S V I : Type) where
  queue : WorkQueue G T S V
  values : List I := []
  newGroups : List G := []
  newStreams : List S := []

/-- The body of the loop of `_stream_items` for one item. -/
def streamItem [DecidableEq S] (W : WorkGraph G T) (st : ItemsLoop G T S V I)
    (item : WorkResult G T S I) : ItemsLoop G T S V I :=
  let (q, itemNewGroups, itemNewStreams) :=
    maybeIntegrateWork W st.queue item.work none
  let (nodes, nonEmptyNewGroups) := pruneEmptyGroups q.groupNodes itemNewGroups
  let q := { q with groupNodes := nodes }
  { queue := startNewWork q nonEmptyNewGroups itemNewStreams
    values := st.values ++ [item.value]
    newGroups := st.newGroups ++ nonEmptyNewGroups
    newStreams := st.newStreams ++ itemNewStreams }

/-- Handle new stream items, integrating the work they produced. -/
def streamItems [DecidableEq S] (W : WorkGraph G T) (q : WorkQueue G T S V)
    (stream : S) (items : List (WorkResult G T S I)) (isStopped : Bool) :
    WorkQueue G T S V × List (WorkQueueEvent G S V I E) :=
  let st := items.foldl (streamItem W) { queue := q }
  let valuesEvent :=
    WorkQueueEvent.streamValues stream st.values st.newGroups st.newStreams
  if isStopped then
    ({ st.queue with
       rootStreams := OrderedSet.remove st.queue.rootStreams stream },
      [valuesEvent, .streamSuccess stream])
  else (st.queue, [valuesEvent])

/-- Translate a single graph event into work queue events.  Handling the last
event of a task or pump also takes it out of the channel. -/
def handleGraphEvent [DecidableEq S] (W : WorkGraph G T)
    (q : WorkQueue G T S V) :
    GraphEvent G T S V I E →
      WorkQueue G T S V × List (WorkQueueEvent G S V I E)
  | .taskSuccess task result =>
      taskSuccess W
        { q with runningTasks := q.runningTasks.erase task } task result
  | .taskFailure task error =>
      taskFailure W
        { q with runningTasks := q.runningTasks.erase task } task error
  | .streamItems stream items isStopped =>
      streamItems W q stream items isStopped
  | .streamSuccess stream =>
      let q := { q with pumpTasks := q.pumpTasks.erase stream }
      if stream ∈ q.rootStreams then
        ({ q with rootStreams := OrderedSet.remove q.rootStreams stream },
          [.streamSuccess stream])
      else (q, [])
  | .streamFailure stream error =>
      ({ q with
         pumpTasks := q.pumpTasks.erase stream
         rootStreams := OrderedSet.remove q.rootStreams stream },
        [.streamFailure stream error])

/-! ## Starting the queue -/

/-- The local variables of `WorkQueue.__init__`: the queue with the initial
groups pruned, the initial groups and the initial streams. -/
def initialWork (W : WorkGraph G T) (work : Option (Work G T S)) :
    WorkQueue G T S V × List G × List S :=
  let (q, newGroups, newStreams) := maybeIntegrateWork W {} work none
  let (nodes, nonEmptyInitialRootGroups) :=
    pruneEmptyGroups q.groupNodes newGroups
  ({ q with groupNodes := nodes }, nonEmptyInitialRootGroups, newStreams)

/-- `WorkQueue.__init__`. -/
def init [DecidableEq S] (W : WorkGraph G T) (work : Option (Work G T S)) :
    WorkQueue G T S V :=
  let (q, initialGroups, initialStreams) := initialWork W work
  { q with
    rootGroups := initialGroups.foldl OrderedSet.add q.rootGroups
    rootStreams := initialStreams.foldl OrderedSet.add q.rootStreams }

/-- The groups that the initial result announces. -/
def initialGroups (V : Type) (W : WorkGraph G T) (work : Option (Work G T S)) :
    List G :=
  (initialWork (V := V) W work).2.1

/-- The streams that the initial result announces. -/
def initialStreams (V : Type) (W : WorkGraph G T)
    (work : Option (Work G T S)) : List S :=
  (initialWork (V := V) W work).2.2

/-- The head of `WorkQueue.events`: start the root groups and streams. -/
def startRoots (q : WorkQueue G T S V) : WorkQueue G T S V :=
  q.rootStreams.foldl startStream (q.rootGroups.foldl startGroup q)

end WorkQueue

end GraphqlCore.Incremental
