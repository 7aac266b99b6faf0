import GraphqlCore.Incremental.Runs

/-!
# The incremental publisher

`execution/incremental/incremental_publisher.py` translates the batches of work
queue events into payloads.  Delivery groups and item streams are the nodes that
payloads refer to by id; the publisher remembers the ids of the nodes that are
pending and assigns a new one to any other node it meets.
-/

set_option linter.unusedSectionVars false

namespace GraphqlCore.Incremental

variable {G T S I E K D R : Type}

/-- The value produced by a completed execution group; `K` are the keys of
paths, `D` the response data and `R` the errors of the response. -/
structure ExecutionGroupValue (G K D R : Type) where
  deliveryGroups : List G
  path : List K
  data : D
  errors : Option (List R) := none

/-- The value produced by a completed stream item. -/
structure StreamItemValue (D R : Type) where
  item : D
  errors : Option (List R) := none

/-- The attributes of nodes and errors that payloads report.  A group without a
path has the empty list of keys. -/
structure Reporting (G S K E R : Type) where
  groupPath : G → List K
  groupLabel : G → Option String := fun _ => none
  streamPath : S → List K
  streamLabel : S → Option String := fun _ => none
  ensureGraphqlError : E → R

structure PendingResult (K : Type) where
  id : String
  path : List K
  label : Option String

inductive IncrementalResult (K D R : Type)
  | defer (data : D) (id : String) (subPath : Option (List K))
      (errors : Option (List R))
  | stream (items : List D) (id : String) (errors : Option (List R))

def IncrementalResult.id : IncrementalResult K D R → String
  | .defer _ id _ _ => id
  | .stream _ id _ => id

structure CompletedResult (R : Type) where
  id : String
  errors : Option (List R) := none

/-- The parts of a payload; the parts that are empty are left out of it. -/
structure SubsequentResult (K D R : Type) where
  pending : List (PendingResult K) := []
  incremental : List (IncrementalResult K D R) := []
  completed : List (CompletedResult R) := []
  hasNext : Bool := true

abbrev PublisherEvent (G S K D R E : Type) :=
  WorkQueueEvent G S (ExecutionGroupValue G K D R) (StreamItemValue D R) E

/-- The nodes that have ids. -/
abbrev Node (G S : Type) := G ⊕ S

structure IncrementalPublisher (G S : Type) where
  ids : Dict (Node G S) String := Dict.empty
  nextId : ℕ := 0

variable [DecidableEq G] [DecidableEq S]

namespace IncrementalPublisher

/-- Get the id assigned to the given node, assigning one if needed. -/
def ensureId (p : IncrementalPublisher G S) (node : Node G S) :
    IncrementalPublisher G S × String :=
  match p.ids.get node with
  | some id => (p, id)
  | none =>
      ({ ids := p.ids.set node (toString p.nextId), nextId := p.nextId + 1 },
        toString p.nextId)

/-- Forget the id of a completed node. -/
def forget (p : IncrementalPublisher G S) (node : Node G S) :
    IncrementalPublisher G S :=
  { p with ids := p.ids.pop node }

/-- The body of the loop of `_to_pending_results`. -/
def toPendingResult (a : Reporting G S K E R)
    (st : IncrementalPublisher G S × List (PendingResult K))
    (node : Node G S) : IncrementalPublisher G S × List (PendingResult K) :=
  let (p, id) := ensureId st.1 node
  (p, st.2 ++ [{ id
                 path := node.elim a.groupPath a.streamPath
                 label := node.elim a.groupLabel a.streamLabel }])

/-- The nodes of new groups and streams, in the order in which they are
announced. -/
def nodes (newGroups : List G) (newStreams : List S) : List (Node G S) :=
  newGroups.map Sum.inl ++ newStreams.map Sum.inr

/-- Convert new delivery groups and streams to pending results. -/
def toPendingResults (a : Reporting G S K E R) (p : IncrementalPublisher G S)
    (newGroups : List G) (newStreams : List S) :
    IncrementalPublisher G S × List (PendingResult K) :=
  (nodes newGroups newStreams).foldl (toPendingResult a) (p, [])

/-- The body of the loop of `_get_best_id_and_sub_path`. -/
def betterId (a : Reporting G S K E R) (p : IncrementalPublisher G S)
    (initialDeliveryGroup : G) (st : ℕ × String) (deliveryGroup : G) :
    ℕ × String :=
  if deliveryGroup = initialDeliveryGroup then st else
  match p.ids.get (.inl deliveryGroup) with
  | none => st
  | some id =>
      let length := (a.groupPath deliveryGroup).length
      if length > st.1 then (length, id) else st

/-- Get the best id and sub path for an execution group value. -/
def getBestIdAndSubPath (a : Reporting G S K E R)
    (p : IncrementalPublisher G S) (initialId : String)
    (initialDeliveryGroup : G) (value : ExecutionGroupValue G K D R) :
    String × Option (List K) :=
  let (maxLength, bestId) := value.deliveryGroups.foldl
    (betterId a p initialDeliveryGroup)
    ((a.groupPath initialDeliveryGroup).length, initialId)
  let subPath := value.path.drop maxLength
  (bestId, if subPath.isEmpty then none else some subPath)

/-- Append the entries for what an event newly announces. -/
def announce (a : Reporting G S K E R)
    (st : IncrementalPublisher G S × SubsequentResult K D R)
    (newGroups : List G) (newStreams : List S) :
    IncrementalPublisher G S × SubsequentResult K D R :=
  let (p, pending) := toPendingResults a st.1 newGroups newStreams
  (p, { st.2 with pending := st.2.pending ++ pending })

/-- Append the entry that completes a node, and forget its id. -/
def complete (st : IncrementalPublisher G S × SubsequentResult K D R)
    (node : Node G S) (errors : Option (List R)) :
    IncrementalPublisher G S × SubsequentResult K D R :=
  let (p, id) := ensureId st.1 node
  (forget p node,
    { st.2 with completed := st.2.completed ++ [{ id, errors }] })

/-- Translate a single work queue event. -/
def handleWorkQueueEvent (a : Reporting G S K E R)
    (st : IncrementalPublisher G S × SubsequentResult K D R) :
    PublisherEvent G S K D R E →
      IncrementalPublisher G S × SubsequentResult K D R
  | .groupValues group values =>
      let (p, id) := ensureId st.1 (.inl group)
      (p, { st.2 with
        incremental := st.2.incremental ++ values.map fun value =>
          let (bestId, subPath) := getBestIdAndSubPath a p id group value
          .defer value.data bestId subPath value.errors })
  | .groupSuccess group newGroups newStreams =>
      announce a (complete st (.inl group) none) newGroups newStreams
  | .groupFailure group error =>
      complete st (.inl group) (some [a.ensureGraphqlError error])
  | .streamValues stream values newGroups newStreams =>
      let (p, id) := ensureId st.1 (.inr stream)
      let errors := values.flatMap fun itemValue =>
        itemValue.errors.getD []
      announce a
        (p, { st.2 with
          incremental := st.2.incremental ++
            [.stream (values.map StreamItemValue.item) id
              (if errors.isEmpty then none else some errors)] })
        newGroups newStreams
  | .streamSuccess stream => complete st (.inr stream) none
  | .streamFailure stream error =>
      complete st (.inr stream) (some [a.ensureGraphqlError error])
  | .termination => (st.1, { st.2 with hasNext := false })

/-- Translate a batch of work queue events into a subsequent result. -/
def handleBatch (a : Reporting G S K E R) (p : IncrementalPublisher G S)
    (batch : List (PublisherEvent G S K D R E)) :
    IncrementalPublisher G S × SubsequentResult K D R :=
  batch.foldl (handleWorkQueueEvent a) (p, {})

/-- The body of the loop of `_subscribe`. -/
def publishBatch (a : Reporting G S K E R)
    (st : IncrementalPublisher G S × List (SubsequentResult K D R))
    (batch : List (PublisherEvent G S K D R E)) :
    IncrementalPublisher G S × List (SubsequentResult K D R) :=
  let (p, result) := handleBatch a st.1 batch
  (p, st.2 ++ [result])

/-- The initial result, as far as the protocol is concerned. -/
def initialResult (a : Reporting G S K E R) (initialGroups : List G)
    (initialStreams : List S) :
    IncrementalPublisher G S × SubsequentResult K D R :=
  announce a ({}, {}) initialGroups initialStreams

/-- The initial result followed by the payloads for the given batches. -/
def payloads (a : Reporting G S K E R) (initialGroups : List G)
    (initialStreams : List S)
    (batches : List (List (PublisherEvent G S K D R E))) :
    List (SubsequentResult K D R) :=
  let (p, initial) := initialResult a initialGroups initialStreams
  (batches.foldl (publishBatch a) (p, [initial])).2

end IncrementalPublisher

variable [DecidableEq T]

/-- What `build_response` and `_subscribe` have sent to the client when the
event loop has yielded the batches of `c`. -/
def EventLoop.payloads (W : WorkGraph G T) (a : Reporting G S K E R)
    (work : Option (Work G T S))
    (c : EventLoop G T S (ExecutionGroupValue G K D R) (StreamItemValue D R)
      E) : List (SubsequentResult K D R) :=
  IncrementalPublisher.payloads a
    (WorkQueue.initialGroups (ExecutionGroupValue G K D R) W work)
    (WorkQueue.initialStreams (ExecutionGroupValue G K D R) W work) c.batches

end GraphqlCore.Incremental
