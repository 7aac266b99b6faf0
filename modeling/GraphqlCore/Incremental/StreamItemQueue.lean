import Mathlib.Data.List.Forall2
import Mathlib.Logic.Relation
import Mathlib.Logic.Function.Basic

/-!
# The queue of stream items

The class `StreamItemQueue` of `execution/incremental/stream_item_queue.py` as a state
machine.  Between two points where a coroutine waits its code runs without interruption;
the producer, the consumer of `batches`, and the futures of items that are still pending
take their steps in any order.  The consumer is the pump of the work queue; the queue is
not aborted by others, and the callback `on_abort` returns.
-/

namespace GraphqlCore.Incremental

/-- What a future is done with. -/
inductive Completion (R E : Type)
  | result (result : R)
  | exception (error : E)
  | cancelled

def Completion.ofExcept {R E : Type} : Except E R → Completion R E
  | .ok value => .result value
  | .error error => .exception error

/-- A stream item result that is pushed, settled or as a future. -/
inductive StreamItem (R : Type)
  | settled (result : R)
  | future (id : ℕ)

/-- The entry that marks the end of the stream. -/
inductive Marker (E : Type)
  | finished
  | failed (error : E)

inductive Entry (R E : Type)
  | item (item : StreamItem R)
  | marker (marker : Marker E)

/-- Where the task of the producer is. -/
inductive Producer (E : Type)
  | running
  /-- The pending futures are settled, and the source is cleaned up. -/
  | settling (error : E)
  /-- The marker is put, which waits while the queue is full. -/
  | parked (marker : Marker E)
  /-- The task is done, with the marker that it has put, or cancelled. -/
  | done (marker : Option (Marker E))

/-- How the iteration over the batches ends. -/
inductive Outcome (E : Type)
  | returned
  | raised (error : E)
  | cancelled

/-- Where the iteration over the batches is. -/
inductive Consumer (R E : Type)
  | idle
  /-- It waits for the next entry. -/
  | getting
  /-- It has yielded a batch, with the entry that is held. -/
  | yielded (held : Option (Entry R E))
  | awaiting (id : ℕ)
  /-- It cleans up before it raises the error of an item. -/
  | cleaning (error : E)
  | ended (outcome : Outcome E)

structure StreamItemQueue (R E : Type) where
  entries : List (Entry R E) := []
  futures : ℕ → Option (Completion R E) := fun _ => none
  producer : Producer E := .running
  /-- The producer is cancelled as soon as it continues. -/
  producerCancelled : Bool := false
  consumer : Consumer R E := .idle
  stopped : Bool := false
  /-- All that was pushed so far. -/
  pushed : List (StreamItem R) := []
  /-- The batches so far. -/
  delivered : List (List R) := []
  /-- The futures that were pushed and still pending when the producer failed. -/
  interrupted : List ℕ := []

namespace Producer

variable {E : Type}

/-- How the coroutine of the producer has ended. -/
def outcome : Producer E → Option (Marker E)
  | running => none
  | settling error => some (.failed error)
  | parked marker => some marker
  | done marker => marker

def isDone : Producer E → Bool
  | done _ => true
  | _ => false

end Producer

namespace StreamItemQueue

variable {R E : Type}

/-- What an item is completed with, if it is not pending. -/
def completion (futures : ℕ → Option (Completion R E)) :
    StreamItem R → Option (Completion R E)
  | .settled result => some (.result result)
  | .future id => futures id

def futureId : StreamItem R → Option ℕ
  | .settled _ => none
  | .future id => some id

/-- The set `_pending_futures`. -/
def pendingFutures (q : StreamItemQueue R E) : List ℕ :=
  (q.pushed.filterMap futureId).filter fun id => (q.futures id).isNone

/-- A queue without capacity is never full. -/
def Full (capacity : ℕ) (q : StreamItemQueue R E) : Prop :=
  capacity ≠ 0 ∧ capacity ≤ q.entries.length

/-! ## The consumer -/

/-- A batch, with the entry that is held after it. -/
inductive Filled (R E : Type)
  | batch (batch : List R) (held : Option (Entry R E)) (rest : List (Entry R E))
  | cancelled (rest : List (Entry R E))

/-- The inner loop of `batches`, which takes what is settled already. -/
def fill (futures : ℕ → Option (Completion R E)) (batch : List R) :
    List (Entry R E) → Filled R E
  | [] => .batch batch none []
  | .marker marker :: rest => .batch batch (some (.marker marker)) rest
  | .item item :: rest =>
      match completion futures item with
      | none => .batch batch (some (.item item)) rest
      | some (.result result) => fill futures (batch ++ [result]) rest
      -- It is raised again when it is the head of the next batch.
      | some (.exception _) => .batch batch (some (.item item)) rest
      -- A cancellation is no `Exception`, so that it is not caught.
      | some .cancelled => .cancelled rest

def isFinished : Entry R E → Bool
  | .marker .finished => true
  | _ => false

/-- The batch that starts with the result is yielded. -/
def assemble (q : StreamItemQueue R E) (result : R) : StreamItemQueue R E :=
  match fill q.futures [result] q.entries with
  | .batch batch held rest =>
      { q with
        entries := rest
        delivered := q.delivered ++ [batch]
        consumer := .yielded held
        stopped := q.stopped || held.any isFinished }
  | .cancelled rest => { q with entries := rest, consumer := .ended .cancelled }

/-- The future of the entry is done. -/
def awaited (q : StreamItemQueue R E) : Completion R E → StreamItemQueue R E
  | .result result => q.assemble result
  | .exception error =>
      { q with
        consumer := .cleaning error
        producerCancelled := q.producerCancelled || !q.producer.isDone }
  | .cancelled => { q with consumer := .ended .cancelled }

/-- The entry is the head of the next batch. -/
def receive (q : StreamItemQueue R E) : Entry R E → StreamItemQueue R E
  | .marker .finished => { q with consumer := .ended .returned, stopped := true }
  | .marker (.failed error) => { q with consumer := .ended (.raised error) }
  | .item (.settled result) => q.assemble result
  | .item (.future id) =>
      match q.futures id with
      | some completion => q.awaited completion
      | none => { q with consumer := .awaiting id }

/-- The iteration is continued after a batch. -/
def resume (q : StreamItemQueue R E) : Option (Entry R E) → StreamItemQueue R E
  | none => { q with consumer := .getting }
  | some entry => q.receive entry

/-! ## Steps -/

/-- In eager mode the producer does not wait for the consumer. -/
def Started (eager : Bool) (q : StreamItemQueue R E) : Prop :=
  eager = true ∨ q.consumer ≠ .idle

/-- All pushed futures are done. -/
def AllDone (q : StreamItemQueue R E) : Prop :=
  ∀ item ∈ q.pushed, completion q.futures item ≠ none

/-- The pending futures are cancelled, by the producer or by the consumer. -/
def Cancels (q : StreamItemQueue R E) : Prop :=
  (∃ error, q.producer = .settling error) ∨
    (∃ error, q.consumer = .cleaning error) ∧ q.producer.isDone = true

/-- The steps that the coroutine of the producer and the items take. -/
inductive Outer (eager : Bool) (capacity : ℕ) :
    StreamItemQueue R E → StreamItemQueue R E → Prop
  | push {q : StreamItemQueue R E} (item : StreamItem R) (hrunning : q.producer = .running)
      (hstarted : Started eager q) (hcancelled : q.producerCancelled = false)
      (hroom : ¬Full capacity q) :
      Outer eager capacity q
        { q with entries := q.entries ++ [.item item], pushed := q.pushed ++ [item] }
  | finish {q : StreamItemQueue R E} (hrunning : q.producer = .running)
      (hstarted : Started eager q) (hcancelled : q.producerCancelled = false) :
      Outer eager capacity q { q with producer := .parked .finished }
  | fail {q : StreamItemQueue R E} (error : E) (hrunning : q.producer = .running)
      (hstarted : Started eager q) (hcancelled : q.producerCancelled = false) :
      Outer eager capacity q
        { q with producer := .settling error, interrupted := q.pendingFutures }
  /-- The coroutine catches the cancellation. -/
  | survive {q : StreamItemQueue R E} (hrunning : q.producer = .running)
      (hcancelled : q.producerCancelled = true) :
      Outer eager capacity q { q with producerCancelled := false }
  | stop {q : StreamItemQueue R E} (hrunning : q.producer = .running)
      (hcancelled : q.producerCancelled = true) :
      Outer eager capacity q { q with producer := .done none, producerCancelled := false }
  | settle {q : StreamItemQueue R E} (id : ℕ) (outcome : Except E R)
      (hpending : q.futures id = none) :
      Outer eager capacity q
        { q with futures := Function.update q.futures id (some (.ofExcept outcome)) }
  | cancel {q : StreamItemQueue R E} (id : ℕ) (hpending : id ∈ q.pendingFutures)
      (hcancels : Cancels q) :
      Outer eager capacity q
        { q with futures := Function.update q.futures id (some .cancelled) }

/-- The steps that the queue itself takes: the consumer, and the producer's task after the
coroutine has ended. -/
inductive Inner (capacity : ℕ) : StreamItemQueue R E → StreamItemQueue R E → Prop
  | settled {q : StreamItemQueue R E} (error : E) (hsettling : q.producer = .settling error)
      (hcancelled : q.producerCancelled = false) (hdone : AllDone q) :
      Inner capacity q { q with producer := .parked (.failed error) }
  | put {q : StreamItemQueue R E} (marker : Marker E) (hparked : q.producer = .parked marker)
      (hcancelled : q.producerCancelled = false) (hroom : ¬Full capacity q) :
      Inner capacity q
        { q with entries := q.entries ++ [.marker marker], producer := .done (some marker) }
  | stop {q : StreamItemQueue R E} (hended : q.producer ≠ .running)
      (hdone : q.producer.isDone = false) (hcancelled : q.producerCancelled = true) :
      Inner capacity q { q with producer := .done none, producerCancelled := false }
  | start {q : StreamItemQueue R E} (hidle : q.consumer = .idle) :
      Inner capacity q { q with consumer := .getting }
  | get {q : StreamItemQueue R E} (entry : Entry R E) (rest : List (Entry R E))
      (hgetting : q.consumer = .getting) (hentries : q.entries = entry :: rest) :
      Inner capacity q (receive { q with entries := rest } entry)
  | next {q : StreamItemQueue R E} (held : Option (Entry R E))
      (hyielded : q.consumer = .yielded held) : Inner capacity q (q.resume held)
  | awaited {q : StreamItemQueue R E} (id : ℕ) (completion : Completion R E)
      (hawaiting : q.consumer = .awaiting id) (hdone : q.futures id = some completion) :
      Inner capacity q (q.awaited completion)
  | cleaned {q : StreamItemQueue R E} (error : E) (hcleaning : q.consumer = .cleaning error)
      (hproducer : q.producer.isDone = true) (hdone : AllDone q) :
      Inner capacity q { q with consumer := .ended (.raised error) }

def Step (eager : Bool) (capacity : ℕ) (q q' : StreamItemQueue R E) : Prop :=
  Outer eager capacity q q' ∨ Inner capacity q q'

/-- The states that are reached by steps that are allowed. -/
inductive Run (eager : Bool) (capacity : ℕ)
    (Allowed : StreamItemQueue R E → StreamItemQueue R E → Prop) : StreamItemQueue R E → Prop
  | start : Run eager capacity Allowed {}
  | step {q q' : StreamItemQueue R E} (h : Run eager capacity Allowed q)
      (hstep : Step eager capacity q q') (hallowed : Allowed q q') :
      Run eager capacity Allowed q'

/-! ## The pump -/

/-- What the pump of `WorkQueue._start_stream` pushes at the end. -/
inductive Report (E : Type)
  | success
  | failure (error : E)

/-- The pump does not report a cancellation, which is no `Exception`. -/
def pumpReport : Outcome E → Option (Report E)
  | .returned => some .success
  | .raised error => some (.failure error)
  | .cancelled => none

end StreamItemQueue

end GraphqlCore.Incremental
