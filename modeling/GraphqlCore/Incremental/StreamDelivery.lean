import GraphqlCore.Incremental.StreamItemQueue

/-!
# The delivery of stream items

What the consumer of a queue of stream items gets in all runs in which the producer does
not fail before an item that is still pending, unless an earlier one has failed.
-/

namespace GraphqlCore.Incremental.StreamItemQueue

variable {R E : Type}

/-! ## What is delivered -/

def HasResult (futures : ℕ → Option (Completion R E)) (item : StreamItem R) (result : R) :
    Prop :=
  completion futures item = some (.result result)

def Failed (futures : ℕ → Option (Completion R E)) (item : StreamItem R) : Prop :=
  ∃ error, completion futures item = some (.exception error)

/-- The item was still pending when the producer failed. -/
def Interrupted (q : StreamItemQueue R E) (item : StreamItem R) : Prop :=
  ∃ id ∈ q.interrupted, item = .future id

/-- How the iteration may end, with the items that are not delivered. -/
inductive Concludes (q : StreamItemQueue R E) : List (StreamItem R) → Outcome E → Prop
  | finished (hproducer : q.producer.outcome = some .finished) : Concludes q [] .returned
  | failed {error : E} (hproducer : q.producer.outcome = some (.failed error)) :
      Concludes q [] (.raised error)
  | itemFailed {item : StreamItem R} {after : List (StreamItem R)} {error : E}
      (hitem : completion q.futures item = some (.exception error)) :
      Concludes q (item :: after) (.raised error)
  | interrupted {item : StreamItem R} {after : List (StreamItem R)} {error : E}
      (hitem : Interrupted q item) (hproducer : q.producer.outcome = some (.failed error)) :
      Concludes q (item :: after) (.raised error)

/-- The batches are the results of the first items, up to the one that ends the iteration. -/
def Delivers (q : StreamItemQueue R E) : Prop :=
  ∃ before after, q.pushed = before ++ after ∧
    List.Forall₂ (HasResult q.futures) before q.delivered.flatten ∧
    (∀ item ∈ before, ¬Interrupted q item) ∧
    ∀ outcome, q.consumer = .ended outcome → Concludes q after outcome

/-- The queue comes to rest by itself, and then it has delivered all that can be delivered.
It waits only for the producer or for items. -/
structure Reports (capacity : ℕ) (q : StreamItemQueue R E) : Prop where
  rests : Acc (fun q' q => Inner capacity q q') q
  delivered : (¬∃ q', Inner capacity q q') → ∀ before after results,
    q.pushed = before ++ after → List.Forall₂ (HasResult q.futures) before results →
      (∀ item ∈ before, ¬Interrupted q item) → results <+: q.delivered.flatten
  reported : (¬∃ q', Inner capacity q q') → q.producer ≠ .running → AllDone q →
    ∃ outcome report, q.consumer = .ended outcome ∧ pumpReport outcome = some report

/-! ## Failed items come first -/

/-- No bad item stands before the first one that has failed. -/
def Guarded (futures : ℕ → Option (Completion R E)) (Bad : StreamItem R → Prop) :
    List (StreamItem R) → Prop
  | [] => True
  | item :: rest => Failed futures item ∨ ¬Bad item ∧ Guarded futures Bad rest

/-- In a step to the end of its coroutine the producer does not fail before an item that is
pending, unless an earlier one has failed, and the queue is not full while the consumer
cleans up. -/
def Gentle (capacity : ℕ) (q q' : StreamItemQueue R E) : Prop :=
  q.producer = .running → q'.producer.outcome ≠ none →
    ((∃ error, q'.producer = .settling error) →
      Guarded q.futures (fun item => completion q.futures item = none) q.pushed) ∧
    ((∃ error, q.consumer = .cleaning error) → ¬Full capacity q)

/-- Futures that are done stay as they are. -/
def Extends (futures futures' : ℕ → Option (Completion R E)) : Prop :=
  ∀ id completion, futures id = some completion → futures' id = some completion

section Guarded

variable {futures futures' : ℕ → Option (Completion R E)} {Bad Bad' : StreamItem R → Prop}
  {items before after : List (StreamItem R)} {item : StreamItem R}

theorem Extends.refl (futures : ℕ → Option (Completion R E)) : Extends futures futures :=
  fun _ _ h => h

theorem extends_update {id : ℕ} {completion : Completion R E} (h : futures id = none) :
    Extends futures (Function.update futures id (some completion)) := by
  intro other done hdone
  have hne : other ≠ id := by
    rintro rfl
    rw [h] at hdone
    cases hdone
  rw [Function.update_of_ne hne]
  exact hdone

theorem Extends.completion {done : Completion R E} (h : Extends futures futures')
    (hdone : completion futures item = some done) : completion futures' item = some done := by
  cases item with
  | settled result => exact hdone
  | future id => exact h id done hdone

theorem Extends.hasResults {results : List R} (h : Extends futures futures')
    (hresults : List.Forall₂ (HasResult futures) items results) :
    List.Forall₂ (HasResult futures') items results :=
  hresults.imp fun _ _ => h.completion

theorem Guarded.mono (h : Guarded futures Bad items) (hextends : Extends futures futures')
    (hbad : ∀ item ∈ items, Bad' item → Bad item) : Guarded futures' Bad' items := by
  induction items with
  | nil => trivial
  | cons item rest ih =>
      rw [List.forall_mem_cons] at hbad
      rcases h with ⟨error, hfailed⟩ | ⟨hgood, hrest⟩
      · exact .inl ⟨error, hextends.completion hfailed⟩
      · exact .inr ⟨fun h => hgood (hbad.1 h), ih hrest hbad.2⟩

theorem Guarded.or (h : Guarded futures Bad items) (h' : Guarded futures Bad' items) :
    Guarded futures (fun item => Bad item ∨ Bad' item) items := by
  induction items with
  | nil => trivial
  | cons item rest ih =>
      rcases h with hfailed | ⟨hgood, hrest⟩
      · exact .inl hfailed
      · rcases h' with hfailed | ⟨hgood', hrest'⟩
        · exact .inl hfailed
        · exact .inr ⟨fun h => h.elim hgood hgood', ih hrest hrest'⟩

theorem Guarded.concat (h : Guarded futures Bad items) (hgood : ¬Bad item) :
    Guarded futures Bad (items ++ [item]) := by
  induction items with
  | nil => exact .inr ⟨hgood, trivial⟩
  | cons first rest ih =>
      rcases h with hfailed | ⟨hfirst, hrest⟩
      · exact .inl hfailed
      · exact .inr ⟨hfirst, ih hrest⟩

/-- Behind items with results there is no failed item. -/
theorem Guarded.behind {results : List R} (h : Guarded futures Bad (before ++ after))
    (hresults : List.Forall₂ (HasResult futures) before results) :
    (∀ item ∈ before, ¬Bad item) ∧ Guarded futures Bad after := by
  induction hresults with
  | nil => exact ⟨fun _ hmem => absurd hmem List.not_mem_nil, h⟩
  | cons hresult _ ih =>
      rcases h with ⟨error, hfailed⟩ | ⟨hgood, hrest⟩
      · cases hresult.symm.trans hfailed
      · exact ⟨List.forall_mem_cons.mpr ⟨hgood, (ih hrest).1⟩, (ih hrest).2⟩

theorem exists_result {results : List R}
    (h : List.Forall₂ (HasResult futures) before results) :
    ∀ item ∈ before, ∃ result, HasResult futures item result := by
  induction h with
  | nil => exact fun _ hmem => absurd hmem List.not_mem_nil
  | cons hresult _ ih => exact List.forall_mem_cons.mpr ⟨⟨_, hresult⟩, ih⟩

/-- A failed item guards all behind it. -/
theorem guarded_of_failed (hgood : ∀ item ∈ before, ¬Bad item) (hfailed : Failed futures item) :
    Guarded futures Bad (before ++ item :: after) := by
  induction before with
  | nil => exact .inl hfailed
  | cons first rest ih =>
      rw [List.forall_mem_cons] at hgood
      exact .inr ⟨hgood.1, ih hgood.2⟩

end Guarded

/-! ## The invariant -/

/-- The item is lost, or will be. -/
def Spoilt (q : StreamItemQueue R E) (item : StreamItem R) : Prop :=
  completion q.futures item = some .cancelled ∨ Interrupted q item

/-- The marker that the queue ends with. -/
def tail (q : StreamItemQueue R E) : List (Entry R E) :=
  match q.producer with
  | .done (some marker) => [.marker marker]
  | _ => []

/-- The consumer has come to the items that are not delivered yet. -/
def Follows (q : StreamItemQueue R E) (after : List (StreamItem R)) : Consumer R E → Prop
  | .idle | .getting | .yielded none => q.entries = after.map .item ++ q.tail
  | .yielded (some entry) => entry :: q.entries = after.map .item ++ q.tail
  | .awaiting id => ∃ rest, after = .future id :: rest ∧ q.entries = rest.map .item ++ q.tail
  | .cleaning error => ∃ item rest, after = item :: rest ∧
      completion q.futures item = some (.exception error)
  | .ended .returned => after = [] ∧ q.producer = .done (some .finished)
  | .ended (.raised error) => after = [] ∧ q.producer = .done (some (.failed error)) ∨
      ∃ item rest, after = item :: rest ∧ completion q.futures item = some (.exception error)
  | .ended .cancelled => False

/-- The consumer takes no more entries. -/
def Leaves : Consumer R E → Prop
  | .cleaning _ | .ended _ => True
  | _ => False

/-- What the producer and the items keep, whatever the consumer does. -/
structure Sound (q : StreamItemQueue R E) : Prop where
  guarded : Guarded q.futures (Spoilt q) q.pushed
  failing : ∀ error, q.producer.outcome = some (.failed error) → ∀ item ∈ q.pushed,
    completion q.futures item = none → Interrupted q item
  running : q.producer = .running →
    (∀ id, q.futures id ≠ some .cancelled) ∧ q.interrupted = []

structure Inv (capacity : ℕ) (q : StreamItemQueue R E) : Prop extends Sound q where
  cancelled : q.producerCancelled = true ∨ q.producer = .done none → Leaves q.consumer
  room : ∀ error, q.consumer = .cleaning error → q.producer.outcome ≠ none →
    q.producer.isDone = false → q.producerCancelled = true ∨ ¬Full capacity q
  split : ∃ before after, q.pushed = before ++ after ∧
    List.Forall₂ (HasResult q.futures) before q.delivered.flatten ∧
    Follows q after q.consumer

/-! ### The consumer -/

section Consumer

variable {q : StreamItemQueue R E} {capacity : ℕ} {before after : List (StreamItem R)}

/-- What the inner loop takes. -/
structure Takes (futures : ℕ → Option (Completion R E)) (after : List (StreamItem R))
    (tail : List (Entry R E)) (results : List R) (held : Option (Entry R E))
    (rest : List (Entry R E)) (taken left : List (StreamItem R)) : Prop where
  items : after = taken ++ left
  results : List.Forall₂ (HasResult futures) taken results
  entries : held.toList ++ rest = left.map .item ++ tail

/-- Without cancelled items the inner loop ends with a batch. -/
theorem fill_takes {futures : ℕ → Option (Completion R E)} (batch : List R)
    {tail : List (Entry R E)} (htail : tail = [] ∨ ∃ marker, tail = [.marker marker])
    (hguarded : Guarded futures (fun item => completion futures item = some .cancelled) after) :
    ∃ results held rest taken left,
      fill futures batch (after.map .item ++ tail) = .batch (batch ++ results) held rest ∧
        Takes futures after tail results held rest taken left := by
  induction after generalizing batch with
  | nil =>
      rcases htail with rfl | ⟨marker, rfl⟩
      · exact ⟨[], none, [], [], [], by simp [fill], rfl, .nil, rfl⟩
      · exact ⟨[], some (.marker marker), [], [], [], by simp [fill], rfl, .nil, rfl⟩
  | cons item rest ih =>
      rw [List.map_cons, List.cons_append, fill]
      cases hdone : completion futures item with
      | none =>
          exact ⟨[], some (.item item), _, [], item :: rest, by simp, rfl, .nil, rfl⟩
      | some done =>
          cases done with
          | exception error =>
              exact ⟨[], some (.item item), _, [], item :: rest, by simp, rfl, .nil, rfl⟩
          | cancelled =>
              rcases hguarded with ⟨error, hfailed⟩ | ⟨hgood, -⟩
              · cases hdone.symm.trans hfailed
              · exact absurd hdone hgood
          | result result =>
              have hrest : Guarded futures
                  (fun item => completion futures item = some .cancelled) rest := by
                rcases hguarded with ⟨error, hfailed⟩ | ⟨-, hrest⟩
                · cases hdone.symm.trans hfailed
                · exact hrest
              obtain ⟨results, held, left', taken, left, hfill, htakes⟩ :=
                ih (batch ++ [result]) hrest
              refine ⟨result :: results, held, left', item :: taken, left, ?_, ?_, ?_, ?_⟩
              · simpa using hfill
              · rw [htakes.items, List.cons_append]
              · exact .cons hdone htakes.results
              · exact htakes.entries

theorem tail_cases (q : StreamItemQueue R E) :
    q.tail = [] ∨ ∃ marker, q.tail = [.marker marker] := by
  unfold tail
  split
  · exact .inr ⟨_, rfl⟩
  · exact .inl rfl

/-- The state in which the consumer takes the next entry. -/
structure Taking (q : StreamItemQueue R E) (before after : List (StreamItem R)) : Prop
    extends Sound q where
  active : q.producerCancelled = false ∧ q.producer ≠ .done none
  pushed : q.pushed = before ++ after
  delivered : List.Forall₂ (HasResult q.futures) before q.delivered.flatten

theorem Taking.ends {outcome : Outcome E} (h : Taking q before after) (stopped : Bool)
    (hends : Follows q after (.ended outcome)) :
    Inv capacity { q with consumer := .ended outcome, stopped := stopped } where
  guarded := h.guarded
  failing := h.failing
  running := h.running
  cancelled := fun _ => trivial
  room := fun _ hcleaning => nomatch hcleaning
  split := by
    refine ⟨before, after, h.pushed, h.delivered, ?_⟩
    cases outcome with
    | returned => exact hends
    | raised error => exact hends
    | cancelled => exact hends

theorem Taking.assemble {item : StreamItem R} {result : R}
    (h : Taking q before (item :: after)) (hresult : HasResult q.futures item result)
    (hentries : q.entries = after.map .item ++ q.tail) : Inv capacity (q.assemble result) := by
  have hguarded := h.guarded
  rw [h.pushed] at hguarded
  have hafter : Guarded q.futures (fun item => completion q.futures item = some .cancelled)
      after := by
    rcases (hguarded.behind h.delivered).2 with ⟨error, hfailed⟩ | ⟨-, hrest⟩
    · cases hresult.symm.trans hfailed
    · exact hrest.mono (.refl _) fun _ _ => .inl
  obtain ⟨results, held, rest, taken, left, hfill, htakes⟩ :=
    fill_takes [result] q.tail_cases hafter
  rw [← hentries] at hfill
  rw [StreamItemQueue.assemble, hfill]
  refine ⟨⟨h.guarded, h.failing, h.running⟩, ?_, ?_, before ++ item :: taken, left, ?_, ?_, ?_⟩
  · rintro (hcancelled | hdone)
    · exact Bool.noConfusion (hcancelled.symm.trans h.active.1)
    · exact absurd hdone h.active.2
  · exact fun _ hcleaning => nomatch hcleaning
  · change q.pushed = before ++ item :: taken ++ left
    rw [List.append_assoc, List.cons_append, ← htakes.items]
    exact h.pushed
  · change List.Forall₂ _ _ (q.delivered ++ [_]).flatten
    rw [List.flatten_append, List.flatten_singleton]
    exact List.rel_append h.delivered (.cons hresult htakes.results)
  · cases held with
    | none => exact htakes.entries
    | some entry => exact htakes.entries

theorem Taking.awaited {item : StreamItem R} {done : Completion R E}
    (h : Taking q before (item :: after)) (hdone : completion q.futures item = some done)
    (hentries : q.entries = after.map .item ++ q.tail) : Inv capacity (q.awaited done) := by
  cases done with
  | result result => exact h.assemble hdone hentries
  | exception error =>
      refine ⟨⟨h.guarded, h.failing, h.running⟩, fun _ => trivial, ?_,
        before, item :: after, h.pushed,
        h.delivered, item, after, rfl, hdone⟩
      intro _ _ _ hactive
      refine .inl ?_
      change (q.producerCancelled || !q.producer.isDone) = true
      rw [show q.producer.isDone = false from hactive]
      exact Bool.or_true _
  | cancelled =>
      have hguarded := h.guarded
      rw [h.pushed] at hguarded
      rcases (hguarded.behind h.delivered).2 with ⟨error, hfailed⟩ | ⟨hgood, -⟩
      · cases hdone.symm.trans hfailed
      · exact absurd (.inl hdone) hgood

/-- The consumer takes an entry. -/
theorem Taking.receive {entry : Entry R E} (h : Taking q before after)
    (hentries : entry :: q.entries = after.map .item ++ q.tail) :
    Inv capacity (q.receive entry) := by
  have hactive : ∀ {p : Prop}, q.producerCancelled = true ∨ q.producer = .done none → p := by
    rintro p (hcancelled | hdone)
    · exact Bool.noConfusion (hcancelled.symm.trans h.active.1)
    · exact absurd hdone h.active.2
  cases after with
  | nil =>
      rcases q.tail_cases with htail | ⟨marker, htail⟩
      · rw [htail] at hentries
        cases hentries
      · rw [htail] at hentries
        obtain ⟨rfl, hnil⟩ := List.cons.inj hentries
        have hproducer : q.producer = .done (some marker) := by
          unfold tail at htail
          split at htail
          · rename_i other hother
            cases htail
            exact hother
          · cases htail
        cases marker with
        | finished => exact h.ends true ⟨rfl, hproducer⟩
        | failed error => exact h.ends q.stopped (.inl ⟨rfl, hproducer⟩)
  | cons item after =>
      rw [List.map_cons, List.cons_append] at hentries
      obtain ⟨rfl, hrest⟩ := List.cons.inj hentries
      cases item with
      | settled result => exact h.assemble rfl hrest
      | future id =>
          rw [StreamItemQueue.receive]
          cases hdone : q.futures id with
          | some done => exact h.awaited hdone hrest
          | none =>
              exact ⟨⟨h.guarded, h.failing, h.running⟩, fun hcancelled => hactive hcancelled,
                (fun _ hcleaning => nomatch hcleaning), before, .future id :: after, h.pushed,
                h.delivered, after, rfl, hrest⟩

end Consumer

/-! ### The other steps -/

section Steps

variable {q q' : StreamItemQueue R E} {eager : Bool} {capacity : ℕ}

/-- The consumer stays where it is, while the queue grows and futures are completed. -/
structure Grows (q q' : StreamItemQueue R E) (items : List (StreamItem R)) : Prop where
  entries : ∃ more, q'.entries = q.entries ++ more ∧
    q.tail ++ more = items.map .item ++ q'.tail
  futures : Extends q.futures q'.futures
  done : ∀ marker, q.producer = .done (some marker) →
    q'.producer = .done (some marker) ∧ items = []
  pushed : q'.pushed = q.pushed ++ items
  delivered : q'.delivered = q.delivered
  consumer : q'.consumer = q.consumer

theorem Grows.entries_eq {items after : List (StreamItem R)} (h : Grows q q' items)
    (held : List (Entry R E)) (hentries : held ++ q.entries = after.map .item ++ q.tail) :
    held ++ q'.entries = (after ++ items).map .item ++ q'.tail := by
  obtain ⟨more, hmore, htail⟩ := h.entries
  rw [hmore, ← List.append_assoc, hentries, List.append_assoc, htail, List.map_append,
    List.append_assoc]

theorem Grows.follows {items after : List (StreamItem R)} {consumer : Consumer R E}
    (h : Grows q q' items) (hfollows : Follows q after consumer) :
    Follows q' (after ++ items) consumer := by
  match consumer with
  | .idle | .getting | .yielded none => exact h.entries_eq [] hfollows
  | .yielded (some entry) => exact h.entries_eq [entry] hfollows
  | .awaiting id =>
      obtain ⟨rest, rfl, hentries⟩ := hfollows
      exact ⟨rest ++ items, rfl, h.entries_eq [] hentries⟩
  | .cleaning error =>
      obtain ⟨item, rest, rfl, hfailed⟩ := hfollows
      exact ⟨item, rest ++ items, rfl, h.futures.completion hfailed⟩
  | .ended .returned =>
      obtain ⟨rfl, hproducer⟩ := hfollows
      obtain ⟨hproducer, rfl⟩ := h.done _ hproducer
      exact ⟨rfl, hproducer⟩
  | .ended (.raised error) =>
      rcases hfollows with ⟨rfl, hproducer⟩ | ⟨item, rest, rfl, hfailed⟩
      · obtain ⟨hproducer, rfl⟩ := h.done _ hproducer
        exact .inl ⟨rfl, hproducer⟩
      · exact .inr ⟨item, rest ++ items, rfl, h.futures.completion hfailed⟩

theorem Grows.split {items : List (StreamItem R)} (h : Grows q q' items) (hinv : Inv capacity q) :
    ∃ before after, q'.pushed = before ++ after ∧
      List.Forall₂ (HasResult q'.futures) before q'.delivered.flatten ∧
      Follows q' after q'.consumer := by
  obtain ⟨before, after, hpushed, hdelivered, hfollows⟩ := hinv.split
  refine ⟨before, after ++ items, ?_, ?_, ?_⟩
  · rw [h.pushed, hpushed, List.append_assoc]
  · rw [h.delivered]
    exact h.futures.hasResults hdelivered
  · rw [h.consumer]
    exact h.follows hfollows

theorem tail_of_not_done (h : ∀ marker, q.producer ≠ .done (some marker)) : q.tail = [] := by
  unfold tail
  split
  · rename_i marker hproducer
    exact absurd hproducer (h marker)
  · rfl

/-- Nothing is put or completed. -/
theorem grows_of_not_done (h : ∀ marker, q.producer ≠ .done (some marker))
    (h' : ∀ marker, q'.producer ≠ .done (some marker)) (hentries : q'.entries = q.entries)
    (hfutures : q'.futures = q.futures) (hpushed : q'.pushed = q.pushed)
    (hdelivered : q'.delivered = q.delivered) (hconsumer : q'.consumer = q.consumer) :
    Grows q q' [] where
  entries := ⟨[], by rw [hentries, List.append_nil],
    by rw [tail_of_not_done h, tail_of_not_done h']; rfl⟩
  futures := by
    rw [hfutures]
    exact .refl _
  done := fun marker hproducer => absurd hproducer (h marker)
  pushed := by rw [hpushed, List.append_nil]
  delivered := hdelivered
  consumer := hconsumer

theorem mem_pendingFutures {id : ℕ} :
    id ∈ q.pendingFutures ↔ .future id ∈ q.pushed ∧ q.futures id = none := by
  rw [pendingFutures, List.mem_filter, List.mem_filterMap, Option.isNone_iff_eq_none]
  refine and_congr_left fun _ => ⟨?_, fun hmem => ⟨_, hmem, rfl⟩⟩
  rintro ⟨item, hmem, hid⟩
  cases item with
  | settled result => cases hid
  | future other =>
      obtain rfl := Option.some.inj hid
      exact hmem

theorem completion_update (futures : ℕ → Option (Completion R E)) (id : ℕ)
    (done : Completion R E) (item : StreamItem R) :
    completion (Function.update futures id (some done)) item =
        some done ∧ item = .future id ∨
      item ≠ .future id ∧
        completion (Function.update futures id (some done)) item = completion futures item := by
  cases item with
  | settled result => exact .inr ⟨(fun h => nomatch h), rfl⟩
  | future other =>
      by_cases heq : other = id
      · subst heq
        exact .inl ⟨Function.update_self .., rfl⟩
      · refine .inr ⟨fun h => heq (StreamItem.future.inj h), Function.update_of_ne heq ..⟩

/-- Items that are pending after a future is completed were pending before. -/
theorem completion_eq_none_of_update {id : ℕ} {done : Completion R E} {item : StreamItem R}
    {futures : ℕ → Option (Completion R E)}
    (h : completion (Function.update futures id (some done)) item = none) :
    completion futures item = none := by
  rcases completion_update futures id done item with ⟨hdone, -⟩ | ⟨-, heq⟩
  · cases h.symm.trans hdone
  · exact heq.symm.trans h

theorem grows_update {id : ℕ} {done : Completion R E} (hpending : q.futures id = none) :
    Grows q { q with futures := Function.update q.futures id (some done) } [] where
  entries := ⟨[], (List.append_nil _).symm, List.append_nil _⟩
  futures := extends_update hpending
  done := fun _ hproducer => ⟨hproducer, rfl⟩
  pushed := (List.append_nil _).symm
  delivered := rfl
  consumer := rfl

/-- The failed item before the consumer guards all items. -/
theorem Inv.guarded_of_cleaning {error : E} {Bad : StreamItem R → Prop} (h : Inv capacity q)
    (hcleaning : q.consumer = .cleaning error)
    (hbad : ∀ item result, Bad item → HasResult q.futures item result → Interrupted q item) :
    Guarded q.futures Bad q.pushed := by
  obtain ⟨before, after, hpushed, hdelivered, hfollows⟩ := h.split
  rw [hcleaning] at hfollows
  obtain ⟨item, rest, rfl, hfailed⟩ := hfollows
  have hguarded := h.guarded
  rw [hpushed] at hguarded ⊢
  have hgood := (hguarded.behind hdelivered).1
  refine guarded_of_failed (fun item hmem hitem => hgood item hmem (.inr ?_)) ⟨error, hfailed⟩
  obtain ⟨result, hresult⟩ := exists_result hdelivered item hmem
  exact hbad item result hitem hresult

theorem Inv.outer (h : Inv capacity q) (hstep : Outer eager capacity q q')
    (hgentle : Gentle capacity q q') : Inv capacity q' := by
  cases hstep with
  | push item hrunning hstarted hcancelled hroom =>
      obtain ⟨hcompletion, hinterrupted⟩ := h.running hrunning
      have hnot : ∀ marker, q.producer ≠ .done (some marker) := by simp [hrunning]
      have hgood : ¬Spoilt q item := by
        rintro (hitem | ⟨id, hid, -⟩)
        · cases item with
          | settled result => cases hitem
          | future id => exact hcompletion id hitem
        · rw [hinterrupted] at hid
          cases hid
      refine ⟨⟨h.guarded.concat hgood, ?_, h.running⟩, h.cancelled, ?_,
        (?_ : Grows q _ [item]).split h⟩
      · intro error houtcome
        rw [show q.producer = .running from hrunning] at houtcome
        cases houtcome
      · intro _ _ houtcome
        exact absurd (by rw [hrunning]; rfl) houtcome
      · exact ⟨⟨[.item item], rfl, by
          rw [tail_of_not_done hnot]
          exact congrArg (Entry.item item :: ·) (tail_of_not_done hnot).symm⟩, .refl _,
          (fun marker hdone => absurd hdone (hnot marker)), rfl, rfl, rfl⟩
  | finish hrunning hstarted hcancelled =>
      have houtcome : ({ q with producer := .parked .finished } :
          StreamItemQueue R E).producer.outcome ≠ none := fun h => nomatch h
      refine ⟨⟨h.guarded, (fun _ hfailed => nomatch hfailed), (fun hrun => nomatch hrun)⟩, ?_, ?_,
        (?_ : Grows q _ []).split h⟩
      · rintro (hcancel | hdone)
        · exact h.cancelled (.inl hcancel)
        · cases hdone
      · intro error hcleaning _ _
        exact .inr ((hgentle hrunning houtcome).2 ⟨error, hcleaning⟩)
      · refine grows_of_not_done (by simp [hrunning]) ?_ rfl rfl rfl rfl rfl
        exact fun _ hdone => nomatch hdone
  | fail error hrunning hstarted hcancelled =>
      have houtcome : ({ q with producer := .settling error, interrupted := q.pendingFutures } :
          StreamItemQueue R E).producer.outcome ≠ none := fun h => nomatch h
      obtain ⟨hpending, hroom⟩ := hgentle hrunning houtcome
      have hguarded : Guarded q.futures (fun item => Spoilt q item ∨
          completion q.futures item = none) q.pushed := h.guarded.or (hpending ⟨error, rfl⟩)
      refine ⟨⟨hguarded.mono (.refl _) ?_, ?_, fun hrun => nomatch hrun⟩, ?_, ?_,
        (?_ : Grows q _ []).split h⟩
      · rintro item hmem (hitem | ⟨id, hid, rfl⟩)
        · exact .inl (.inl hitem)
        · exact .inr (mem_pendingFutures.mp hid).2
      · intro _ _ item hmem hitem
        cases item with
        | settled result => cases hitem
        | future id => exact ⟨id, mem_pendingFutures.mpr ⟨hmem, hitem⟩, rfl⟩
      · rintro (hcancel | hdone)
        · exact h.cancelled (.inl hcancel)
        · cases hdone
      · intro error hcleaning _ _
        exact .inr (hroom ⟨error, hcleaning⟩)
      · refine grows_of_not_done (by simp [hrunning]) ?_ rfl rfl rfl rfl rfl
        exact fun _ hdone => nomatch hdone
  | survive hrunning hcancelled =>
      have hnot : ∀ marker, q.producer ≠ .done (some marker) := by simp [hrunning]
      refine ⟨⟨h.guarded, h.failing, h.running⟩, ?_, ?_,
        (grows_of_not_done hnot hnot rfl rfl rfl rfl rfl).split h⟩
      · rintro (hcancel | hdone)
        · cases hcancel
        · exact h.cancelled (.inr hdone)
      · intro _ _ houtcome
        exact absurd (by rw [hrunning]; rfl) houtcome
  | stop hrunning hcancelled =>
      refine ⟨⟨h.guarded, (fun _ hfailed => nomatch hfailed), (fun hrun => nomatch hrun)⟩,
        fun _ => h.cancelled (.inl hcancelled), fun _ _ houtcome => absurd rfl houtcome,
        (?_ : Grows q _ []).split h⟩
      refine grows_of_not_done (by simp [hrunning]) ?_ rfl rfl rfl rfl rfl
      exact fun _ hdone => nomatch hdone
  | settle id outcome hpending =>
      have hnot : Completion.ofExcept outcome ≠ .cancelled := by
        cases outcome <;> exact fun h => nomatch h
      refine ⟨⟨h.guarded.mono (extends_update hpending) ?_, ?_, fun hrun => ⟨?_, ?_⟩⟩,
        h.cancelled, h.room, (grows_update hpending).split h⟩
      · rintro item hmem (hitem | hitem)
        · rcases completion_update q.futures id _ item with ⟨hdone, -⟩ | ⟨-, heq⟩
          · exact absurd (Option.some.inj (hdone.symm.trans hitem)) hnot
          · exact .inl (heq.symm.trans hitem)
        · exact .inr hitem
      · exact fun error houtcome item hmem hitem =>
          h.failing error houtcome item hmem (completion_eq_none_of_update hitem)
      · intro other hother
        rcases completion_update q.futures id _ (.future other) with ⟨hdone, -⟩ | ⟨-, heq⟩
        · exact hnot (Option.some.inj (hdone.symm.trans hother))
        · exact (h.running hrun).1 other (heq.symm.trans hother)
      · exact (h.running hrun).2
  | cancel id hpending hcancels =>
      obtain ⟨hmem, hnone⟩ := mem_pendingFutures.mp hpending
      have hguarded : Guarded q.futures
          (fun item => Spoilt q item ∨ item = .future id) q.pushed := by
        rcases hcancels with ⟨error, hsettling⟩ | ⟨⟨error, hcleaning⟩, -⟩
        · have hinterrupted := h.failing error (by rw [hsettling]; rfl) (.future id) hmem hnone
          refine h.guarded.mono (.refl _) ?_
          rintro item - (hitem | rfl)
          · exact hitem
          · exact .inr hinterrupted
        · refine h.guarded_of_cleaning hcleaning ?_
          rintro item result ((hitem | hitem) | rfl) hresult
          · cases hitem.symm.trans hresult
          · exact hitem
          · cases hnone.symm.trans hresult
      refine ⟨⟨hguarded.mono (extends_update hnone) ?_, ?_, fun hrun => ?_⟩, h.cancelled, h.room,
        (grows_update hnone).split h⟩
      · rintro item hmem (hitem | hitem)
        · rcases completion_update q.futures id _ item with ⟨-, heq⟩ | ⟨-, heq⟩
          · exact .inr heq
          · exact .inl (.inl (heq.symm.trans hitem))
        · exact .inl (.inr hitem)
      · exact fun error houtcome item hmem hitem =>
          h.failing error houtcome item hmem (completion_eq_none_of_update hitem)
      · rcases hcancels with ⟨error, hsettling⟩ | ⟨-, hdone⟩
        · cases hsettling.symm.trans hrun
        · rw [show q.producer = .running from hrun] at hdone
          cases hdone

/-- Before the consumer takes an entry. -/
theorem Inv.taking (h : Inv capacity q) (hconsumer : ¬Leaves q.consumer)
    {before after : List (StreamItem R)} (hpushed : q.pushed = before ++ after)
    (hdelivered : List.Forall₂ (HasResult q.futures) before q.delivered.flatten) :
    Taking q before after where
  toSound := h.toSound
  active := by
    refine ⟨?_, fun hdone => hconsumer (h.cancelled (.inr hdone))⟩
    cases hcancelled : q.producerCancelled with
    | true => exact absurd (h.cancelled (.inl hcancelled)) hconsumer
    | false => rfl
  pushed := hpushed
  delivered := hdelivered

theorem Inv.inner (h : Inv capacity q) (hstep : Inner capacity q q') : Inv capacity q' := by
  cases hstep with
  | settled error hsettling hcancelled hdone =>
      have houtcome : q.producer.outcome = some (.failed error) := by rw [hsettling]; rfl
      refine ⟨⟨h.guarded, ?_, fun hrun => nomatch hrun⟩, ?_, ?_, (?_ : Grows q _ []).split h⟩
      · rintro other hother item hmem hitem
        exact h.failing error houtcome item hmem hitem
      · rintro (hcancel | hdone)
        · exact h.cancelled (.inl hcancel)
        · cases hdone
      · intro other hcleaning _ _
        exact h.room other hcleaning (by rw [houtcome]; exact fun h => nomatch h)
          (by rw [hsettling]; rfl)
      · refine grows_of_not_done (by simp [hsettling]) ?_ rfl rfl rfl rfl rfl
        exact fun _ hdone => nomatch hdone
  | put marker hparked hcancelled hroom =>
      have hnot : ∀ marker, q.producer ≠ .done (some marker) := by simp [hparked]
      have houtcome : q.producer.outcome = some marker := by rw [hparked]; rfl
      refine ⟨⟨h.guarded, ?_, fun hrun => nomatch hrun⟩, ?_, ?_, (?_ : Grows q _ []).split h⟩
      · intro error hfailed
        exact h.failing error (houtcome.trans hfailed)
      · rintro (hcancel | hdone)
        · exact h.cancelled (.inl hcancel)
        · cases hdone
      · exact fun _ _ _ hdone => nomatch hdone
      · exact ⟨⟨[.marker marker], rfl, by rw [tail_of_not_done hnot]; rfl⟩, .refl _,
          (fun marker hdone => absurd hdone (hnot marker)), (List.append_nil _).symm, rfl, rfl⟩
  | stop hended hdone hcancelled =>
      refine ⟨⟨h.guarded, (fun _ hfailed => nomatch hfailed), (fun hrun => nomatch hrun)⟩,
        fun _ => h.cancelled (.inl hcancelled), fun _ _ houtcome => absurd rfl houtcome,
        (?_ : Grows q _ []).split h⟩
      refine grows_of_not_done ?_ (fun _ hdone => nomatch hdone) rfl rfl rfl rfl rfl
      intro marker hproducer
      rw [hproducer] at hdone
      cases hdone
  | start hidle =>
      obtain ⟨before, after, hpushed, hdelivered, hfollows⟩ := h.split
      rw [hidle] at hfollows
      refine ⟨⟨h.guarded, h.failing, h.running⟩, ?_, (fun _ hcleaning => nomatch hcleaning), before,
        after, hpushed,
        hdelivered, hfollows⟩
      intro hcancel
      have hleaves := h.cancelled hcancel
      rw [hidle] at hleaves
      exact hleaves
  | get entry rest hgetting hentries =>
      obtain ⟨before, after, hpushed, hdelivered, hfollows⟩ := h.split
      have htaking := h.taking (by rw [hgetting]; exact False.elim) hpushed hdelivered
      rw [hgetting] at hfollows
      have htaken : Taking { q with entries := rest } before after :=
        ⟨⟨h.guarded, h.failing, h.running⟩, htaking.active, hpushed, hdelivered⟩
      exact htaken.receive (hentries.symm.trans hfollows)
  | next held hyielded =>
      obtain ⟨before, after, hpushed, hdelivered, hfollows⟩ := h.split
      have htaking := h.taking (by rw [hyielded]; exact False.elim) hpushed hdelivered
      rw [hyielded] at hfollows
      cases held with
      | some entry => exact htaking.receive hfollows
      | none =>
          refine ⟨⟨h.guarded, h.failing, h.running⟩, ?_,
            (fun _ hcleaning => nomatch hcleaning), before,
        after, hpushed,
            hdelivered, hfollows⟩
          intro hcancel
          have hleaves := h.cancelled hcancel
          rw [hyielded] at hleaves
          exact hleaves
  | awaited id completion hawaiting hdone =>
      obtain ⟨before, after, hpushed, hdelivered, hfollows⟩ := h.split
      have htaking := h.taking (by rw [hawaiting]; exact False.elim) hpushed hdelivered
      rw [hawaiting] at hfollows
      obtain ⟨rest, rfl, hentries⟩ := hfollows
      exact htaking.awaited hdone hentries
  | cleaned error hcleaning hproducer hdone =>
      obtain ⟨before, after, hpushed, hdelivered, hfollows⟩ := h.split
      rw [hcleaning] at hfollows
      exact ⟨⟨h.guarded, h.failing, h.running⟩, (fun _ => trivial),
        (fun _ hcleaning => nomatch hcleaning), before, after,
        hpushed, hdelivered, .inr hfollows⟩

/-- What holds along all gentle runs. -/
theorem Run.inv (h : Run eager capacity (Gentle capacity) q) : Inv capacity q := by
  induction h with
  | start =>
      exact ⟨⟨trivial, (fun _ hfailed => nomatch hfailed), fun _ => ⟨(fun _ h => nomatch h), rfl⟩⟩,
        (by rintro (h | h) <;> cases h), (fun _ h => nomatch h), [], [], rfl, .nil, rfl⟩
  | step _ hstep hallowed ih =>
      rcases hstep with hstep | hstep
      · exact ih.outer hstep hallowed
      · exact ih.inner hstep

end Steps

/-! ## What is delivered in the end -/

section Results

variable {q q' : StreamItemQueue R E} {eager : Bool} {capacity : ℕ}

theorem Inv.delivers (h : Inv capacity q) : Delivers q := by
  obtain ⟨before, after, hpushed, hdelivered, hfollows⟩ := h.split
  have hguarded := h.guarded
  rw [hpushed] at hguarded
  refine ⟨before, after, hpushed, hdelivered, fun item hmem hitem =>
    (hguarded.behind hdelivered).1 item hmem (.inr hitem), fun outcome hended => ?_⟩
  rw [hended] at hfollows
  cases outcome with
  | returned =>
      obtain ⟨rfl, hproducer⟩ := hfollows
      exact .finished (by rw [hproducer]; rfl)
  | raised error =>
      rcases hfollows with ⟨rfl, hproducer⟩ | ⟨item, rest, rfl, hfailed⟩
      · exact .failed (by rw [hproducer]; rfl)
      · exact .itemFailed hfailed
  | cancelled => exact hfollows.elim

/-! ### The queue comes to rest -/

/-- How far the producer's task is from its end. -/
def producerRank : Producer E → ℕ
  | .running => 0
  | .settling _ => 8
  | .parked _ => 4
  | .done _ => 0

def consumerRank : Consumer R E → ℕ
  | .idle => 2
  | .getting => 1
  | .yielded none => 2
  | .yielded (some _) => 4
  | .awaiting _ => 3
  | .cleaning _ => 1
  | .ended _ => 0

def rank (q : StreamItemQueue R E) : ℕ :=
  3 * q.entries.length + producerRank q.producer + consumerRank q.consumer

theorem length_fill (futures : ℕ → Option (Completion R E)) (batch : List R)
    (entries : List (Entry R E)) :
    match fill futures batch entries with
    | .batch _ held rest => held.toList.length + rest.length ≤ entries.length
    | .cancelled rest => rest.length ≤ entries.length := by
  induction entries generalizing batch with
  | nil => exact Nat.le_refl 0
  | cons entry rest ih =>
      cases entry with
      | marker marker => simp [fill, Nat.add_comm]
      | item item =>
          rw [fill]
          cases completion futures item with
          | none => simp [Nat.add_comm]
          | some done =>
              cases done with
              | exception error => simp [Nat.add_comm]
              | cancelled => simp
              | result result =>
                  have hrest := ih (batch ++ [result])
                  simp only [List.length_cons]
                  cases hfill : fill futures (batch ++ [result]) rest with
                  | batch batch' held left =>
                      rw [hfill] at hrest
                      exact Nat.le_succ_of_le hrest
                  | cancelled left =>
                      rw [hfill] at hrest
                      exact Nat.le_succ_of_le hrest

/-- The producer's task stays where it is, and the consumer goes on. -/
structure Advances (q q' : StreamItemQueue R E) (bound : ℕ) : Prop where
  producer : q'.producer = q.producer
  bounded : 3 * q'.entries.length + consumerRank q'.consumer ≤ 3 * q.entries.length + bound

theorem Advances.rank_lt {bound : ℕ} (h : Advances q q' bound)
    (hbound : bound < consumerRank q.consumer) : rank q' < rank q := by
  have hrank := h.bounded
  rw [rank, rank, h.producer]
  omega

theorem advances_assemble (q : StreamItemQueue R E) (result : R) :
    Advances q (q.assemble result) 2 := by
  have hlength := length_fill q.futures [result] q.entries
  unfold assemble
  cases hfill : fill q.futures [result] q.entries with
  | batch batch held rest =>
      rw [hfill] at hlength
      refine ⟨rfl, ?_⟩
      cases held with
      | none =>
          have hrest : rest.length ≤ q.entries.length := by simpa using hlength
          simp only [consumerRank]
          omega
      | some entry =>
          have hrest : 1 + rest.length ≤ q.entries.length := by simpa using hlength
          simp only [consumerRank]
          omega
  | cancelled rest =>
      rw [hfill] at hlength
      refine ⟨rfl, ?_⟩
      have hrest : rest.length ≤ q.entries.length := hlength
      simp only [consumerRank]
      omega

theorem advances_awaited (q : StreamItemQueue R E) (done : Completion R E) :
    Advances q (q.awaited done) 2 := by
  cases done with
  | result result => exact advances_assemble q result
  | exception error => exact ⟨rfl, Nat.add_le_add_left (Nat.le_succ 1) _⟩
  | cancelled => exact ⟨rfl, Nat.le_add_right _ _⟩

theorem advances_receive (q : StreamItemQueue R E) (entry : Entry R E) :
    Advances q (q.receive entry) 3 := by
  have hweaken : ∀ {q'}, Advances q q' 2 → Advances q q' 3 :=
    fun h => ⟨h.producer, Nat.le_succ_of_le h.bounded⟩
  match entry with
  | .marker .finished => exact ⟨rfl, Nat.le_add_right _ _⟩
  | .marker (.failed error) => exact ⟨rfl, Nat.le_add_right _ _⟩
  | .item (.settled result) => exact hweaken (advances_assemble q result)
  | .item (.future id) =>
      rw [receive]
      cases q.futures id with
      | some done => exact hweaken (advances_awaited q done)
      | none => exact ⟨rfl, Nat.le_refl _⟩

/-- Each step that the queue takes by itself brings it closer to rest. -/
theorem Inner.rank_lt (h : Inner capacity q q') : rank q' < rank q := by
  cases h with
  | settled error hsettling hcancelled hdone =>
      simp only [rank, hsettling, producerRank]
      omega
  | put marker hparked hcancelled hroom =>
      simp only [rank, hparked, producerRank, List.length_append, List.length_singleton]
      omega
  | stop hended hdone hcancelled =>
      have hpositive : 0 < producerRank q.producer := by
        cases hproducer : q.producer with
        | running => exact absurd hproducer hended
        | settling error => exact Nat.succ_pos 7
        | parked marker => exact Nat.succ_pos 3
        | done marker =>
            rw [hproducer] at hdone
            cases hdone
      have hzero : producerRank (.done none : Producer E) = 0 := rfl
      simp only [rank, hzero]
      omega
  | start hidle =>
      simp only [rank, hidle, consumerRank]
      omega
  | get entry rest hgetting hentries =>
      have hadvances := advances_receive { q with entries := rest } entry
      have hrank : 3 * (receive { q with entries := rest } entry).entries.length +
          consumerRank (receive { q with entries := rest } entry).consumer ≤
            3 * rest.length + 3 :=
        hadvances.bounded
      have hproducer : (receive { q with entries := rest } entry).producer = q.producer :=
        hadvances.producer
      have hone : consumerRank q.consumer = 1 := by rw [hgetting]; rfl
      rw [rank, rank, hproducer, hentries, hone, List.length_cons]
      omega
  | next held hyielded =>
      cases held with
      | none =>
          simp only [rank, hyielded, resume, consumerRank]
          omega
      | some entry =>
          refine (advances_receive q entry).rank_lt ?_
          rw [hyielded]
          exact Nat.lt_succ_self 3
  | awaited id completion hawaiting hdone =>
      refine (advances_awaited q completion).rank_lt ?_
      rw [hawaiting]
      exact Nat.lt_succ_self 2
  | cleaned error hcleaning hproducer hdone =>
      simp only [rank, hcleaning, consumerRank]
      omega

theorem acc_inner (q : StreamItemQueue R E) : Acc (fun q' q => Inner capacity q q') q :=
  Subrelation.accessible (fun h => h.rank_lt) (InvImage.accessible rank (Nat.lt_wfRel.wf.apply _))

/-! ### What the queue waits for -/

/-- The results that are delivered are those of the first items. -/
theorem results_prefix {futures : ℕ → Option (Completion R E)}
    {before after items rest : List (StreamItem R)} {results delivered : List R}
    (hitems : before ++ after = items ++ rest)
    (hdelivered : List.Forall₂ (HasResult futures) before delivered)
    (hresults : List.Forall₂ (HasResult futures) items results)
    (hstop : ∀ item left, after = item :: left → ¬∃ result, HasResult futures item result) :
    results <+: delivered := by
  induction hdelivered generalizing items results with
  | nil =>
      cases hresults with
      | nil => exact List.nil_prefix
      | cons hresult _ => exact absurd ⟨_, hresult⟩ (hstop _ _ hitems)
  | cons hfirst _ ih =>
      cases hresults with
      | nil => exact List.nil_prefix
      | cons hresult hrest =>
          obtain ⟨rfl, htail⟩ := List.cons.inj hitems
          obtain rfl := Completion.result.inj (Option.some.inj (hfirst.symm.trans hresult))
          exact List.cons_prefix_cons.mpr ⟨rfl, ih htail hrest⟩

/-- With room the producer's task goes on after the end of its coroutine. -/
theorem exists_inner_of_ended (hrunning : q.producer ≠ .running)
    (hactive : q.producer.isDone = false)
    (hdone : AllDone q) (hroom : q.producerCancelled = true ∨ ¬Full capacity q) :
    ∃ q', Inner capacity q q' := by
  cases hcancelled : q.producerCancelled with
  | true => exact ⟨_, .stop hrunning hactive hcancelled⟩
  | false =>
      have hfree : ¬Full capacity q :=
        hroom.resolve_left (by rw [hcancelled]; exact Bool.noConfusion)
      cases hproducer : q.producer with
      | running => exact absurd hproducer hrunning
      | settling error => exact ⟨_, .settled error hproducer hcancelled hdone⟩
      | parked marker => exact ⟨_, .put marker hproducer hcancelled hfree⟩
      | done marker =>
          rw [hproducer] at hactive
          cases hactive

/-- What the consumer of a queue at rest waits for. -/
inductive AtRest (q : StreamItemQueue R E) : List (StreamItem R) → Prop
  | getting (hproducer : q.producer = .running ∨ ¬AllDone q) : AtRest q []
  | awaiting (id : ℕ) (rest : List (StreamItem R)) (hmem : .future id ∈ q.pushed)
      (hpending : q.futures id = none) : AtRest q (.future id :: rest)
  | cleaning (error : E) (item : StreamItem R) (rest : List (StreamItem R))
      (hfailed : completion q.futures item = some (.exception error))
      (hproducer : q.producer = .running ∨ ¬AllDone q) : AtRest q (item :: rest)
  | returned (hconsumer : q.consumer = .ended .returned) : AtRest q []
  | raised (error : E) (hconsumer : q.consumer = .ended (.raised error)) : AtRest q []
  | failed (error : E) (item : StreamItem R) (rest : List (StreamItem R))
      (hfailed : completion q.futures item = some (.exception error))
      (hconsumer : q.consumer = .ended (.raised error)) : AtRest q (item :: rest)

theorem Inv.atRest (h : Inv capacity q) (hrest : ¬∃ q', Inner capacity q q')
    {before after : List (StreamItem R)} (hpushed : q.pushed = before ++ after)
    (hfollows : Follows q after q.consumer) : AtRest q after := by
  rw [not_exists] at hrest
  cases hconsumer : q.consumer with
  | idle => exact absurd (.start hconsumer) (hrest _)
  | yielded held => exact absurd (.next held hconsumer) (hrest _)
  | getting =>
      rw [hconsumer] at hfollows
      have hempty : q.entries = [] := by
        cases hentries : q.entries with
        | nil => rfl
        | cons entry rest => exact absurd (.get entry rest hconsumer hentries) (hrest _)
      have hnil : after.map .item ++ q.tail = [] := hfollows.symm.trans hempty
      obtain ⟨hafter, htail⟩ := List.append_eq_nil_iff.mp hnil
      obtain rfl := List.map_eq_nil_iff.mp hafter
      refine .getting ?_
      by_contra hended
      rw [not_or, not_not] at hended
      have hfree : ¬Full capacity q := by
        rintro ⟨hcapacity, hfull⟩
        rw [hempty] at hfull
        exact hcapacity (Nat.le_zero.mp hfull)
      cases hactive : q.producer.isDone with
      | false =>
          obtain ⟨q', hstep⟩ := exists_inner_of_ended hended.1 hactive hended.2 (.inr hfree)
          exact hrest q' hstep
      | true =>
          cases hproducer : q.producer with
          | done marker =>
              cases marker with
              | none =>
                  have hleaves := h.cancelled (.inr hproducer)
                  rw [hconsumer] at hleaves
                  exact hleaves
              | some marker =>
                  unfold tail at htail
                  rw [hproducer] at htail
                  cases htail
          | running => exact hended.1 hproducer
          | settling error =>
              rw [hproducer] at hactive
              cases hactive
          | parked marker =>
              rw [hproducer] at hactive
              cases hactive
  | awaiting id =>
      rw [hconsumer] at hfollows
      obtain ⟨rest, rfl, -⟩ := hfollows
      refine .awaiting id rest ?_ ?_
      · rw [hpushed]
        exact List.mem_append_right _ List.mem_cons_self
      · cases hdone : q.futures id with
        | none => rfl
        | some done => exact absurd (.awaited id done hconsumer hdone) (hrest _)
  | cleaning error =>
      rw [hconsumer] at hfollows
      obtain ⟨item, rest, rfl, hfailed⟩ := hfollows
      refine .cleaning error item rest hfailed ?_
      by_contra hended
      rw [not_or, not_not] at hended
      cases hactive : q.producer.isDone with
      | true => exact hrest _ (.cleaned error hconsumer hactive hended.2)
      | false =>
          have houtcome : q.producer.outcome ≠ none := by
            cases hproducer : q.producer with
            | running => exact absurd hproducer hended.1
            | settling error => exact fun h => nomatch h
            | parked marker => exact fun h => nomatch h
            | done marker =>
                rw [hproducer] at hactive
                cases hactive
          obtain ⟨q', hstep⟩ := exists_inner_of_ended hended.1 hactive hended.2
            (h.room error hconsumer houtcome hactive)
          exact hrest q' hstep
  | ended outcome =>
      rw [hconsumer] at hfollows
      cases outcome with
      | returned =>
          obtain ⟨rfl, -⟩ := hfollows
          exact .returned hconsumer
      | raised error =>
          rcases hfollows with ⟨rfl, -⟩ | ⟨item, rest, rfl, hfailed⟩
          · exact .raised error hconsumer
          · exact .failed error item rest hfailed hconsumer
      | cancelled => exact hfollows.elim

theorem AtRest.not_hasResult {item : StreamItem R} {rest : List (StreamItem R)}
    (h : AtRest q (item :: rest)) : ¬∃ result, HasResult q.futures item result := by
  rintro ⟨result, hresult⟩
  cases h with
  | awaiting id _ _ hpending => cases hpending.symm.trans hresult
  | cleaning error _ _ hfailed => cases hfailed.symm.trans hresult
  | failed error _ _ hfailed => cases hfailed.symm.trans hresult

theorem AtRest.reported {after : List (StreamItem R)} (h : AtRest q after)
    (hended : q.producer ≠ .running) (hdone : AllDone q) :
    ∃ outcome report, q.consumer = .ended outcome ∧ pumpReport outcome = some report := by
  cases h with
  | getting hproducer => exact absurd hdone (hproducer.resolve_left hended)
  | awaiting id rest hmem hpending => exact absurd hpending (hdone _ hmem)
  | cleaning error item rest hfailed hproducer =>
      exact absurd hdone (hproducer.resolve_left hended)
  | returned hconsumer => exact ⟨_, .success, hconsumer, rfl⟩
  | raised error hconsumer => exact ⟨_, .failure error, hconsumer, rfl⟩
  | failed error item rest hfailed hconsumer => exact ⟨_, .failure error, hconsumer, rfl⟩

theorem Inv.reports (h : Inv capacity q) : Reports capacity q where
  rests := acc_inner q
  delivered := by
    intro hrest before after results hpushed hresults _
    obtain ⟨before', after', hpushed', hdelivered, hfollows⟩ := h.split
    have hatRest := h.atRest hrest hpushed' hfollows
    refine results_prefix (hpushed'.symm.trans hpushed) hdelivered hresults ?_
    rintro item left rfl
    exact hatRest.not_hasResult
  reported := by
    intro hrest hended hdone
    obtain ⟨before, after, hpushed, -, hfollows⟩ := h.split
    exact (h.atRest hrest hpushed hfollows).reported hended hdone

end Results

/-! ### Runs -/

section Examples

/-- A stream of one item that finishes normally. -/
def oneItem : StreamItemQueue ℕ ℕ where
  futures := fun _ => none
  producer := .done (some .finished)
  consumer := .ended .returned
  stopped := true
  pushed := [.settled 1]
  delivered := [[1]]

theorem run_oneItem : Run false 100 (Gentle 100) oneItem := by
  have hquiet : ∀ {q q' : StreamItemQueue ℕ ℕ}, q'.producer.outcome = none →
      Gentle 100 q q' := fun h _ hne => absurd h hne
  have hended : ∀ {q q' : StreamItemQueue ℕ ℕ}, q.producer ≠ .running → Gentle 100 q q' :=
    fun h hrunning => absurd hrunning h
  have hstart : Run false 100 (Gentle 100) ({ consumer := .getting } : StreamItemQueue ℕ ℕ) :=
    Run.start.step (.inr (.start rfl)) (hquiet rfl)
  have hpush := hstart.step (.inl (.push (.settled 1) rfl (.inr (fun h => nomatch h)) rfl
    (fun h => absurd h.2 (by decide)))) (hquiet rfl)
  have hfinish := hpush.step (.inl (.finish rfl (.inr (fun h => nomatch h)) rfl))
    fun _ _ => ⟨(fun ⟨_, h⟩ => nomatch h), (fun ⟨_, h⟩ => nomatch h)⟩
  have hput := hfinish.step (.inr (.put .finished rfl rfl fun h => absurd h.2 (by decide)))
    (hended fun h => nomatch h)
  have hget := hput.step (.inr (.get _ _ rfl rfl)) (hended fun h => nomatch h)
  have hnext := hget.step (.inr (.next (some (.marker .finished)) rfl))
    (hended fun h => nomatch h)
  exact hnext

/-- The producer fails when it is cancelled because of a failed item, and the queue is full:
the clean-up of the consumer and the producer wait for each other. -/
theorem exists_run_not_reports :
    ∃ q : StreamItemQueue ℕ ℕ, Run false 1 (fun _ _ => True) q ∧
      q.producer = .parked (.failed 7) ∧ q.consumer = .cleaning 5 ∧ ¬Reports 1 q := by
  have hroom : ∀ {q : StreamItemQueue ℕ ℕ}, q.entries = [] → ¬Full 1 q := by
    rintro q hempty ⟨-, hfull⟩
    rw [hempty] at hfull
    cases hfull
  have hstart : Run false 1 (fun _ _ => True) ({ consumer := .getting } : StreamItemQueue ℕ ℕ) :=
    Run.start.step (.inr (.start rfl)) trivial
  have hfuture := hstart.step (.inl (.push (.future 0) rfl (.inr (fun h => nomatch h)) rfl
    (hroom rfl))) trivial
  have hget := hfuture.step (.inr (.get _ _ rfl rfl)) trivial
  have hpush := hget.step (.inl (.push (.settled 1) rfl (.inr (fun h => nomatch h)) rfl
    (hroom rfl))) trivial
  have hsettle := hpush.step (.inl (.settle 0 (.error 5) rfl)) trivial
  have hawaited := hsettle.step (.inr (.awaited 0 (.exception 5) rfl rfl)) trivial
  have hsurvive := hawaited.step (.inl (.survive rfl rfl)) trivial
  have hfail := hsurvive.step (.inl (.fail 7 rfl (.inr (fun h => nomatch h)) rfl)) trivial
  have hdone : ∀ item ∈ [StreamItem.future 0, .settled 1], completion
      (Function.update (fun _ => (none : Option (Completion ℕ ℕ))) 0
        (some (.ofExcept (.error 5)))) item ≠ none := by
    simp [completion]
  have hsettled := hfail.step (.inr (.settled 7 rfl rfl hdone)) trivial
  refine ⟨_, hsettled, rfl, rfl, fun hreports => ?_⟩
  refine absurd (hreports.reported ?_ (fun h => nomatch h) hdone) ?_
  · rintro ⟨q', hstep⟩
    cases hstep with
    | settled error hsettling => cases hsettling
    | put marker hparked hcancelled hroom => exact hroom ⟨Nat.one_ne_zero, Nat.le_refl 1⟩
    | stop hended hdone hcancelled => cases hcancelled
    | start hidle => cases hidle
    | get entry rest hgetting => cases hgetting
    | next held hyielded => cases hyielded
    | awaited id completion hawaiting => cases hawaiting
    | cleaned error hcleaning hproducer => cases hproducer
  · rintro ⟨outcome, report, hended, -⟩
    cases hended

end Examples

end GraphqlCore.Incremental.StreamItemQueue
