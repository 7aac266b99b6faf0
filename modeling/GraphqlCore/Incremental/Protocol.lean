import GraphqlCore.Incremental.Publisher
import GraphqlCore.Incremental.Delivery

/-!
# The protocol of the payloads

An id is announced once, used only after it has been announced and until it is
completed, and completed at most once.  The publisher keeps to this when the
events it translates announce every node before they use it and do not use it
after they have completed it, and the events of the work queue do so in the
runs in which only root groups fail.
-/

set_option linter.unusedSectionVars false

namespace GraphqlCore.Incremental

open WorkQueue IncrementalPublisher

variable {G T S V I E K D R : Type} [DecidableEq G] [DecidableEq T]
  [DecidableEq S] {W : WorkGraph G T} {C : Conditions G T S V}

/-! ## The protocol -/

namespace SubsequentResult

def pendingIds (result : SubsequentResult K D R) : List String :=
  result.pending.map PendingResult.id

def incrementalIds (result : SubsequentResult K D R) : List String :=
  result.incremental.map IncrementalResult.id

def completedIds (result : SubsequentResult K D R) : List String :=
  result.completed.map CompletedResult.id

end SubsequentResult

/-- The ids that have been announced. -/
def pendingIds (payloads : List (SubsequentResult K D R)) : List String :=
  payloads.flatMap SubsequentResult.pendingIds

def completedIds (payloads : List (SubsequentResult K D R)) : List String :=
  payloads.flatMap SubsequentResult.completedIds

/-- Payload by payload, ids are announced before they are used, not announced
or completed twice, and not used in a payload after they have been
completed. -/
inductive Protocol : List (SubsequentResult K D R) → Prop
  | start : Protocol []
  | payload {sent : List (SubsequentResult K D R)}
      {next : SubsequentResult K D R} (h : Protocol sent)
      (used : ∀ id ∈ next.incrementalIds ++ next.completedIds,
        id ∈ pendingIds (sent ++ [next]))
      (pending_nodup : (pendingIds (sent ++ [next])).Nodup)
      (completed_nodup : (completedIds (sent ++ [next])).Nodup)
      (not_completed : ∀ id ∈ next.incrementalIds, id ∉ completedIds sent) :
      Protocol (sent ++ [next])

@[simp] theorem pendingIds_snoc (sent : List (SubsequentResult K D R))
    (next : SubsequentResult K D R) :
    pendingIds (sent ++ [next]) = pendingIds sent ++ next.pendingIds := by
  simp [pendingIds]

@[simp] theorem completedIds_snoc (sent : List (SubsequentResult K D R))
    (next : SubsequentResult K D R) :
    completedIds (sent ++ [next]) = completedIds sent ++ next.completedIds := by
  simp [completedIds]

/-! ## The life of a node -/

namespace WorkQueueEvent

/-- The node that an event is about. -/
def node : WorkQueueEvent G S V I E → Option (Node G S)
  | .groupValues group _ => some (.inl group)
  | .groupSuccess group _ _ => some (.inl group)
  | .groupFailure group _ => some (.inl group)
  | .streamValues stream _ _ _ => some (.inr stream)
  | .streamSuccess stream => some (.inr stream)
  | .streamFailure stream _ => some (.inr stream)
  | .termination => none

/-- The node that an event completes. -/
def closes : WorkQueueEvent G S V I E → Option (Node G S)
  | .groupSuccess group _ _ => some (.inl group)
  | .groupFailure group _ => some (.inl group)
  | .streamSuccess stream => some (.inr stream)
  | .streamFailure stream _ => some (.inr stream)
  | _ => none

/-- The nodes that an event announces. -/
def announces : WorkQueueEvent G S V I E → List (Node G S)
  | .groupSuccess _ newGroups newStreams => nodes newGroups newStreams
  | .streamValues _ _ newGroups newStreams => nodes newGroups newStreams
  | _ => []

/-- The nodes that are pending after an event. -/
def after (pending : Set (Node G S)) (e : WorkQueueEvent G S V I E) :
    Set (Node G S) :=
  { n | n ∈ pending ∧ e.closes ≠ some n ∨ n ∈ e.announces }

/-- The event is about a pending node and announces new ones. -/
structure Allowed (pending : Set (Node G S)) (e : WorkQueueEvent G S V I E) :
    Prop where
  node : ∀ n, e.node = some n → n ∈ pending
  fresh : ∀ n ∈ e.announces, n ∈ pending → e.closes = some n
  nodup : e.announces.Nodup

end WorkQueueEvent

/-- The nodes that are pending after a sequence of events. -/
def pendingAfter (pending : Set (Node G S))
    (events : List (WorkQueueEvent G S V I E)) : Set (Node G S) :=
  events.foldl WorkQueueEvent.after pending

def Lives (pending : Set (Node G S)) :
    List (WorkQueueEvent G S V I E) → Prop
  | [] => True
  | e :: rest => e.Allowed pending ∧ Lives (e.after pending) rest

theorem lives_append {pending : Set (Node G S)}
    {events events' : List (WorkQueueEvent G S V I E)} :
    Lives pending (events ++ events') ↔
      Lives pending events ∧ Lives (pendingAfter pending events) events' := by
  induction events generalizing pending with
  | nil => simp [Lives, pendingAfter]
  | cons e rest ih =>
      rw [List.cons_append, Lives, Lives, ih, and_assoc]
      rfl

theorem pendingAfter_append (pending : Set (Node G S))
    (events events' : List (WorkQueueEvent G S V I E)) :
    pendingAfter pending (events ++ events') =
      pendingAfter (pendingAfter pending events) events' :=
  List.foldl_append

theorem lives_snoc {pending : Set (Node G S)}
    {events : List (WorkQueueEvent G S V I E)} {e : WorkQueueEvent G S V I E} :
    Lives pending (events ++ [e]) ↔
      Lives pending events ∧ e.Allowed (pendingAfter pending events) := by
  rw [lives_append, Lives, Lives, and_true]

theorem mem_pendingAfter_snoc {pending : Set (Node G S)}
    {events : List (WorkQueueEvent G S V I E)} {e : WorkQueueEvent G S V I E}
    {n : Node G S} :
    n ∈ pendingAfter pending (events ++ [e]) ↔
      n ∈ pendingAfter pending events ∧ e.closes ≠ some n ∨
        n ∈ e.announces := by
  rw [pendingAfter_append]
  rfl

/-! ## The publisher -/

/-- Different numbers have different ids. -/
theorem toString_nat_injective : Function.Injective (toString : ℕ → String) := by
  intro m n h
  have hdigits : Nat.toDigits 10 m = Nat.toDigits 10 n := by
    simpa using congrArg String.toList h
  have hnumber := congrArg (Nat.ofDigitChars 10 · 0) hdigits
  simpa [Nat.ofDigitChars_ten_toDigits] using hnumber

/-- The publisher in the middle of a batch: `sent` are the payloads so far and
`next` is the one it collects. -/
structure Publishing (pending : Set (Node G S)) (p : IncrementalPublisher G S)
    (sent : List (SubsequentResult K D R)) (next : SubsequentResult K D R) :
    Prop where
  protocol : Protocol sent
  used : ∀ id ∈ next.incrementalIds ++ next.completedIds,
    id ∈ pendingIds sent ++ next.pendingIds
  completed_nodup : (completedIds sent ++ next.completedIds).Nodup
  completed_announced : ∀ id ∈ completedIds sent ++ next.completedIds,
    id ∈ pendingIds sent ++ next.pendingIds
  not_completed : ∀ id ∈ next.incrementalIds, id ∉ completedIds sent
  /-- The ids are numbered in the order in which they are announced. -/
  ids : pendingIds sent ++ next.pendingIds =
    (List.range p.nextId).map toString
  node : ∀ n, n ∈ pending ↔ ∃ id, p.ids.get n = some id
  announced : ∀ n id, p.ids.get n = some id →
    id ∈ pendingIds sent ++ next.pendingIds
  live : ∀ n id, p.ids.get n = some id →
    id ∉ completedIds sent ++ next.completedIds
  injective : ∀ n n' id, p.ids.get n = some id → p.ids.get n' = some id →
    n = n'

namespace Publishing

variable {pending : Set (Node G S)} {p : IncrementalPublisher G S}
  {sent : List (SubsequentResult K D R)} {next : SubsequentResult K D R}

theorem congr {pending' : Set (Node G S)} (h : Publishing pending p sent next)
    (hsame : ∀ n, n ∈ pending' ↔ n ∈ pending) :
    Publishing pending' p sent next :=
  { h with node := fun n => (hsame n).trans (h.node n) }

theorem ensureId_eq (h : Publishing pending p sent next) {n : Node G S}
    (hn : n ∈ pending) :
    ∃ id, p.ids.get n = some id ∧ ensureId p n = (p, id) := by
  obtain ⟨id, hid⟩ := (h.node n).mp hn
  exact ⟨id, hid, by simp only [ensureId, hid]⟩

/-- Sending the payload and starting a new one. -/
theorem push (h : Publishing pending p sent next) :
    Publishing pending p (sent ++ [next]) {} := by
  have hpending : pendingIds (sent ++ [next]) ++
      (SubsequentResult.pendingIds ({} : SubsequentResult K D R)) =
        pendingIds sent ++ next.pendingIds := by
    rw [pendingIds_snoc]
    exact List.append_nil _
  have hcompleted : completedIds (sent ++ [next]) ++
      (SubsequentResult.completedIds ({} : SubsequentResult K D R)) =
        completedIds sent ++ next.completedIds := by
    rw [completedIds_snoc]
    exact List.append_nil _
  refine
    { protocol := .payload h.protocol ?_ ?_ ?_ h.not_completed
      used := fun id hid => by cases hid
      completed_nodup := hcompleted ▸ h.completed_nodup
      completed_announced := by
        rw [hcompleted, hpending]
        exact h.completed_announced
      not_completed := fun id hid => by cases hid
      ids := hpending.trans h.ids
      node := h.node
      announced := hpending ▸ h.announced
      live := hcompleted ▸ h.live
      injective := h.injective }
  · rw [pendingIds_snoc]
    exact h.used
  · rw [pendingIds_snoc, h.ids]
    exact List.nodup_range.map toString_nat_injective
  · rw [completedIds_snoc]
    exact h.completed_nodup

/-- Entries may be added for ids that are live. -/
theorem increment (h : Publishing pending p sent next)
    {entries : List (IncrementalResult K D R)}
    (hlive : ∀ entry ∈ entries, ∃ n, p.ids.get n = some entry.id) :
    Publishing pending p sent
      { next with incremental := next.incremental ++ entries } := by
  have hids : ∀ id, id ∈ SubsequentResult.incrementalIds
      { next with incremental := next.incremental ++ entries } →
      id ∈ next.incrementalIds ∨ ∃ n, p.ids.get n = some id := by
    intro id hid
    rw [SubsequentResult.incrementalIds, List.map_append,
      List.mem_append] at hid
    refine hid.imp_right fun hmem => ?_
    obtain ⟨entry, hentry, rfl⟩ := List.mem_map.mp hmem
    exact hlive entry hentry
  refine
    { protocol := h.protocol
      used := ?_
      completed_nodup := h.completed_nodup
      completed_announced := h.completed_announced
      not_completed := ?_
      ids := h.ids
      node := h.node
      announced := h.announced
      live := h.live
      injective := h.injective }
  · intro id hid
    rcases List.mem_append.mp hid with hid | hid
    · rcases hids id hid with hold | ⟨n, hn⟩
      · exact h.used id (List.mem_append_left _ hold)
      · exact h.announced n id hn
    · exact h.used id (List.mem_append_right _ hid)
  · intro id hid
    rcases hids id hid with hold | ⟨n, hn⟩
    · exact h.not_completed id hold
    · exact fun hc => h.live n id hn (List.mem_append_left _ hc)

theorem complete (h : Publishing pending p sent next) {n : Node G S}
    (hn : n ∈ pending) (errors : Option (List R)) :
    Publishing { m | m ∈ pending ∧ m ≠ n }
      (IncrementalPublisher.complete (p, next) n errors).1 sent
      (IncrementalPublisher.complete (p, next) n errors).2 := by
  obtain ⟨id, hid, heq⟩ := h.ensureId_eq hn
  simp only [IncrementalPublisher.complete, heq]
  set next' : SubsequentResult K D R :=
    { next with completed := next.completed ++ [{ id, errors }] } with hnext'
  have hcompleted : completedIds sent ++ next'.completedIds =
      completedIds sent ++ next.completedIds ++ [id] := by
    simp [hnext', SubsequentResult.completedIds]
  have hget : ∀ m id', (forget p n).ids.get m = some id' →
      m ≠ n ∧ p.ids.get m = some id' := by
    intro m id' hm
    simp only [forget, Dict.get_pop] at hm
    split at hm
    · cases hm
    · next hne => exact ⟨hne, hm⟩
  refine
    { protocol := h.protocol
      used := ?_
      completed_nodup := ?_
      completed_announced := ?_
      not_completed := h.not_completed
      ids := h.ids
      node := ?_
      announced := fun m id' hm => h.announced m id' (hget m id' hm).2
      live := ?_
      injective := ?_ }
  · intro id' hid'
    have hcases : id' ∈ next.incrementalIds ++ next.completedIds ∨ id' = id := by
      simpa [hnext', SubsequentResult.completedIds, or_assoc,
        SubsequentResult.incrementalIds] using hid'
    rcases hcases with hold | rfl
    · exact h.used id' hold
    · exact h.announced n id' hid
  · rw [hcompleted, List.nodup_append]
    refine ⟨h.completed_nodup, List.nodup_singleton id, ?_⟩
    rintro x hx y hy rfl
    exact h.live n id hid (List.mem_singleton.mp hy ▸ hx)
  · intro id' hid'
    rw [hcompleted] at hid'
    rcases List.mem_append.mp hid' with hold | hnew
    · exact h.completed_announced id' hold
    · rw [List.mem_singleton.mp hnew]
      exact h.announced n id hid
  · intro m
    simp only [Set.mem_ofPred_eq, h.node m, forget, Dict.get_pop]
    by_cases hm : m = n
    · simp [hm]
    · simp [hm]
  · intro m id' hm
    obtain ⟨hne, hm⟩ := hget m id' hm
    rw [hcompleted, List.mem_append, not_or]
    refine ⟨h.live m id' hm, fun hmem => hne (h.injective m n id' hm ?_)⟩
    rw [List.mem_singleton.mp hmem]
    exact hid
  · intro m m' id' hm hm'
    exact h.injective m m' id' (hget m id' hm).2 (hget m' id' hm').2

/-- Announcing one new node. -/
theorem announceNode (h : Publishing pending p sent next)
    (a : Reporting G S K E R) {n : Node G S} (hn : n ∉ pending)
    (results : List (PendingResult K)) :
    ∃ p' r, toPendingResult a (p, results) n = (p', results ++ [r]) ∧
      Publishing { m | m ∈ pending ∨ m = n } p' sent
        { next with pending := next.pending ++ [r] } := by
  have hnone : p.ids.get n = none := by
    rw [Option.eq_none_iff_forall_ne_some]
    exact fun id hid => hn ((h.node n).mpr ⟨id, hid⟩)
  set id := toString p.nextId with hid
  have hensure : ensureId p n =
      ({ ids := p.ids.set n id, nextId := p.nextId + 1 }, id) := by
    simp only [ensureId, hnone, hid]
  refine ⟨{ ids := p.ids.set n id, nextId := p.nextId + 1 },
    { id
      path := n.elim a.groupPath a.streamPath
      label := n.elim a.groupLabel a.streamLabel }, ?_, ?_⟩
  · simp only [toPendingResult, hensure]
  have hfresh : id ∉ pendingIds sent ++ next.pendingIds := by
    rw [h.ids]
    intro hmem
    obtain ⟨k, hk, heq⟩ := List.mem_map.mp hmem
    obtain rfl : k = p.nextId := toString_nat_injective heq
    exact List.not_mem_range_self hk
  set next' : SubsequentResult K D R :=
    { next with pending := next.pending ++ [{
        id
        path := n.elim a.groupPath a.streamPath
        label := n.elim a.groupLabel a.streamLabel }] } with hnext'
  have hpending : pendingIds sent ++ next'.pendingIds =
      pendingIds sent ++ next.pendingIds ++ [id] := by
    simp [hnext', SubsequentResult.pendingIds]
  have hold : ∀ x ∈ pendingIds sent ++ next.pendingIds,
      x ∈ pendingIds sent ++ next'.pendingIds :=
    fun x hx => hpending ▸ List.mem_append_left _ hx
  have hget : ∀ m x, (p.ids.set n id).get m = some x →
      (m = n ∧ x = id) ∨ (m ≠ n ∧ p.ids.get m = some x) := by
    intro m x hm
    rw [Dict.get_set] at hm
    split at hm
    · next heq => exact Or.inl ⟨heq, (Option.some.inj hm).symm⟩
    · next hne => exact Or.inr ⟨hne, hm⟩
  refine
    { protocol := h.protocol
      used := fun x hx => hold x (h.used x hx)
      completed_nodup := h.completed_nodup
      completed_announced := fun x hx => hold x (h.completed_announced x hx)
      not_completed := h.not_completed
      ids := ?_
      node := ?_
      announced := ?_
      live := ?_
      injective := ?_ }
  · rw [hpending, h.ids, List.range_succ, List.map_append]
    rfl
  · intro m
    simp only [Set.mem_ofPred_eq, h.node m, Dict.get_set]
    by_cases hm : m = n
    · simp [hm]
    · simp [hm]
  · intro m x hm
    rcases hget m x hm with ⟨-, rfl⟩ | ⟨-, hm⟩
    · simp [hpending]
    · exact hold x (h.announced m x hm)
  · intro m x hm hx
    rcases hget m x hm with ⟨-, rfl⟩ | ⟨-, hm⟩
    · exact hfresh (h.completed_announced _ hx)
    · exact h.live m x hm hx
  · intro m m' x hm hm'
    rcases hget m x hm with ⟨rfl, rfl⟩ | ⟨-, hm⟩
    · rcases hget m' _ hm' with ⟨rfl, -⟩ | ⟨-, hm'⟩
      · rfl
      · exact absurd (h.announced m' _ hm') hfresh
    · rcases hget m' x hm' with ⟨-, rfl⟩ | ⟨-, hm'⟩
      · exact absurd (h.announced m _ hm) hfresh
      · exact h.injective m m' x hm hm'

theorem announceNodes (h : Publishing pending p sent next)
    (a : Reporting G S K E R) {news : List (Node G S)}
    (hnew : ∀ n ∈ news, n ∉ pending) (hnodup : news.Nodup)
    (results : List (PendingResult K)) :
    ∃ p' rs, news.foldl (toPendingResult a) (p, results) =
        (p', results ++ rs) ∧
      Publishing { m | m ∈ pending ∨ m ∈ news } p' sent
        { next with pending := next.pending ++ rs } := by
  induction news generalizing p next pending results with
  | nil =>
      refine ⟨p, [], by simp, ?_⟩
      simp only [List.append_nil]
      exact h.congr fun n => by simp
  | cons n rest ih =>
      rw [List.nodup_cons] at hnodup
      obtain ⟨p₁, r, hstep, h₁⟩ := h.announceNode a
        (hnew n List.mem_cons_self) results
      obtain ⟨p₂, rs, hrest, h₂⟩ := ih h₁ (by
        rintro m hm (hp | rfl)
        · exact hnew m (List.mem_cons_of_mem _ hm) hp
        · exact hnodup.1 hm) hnodup.2 (results ++ [r])
      refine ⟨p₂, r :: rs, ?_, ?_⟩
      · rw [List.foldl_cons, hstep, hrest, List.append_assoc]
        rfl
      · have hassoc : next.pending ++ [r] ++ rs = next.pending ++ r :: rs := by
          simp
        simp only [hassoc] at h₂
        refine h₂.congr fun m => ?_
        simp only [Set.mem_ofPred_eq, List.mem_cons]
        tauto

theorem announce (h : Publishing pending p sent next)
    (a : Reporting G S K E R) {newGroups : List G} {newStreams : List S}
    (hnew : ∀ n ∈ nodes newGroups newStreams, n ∉ pending)
    (hnodup : (nodes newGroups newStreams).Nodup) :
    Publishing { m | m ∈ pending ∨ m ∈ nodes newGroups newStreams }
      (IncrementalPublisher.announce a (p, next) newGroups newStreams).1 sent
      (IncrementalPublisher.announce a (p, next) newGroups newStreams).2 := by
  obtain ⟨p', rs, heq, h'⟩ := h.announceNodes a hnew hnodup []
  simp only [IncrementalPublisher.announce, toPendingResults, heq,
    List.nil_append]
  exact h'

/-- The best id is that of a node that is pending. -/
theorem bestId_live (a : Reporting G S K E R) {id : String} {group : G}
    (hid : p.ids.get (.inl group) = some id)
    (value : ExecutionGroupValue G K D R) :
    ∃ n, p.ids.get n = some (getBestIdAndSubPath a p id group value).1 := by
  have hfold : ∀ (groups : List G) (st : ℕ × String),
      (∃ n, p.ids.get n = some st.2) →
        ∃ n, p.ids.get n = some (groups.foldl (betterId a p group) st).2 := by
    intro groups
    induction groups with
    | nil => exact fun st hst => hst
    | cons g rest ih =>
        intro st hst
        apply ih
        unfold betterId
        split
        · exact hst
        · split
          · exact hst
          · next id' hid' =>
            dsimp only
            split
            · exact ⟨_, hid'⟩
            · exact hst
  exact hfold value.deliveryGroups _ ⟨_, hid⟩

/-- Translating an event that is allowed. -/
theorem handle (h : Publishing pending p sent next)
    (a : Reporting G S K E R) {e : PublisherEvent G S K D R E}
    (he : e.Allowed pending) :
    Publishing (e.after pending) (handleWorkQueueEvent a (p, next) e).1 sent
      (handleWorkQueueEvent a (p, next) e).2 := by
  cases e with
  | groupValues group values =>
      obtain ⟨id, hid, heq⟩ := h.ensureId_eq (he.node _ rfl)
      simp only [handleWorkQueueEvent, heq]
      refine Publishing.congr (h.increment ?_) fun n => ?_
      · intro entry hentry
        obtain ⟨value, -, rfl⟩ := List.mem_map.mp hentry
        exact bestId_live a hid value
      · simp [WorkQueueEvent.after, WorkQueueEvent.closes,
          WorkQueueEvent.announces]
  | groupSuccess group newGroups newStreams =>
      have hdone := h.complete (he.node _ rfl) none
      have hnew := hdone.announce a ?_ he.nodup
      · refine hnew.congr fun n => ?_
        simp [WorkQueueEvent.after, WorkQueueEvent.closes,
          WorkQueueEvent.announces, eq_comm]
      · rintro n hn ⟨hp, hne⟩
        exact hne (Option.some.inj (he.fresh n hn hp)).symm
  | groupFailure group error =>
      refine (h.complete (he.node _ rfl) _).congr fun n => ?_
      simp [WorkQueueEvent.after, WorkQueueEvent.closes,
        WorkQueueEvent.announces, eq_comm]
  | streamValues stream values newGroups newStreams =>
      obtain ⟨id, hid, heq⟩ := h.ensureId_eq (he.node _ rfl)
      simp only [handleWorkQueueEvent, heq]
      refine Publishing.congr (Publishing.announce (h.increment ?_) a ?_
        he.nodup) fun n => ?_
      · intro entry hentry
        rw [List.mem_singleton.mp hentry]
        exact ⟨_, hid⟩
      · intro n hn hp
        cases he.fresh n hn hp
      · simp [WorkQueueEvent.after, WorkQueueEvent.closes,
          WorkQueueEvent.announces]
  | streamSuccess stream =>
      refine (h.complete (he.node _ rfl) _).congr fun n => ?_
      simp [WorkQueueEvent.after, WorkQueueEvent.closes,
        WorkQueueEvent.announces, eq_comm]
  | streamFailure stream error =>
      refine (h.complete (he.node _ rfl) _).congr fun n => ?_
      simp [WorkQueueEvent.after, WorkQueueEvent.closes,
        WorkQueueEvent.announces, eq_comm]
  | termination =>
      have hsame : Publishing pending p sent { next with hasNext := false } :=
        { h with }
      refine hsame.congr fun n => ?_
      simp [WorkQueueEvent.after, WorkQueueEvent.closes,
        WorkQueueEvent.announces]

theorem handleBatch (h : Publishing pending p sent next)
    (a : Reporting G S K E R) {batch : List (PublisherEvent G S K D R E)}
    (hlives : Lives pending batch) :
    Publishing (pendingAfter pending batch)
      (batch.foldl (handleWorkQueueEvent a) (p, next)).1 sent
      (batch.foldl (handleWorkQueueEvent a) (p, next)).2 := by
  induction batch generalizing pending p next with
  | nil => exact h
  | cons e rest ih => exact ih (h.handle a hlives.1) hlives.2

theorem publishBatches (h : Publishing pending p sent {})
    (a : Reporting G S K E R)
    {batches : List (List (PublisherEvent G S K D R E))}
    (hlives : Lives pending batches.flatten) :
    Protocol (batches.foldl (publishBatch a) (p, sent)).2 := by
  induction batches generalizing pending p sent with
  | nil => exact h.protocol
  | cons batch rest ih =>
      rw [List.flatten_cons, lives_append] at hlives
      exact ih (h.handleBatch a hlives.1).push hlives.2

end Publishing

/-- The payloads for events that announce every node before they use it and do
not use it after they have completed it. -/
theorem payloads_protocol (a : Reporting G S K E R) {initialGroups : List G}
    {initialStreams : List S}
    (hnodup : (nodes initialGroups initialStreams).Nodup)
    {batches : List (List (PublisherEvent G S K D R E))}
    (hlives : Lives { n | n ∈ nodes initialGroups initialStreams }
      batches.flatten) :
    Protocol
      (IncrementalPublisher.payloads a initialGroups initialStreams batches) := by
  have hstart : Publishing (∅ : Set (Node G S)) {} []
      ({} : SubsequentResult K D R) :=
    { protocol := .start
      used := fun id hid => by cases hid
      completed_nodup := List.nodup_nil
      completed_announced := fun id hid => by cases hid
      not_completed := fun id hid => by cases hid
      ids := rfl
      node := by simp
      announced := fun n id hid => by simp at hid
      live := fun n id hid => by simp at hid
      injective := fun n n' id hid => by simp at hid }
  have hinitial := (hstart.announce a (fun n _ hn => hn.elim) hnodup).push
  exact (hinitial.congr (by simp)).publishBatches a hlives

/-! ## The events of the work queue -/

/-- Only root groups fail. -/
def protocolConditions (G T S V : Type) : Conditions G T S V where
  fail := fun q group => group ∈ q.rootGroups

/-- The events announced and completed the nodes such that, apart from those
that the next event of a stream will announce, the roots are pending. -/
structure Announced (start : Set (Node G S)) (s : Stage G T S V I E) :
    Prop where
  lives : Lives start s.events
  group : ∀ g, Sum.inl g ∈ pendingAfter start s.events ↔
    (g ∈ s.queue.rootGroups ∨ g ∈ s.limbo) ∧ g ∉ s.news
  stream : ∀ x, Sum.inr x ∈ pendingAfter start s.events ↔
    (x ∈ s.queue.rootStreams ∨ x ∈ s.limboStreams) ∧ x ∉ s.newStreams
  news : ∀ g ∈ s.news, g ∈ s.queue.rootGroups ∨ g ∈ s.limbo
  news_nodup : s.news.Nodup
  newStreams : ∀ x ∈ s.newStreams,
    x ∈ s.queue.rootStreams ∨ x ∈ s.limboStreams
  newStreams_nodup : s.newStreams.Nodup

theorem nodup_nodes {newGroups : List G} {newStreams : List S}
    (hgroups : newGroups.Nodup) (hstreams : newStreams.Nodup) :
    (nodes newGroups newStreams).Nodup := by
  rw [nodes, List.nodup_append]
  refine ⟨hgroups.map Sum.inl_injective, hstreams.map Sum.inr_injective, ?_⟩
  rintro n hn m hm rfl
  obtain ⟨g, -, rfl⟩ := List.mem_map.mp hn
  obtain ⟨x, -, hx⟩ := List.mem_map.mp hm
  cases hx

namespace Announced

variable {start : Set (Node G S)} {s s' : Stage G T S V I E}

/-- Moves without events that keep the nodes that are roots or will be. -/
theorem keep (h : Announced start s) (hevents : s'.events = s.events)
    (hnews : s'.news = s.news) (hnewStreams : s'.newStreams = s.newStreams)
    (hgroup : ∀ g, g ∈ s'.queue.rootGroups ∨ g ∈ s'.limbo ↔
      g ∈ s.queue.rootGroups ∨ g ∈ s.limbo)
    (hstream : ∀ x, x ∈ s'.queue.rootStreams ∨ x ∈ s'.limboStreams ↔
      x ∈ s.queue.rootStreams ∨ x ∈ s.limboStreams) : Announced start s' := by
  constructor
  · rw [hevents]
    exact h.lives
  · intro g
    rw [hevents, hnews, hgroup g]
    exact h.group g
  · intro x
    rw [hevents, hnewStreams, hstream x]
    exact h.stream x
  · intro g hg
    exact (hgroup g).mpr (h.news g (hnews ▸ hg))
  · exact hnews ▸ h.news_nodup
  · intro x hx
    exact (hstream x).mpr (h.newStreams x (hnewStreams ▸ hx))
  · exact hnewStreams ▸ h.newStreams_nodup

/-- A root group completes; its children and the streams of its tasks are
announced. -/
theorem finish (h : Announced start s) (hinv : Inv W s) (hinv' : Inv W s')
    {group : G} {newGroups : List G} {newStreams : List S}
    {values : List (WorkQueueEvent G S V I E)}
    (hroot : group ∈ s.queue.rootGroups) (hnews : s.news = [])
    (hnewStreams : s.newStreams = [])
    (hvalues : ∀ e ∈ values, ∃ vs, e = .groupValues group vs)
    (hevents : s'.events = s.events ++
      (values ++ [.groupSuccess group newGroups newStreams]))
    (hroots : s'.queue.rootGroups =
      OrderedSet.remove s.queue.rootGroups group)
    (hrootStreams : s'.queue.rootStreams = s.queue.rootStreams)
    (hlimbo : s'.limbo = s.limbo ++ newGroups)
    (hlimboStreams : s'.limboStreams = s.limboStreams ++ newStreams)
    (hnews' : s'.news = []) (hnewStreams' : s'.newStreams = []) :
    Announced start s' := by
  have hpending : Sum.inl group ∈ pendingAfter start s.events :=
    (h.group group).mpr ⟨Or.inl hroot, by simp [hnews]⟩
  -- The values leave the pending nodes as they are.
  have hsame : ∀ values : List (WorkQueueEvent G S V I E),
      (∀ e ∈ values, ∃ vs, e = .groupValues group vs) →
        Lives (pendingAfter start s.events) values ∧
          pendingAfter (pendingAfter start s.events) values =
            pendingAfter start s.events := by
    intro values
    induction values with
    | nil => exact fun _ => ⟨trivial, rfl⟩
    | cons e rest ih =>
        intro hall
        obtain ⟨vs, rfl⟩ := hall e List.mem_cons_self
        have hafter : (WorkQueueEvent.groupValues (I := I) (E := E) group
            vs).after (pendingAfter start s.events) =
              pendingAfter start s.events := by
          ext n
          simp [WorkQueueEvent.after, WorkQueueEvent.closes,
            WorkQueueEvent.announces]
        obtain ⟨hl, hp⟩ := ih fun e he => hall e (List.mem_cons_of_mem _ he)
        refine ⟨⟨⟨?_, ?_, List.nodup_nil⟩, ?_⟩, ?_⟩
        · intro n hn
          exact Option.some.inj hn ▸ hpending
        · intro n hn
          cases hn
        · exact hafter.symm ▸ hl
        · exact (congrArg (pendingAfter · rest) hafter).trans hp
  obtain ⟨hlives, hpendingAfter⟩ := hsame values hvalues
  rw [← pendingAfter_append] at hpendingAfter
  have hforest := hinv'.forest
  rw [hlimbo] at hforest
  have hnodup := (List.nodup_append.mp hforest.limbo_nodup).1
  rw [List.nodup_append] at hnodup
  have hstreams := hinv'.streams
  rw [hlimboStreams] at hstreams
  have hnodupStreams := List.nodup_append.mp hstreams.limbo_nodup
  have hgroupNew : ∀ g ∈ newGroups, g ∉ s.limbo ∧
      (g ∈ s.queue.rootGroups → g = group) := by
    intro g hg
    refine ⟨fun hl => hnodup.2.2 g hl g hg rfl, fun hr => ?_⟩
    by_contra hne
    refine hforest.limbo_not_root g (by simp [hg]) ?_
    rw [hroots, OrderedSet.mem_remove]
    exact ⟨hr, hne⟩
  have hstreamNew : ∀ x ∈ newStreams, x ∉ s.limboStreams ∧
      x ∉ s.queue.rootStreams := by
    intro x hx
    refine ⟨fun hl => hnodupStreams.2.2 x hl x hx rfl, fun hr => ?_⟩
    rw [← hrootStreams] at hr
    exact hstreams.limbo_idle x (by simp [hx])
      (hstreams.pump_started x ((hstreams.root_iff x).mp hr).1)
  have hgroupLimbo : group ∉ s.limbo := fun hl =>
    hinv.forest.limbo_not_root group (List.mem_append_left _ hl) hroot
  refine
    { lives := ?_
      group := ?_
      stream := ?_
      news := by simp [hnews']
      news_nodup := by simp [hnews']
      newStreams := by simp [hnewStreams']
      newStreams_nodup := by simp [hnewStreams'] }
  · rw [hevents, ← List.append_assoc, lives_snoc, lives_append,
      hpendingAfter]
    refine ⟨⟨h.lives, hlives⟩, ?_, ?_, nodup_nodes hnodup.2.1
      hnodupStreams.2.1⟩
    · intro n hn
      exact Option.some.inj hn ▸ hpending
    · intro n hn hp
      rcases List.mem_append.mp hn with hn | hn
      · obtain ⟨g, hg, rfl⟩ := List.mem_map.mp hn
        rcases ((h.group g).mp hp).1 with hr | hl
        · rw [(hgroupNew g hg).2 hr]
          rfl
        · exact absurd hl (hgroupNew g hg).1
      · obtain ⟨x, hx, rfl⟩ := List.mem_map.mp hn
        rcases ((h.stream x).mp hp).1 with hr | hl
        · exact absurd hr (hstreamNew x hx).2
        · exact absurd hl (hstreamNew x hx).1
  · intro g
    rw [hevents, ← List.append_assoc, mem_pendingAfter_snoc, hpendingAfter,
      h.group g, hnews, hnews', hroots, hlimbo, OrderedSet.mem_remove]
    have hne : g ∈ s.limbo → g ≠ group := fun hl heq =>
      hgroupLimbo (heq ▸ hl)
    simp [WorkQueueEvent.closes, WorkQueueEvent.announces, nodes]
    tauto
  · intro x
    rw [hevents, ← List.append_assoc, mem_pendingAfter_snoc, hpendingAfter,
      h.stream x, hnewStreams, hnewStreams', hrootStreams, hlimboStreams]
    simp [WorkQueueEvent.closes, WorkQueueEvent.announces, nodes]
    tauto

/-- A root group fails. -/
theorem fail (h : Announced start s) (hinv : Inv W s) {group : G} {error : E}
    (hroot : group ∈ s.queue.rootGroups) (hnews : s.news = [])
    (hevents : s'.events = s.events ++ [.groupFailure group error])
    (hroots : s'.queue.rootGroups =
      OrderedSet.remove s.queue.rootGroups group)
    (hrootStreams : s'.queue.rootStreams = s.queue.rootStreams)
    (hlimbo : s'.limbo = s.limbo)
    (hlimboStreams : s'.limboStreams = s.limboStreams)
    (hnews' : s'.news = []) (hnewStreams : s'.newStreams = s.newStreams) :
    Announced start s' := by
  have hpending : Sum.inl group ∈ pendingAfter start s.events :=
    (h.group group).mpr ⟨Or.inl hroot, by simp [hnews]⟩
  have hgroupLimbo : group ∉ s.limbo := fun hl =>
    hinv.forest.limbo_not_root group (List.mem_append_left _ hl) hroot
  refine
    { lives := ?_
      group := ?_
      stream := ?_
      news := by simp [hnews']
      news_nodup := by simp [hnews']
      newStreams := by
        rw [hnewStreams, hrootStreams, hlimboStreams]
        exact h.newStreams
      newStreams_nodup := hnewStreams ▸ h.newStreams_nodup }
  · rw [hevents, lives_snoc]
    refine ⟨h.lives, ?_, ?_, List.nodup_nil⟩
    · intro n hn
      exact Option.some.inj hn ▸ hpending
    · intro n hn
      cases hn
  · intro g
    have hne : g ∈ s.limbo → g ≠ group := fun hl heq =>
      hgroupLimbo (heq ▸ hl)
    rw [hevents, mem_pendingAfter_snoc, h.group g, hnews, hnews', hroots,
      hlimbo, OrderedSet.mem_remove]
    simp [WorkQueueEvent.closes, WorkQueueEvent.announces]
    tauto
  · intro x
    rw [hevents, mem_pendingAfter_snoc, h.stream x, hnewStreams, hrootStreams,
      hlimboStreams]
    simp [WorkQueueEvent.closes, WorkQueueEvent.announces]

/-- A root stream completes. -/
theorem closeStream (h : Announced start s) (hinv : Inv W s) {stream : S}
    {e : WorkQueueEvent G S V I E} (hroot : stream ∈ s.queue.rootStreams)
    (hnewStreams : s.newStreams = [])
    (hnode : e.node = some (.inr stream))
    (hcloses : e.closes = some (.inr stream)) (hannounces : e.announces = [])
    (hevents : s'.events = s.events ++ [e])
    (hrootStreams : s'.queue.rootStreams =
      OrderedSet.remove s.queue.rootStreams stream)
    (hroots : s'.queue.rootGroups = s.queue.rootGroups)
    (hlimbo : s'.limbo = s.limbo)
    (hlimboStreams : s'.limboStreams = s.limboStreams)
    (hnews : s'.news = s.news) (hnewStreams' : s'.newStreams = []) :
    Announced start s' := by
  have hpending : Sum.inr stream ∈ pendingAfter start s.events :=
    (h.stream stream).mpr ⟨Or.inl hroot, by simp [hnewStreams]⟩
  have hstreamLimbo : stream ∉ s.limboStreams := fun hl =>
    hinv.streams.limbo_idle stream hl (hinv.streams.pump_started stream
      ((hinv.streams.root_iff stream).mp hroot).1)
  refine
    { lives := ?_
      group := ?_
      stream := ?_
      news := by
        rw [hnews, hroots, hlimbo]
        exact h.news
      news_nodup := hnews ▸ h.news_nodup
      newStreams := by simp [hnewStreams']
      newStreams_nodup := by simp [hnewStreams'] }
  · rw [hevents, lives_snoc]
    refine ⟨h.lives, ?_, ?_, ?_⟩
    · intro n hn
      exact Option.some.inj (hnode.symm.trans hn) ▸ hpending
    · intro n hn
      rw [hannounces] at hn
      cases hn
    · rw [hannounces]
      exact List.nodup_nil
  · intro g
    rw [hevents, mem_pendingAfter_snoc, h.group g, hnews, hroots, hlimbo,
      hcloses, hannounces]
    simp
  · intro x
    have hne : x ∈ s.limboStreams → x ≠ stream := fun hl heq =>
      hstreamLimbo (heq ▸ hl)
    rw [hevents, mem_pendingAfter_snoc, h.stream x, hnewStreams, hnewStreams',
      hrootStreams, hlimboStreams, OrderedSet.mem_remove, hcloses, hannounces]
    simp [eq_comm]
    tauto

/-- The event of a stream announces the new roots. -/
theorem streamValues (h : Announced start s) (stream : S) (values : List I)
    (hroot : stream ∈ s.queue.rootStreams) (hnew : stream ∉ s.newStreams) :
    Announced start
      { s with
        news := []
        newStreams := []
        events := s.events ++
          [.streamValues stream values s.news s.newStreams] } := by
  refine
    { lives := ?_
      group := ?_
      stream := ?_
      news := by simp
      news_nodup := List.nodup_nil
      newStreams := by simp
      newStreams_nodup := List.nodup_nil }
  · rw [lives_snoc]
    refine ⟨h.lives, ?_, ?_, nodup_nodes h.news_nodup h.newStreams_nodup⟩
    · intro n hn
      exact Option.some.inj hn ▸ (h.stream stream).mpr ⟨Or.inl hroot, hnew⟩
    · intro n hn hp
      rcases List.mem_append.mp hn with hn | hn
      · obtain ⟨g, hg, rfl⟩ := List.mem_map.mp hn
        exact absurd hg ((h.group g).mp hp).2
      · obtain ⟨x, hx, rfl⟩ := List.mem_map.mp hn
        exact absurd hx ((h.stream x).mp hp).2
  · intro g
    have hnews := h.news g
    rw [mem_pendingAfter_snoc, h.group g]
    simp only [WorkQueueEvent.closes, WorkQueueEvent.announces, nodes,
      List.mem_append, List.mem_map, Sum.inl.injEq, exists_eq_right,
      reduceCtorEq, and_false, exists_false, or_false, List.not_mem_nil,
      not_false_eq_true, and_true, ne_eq]
    tauto
  · intro x
    have hnews := h.newStreams x
    rw [mem_pendingAfter_snoc, h.stream x]
    simp only [WorkQueueEvent.closes, WorkQueueEvent.announces, nodes,
      List.mem_append, List.mem_map, Sum.inr.injEq, exists_eq_right,
      reduceCtorEq, and_false, exists_false, false_or, List.not_mem_nil,
      not_false_eq_true, and_true, ne_eq]
    tauto

theorem move (h : Announced start s) (hinv : Inv W s)
    (hmove : Move W (protocolConditions G T S V) s s') : Announced start s' := by
  have hinv' := hinv.move hmove
  cases hmove with
  | create parentTask group =>
      have hframe := (createGroup_eq W parentTask (s.queue, s.found) group).2.1
      refine h.keep rfl rfl rfl (fun g => ?_) (fun x => ?_)
      · simp only [hframe.rootGroups]
      · simp only [hframe.rootStreams]
  | addTask task =>
      have hframe := (foldl_addTaskToGroup s.queue task (W.groups task)).2.1
      refine h.keep rfl rfl rfl (fun g => ?_) (fun x => ?_)
      · simp only [addTask_rootGroups]
      · simp only [WorkQueue.addTask, hframe.2.1]
  | addStreams parentTask streams hnodup hfresh =>
      cases parentTask with
      | some task =>
          refine h.keep rfl rfl ?_ (fun g => Iff.rfl) (fun x => ?_)
          · exact List.append_nil _
          · simp only [WorkQueue.addStreams, List.append_nil]
      | none =>
          have hold : ∀ x, x ∈ s.queue.rootStreams ∨ x ∈ s.limboStreams →
              x ∉ streams := by
            rintro x (hx | hx) hmem
            · exact hfresh x hmem (hinv.streams.released x (Or.inr
                (hinv.streams.pump_started x
                  ((hinv.streams.root_iff x).mp hx).1))).1
            · exact hfresh x hmem (hinv.streams.released x (Or.inl hx)).1
          refine
            { lives := h.lives
              group := h.group
              stream := ?_
              news := h.news
              news_nodup := h.news_nodup
              newStreams := ?_
              newStreams_nodup := ?_ }
          · intro x
            have hx := hold x
            rw [h.stream x]
            simp only [WorkQueue.addStreams, List.mem_append]
            tauto
          · intro x hx
            simp only [WorkQueue.addStreams, List.mem_append] at hx ⊢
            rcases hx with hx | hx
            · exact (h.newStreams x hx).imp_right Or.inl
            · exact Or.inr (Or.inr hx)
          · refine List.nodup_append.mpr ⟨h.newStreams_nodup, hnodup, ?_⟩
            rintro x hx y hy rfl
            exact hold x (h.newStreams x hx) hy
  | prune =>
      have hforest := hinv'.forest
      simp only [List.append_nil] at hforest
      have hnodup := List.nodup_append.mp hforest.limbo_nodup
      set out := (pruneEmptyGroups s.queue.groupNodes s.found).2
      have hold : ∀ g, g ∈ s.queue.rootGroups ∨ g ∈ s.limbo → g ∉ out := by
        rintro g (hg | hg) hmem
        · exact hforest.limbo_not_root g (List.mem_append_right _ hmem) hg
        · exact hnodup.2.2 g hg g hmem rfl
      refine
        { lives := h.lives
          group := ?_
          stream := h.stream
          news := ?_
          news_nodup := ?_
          newStreams := h.newStreams
          newStreams_nodup := h.newStreams_nodup }
      · intro g
        have hg := hold g
        rw [h.group g]
        simp only [List.mem_append]
        tauto
      · intro g hg
        rw [List.mem_append] at hg ⊢
        rcases hg with hg | hg
        · exact (h.news g hg).imp_right Or.inl
        · exact Or.inr (Or.inr hg)
      · refine List.nodup_append.mpr ⟨h.news_nodup, hnodup.2.1, ?_⟩
        rintro g hg g' hg' rfl
        exact hold g (h.news g hg) hg'
  | promote group rest hlimbo =>
      refine h.keep rfl rfl rfl (fun g => ?_) (fun x => ?_)
      · simp only [promoteGroup_rootGroups, OrderedSet.mem_add, hlimbo,
          List.mem_cons]
        tauto
      · simp only [promoteGroup_rootStreams]
  | promoteStream stream rest hlimbo =>
      refine h.keep rfl rfl rfl (fun g => Iff.rfl) (fun x => ?_)
      have hroots : (s.queue.promoteStream stream).rootStreams =
          OrderedSet.add s.queue.rootStreams stream := rfl
      simp only [hroots, OrderedSet.mem_add, hlimbo, List.mem_cons]
      tauto
  | finish task group rest n n' hcurrent hremaining hfinishes hexcused hnews
      hstreams hfound hn hn' hcond r hr =>
      have hmembers : s.queue.members group = some n.tasks := by
        simp [members, hn]
      obtain ⟨⟨gone, hfin⟩, -, -, hevents⟩ :=
        finishGroupSuccess_finished (I := I) (E := E) W s.queue group n n'
          (by rw [hn']) (by rw [hn'])
          (hinv.tasks.members_nodup group _ hmembers)
      rw [← hr] at hfin hevents
      refine h.finish hinv hinv' hfinishes.1 hnews hstreams ?_
        (congrArg (s.events ++ ·) hevents) hfin.rootGroups hfin.rootStreams rfl
        rfl hnews hstreams
      intro e he
      split at he
      · cases he
      · exact ⟨_, List.mem_singleton.mp he⟩
  | fail group error halive hlimbo hfound hnews hcond r hr =>
      obtain ⟨gone, hremoves⟩ := removeGroup_removes W s.queue [group]
      have hroots : r.1.rootGroups =
          OrderedSet.remove s.queue.rootGroups group := by
        rw [hr, ← hremoves.frame.rootGroups]
        rfl
      have hrootStreams : r.1.rootStreams = s.queue.rootStreams := by
        rw [hr]
        exact hremoves.frame.rootStreams
      have hevent : r.2 = .groupFailure group error := by
        rw [hr]
        rfl
      exact h.fail hinv hcond hnews (congrArg (s.events ++ [·]) hevent) hroots
        hrootStreams rfl rfl hnews rfl
  | streamValues stream values hroot _ _ _ hnew =>
      exact h.streamValues stream values hroot hnew
  | streamStop stream hroot hstreams =>
      exact h.closeStream hinv hroot hstreams rfl rfl rfl rfl rfl rfl rfl rfl
        rfl hstreams
  | streamEnd stream hroot hstreams =>
      exact h.closeStream hinv hroot hstreams rfl rfl rfl rfl rfl rfl rfl rfl
        rfl hstreams
  | streamFail stream error hroot hstreams =>
      exact h.closeStream hinv hroot hstreams rfl rfl rfl rfl rfl rfl rfl rfl
        rfl hstreams
  | _ => exact h.keep rfl rfl rfl (fun _ => Iff.rfl) (fun _ => Iff.rfl)

end Announced

/-! ## Runs -/

theorem Announced.moves {start : Set (Node G S)} {s s' : Stage G T S V I E}
    (h : Announced start s) (hinv : Inv W s)
    (hmoves : Moves W (protocolConditions G T S V) s s') :
    Announced start s' := by
  induction hmoves with
  | refl => exact h
  | tail hmoves hmove ih => exact ih.move (hinv.moves hmoves) hmove

/-- The initial result announces the roots. -/
theorem Announced.initial {s : Stage G T S V I E} (h : Announced ∅ s)
    (hevents : s.events = []) :
    Announced { n | n ∈ nodes s.news s.newStreams }
      { s with news := [], newStreams := [] } := by
  have hgroup := h.group
  have hstream := h.stream
  rw [hevents] at hgroup hstream
  refine
    { lives := by simp [hevents, Lives]
      group := ?_
      stream := ?_
      news := by simp
      news_nodup := List.nodup_nil
      newStreams := by simp
      newStreams_nodup := List.nodup_nil }
  · intro g
    have hg := hgroup g
    have hnews := h.news g
    simp only [pendingAfter, List.foldl_nil, Set.mem_empty_iff_false, false_iff,
      not_and, not_not] at hg
    simp only [hevents, pendingAfter, List.foldl_nil, Set.mem_ofPred_eq, nodes,
      List.mem_append, List.mem_map, Sum.inl.injEq, exists_eq_right,
      reduceCtorEq, and_false, exists_false, or_false, List.not_mem_nil,
      not_false_eq_true, and_true]
    exact ⟨hnews, hg⟩
  · intro x
    have hx := hstream x
    have hnews := h.newStreams x
    simp only [pendingAfter, List.foldl_nil, Set.mem_empty_iff_false, false_iff,
      not_and, not_not] at hx
    simp only [hevents, pendingAfter, List.foldl_nil, Set.mem_ofPred_eq, nodes,
      List.mem_append, List.mem_map, Sum.inr.injEq, exists_eq_right,
      reduceCtorEq, and_false, exists_false, false_or, List.not_mem_nil,
      not_false_eq_true, and_true]
    exact ⟨hnews, hx⟩

theorem announced_empty :
    Announced ∅ (Stage.empty W : Stage G T S V I E) := by
  constructor <;> simp [Stage.empty, Lives, pendingAfter]

/-- In a run in which only root groups fail, the events announce every node
before they use it and do not use it after they have completed it. -/
theorem Reachable.lives {work : Option (Work G T S)}
    {c : EventLoop G T S V I E}
    (h : Reachable W (protocolConditions G T S V) work c) :
    (nodes (WorkQueue.initialGroups V W work)
        (WorkQueue.initialStreams V W work)).Nodup ∧
      Lives { n | n ∈ nodes (WorkQueue.initialGroups V W work)
        (WorkQueue.initialStreams V W work) } c.batches.flatten := by
  obtain ⟨s₁, s, hs₁, hmoves, htracks⟩ := h.tracked
  have hstart := announced_empty.moves inv_empty hs₁.moves
  have hend := (hstart.initial hs₁.events).moves hs₁.inv hmoves
  rw [hs₁.news, hs₁.newStreams] at hend
  refine ⟨hs₁.news ▸ hs₁.newStreams ▸
    nodup_nodes hstart.news_nodup hstart.newStreams_nodup, ?_⟩
  have hevents := hend.lives
  set start := { n | n ∈ nodes (WorkQueue.initialGroups V W work)
    (WorkQueue.initialStreams V W work) }
  have hlives : Lives start c.events := by
    rw [htracks.events, lives_append]
    refine ⟨hevents, ?_⟩
    split
    · refine ⟨⟨fun n hn => (by cases hn), fun n hn => (by cases hn),
        List.nodup_nil⟩, trivial⟩
    · trivial
  rw [EventLoop.events, lives_append] at hlives
  exact hlives.1

/-- **Protocol.**  In a run in which only root groups fail, the payloads keep to
the protocol. -/
theorem reachable_protocol (a : Reporting G S K E R)
    {work : Option (Work G T S)}
    {c : EventLoop G T S (ExecutionGroupValue G K D R) (StreamItemValue D R) E}
    (h : Reachable W
      (protocolConditions G T S (ExecutionGroupValue G K D R)) work c) :
    Protocol (c.payloads W a work) :=
  payloads_protocol a h.lives.1 h.lives.2

/-- The child group is announced when its parent finishes, and fails. -/
def failingLoop : EventLoop ℕ ℕ ℕ (ExecutionGroupValue ℕ ℕ ℕ ℕ)
    (StreamItemValue ℕ ℕ) ℕ :=
  (((EventLoop.start nestedGraph (some nestedWork)).handle nestedGraph
    (.taskSuccess 0 { value := { deliveryGroups := [0], path := []
                                 data := 7 } })).handle nestedGraph
      (.taskFailure 1 0)).flush

def reporting : Reporting ℕ ℕ ℕ ℕ ℕ where
  groupPath := fun _ => []
  streamPath := fun _ => []
  ensureGraphqlError := id

theorem failingLoop_protocol :
    Protocol (failingLoop.payloads nestedGraph reporting (some nestedWork)) := by
  refine reachable_protocol reporting
    (.flush (.handle (.handle (.start ?_ ?_) _ ?_ ?_ ?_) _ ?_ ?_ ?_) ?_ ?_)
  · rintro w ⟨⟩
    constructor <;> simp [nestedWork, nestedGraph]
  · exact fun w _ => ⟨fun _ _ _ => trivial, fun _ _ => trivial⟩
  · decide +kernel
  · refine ⟨by decide +kernel, ?_⟩
    rintro w ⟨⟩
  · exact ⟨fun w hw => (by cases hw), fun _ => trivial, trivial⟩
  · decide +kernel
  · show 1 ∈ _
    decide +kernel
  · refine ⟨fun _ => ?_, trivial⟩
    show 1 ∈ _
    decide +kernel
  · decide +kernel
  · rfl

/-! ## A group that fails before it has been announced -/

/-- The shared task fails, and with it both its groups. -/
def leakingLoop : EventLoop ℕ ℕ ℕ (ExecutionGroupValue ℕ ℕ ℕ ℕ)
    (StreamItemValue ℕ ℕ) ℕ :=
  ((EventLoop.start prunedGraph (some prunedWork)).handle prunedGraph
    (.taskFailure 0 0)).flush

theorem leakingLoop_leaks :
    prunedGraph.NoAncestor ∧
      Reachable prunedGraph {} (some prunedWork) leakingLoop ∧
      "2" ∈ completedIds
        (leakingLoop.payloads prunedGraph reporting (some prunedWork)) ∧
      "2" ∉ pendingIds
        (leakingLoop.payloads prunedGraph reporting (some prunedWork)) := by
  refine ⟨prunedGraph_noAncestor, ?_, by decide +kernel, by decide +kernel⟩
  refine .flush (.handle (.start ?_ fun _ _ => workMeets_trivial _ _ _ _ _) _
    ?_ ?_ (meets_trivial _ _ _ _)) ?_ rfl
  · rintro w ⟨⟩
    constructor <;> simp [prunedWork, prunedGraph]
  · decide +kernel
  · show 0 ∈ _
    decide +kernel
  · decide +kernel

end GraphqlCore.Incremental
