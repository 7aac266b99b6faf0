import GraphqlCore.Incremental.Delivery

/-!
# Nothing is announced before the value it belongs to

The nested work of a task is integrated when the task succeeds, which is before
its value is delivered.  The groups and streams of the nested work are held
back until then, as long as they lie below the groups of the task and these
are not pruned while they hold its value.
-/

set_option linter.unusedSectionVars false

namespace GraphqlCore.Incremental

open WorkQueue

variable {G T S V I E : Type} [DecidableEq G] [DecidableEq T] [DecidableEq S]
  {W : WorkGraph G T} {C : Conditions G T S V}

/-! ## The conditions -/

/-- The group lies below a group of the task. -/
def WorkGraph.BelowTask (W : WorkGraph G T) (task : T) (g : G) : Prop :=
  ∃ g' ∈ W.groups task, Ancestor W.parent g' g

/-- Beyond the conditions for delivery: nested groups lie below the groups of
the task that returned them, and a task of such a group belongs to no other
part of the forest. -/
def causalityConditions (W : WorkGraph G T) (S V : Type) :
    Conditions G T S V where
  introduce := fun parentTask g => ∀ t, parentTask = some t → W.BelowTask t g
  join := fun failed origin roots kids t =>
    (deliveryConditions W S V).join failed origin roots kids t ∧
      ∀ g ∈ W.groups t, ∀ t', origin g = some t' →
        (∀ g' ∈ W.groups t', kids g' ≠ none ∨ Lost W.parent failed g') →
          ∀ g' ∈ W.groups t, Below kids roots g' →
            g' ∈ W.groups t' ∨ W.BelowTask t' g'
  finish := fun q group _ => q.PrunesClean group

structure Conditions.Implies (C D : Conditions G T S V) : Prop where
  introduce : ∀ {parentTask g}, C.introduce parentTask g →
    D.introduce parentTask g
  join : ∀ {failed origin roots kids t}, C.join failed origin roots kids t →
    D.join failed origin roots kids t
  finish : ∀ {q group rest}, C.finish q group rest → D.finish q group rest
  fail : ∀ {q group}, C.fail q group → D.fail q group

theorem Move.weaken {C D : Conditions G T S V} (hCD : C.Implies D)
    {s s' : Stage G T S V I E} (hmove : Move W C s s') : Move W D s s' := by
  cases hmove with
  | create parentTask group hfresh hlimbo hparent hfound hcond =>
      exact .create parentTask group hfresh hlimbo hparent hfound
        fun h => hCD.introduce (hcond h)
  | addTask task hfresh hgroups hlimbo hcond =>
      exact .addTask task hfresh hgroups hlimbo (hCD.join hcond)
  | addStreams parentTask streams hnodup hfresh =>
      exact .addStreams parentTask streams hnodup hfresh
  | prune hcurrent => exact .prune hcurrent
  | promote group rest hlimbo hexcused =>
      exact .promote group rest hlimbo hexcused
  | promoteStream stream rest hlimbo => exact .promoteStream stream rest hlimbo
  | settle task value hrunning hcurrent hlimbo hfound =>
      exact .settle task value hrunning hcurrent hlimbo hfound
  | countdown task group rest hcurrent hremaining hnot hexcused =>
      exact .countdown task group rest hcurrent hremaining hnot hexcused
  | finish task group rest n n' hcurrent hremaining hfinishes hexcused hnews
      hstreams hfound hn hn' hcond r hr =>
      exact .finish task group rest n n' hcurrent hremaining hfinishes hexcused
        hnews hstreams hfound hn hn' (hCD.finish hcond) r hr
  | settleEnd task hcurrent hremaining hlimbo =>
      exact .settleEnd task hcurrent hremaining hlimbo
  | failBegin task hrunning hcurrent hlimbo hfound =>
      exact .failBegin task hrunning hcurrent hlimbo hfound
  | fail group error halive hlimbo hfound hnews hcond r hr =>
      exact .fail group error halive hlimbo hfound hnews (hCD.fail hcond) r hr
  | failEnd task hcurrent hsettled hdead =>
      exact .failEnd task hcurrent hsettled hdead
  | streamValues stream values hroot hlimbo hstreams hfound hnew =>
      exact .streamValues stream values hroot hlimbo hstreams hfound hnew
  | streamStop stream hroot hstreams => exact .streamStop stream hroot hstreams
  | streamEnd stream hroot hstreams => exact .streamEnd stream hroot hstreams
  | streamExit stream hroot => exact .streamExit stream hroot
  | streamFail stream error hroot hstreams =>
      exact .streamFail stream error hroot hstreams

theorem causality_implies_delivery :
    (causalityConditions W S V).Implies (deliveryConditions W S V) :=
  ⟨fun _ => trivial, fun h => h.1, fun h => h, fun _ => trivial⟩

/-! ## Nested work -/

/-- Where the nested work of tasks is that have not been delivered. -/
structure Nested (W : WorkGraph G T) (s : Stage G T S V I E) : Prop where
  origin_task : ∀ g t, s.ledger.origin g = some t → t ∈ s.ledger.tasks
  below : ∀ g t, s.ledger.origin g = some t → t ∉ s.ledger.delivered →
    s.Attached g → W.BelowTask t g
  joined : ∀ t ∈ s.ledger.tasks, ∀ g ∈ W.groups t, ∀ t',
    s.ledger.origin g = some t' → t' ∉ s.ledger.delivered →
      ∀ g' ∈ W.groups t, s.Attached g' →
        g' ∈ W.groups t' ∨ W.BelowTask t' g'

theorem nested_empty : Nested W (Stage.empty W : Stage G T S V I E) :=
  ⟨by simp [Stage.empty], by simp [Stage.empty], by simp [Stage.empty]⟩

theorem Move.tasks_mono {s s' : Stage G T S V I E} (hmove : Move W C s s')
    {t : T} (ht : t ∈ s.ledger.tasks) : t ∈ s'.ledger.tasks := by
  cases hmove with
  | addTask => exact List.mem_append_left _ ht
  | _ => exact ht

/-- The origin of a group that has been introduced does not change. -/
theorem Move.origin_eq {s s' : Stage G T S V I E} (hmove : Move W C s s')
    {g : G} (hg : g ∈ s.ledger.groups) :
    s'.ledger.origin g = s.ledger.origin g := by
  cases hmove with
  | create parentTask group hfresh =>
      have hne : g ≠ group := fun heq => hfresh (heq ▸ hg)
      exact Function.update_of_ne hne _ _
  | _ => rfl

theorem Move.new_group {s s' : Stage G T S V I E} (hmove : Move W C s s')
    {g : G} (hg : g ∈ s'.ledger.groups) (hnew : g ∉ s.ledger.groups) :
    ∃ parentTask, s'.ledger.origin g = parentTask ∧
      parentTask = s.ledger.current ∧
      (parentTask ≠ none → s'.Attached g → C.introduce parentTask g) := by
  cases hmove with
  | create parentTask group hfresh hlimbo hparent hfound hcond =>
      obtain rfl : g = group := hg.resolve_right hnew
      refine ⟨parentTask, Function.update_self _ _ _, hparent, ?_⟩
      rintro hne ⟨-, hbelow⟩
      apply hcond
      have hroots := (createGroup_eq W parentTask
        (s.queue, s.found) g).2.1.rootGroups
      rw [hfound hne] at hroots
      simp only [Stage.tops, hroots, hlimbo, hfound hne, newRoots, hne,
        false_and, if_false, List.append_nil] at hbelow ⊢
      exact hbelow
  | _ => exact absurd hg hnew

namespace Nested

variable {s s' : Stage G T S V I E}

theorem move (h : Nested W s) (hheld : Held W s) (hinv : Inv W s)
    (hmove : Move W (causalityConditions W S V) s s') : Nested W s' := by
  have hinv' := hinv.move hmove
  have hfresh : ∀ g t, s'.ledger.origin g = some t → g ∉ s.ledger.groups →
      (g ∉ s'.ledger.groups ∧ s.ledger.origin g = some t) ∨
        (s.ledger.current = some t ∧ (s'.Attached g → W.BelowTask t g)) := by
    intro g t horigin hnew
    by_cases hg : g ∈ s'.ledger.groups
    · obtain ⟨parentTask, heq, hcurrent, hcond⟩ := hmove.new_group hg hnew
      obtain rfl := heq.symm.trans horigin
      exact Or.inr ⟨hcurrent.symm,
        fun hattached => hcond (by simp) hattached t rfl⟩
    · refine Or.inl ⟨hg, ?_⟩
      cases hmove with
      | create parentTask group =>
          have hne : g ≠ group := fun heq => hg (Or.inl heq)
          rw [← horigin]
          exact (Function.update_of_ne hne _ _).symm
      | _ => exact horigin
  refine ⟨?_, ?_, ?_⟩
  · intro g t horigin
    apply hmove.tasks_mono
    by_cases hg : g ∈ s.ledger.groups
    · exact h.origin_task g t (hmove.origin_eq hg ▸ horigin)
    · rcases hfresh g t horigin hg with ⟨-, hold⟩ | ⟨hcurrent, -⟩
      · exact h.origin_task g t hold
      · exact hinv.tasks.settled_task t (hinv.current_settled t hcurrent)
  · intro g t horigin hd hattached
    have hd' : t ∉ s.ledger.delivered := fun hmem =>
      hd (hmove.delivered_mono hmem)
    by_cases hg : g ∈ s.ledger.groups
    · have hold := (hinv.attached_cases hmove hattached).resolve_right
        (not_not.mpr hg)
      exact h.below g t (hmove.origin_eq hg ▸ horigin) hd' hold
    · rcases hfresh g t horigin hg with ⟨hnot, -⟩ | ⟨-, hbelow⟩
      · exact absurd (hinv'.alive_introduced hattached.1) hnot
      · exact hbelow hattached
  · intro t ht g hg t' horigin hd g' hg' hattached
    have hd' : t' ∉ s.ledger.delivered := fun hmem =>
      hd (hmove.delivered_mono hmem)
    by_cases hold : t ∈ s.ledger.tasks
    · have hin := hinv.tasks.task_groups t hold
      have hattached' := (hinv.attached_cases hmove hattached).resolve_right
        (not_not.mpr (hin g' hg'))
      exact h.joined t hold g hg t' (hmove.origin_eq (hin g hg) ▸ horigin) hd'
        g' hg' hattached'
    · obtain ⟨hlimbo, hgroups, ⟨-, hjoin⟩, rfl⟩ := hmove.new_task ht hold
      obtain ⟨hlive, hbelow⟩ := hattached
      have htask := h.origin_task g t' horigin
      refine hjoin g hg t' horigin ?_ g' hg' ?_
      · intro x hx
        by_cases hgone : s.queue.kids x = none
        · right
          by_contra hlost
          exact hd' (hheld.released t' htask x hx
            ⟨hinv.tasks.task_groups t' htask x hx, hgone, hlost⟩)
        · exact Or.inl hgone
      · rw [addTask_kids] at hbelow
        simpa [Stage.tops, hlimbo, addTask_rootGroups] using hbelow

/-- What can become a root belongs to a value that has been delivered. -/
theorem top_delivered (h : Nested W s) (hheld : Held W s) (hinv : Inv W s)
    {g : G} (hg : g ∈ s.tops) {t : T} (horigin : s.ledger.origin g = some t) :
    t ∈ s.ledger.delivered := by
  by_contra hd
  obtain ⟨g', hg', hanc⟩ := h.below g t horigin hd
    ⟨hinv.tops_alive hg, .start hg⟩
  have htop : g ∈ s.queue.rootGroups ∨ g ∈ s.limbo ++ s.found :=
    List.mem_append.mp hg
  exact hd (hheld.released t (h.origin_task g t horigin) g' hg'
    (hinv.forest.ancestor_released (htop.imp_right Or.inl) hanc))

end Nested

/-! ## The log of events -/

/-- The groups that an event announces. -/
def WorkQueueEvent.newGroups : WorkQueueEvent G S V I E → List G
  | .groupSuccess _ newGroups _ => newGroups
  | .streamValues _ _ newGroups _ => newGroups
  | _ => []

/-- The streams that an event announces or whose values it delivers. -/
def WorkQueueEvent.streams : WorkQueueEvent G S V I E → List S
  | .groupSuccess _ _ newStreams => newStreams
  | .streamValues stream _ _ newStreams => stream :: newStreams
  | _ => []

/-- What the events announce and deliver belongs to tasks whose values have
been sent. -/
structure CausalLog (W : WorkGraph G T) (h : History G T S V) (sent : List T)
    (events : List (WorkQueueEvent G S V I E)) : Prop where
  groups : ∀ e ∈ events, ∀ g ∈ e.newGroups, g ∈ h.groups ∧
    ∀ t, h.origin g = some t → t ∈ sent
  streams : ∀ e ∈ events, ∀ x ∈ e.streams, x ∈ h.streams ∧
    ∀ t, h.streamOrigin x = some t → t ∈ sent
  tasks : ∀ t ∈ sent, ∀ g ∈ W.groups t, g ∈ h.groups ∧
    ∀ t', h.origin g = some t' → t' ∈ sent

/-- The later history knows everything the earlier one does. -/
structure History.Extends (h h' : History G T S V) : Prop where
  groups : h.groups ⊆ h'.groups
  origin : ∀ g ∈ h.groups, h'.origin g = h.origin g
  streams : h.streams ⊆ h'.streams
  streamOrigin : ∀ x ∈ h.streams, h'.streamOrigin x = h.streamOrigin x

theorem Move.history_extends {s s' : Stage G T S V I E}
    (hmove : Move W C s s') :
    s.ledger.toHistory.Extends s'.ledger.toHistory := by
  refine ⟨?_, fun g hg => hmove.origin_eq hg, ?_, ?_⟩
  · intro g hg
    cases hmove with
    | create => exact Or.inr hg
    | _ => exact hg
  · intro x hx
    cases hmove with
    | addStreams => exact Or.inl hx
    | _ => exact hx
  · intro x hx
    cases hmove with
    | addStreams parentTask streams hnodup hfresh =>
        have hnot : x ∉ streams := fun hmem => hfresh x hmem hx
        simp [hnot]
    | _ => rfl

theorem CausalLog.mono {h h' : History G T S V} {sent sent' : List T}
    {events : List (WorkQueueEvent G S V I E)}
    (hlog : CausalLog W h sent events) (hext : h.Extends h')
    (hsent : ∀ t ∈ sent, t ∈ sent')
    (htasks : ∀ t ∈ sent', t ∈ sent ∨ ∀ g ∈ W.groups t, g ∈ h'.groups ∧
      ∀ t', h'.origin g = some t' → t' ∈ sent') :
    CausalLog W h' sent' events where
  groups := by
    intro e he g hg
    obtain ⟨hin, horigin⟩ := hlog.groups e he g hg
    refine ⟨hext.groups hin, fun t ht => hsent t (horigin t ?_)⟩
    rw [← hext.origin g hin, ht]
  streams := by
    intro e he x hx
    obtain ⟨hin, horigin⟩ := hlog.streams e he x hx
    refine ⟨hext.streams hin, fun t ht => hsent t (horigin t ?_)⟩
    rw [← hext.streamOrigin x hin, ht]
  tasks := by
    intro t ht g hg
    rcases htasks t ht with hold | hnew
    · obtain ⟨hin, horigin⟩ := hlog.tasks t hold g hg
      refine ⟨hext.groups hin, fun t' ht' => hsent t' (horigin t' ?_)⟩
      rw [← hext.origin g hin, ht']
    · exact hnew g hg

/-- The prefix of the delivered tasks whose values are in the events. -/
def sentTasks (delivered : List T) (events : List (WorkQueueEvent G S V I E)) :
    List T :=
  delivered.take (deliveredValues events).length

/-- At every point the events so far were causal, and what the next event of a
stream announces belongs to values that have been delivered. -/
structure Logged (W : WorkGraph G T) (s : Stage G T S V I E) : Prop where
  log : ∀ pre, pre <+: s.events →
    CausalLog W s.ledger.toHistory (sentTasks s.ledger.delivered pre) pre
  news : ∀ g ∈ s.news, g ∈ s.ledger.groups ∧
    ∀ t, s.ledger.origin g = some t → t ∈ s.ledger.delivered
  newStreams : ∀ x ∈ s.newStreams, x ∈ s.ledger.streams ∧
    ∀ t, s.ledger.streamOrigin x = some t → t ∈ s.ledger.delivered

theorem logged_empty : Logged W (Stage.empty W : Stage G T S V I E) := by
  refine ⟨?_, by simp [Stage.empty], by simp [Stage.empty]⟩
  intro pre hpre
  obtain rfl := List.prefix_nil.mp hpre
  exact ⟨by simp, by simp, by simp [Stage.empty, sentTasks]⟩

theorem Inv.length_deliveredValues {s : Stage G T S V I E} (h : Inv W s) :
    (deliveredValues s.events).length = s.ledger.delivered.length := by
  rw [h.values, List.filterMap_length_eq_length]
  intro t ht
  obtain ⟨v, hv⟩ := h.delivered_result t ht
  simp [hv]

theorem Inv.sentTasks_events {s : Stage G T S V I E} (h : Inv W s) :
    sentTasks s.ledger.delivered s.events = s.ledger.delivered := by
  rw [sentTasks, h.length_deliveredValues, List.take_length]

namespace Logged

variable {s s' : Stage G T S V I E}

/-- A move that appends events delivers its values with the first of them. -/
theorem append (h : Logged W s) (hinv : Inv W s) (hmove : Move W C s s')
    (new : List (WorkQueueEvent G S V I E)) (tasks : List T)
    (hevents : s'.events = s.events ++ new)
    (hdelivered : s'.ledger.delivered = s.ledger.delivered ++ tasks)
    (hfirst : ∀ e rest, new = e :: rest → deliveredValues rest = [])
    (hgroups : ∀ e ∈ new, ∀ g ∈ e.newGroups, g ∈ s'.ledger.groups ∧
      ∀ t, s'.ledger.origin g = some t → t ∈ s'.ledger.delivered)
    (hstreams : ∀ e ∈ new, ∀ x ∈ e.streams, x ∈ s'.ledger.streams ∧
      ∀ t, s'.ledger.streamOrigin x = some t → t ∈ s'.ledger.delivered)
    (htasks : ∀ t ∈ tasks, ∀ g ∈ W.groups t, g ∈ s'.ledger.groups ∧
      ∀ t', s'.ledger.origin g = some t' → t' ∈ s'.ledger.delivered) :
    ∀ pre, pre <+: s'.events → CausalLog W s'.ledger.toHistory
      (sentTasks s'.ledger.delivered pre) pre := by
  have hext := hmove.history_extends
  intro pre hpre
  rw [hevents] at hpre
  rcases List.prefix_or_prefix_of_prefix hpre (List.prefix_append s.events new)
    with hold | hold
  · -- The events before the move.
    have hsent : sentTasks s'.ledger.delivered pre =
        sentTasks s.ledger.delivered pre := by
      rw [sentTasks, hdelivered, List.take_append_of_le_length]
      · rfl
      · rw [← hinv.length_deliveredValues]
        obtain ⟨post, hpost⟩ := hold
        rw [← hpost, deliveredValues_append, List.length_append]
        exact Nat.le_add_right _ _
    rw [hsent]
    exact (h.log pre hold).mono hext (fun t ht => ht) fun t ht => Or.inl ht
  · obtain ⟨part, rfl⟩ := hold
    rw [List.prefix_append_right_inj] at hpre
    have hfull := h.log s.events (List.prefix_refl _)
    rw [hinv.sentTasks_events] at hfull
    cases part with
    | nil =>
        rw [List.append_nil]
        have hsent : sentTasks s'.ledger.delivered s.events =
            s.ledger.delivered := by
          rw [sentTasks, hdelivered, hinv.length_deliveredValues,
            List.take_left]
        rw [hsent]
        exact hfull.mono hext (fun t ht => ht) fun t ht => Or.inl ht
    | cons e part =>
        -- With the first new event all new values have been sent.
        obtain ⟨post, rfl⟩ := hpre
        have hnil := hfirst e (part ++ post) rfl
        rw [deliveredValues_append, List.append_eq_nil_iff] at hnil
        have hsent : sentTasks s'.ledger.delivered (s.events ++ e :: part) =
            s'.ledger.delivered := by
          have hsame : deliveredValues (s.events ++ e :: part) =
              deliveredValues s'.events := by
            rw [hevents]
            simp only [deliveredValues] at hnil ⊢
            simp only [List.cons_append, List.flatMap_cons,
              List.flatMap_append, hnil, List.append_nil]
          rw [sentTasks, hsame, (hinv.move hmove).length_deliveredValues,
            List.take_length]
        have hmono : CausalLog W s'.ledger.toHistory s'.ledger.delivered
            s.events := by
          refine hfull.mono hext (fun t ht => hmove.delivered_mono ht) ?_
          intro t ht
          rw [hdelivered] at ht
          exact (List.mem_append.mp ht).imp_right (htasks t)
        have hpart : ∀ e' ∈ e :: part, e' ∈ e :: part ++ post :=
          fun e' he' => List.mem_append_left _ he'
        rw [hsent]
        refine ⟨?_, ?_, hmono.tasks⟩
        · intro e' he'
          rcases List.mem_append.mp he' with he' | he'
          · exact hmono.groups e' he'
          · exact hgroups e' (hpart e' he')
        · intro e' he'
          rcases List.mem_append.mp he' with he' | he'
          · exact hmono.streams e' he'
          · exact hstreams e' (hpart e' he')

theorem keep (h : Logged W s) (hinv : Inv W s) (hmove : Move W C s s')
    (hevents : s'.events = s.events)
    (hdelivered : s'.ledger.delivered = s.ledger.delivered) :
    ∀ pre, pre <+: s'.events → CausalLog W s'.ledger.toHistory
      (sentTasks s'.ledger.delivered pre) pre :=
  h.append hinv hmove [] [] (by simp [hevents])
    (by simp [hdelivered]) (by simp) (by simp) (by simp) (by simp)

/-- An event that delivers and announces nothing. -/
theorem quiet (h : Logged W s) (hinv : Inv W s) (hmove : Move W C s s')
    (e : WorkQueueEvent G S V I E) (hevents : s'.events = s.events ++ [e])
    (hdelivered : s'.ledger.delivered = s.ledger.delivered)
    (hgroups : e.newGroups = []) (hstreams : e.streams = []) :
    ∀ pre, pre <+: s'.events → CausalLog W s'.ledger.toHistory
      (sentTasks s'.ledger.delivered pre) pre :=
  h.append hinv hmove [e] [] hevents (by simp [hdelivered])
    (by simp) (by simp [hgroups]) (by simp [hstreams]) (by simp)

theorem news_move (h : Logged W s) (hmove : Move W C s s') :
    ∀ g ∈ s.news, g ∈ s'.ledger.groups ∧
      ∀ t, s'.ledger.origin g = some t → t ∈ s'.ledger.delivered := by
  intro g hg
  obtain ⟨hin, horigin⟩ := h.news g hg
  refine ⟨hmove.history_extends.groups hin, fun t ht => ?_⟩
  rw [hmove.history_extends.origin g hin] at ht
  exact hmove.delivered_mono (horigin t ht)

theorem newStreams_move (h : Logged W s) (hmove : Move W C s s') :
    ∀ x ∈ s.newStreams, x ∈ s'.ledger.streams ∧
      ∀ t, s'.ledger.streamOrigin x = some t → t ∈ s'.ledger.delivered := by
  intro x hx
  obtain ⟨hin, horigin⟩ := h.newStreams x hx
  refine ⟨hmove.history_extends.streams hin, fun t ht => ?_⟩
  rw [hmove.history_extends.streamOrigin x hin] at ht
  exact hmove.delivered_mono (horigin t ht)

theorem move (h : Logged W s) (hnested : Nested W s) (hheld : Held W s)
    (hinv : Inv W s) (hmove : Move W (causalityConditions W S V) s s') :
    Logged W s' := by
  have hinv' := hinv.move hmove
  have hheld' := hheld.move hinv (hmove.weaken causality_implies_delivery)
  have hnested' := hnested.move hheld hinv hmove
  have hnews := h.news_move hmove
  have hnewStreams := h.newStreams_move hmove
  have htop : ∀ g ∈ s'.tops, g ∈ s'.ledger.groups ∧
      ∀ t, s'.ledger.origin g = some t → t ∈ s'.ledger.delivered :=
    fun g hg => ⟨hinv'.alive_introduced (hinv'.tops_alive hg),
      fun t ht => hnested'.top_delivered hheld' hinv' hg ht⟩
  have hstream : ∀ x, x ∈ s'.limboStreams ∨ x ∈ s'.ledger.startedStreams →
      x ∈ s'.ledger.streams ∧
        ∀ t, s'.ledger.streamOrigin x = some t → t ∈ s'.ledger.delivered :=
    hinv'.streams.released
  have hkeep := h.keep hinv hmove
  have hquiet := h.quiet hinv hmove
  have happend := h.append hinv hmove
  cases hmove with
  | prune =>
      refine ⟨hkeep rfl rfl, ?_, hnewStreams⟩
      intro g hg
      rcases List.mem_append.mp hg with hg | hg
      · exact hnews g hg
      · exact htop g (by simp [Stage.tops, hg])
  | addStreams parentTask streams =>
      refine ⟨hkeep rfl rfl, hnews, ?_⟩
      intro x hx
      rcases List.mem_append.mp hx with hx | hx
      · exact hnewStreams x hx
      · exact hstream x (Or.inl (List.mem_append_right _ hx))
  | finish task group rest n n' hcurrent hremaining hfinishes hexcused hnews'
      hstreams hfound hn hn' hcond r hr =>
      have hmembers : s.queue.members group = some n.tasks := by
        simp [members, hn]
      obtain ⟨-, -, -, hevents⟩ :=
        finishGroupSuccess_finished (I := I) (E := E) W s.queue group n n'
          (by rw [hn']) (by rw [hn'])
          (hinv.tasks.members_nodup group _ hmembers)
      rw [← hr] at hevents
      have hcases : ∀ e ∈ r.2.events,
          e = .groupSuccess group r.2.newGroups r.2.newStreams ∨
            (e.newGroups = [] ∧ e.streams = []) := by
        intro e he
        rw [hevents] at he
        rcases List.mem_append.mp he with he | he
        · split at he
          · cases he
          · rw [List.mem_singleton.mp he]
            exact Or.inr ⟨rfl, rfl⟩
        · exact Or.inl (List.mem_singleton.mp he)
      refine ⟨happend r.2.events n.tasks rfl rfl ?_ ?_ ?_ ?_, hnews,
        hnewStreams⟩
      · intro e tail heq
        rw [hevents] at heq
        split at heq
        · obtain ⟨-, rfl⟩ := List.cons_eq_cons.mp heq
          rfl
        · obtain ⟨-, rfl⟩ := List.cons_eq_cons.mp heq
          rfl
      · intro e he g hg
        rcases hcases e he with rfl | ⟨hnil, -⟩
        · refine htop g ?_
          have hmem : g ∈ r.2.newGroups := hg
          simp [Stage.tops, hmem]
        · rw [hnil] at hg
          cases hg
      · intro e he x hx
        rcases hcases e he with rfl | ⟨-, hnil⟩
        · exact hstream x (Or.inl (List.mem_append_right _ hx))
        · rw [hnil] at hx
          cases hx
      · intro t ht g hg
        obtain ⟨htask, hgt, hd⟩ :=
          (hinv.tasks.member group _ hmembers t).mp ht
        refine ⟨hinv.tasks.task_groups t htask g hg, ?_⟩
        intro t' horigin
        by_cases hd' : t' ∈ s.ledger.delivered
        · exact List.mem_append_left _ hd'
        have hroot : s.Attached group := by
          refine ⟨hinv.root_alive hfinishes.1, .start ?_⟩
          exact List.mem_append_left _ hfinishes.1
        have htask' := hnested.origin_task g t' horigin
        rcases hnested.joined t htask g hg t' horigin hd' group hgt hroot with
          hgroup | ⟨g', hg', hanc⟩
        · exact List.mem_append_right _
            ((hinv.tasks.member group _ hmembers t').mpr
              ⟨htask', hgroup, hd'⟩)
        · -- A group of the task has been released, and its value delivered.
          exact absurd (hheld.released t' htask' g' hg'
            (hinv.forest.ancestor_released (Or.inl hfinishes.1) hanc)) hd'
  | fail group error halive hlimbo hfound hnews' hcond r hr =>
      have hnil : r.2.newGroups = [] ∧ r.2.streams = [] := by
        rw [hr]
        exact ⟨rfl, rfl⟩
      exact ⟨hquiet r.2 rfl rfl hnil.1 hnil.2, hnews, hnewStreams⟩
  | streamValues stream values hroot =>
      refine ⟨happend [.streamValues stream values s.news s.newStreams] [] rfl
        (List.append_nil _).symm ?_ ?_ ?_ (by simp), by simp, by simp⟩
      · intro e tail heq
        obtain ⟨-, rfl⟩ := List.cons_eq_cons.mp heq
        rfl
      · intro e he
        obtain rfl := List.mem_singleton.mp he
        exact hnews
      · intro e he x hx
        obtain rfl := List.mem_singleton.mp he
        rcases List.mem_cons.mp hx with rfl | hx
        · exact hstream x (Or.inr (hinv.streams.pump_started x
            ((hinv.streams.root_iff x).mp hroot).1))
        · exact hnewStreams x hx
  | streamStop stream => exact ⟨hquiet _ rfl rfl rfl rfl, hnews, hnewStreams⟩
  | streamEnd stream => exact ⟨hquiet _ rfl rfl rfl rfl, hnews, hnewStreams⟩
  | streamFail stream error =>
      exact ⟨hquiet _ rfl rfl rfl rfl, hnews, hnewStreams⟩
  | _ => exact ⟨hkeep rfl rfl, hnews, hnewStreams⟩

end Logged

/-! ## Runs -/

theorem Moves.history_extends {s s' : Stage G T S V I E}
    (hmoves : Moves W C s s') :
    s.ledger.toHistory.Extends s'.ledger.toHistory := by
  induction hmoves with
  | refl =>
      exact ⟨fun _ hg => hg, fun _ _ => rfl, fun _ hx => hx, fun _ _ => rfl⟩
  | tail _ hmove ih =>
      have hstep := hmove.history_extends
      exact
        { groups := fun _ hg => hstep.groups (ih.groups hg)
          origin := fun g hg =>
            (hstep.origin g (ih.groups hg)).trans (ih.origin g hg)
          streams := fun _ hx => hstep.streams (ih.streams hx)
          streamOrigin := fun x hx =>
            (hstep.streamOrigin x (ih.streams hx)).trans
              (ih.streamOrigin x hx) }

/-- The initial result announces no nested work, and in the payloads up to any
point everything announced and every value belongs to work whose task has its
value in these payloads. -/
structure EventLoop.Causal (W : WorkGraph G T) (work : Option (Work G T S))
    (c : EventLoop G T S V I E) : Prop where
  initialGroups : ∀ g ∈ WorkQueue.initialGroups V W work,
    c.history.origin g = none
  initialStreams : ∀ x ∈ WorkQueue.initialStreams V W work,
    c.history.streamOrigin x = none
  payloads : ∃ tasks : List T, tasks.Nodup ∧
    (∀ t ∈ tasks, (c.history.results t).isSome) ∧
    deliveredValues c.events = tasks.filterMap c.history.results ∧
    ∀ payloads, payloads <+: c.batches →
      CausalLog W c.history (sentTasks tasks payloads.flatten) payloads.flatten

/-- Up to its termination event the loop has emitted the events of the
stage. -/
theorem Tracks.causalLog {c : EventLoop G T S V I E} {s : Stage G T S V I E}
    (htracks : Tracks c s) (hlogged : Logged W s)
    {pre : List (WorkQueueEvent G S V I E)} (hpre : pre <+: c.events) :
    CausalLog W c.history (sentTasks s.ledger.delivered pre) pre := by
  rw [← htracks.history]
  rw [htracks.events] at hpre
  rcases List.prefix_or_prefix_of_prefix hpre (List.prefix_append s.events _)
    with hold | ⟨part, rfl⟩
  · exact hlogged.log pre hold
  · rw [List.prefix_append_right_inj] at hpre
    have hpart : ∀ e ∈ part, e = .termination := by
      intro e he
      have hmem := hpre.subset he
      split at hmem
      · exact List.mem_singleton.mp hmem
      · cases hmem
    have hnil : deliveredValues part = [] := by
      rw [deliveredValues, List.flatMap_eq_nil_iff]
      intro e he
      rw [hpart e he]
      rfl
    have hfull := hlogged.log s.events (List.prefix_refl _)
    have hsent : sentTasks s.ledger.delivered (s.events ++ part) =
        sentTasks s.ledger.delivered s.events := by
      rw [sentTasks, deliveredValues_append, hnil, List.append_nil]
      rfl
    rw [hsent]
    refine ⟨?_, ?_, hfull.tasks⟩
    · intro e he
      rcases List.mem_append.mp he with he | he
      · exact hfull.groups e he
      · rw [hpart e he]
        exact fun g hg => by cases hg
    · intro e he
      rcases List.mem_append.mp he with he | he
      · exact hfull.streams e he
      · rw [hpart e he]
        exact fun x hx => by cases hx

/-- **Causality.**  In a run in which nested work stays below the groups of the
task that returned it and no group is pruned that holds an undelivered value,
nothing is announced or delivered before the value it is nested in. -/
theorem reachable_causal {work : Option (Work G T S)}
    {c : EventLoop G T S V I E}
    (h : Reachable W (causalityConditions W S V) work c) :
    c.Causal W work := by
  obtain ⟨s₁, s, hs₁, ⟨-, -, hlogged₁⟩, hmoves, hinv, ⟨-, -, hlogged⟩,
    htracks⟩ := h.stages
      (P := fun s => Held W s ∧ Nested W s ∧ Logged W s)
      ⟨held_empty, nested_empty, logged_empty⟩
      (fun s s' hinv ⟨hheld, hnested, hlogged⟩ hmove =>
        ⟨hheld.move hinv (hmove.weaken causality_implies_delivery),
          hnested.move hheld hinv hmove,
          hlogged.move hnested hheld hinv hmove⟩)
      (fun s ⟨hheld, hnested, hlogged⟩ =>
        ⟨⟨hheld.released, hheld.delivered, hheld.attached, hheld.fresh⟩,
          ⟨hnested.origin_task, hnested.below, hnested.joined⟩,
          ⟨hlogged.log, by simp, by simp⟩⟩)
  have hext := Moves.history_extends hmoves
  obtain ⟨hresults, hvalues⟩ := htracks.values hinv
  refine ⟨?_, ?_, s.ledger.delivered, hinv.tasks.delivered_nodup, hresults,
    hvalues, ?_⟩
  · intro g hg
    have hin := (hlogged₁.news g (hs₁.news ▸ hg)).1
    rw [← htracks.history, hext.origin g hin]
    change s₁.ledger.origin g = none
    rw [hs₁.history]
    cases work <;> simp [History.addWork]
  · intro x hx
    have hin := (hlogged₁.newStreams x (hs₁.newStreams ▸ hx)).1
    rw [← htracks.history, hext.streamOrigin x hin]
    change s₁.ledger.streamOrigin x = none
    rw [hs₁.history]
    cases work <;> simp [History.addWork]
  · intro payloads hpayloads
    refine htracks.causalLog hlogged ?_
    obtain ⟨rest, hrest⟩ := hpayloads
    refine ⟨rest.flatten ++ c.batch, ?_⟩
    rw [EventLoop.events, ← hrest, List.flatten_append, List.append_assoc]

def parentWork : Work ℕ ℕ ℕ := { groups := [0], tasks := [0] }

def childWork : Work ℕ ℕ ℕ := { groups := [1], tasks := [1] }

/-- The task of the group `0` succeeds with the group `1` below it. -/
def childLoop : EventLoop ℕ ℕ ℕ ℕ ℕ ℕ :=
  ((EventLoop.start nestedGraph (some parentWork)).handle nestedGraph
    (.taskSuccess 0 { value := 7, work := some childWork })).flush

theorem childLoop_causal : childLoop.Causal nestedGraph (some parentWork) := by
  refine reachable_causal (.flush (.handle (.start ?_ ?_) _ ?_ ?_ ?_) ?_ ?_)
  · rintro w ⟨⟩
    constructor <;> simp [parentWork, nestedGraph]
  · rintro w ⟨⟩
    refine ⟨fun _ _ _ t ht => (by cases ht), fun t ht => ⟨?_, ?_⟩⟩
    · intro g hg
      obtain rfl := List.mem_singleton.mp hg
      obtain rfl := List.mem_singleton.mp ht
      exact Or.inl (.start (List.mem_singleton_self 0))
    · intro g _ t' horigin
      simp [History.addWork] at horigin
  · decide +kernel
  · refine ⟨by decide +kernel, ?_⟩
    rintro w ⟨⟩
    constructor <;> simp [parentWork, childWork, nestedGraph, EventLoop.start,
      History.addWork]
  · refine ⟨?_, fun _ => ?_, trivial⟩
    · rintro w ⟨⟩
      have hbelow : nestedGraph.BelowTask 0 1 :=
        ⟨0, List.mem_singleton_self 0, .parent rfl⟩
      refine ⟨?_, fun t ht => ⟨?_, ?_⟩⟩
      · rintro g hg - t ⟨⟩
        obtain rfl := List.mem_singleton.mp hg
        exact hbelow
      · intro g hg
        obtain rfl := List.mem_singleton.mp hg
        obtain rfl := List.mem_singleton.mp ht
        exact Or.inl (.kid (.start (by decide +kernel : 0 ∈ _))
          (by decide +kernel : _ = some [1]) (List.mem_singleton_self 1))
      · intro g hg t' horigin _ g' hg' _
        obtain rfl := List.mem_singleton.mp hg
        obtain rfl := List.mem_singleton.mp ht
        obtain rfl := List.mem_singleton.mp hg'
        simp [History.addWork, childWork] at horigin
        exact Or.inr (horigin ▸ hbelow)
    · intro children hkids g hg
      obtain rfl : children = [1] :=
        Option.some.inj (hkids.symm.trans (by decide +kernel))
      obtain ⟨x, hx, hzero⟩ := hg.exists_start
      obtain rfl := List.mem_singleton.mp hx
      have hone : some (0 : ℤ) = some 1 :=
        hzero.symm.trans (by decide +kernel)
      exact absurd hone (by decide)
  · decide +kernel
  · rfl

/-! ## A nested group that is announced too early -/

/-- The group `2` below the group `1`, the group `3` below the group `2`, and a
task that belongs to the groups `0` and `2`. -/
def earlyGraph : WorkGraph ℕ ℕ where
  parent := fun g => if g = 2 then some 1 else if g = 3 then some 2 else none
  groups := fun t => if t = 0 then [0, 2] else if t = 1 then [1]
    else if t = 2 then [0] else [3]

def earlyWork : Work ℕ ℕ ℕ := { groups := [3], tasks := [3] }

/-- The shared task succeeds with a nested group, and the group `1`
finishes. -/
def earlyLoop : EventLoop ℕ ℕ ℕ ℕ ℕ ℕ :=
  (((EventLoop.start earlyGraph (some prunedWork)).handle earlyGraph
    (.taskSuccess 0 { value := 10, work := some earlyWork })).handle earlyGraph
      (.taskSuccess 1 { value := 11 })).flush

theorem earlyGraph_noAncestor : earlyGraph.NoAncestor := by
  have hparent : ∀ g p, earlyGraph.parent g = some p →
      (g = 2 ∧ p = 1) ∨ (g = 3 ∧ p = 2) := by
    intro g p hp
    simp only [earlyGraph] at hp
    split at hp
    · next h => exact Or.inl ⟨h, (Option.some.inj hp).symm⟩
    · split at hp
      · next h => exact Or.inr ⟨h, (Option.some.inj hp).symm⟩
      · cases hp
  have hancestor : ∀ a g, Ancestor earlyGraph.parent a g →
      (a = 1 ∧ (g = 2 ∨ g = 3)) ∨ (a = 2 ∧ g = 3) := by
    intro a g hanc
    induction hanc with
    | parent hp =>
        have := hparent _ _ hp
        omega
    | step hp _ ih =>
        have := hparent _ _ hp
        omega
  intro t g hg g' hg' hanc
  have := hancestor g g' hanc
  simp only [earlyGraph] at hg hg'
  split_ifs at hg hg' <;> simp at hg hg' <;> omega

theorem earlyLoop_announces :
    earlyGraph.NoAncestor ∧
      Reachable earlyGraph {} (some prunedWork) earlyLoop ∧
      (∃ event ∈ earlyLoop.batches.flatten, 3 ∈ event.newGroups) ∧
      earlyLoop.history.origin 3 = some 0 ∧
      earlyLoop.history.results 0 = some 10 ∧
      10 ∉ deliveredValues earlyLoop.batches.flatten := by
  refine ⟨earlyGraph_noAncestor, ?_, ?_, by decide +kernel, by decide +kernel,
    by decide +kernel⟩
  · refine .flush (.handle (.handle (.start ?_ fun _ _ =>
      workMeets_trivial _ _ _ _ _) _ ?_ ?_ (meets_trivial _ _ _ _)) _ ?_ ?_
      (meets_trivial _ _ _ _)) ?_ ?_
    · rintro w ⟨⟩
      constructor <;> simp [prunedWork, earlyGraph]
    · decide +kernel
    · refine ⟨by decide +kernel, ?_⟩
      rintro w ⟨⟩
      constructor <;> simp [prunedWork, earlyWork, earlyGraph, EventLoop.start,
        History.addWork]
    · decide +kernel
    · refine ⟨by decide +kernel, ?_⟩
      rintro w ⟨⟩
    · decide +kernel
    · decide +kernel
  · exact ⟨.groupSuccess 1 [3] [], by decide +kernel, by decide⟩

end GraphqlCore.Incremental
