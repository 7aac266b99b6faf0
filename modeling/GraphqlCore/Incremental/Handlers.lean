import GraphqlCore.Incremental.Invariant
import GraphqlCore.Incremental.Runs

/-!
# Handlers are sequences of moves

Every handler of the work queue, and its start, leads from an idle stage to an
idle stage through moves that meet the conditions met along the handler.
-/

set_option linter.unusedSectionVars false

namespace GraphqlCore.Incremental

open WorkQueue

variable {G T S V I E : Type} [DecidableEq G] [DecidableEq T] [DecidableEq S]

/-- No handler is running. -/
structure Stage.Idle (s : Stage G T S V I E) : Prop where
  found : s.found = []
  limbo : s.limbo = []
  limboStreams : s.limboStreams = []
  news : s.news = []
  newStreams : s.newStreams = []
  current : s.ledger.current = none
  excused : s.ledger.excused = ∅

variable {W : WorkGraph G T} {C : Conditions G T S V}

/-! ## Integrating work -/

/-- The ledger after the groups in `order` have been introduced. -/
def Ledger.addGroups (γ : Ledger G T S V) (parentTask : Option T)
    (order : List G) : Ledger G T S V :=
  { γ with
    groups := γ.groups ∪ { g | g ∈ order }
    origin := fun g => if g ∈ order then parentTask else γ.origin g }

theorem Ledger.addGroups_nil (γ : Ledger G T S V) (parentTask : Option T) :
    γ.addGroups parentTask [] = γ := by
  simp [Ledger.addGroups]

theorem Ledger.addGroups_cons (γ : Ledger G T S V) (parentTask : Option T)
    (group : G) (rest : List G) :
    Ledger.addGroups
        { γ with
          groups := insert group γ.groups
          origin := Function.update γ.origin group parentTask }
        parentTask rest =
      γ.addGroups parentTask (group :: rest) := by
  simp only [Ledger.addGroups]
  congr 2
  · ext g
    simp only [Set.mem_union, Set.mem_insert_iff, Set.mem_ofPred_eq,
      List.mem_cons]
    tauto
  · funext g
    by_cases hg : g = group
    · simp [hg]
    · simp [hg, Function.update_of_ne]

theorem Ledger.addGroups_congr (γ : Ledger G T S V) (parentTask : Option T)
    {order order' : List G} (h : ∀ g, g ∈ order ↔ g ∈ order') :
    γ.addGroups parentTask order = γ.addGroups parentTask order' := by
  simp only [Ledger.addGroups, h]

/-- Creating groups only adds children, apart from the groups created. -/
theorem foldl_createGroup_kids (parentTask : Option T) (order : List G)
    (st : WorkQueue G T S V × List G) {g : G} {cs : List G}
    (hg : g ∉ order) (hcs : st.1.kids g = some cs) :
    ∃ cs', (order.foldl (createGroup W parentTask) st).1.kids g = some cs' ∧
      ∀ c ∈ cs, c ∈ cs' := by
  induction order generalizing st cs with
  | nil => exact ⟨cs, hcs, fun c hc => hc⟩
  | cons group rest ih =>
      rw [List.mem_cons, not_or] at hg
      have hkids := createGroup_kids W parentTask st group g
      rw [if_neg hg.1, hcs, Option.map_some] at hkids
      obtain ⟨cs', hcs', hsub⟩ := ih (createGroup W parentTask st group) hg.2
        hkids
      refine ⟨cs', hcs', fun c hc => hsub c ?_⟩
      split
      · exact List.mem_append_left _ hc
      · exact hc

theorem foldl_createGroup_roots (parentTask : Option T) (order : List G)
    (st : WorkQueue G T S V × List G) :
    (order.foldl (createGroup W parentTask) st).1.rootGroups =
      st.1.rootGroups := by
  induction order generalizing st with
  | nil => rfl
  | cons group rest ih =>
      rw [List.foldl_cons, ih]
      exact (createGroup_eq W parentTask st group).2.1.rootGroups

/-- Creating groups one after the other. -/
theorem createGroups_moves (parentTask : Option T) {order : List G}
    {s : Stage G T S V I E} (hinv : Inv W s) (hnodup : order.Nodup)
    (hfresh : ∀ g ∈ order, g ∉ s.ledger.groups) (hlimbo : s.limbo = [])
    (hparent : parentTask = s.ledger.current)
    (hfound : parentTask ≠ none → s.found = [])
    (hcond : ∀ g ∈ order,
      Below (order.foldl (createGroup W parentTask) (s.queue, s.found)).1.kids
        s.queue.rootGroups g → C.introduce parentTask g) :
    Moves W C s
      { s with
        queue :=
          (order.foldl (createGroup W parentTask) (s.queue, s.found)).1
        found :=
          (order.foldl (createGroup W parentTask) (s.queue, s.found)).2
        ledger := s.ledger.addGroups parentTask order } := by
  induction order generalizing s with
  | nil =>
      rw [Ledger.addGroups_nil]
      exact .refl
  | cons group rest ih =>
      rw [List.nodup_cons] at hnodup
      have hsnd := (createGroup_eq W parentTask (s.queue, s.found) group).1
      have hroots := (createGroup_eq W parentTask
        (s.queue, s.found) group).2.1.rootGroups
      have hpair : createGroup W parentTask (s.queue, s.found) group =
          ((createGroup W parentTask (s.queue, s.found) group).1,
            s.found ++ newRoots W parentTask group) := by
        rw [← hsnd]
      have hgroup := hfresh group List.mem_cons_self
      -- What lies below a root now still does when all groups are created.
      have hbelow : ∀ g, Below
          (createGroup W parentTask (s.queue, s.found) group).1.kids
            s.queue.rootGroups g →
          Below ((group :: rest).foldl (createGroup W parentTask)
            (s.queue, s.found)).1.kids s.queue.rootGroups g := by
        intro g hg
        induction hg with
        | start hmem => exact .start hmem
        | @kid p c children _ hk hc ihp =>
            have hp : p ∉ rest := by
              intro hmem
              have hdead : s.queue.kids p = none := by
                rw [kids_eq_none_iff]
                exact fun hlive => hfresh p (List.mem_cons_of_mem _ hmem)
                  (hinv.alive_introduced hlive)
              rw [createGroup_kids] at hk
              have hne : p ≠ group := fun heq => hnodup.1 (heq ▸ hmem)
              simp [hne, hdead] at hk
            obtain ⟨cs', hcs', hsub⟩ := foldl_createGroup_kids (W := W)
              parentTask rest _ hp hk
            exact .kid ihp hcs' (hsub c hc)
      have hmove : Move W C s _ := .create parentTask group hgroup hlimbo
        hparent hfound
        fun hb => hcond group List.mem_cons_self (hbelow group hb)
      refine .head hmove ?_
      have hrec := ih (s := _) (hinv.move hmove) hnodup.2 ?_ hlimbo hparent ?_
        ?_
      · simp only [List.foldl_cons]
        rw [Ledger.addGroups_cons, ← hpair] at hrec
        exact hrec
      · rintro g hg (rfl | hmem)
        · exact hnodup.1 hg
        · exact hfresh g (List.mem_cons_of_mem _ hg) hmem
      · intro hparent
        simp [hfound hparent, newRoots, hparent]
      · intro g hg hb
        refine hcond g (List.mem_cons_of_mem _ hg) ?_
        simp only [← hpair, hroots] at hb
        exact hb

theorem addTask_rootGroups (q : WorkQueue G T S V) (task : T) :
    (WorkQueue.addTask W q task).rootGroups = q.rootGroups :=
  (foldl_addTaskToGroup q task (W.groups task)).2.1.1

/-- Adding tasks one after the other. -/
theorem addTasks_moves {tasks : List T} {s : Stage G T S V I E}
    (hnodup : tasks.Nodup) (hfresh : ∀ t ∈ tasks, t ∉ s.ledger.tasks)
    (hgroups : ∀ t ∈ tasks, ∀ g ∈ W.groups t, g ∈ s.ledger.groups)
    (hlimbo : s.limbo = [])
    (hcond : ∀ t ∈ tasks, C.join s.ledger.failed s.ledger.origin
      (s.queue.rootGroups ++ s.found) s.queue.kids t) :
    Moves W C s
      { s with
        queue := tasks.foldl (WorkQueue.addTask W) s.queue
        ledger := { s.ledger with tasks := s.ledger.tasks ++ tasks } } := by
  induction tasks generalizing s with
  | nil =>
      simp only [List.foldl_nil, List.append_nil]
      exact .refl
  | cons task rest ih =>
      rw [List.nodup_cons] at hnodup
      have hmove : Move W C s _ := .addTask task
        (hfresh task List.mem_cons_self) (hgroups task List.mem_cons_self)
        hlimbo (hcond task List.mem_cons_self)
      refine .head hmove ?_
      have hrec := ih (s := { s with
          queue := WorkQueue.addTask W s.queue task
          ledger := { s.ledger with tasks := s.ledger.tasks ++ [task] } })
        hnodup.2 ?_ ?_ hlimbo ?_
      · simpa using hrec
      · intro t ht hmem
        rcases List.mem_append.mp hmem with hmem | hmem
        · exact hfresh t (List.mem_cons_of_mem _ ht) hmem
        · rw [List.mem_singleton] at hmem
          exact hnodup.1 (hmem ▸ ht)
      · exact fun t ht => hgroups t (List.mem_cons_of_mem _ ht)
      · intro t ht
        simp only [addTask_kids, addTask_rootGroups]
        exact hcond t (List.mem_cons_of_mem _ ht)

def Ledger.addWork (γ : Ledger G T S V) (parentTask : Option T)
    (work : Option (Work G T S)) : Ledger G T S V :=
  { γ with toHistory := γ.toHistory.addWork parentTask work }

/-- The stage after work has been integrated. -/
def Stage.integrate (W : WorkGraph G T) (s : Stage G T S V I E)
    (work : Option (Work G T S)) (parentTask : Option T) :
    Stage G T S V I E :=
  let r := maybeIntegrateWork W s.queue work parentTask
  { s with
    queue := r.1
    found := r.2.1
    limboStreams := s.limboStreams ++ r.2.2
    newStreams := s.newStreams ++ r.2.2
    ledger := s.ledger.addWork parentTask work }

theorem integrate_moves (parentTask : Option T) {work : Option (Work G T S)}
    {s : Stage G T S V I E} (hinv : Inv W s) (hfound : s.found = [])
    (hlimbo : s.limbo = []) (hparent : parentTask = s.ledger.current)
    (hfresh : ∀ w ∈ work, Fresh W s.ledger.toHistory w)
    (hmeets : ∀ w ∈ work,
      WorkMeets W C s.ledger.toHistory s.queue parentTask w) :
    Moves W C s (s.integrate W work parentTask) := by
  cases work with
  | none =>
      have hsame : s.integrate W none parentTask = s := by
        simp [Stage.integrate, maybeIntegrateWork, ← hfound, Ledger.addWork,
          History.addWork]
      rw [hsame]
  | some w =>
      have hw := hfresh w rfl
      obtain ⟨hintroduce, hjoin⟩ := hmeets w rfl
      obtain ⟨order, hnodup, hmem, heq⟩ :=
        addGroups_eq W s.queue w.groups parentTask
      have hstart : (s.queue, ([] : List G)) = (s.queue, s.found) := by
        rw [hfound]
      rw [heq, hstart] at hintroduce hjoin
      set created : Stage G T S V I E :=
        { s with
          queue :=
            (order.foldl (createGroup W parentTask) (s.queue, s.found)).1
          found :=
            (order.foldl (createGroup W parentTask) (s.queue, s.found)).2
          ledger := s.ledger.addGroups parentTask order } with hcreated
      have hgroups : Moves W C s created :=
        createGroups_moves parentTask hinv hnodup
          (fun g hg => hw.groups g ((hmem g).mp hg)) hlimbo
          hparent (fun _ => hfound)
          (fun g hg => hintroduce g ((hmem g).mp hg))
      have hroots : created.queue.rootGroups = s.queue.rootGroups :=
        foldl_createGroup_roots (W := W) parentTask order (s.queue, s.found)
      have horigin : created.ledger.origin =
          (s.ledger.toHistory.addWork parentTask (some w)).origin := by
        funext g
        simp only [hcreated, Ledger.addGroups, History.addWork, hmem]
      have htasks : Moves W C created _ := addTasks_moves hw.tasks_nodup
        hw.tasks
        (fun t ht g hg => (hw.task_groups t ht g hg).imp_right
          fun h => (hmem g).mpr h)
        hlimbo
        (fun t ht => by
          rw [hroots, horigin]
          exact hjoin t ht)
      set added : Stage G T S V I E :=
        { created with
          queue := w.tasks.foldl (WorkQueue.addTask W) created.queue
          ledger := { created.ledger with
            tasks := created.ledger.tasks ++ w.tasks } } with hadded
      have hstreams : Move W C added _ := .addStreams parentTask w.streams
        hw.streams_nodup hw.streams
      have hend : s.integrate W (some w) parentTask =
          { added with
            queue :=
              (WorkQueue.addStreams added.queue w.streams parentTask).1
            limboStreams := added.limboStreams ++
              (WorkQueue.addStreams added.queue w.streams parentTask).2
            newStreams := added.newStreams ++
              (WorkQueue.addStreams added.queue w.streams parentTask).2
            ledger := { added.ledger with
              streams := added.ledger.streams ∪ { x | x ∈ w.streams }
              streamOrigin := fun x =>
                if x ∈ w.streams then parentTask
                else added.ledger.streamOrigin x } } := by
        have hintegrate : maybeIntegrateWork W s.queue (some w) parentTask =
            ((WorkQueue.addStreams added.queue w.streams parentTask).1,
              added.found,
              (WorkQueue.addStreams added.queue w.streams parentTask).2) := by
          simp only [maybeIntegrateWork, heq, hstart]
          rfl
        have hcongr := Ledger.addGroups_congr s.ledger parentTask hmem
        have hledger : added.ledger =
            { s.ledger.addGroups parentTask w.groups with
              tasks := s.ledger.tasks ++ w.tasks } := by
          simp only [hadded, hcreated, hcongr]
          rfl
        simp only [Stage.integrate, hintegrate, hledger]
        rfl
      rw [hend]
      exact (hgroups.trans htasks).tail hstreams

/-! ## Promoting groups and streams -/

theorem promoteGroups_moves {groups : List G} {s : Stage G T S V I E}
    (hlimbo : s.limbo = groups) (hexcused : s.ledger.excused = ∅) :
    Moves W C s
      { s with
        queue := groups.foldl WorkQueue.promoteGroup s.queue
        limbo := [] } := by
  induction groups generalizing s with
  | nil =>
      simp only [List.foldl_nil]
      rw [← hlimbo]
  | cons group rest ih =>
      have hmove : Move W C s _ := .promote group rest hlimbo hexcused
      exact .head hmove (ih rfl hexcused)

theorem promoteStreams_moves {streams : List S} {s : Stage G T S V I E}
    (hlimbo : s.limboStreams = streams) :
    ∃ started, Moves W C s
      { s with
        queue := streams.foldl WorkQueue.promoteStream s.queue
        limboStreams := []
        ledger := { s.ledger with startedStreams := started } } := by
  induction streams generalizing s with
  | nil =>
      refine ⟨s.ledger.startedStreams, ?_⟩
      simp only [List.foldl_nil]
      rw [← hlimbo]
  | cons stream rest ih =>
      have hmove : Move W C s _ := .promoteStream stream rest hlimbo
      obtain ⟨started, hrec⟩ := ih (s := { s with
          queue := s.queue.promoteStream stream
          limboStreams := rest
          ledger := { s.ledger with
            startedStreams := insert stream s.ledger.startedStreams } }) rfl
      exact ⟨started, .head hmove hrec⟩

theorem startNewWork_moves {s : Stage G T S V I E}
    (hexcused : s.ledger.excused = ∅) :
    ∃ started, Moves W C s
      { s with
        queue := startNewWork s.queue s.limbo s.limboStreams
        limbo := []
        limboStreams := []
        ledger := { s.ledger with startedStreams := started } } := by
  have hgroups : Moves W C s _ := promoteGroups_moves rfl hexcused
  obtain ⟨started, hstreams⟩ := promoteStreams_moves (W := W) (C := C)
    (s := { s with
      queue := s.limbo.foldl WorkQueue.promoteGroup s.queue
      limbo := [] }) rfl
  exact ⟨started, hgroups.trans hstreams⟩

/-! ## The loop of `_task_success` -/

theorem modifyNode_of_node_none {q : WorkQueue G T S V} {group : G}
    (f : GroupNode G T → GroupNode G T) (h : q.node group = none) :
    q.modifyNode group f = q := by
  have hget : q.groupNodes.get group = none := h
  simp [modifyNode, Dict.modify, hget]

theorem modifyNode_congr {q : WorkQueue G T S V} {group : G}
    {f f' : GroupNode G T → GroupNode G T} {n : GroupNode G T}
    (h : q.node group = some n) (hf : f n = f' n) :
    q.modifyNode group f = q.modifyNode group f' := by
  have hget : q.groupNodes.get group = some n := h
  simp [modifyNode, Dict.modify, hget, hf]

/-- The stage of the loop of `_task_success`, with `groups` left to visit. -/
structure Settling (W : WorkGraph G T) (task : T)
    (pre : List (WorkQueueEvent G S V I E)) (h : History G T S V)
    (st : SuccessLoop G T S V I E) (groups : List G)
    (s : Stage G T S V I E) : Prop where
  inv : Inv W s
  queue : s.queue = st.queue
  limbo : s.limbo = st.newGroups
  limboStreams : s.limboStreams = st.newStreams
  events : s.events = pre ++ st.groupEvents
  history : s.ledger.toHistory = h
  current : s.ledger.current = some task
  remaining : s.ledger.remaining task = groups
  excused : s.ledger.excused = ∅
  found : s.found = []
  news : s.news = []
  newStreams : s.newStreams = []

theorem Settling.step {task : T} {pre : List (WorkQueueEvent G S V I E)}
    {h : History G T S V} {st : SuccessLoop G T S V I E} {group : G}
    {rest : List G} {s : Stage G T S V I E}
    (hs : Settling W task pre h st (group :: rest) s)
    (hcond : st.queue.Finishes group → C.finish st.queue group rest) :
    ∃ s', Move W C s s' ∧
      Settling W task pre h (settleGroup W st group) rest s' := by
  by_cases hfinishes : s.queue.Finishes group
  · obtain ⟨hroot, hpending⟩ := hfinishes
    obtain ⟨n, hn, hone⟩ := Option.map_eq_some_iff.mp hpending
    set n' : GroupNode G T := { n with pending := n.pending - 1 } with hn'
    have hmove : Move W C s _ := .finish task group rest n n' hs.current
      hs.remaining ⟨hroot, hpending⟩ hs.excused hs.news hs.newStreams hs.found
      hn rfl (hs.queue ▸ hcond (hs.queue ▸ ⟨hroot, hpending⟩)) _ rfl
    have hstep : settleGroup W st group =
        let r : WorkQueue G T S V × GroupFinish G S V I E :=
          finishGroupSuccess W (s.queue.modifyNode group fun _ => n') group n'
        { queue := r.1
          groupEvents := st.groupEvents ++ r.2.events
          newGroups := st.newGroups ++ r.2.newGroups
          newStreams := st.newStreams ++ r.2.newStreams } := by
      have hn₁ : st.queue.node group = some n := hs.queue ▸ hn
      have hroot₁ : group ∈ st.queue.rootGroups := hs.queue ▸ hroot
      have hzero : n.pending - 1 = 0 := by omega
      simp only [settleGroup, hn₁, modifyNode_rootGroups, hzero, hroot₁,
        and_self, if_true, hn', hs.queue]
    refine ⟨_, hmove, ?_⟩
    rw [hstep]
    exact
      { inv := hs.inv.move hmove
        queue := rfl
        limbo := by simp only [hs.limbo]
        limboStreams := by simp only [hs.limboStreams]
        events := by simp only [hs.events, List.append_assoc]
        history := hs.history
        current := hs.current
        remaining := by simp
        excused := hs.excused
        found := hs.found
        news := hs.news
        newStreams := hs.newStreams }
  · have hmove : Move W C s _ := .countdown task group rest hs.current
      hs.remaining hfinishes hs.excused
    have hstep : settleGroup W st group =
        { st with queue := s.queue.modifyNode group fun n =>
            { n with pending := n.pending - 1 } } := by
      rw [hs.queue] at hfinishes ⊢
      cases hn : st.queue.node group with
      | none => simp [settleGroup, hn, modifyNode_of_node_none _ hn]
      | some n =>
          have hnot : ¬(group ∈ st.queue.rootGroups ∧ n.pending - 1 = 0) := by
            rintro ⟨hroot, hzero⟩
            refine hfinishes ⟨hroot, ?_⟩
            have hone : n.pending = 1 := by omega
            simp [pendingCount, hn, hone]
          have hcongr : (st.queue.modifyNode group fun _ =>
              { n with pending := n.pending - 1 }) =
                st.queue.modifyNode group fun n =>
                  { n with pending := n.pending - 1 } :=
            modifyNode_congr hn rfl
          simp only [settleGroup, hn, modifyNode_rootGroups, if_neg hnot,
            hcongr]
    refine ⟨_, hmove, ?_⟩
    rw [hstep]
    exact
      { inv := hs.inv.move hmove
        queue := rfl
        limbo := hs.limbo
        limboStreams := hs.limboStreams
        events := hs.events
        history := hs.history
        current := hs.current
        remaining := by simp
        excused := hs.excused
        found := hs.found
        news := hs.news
        newStreams := hs.newStreams }

theorem Settling.run {task : T} {pre : List (WorkQueueEvent G S V I E)}
    {h : History G T S V} {st : SuccessLoop G T S V I E} {groups : List G}
    {s : Stage G T S V I E} (hs : Settling W task pre h st groups s)
    (hcond : SettleMeets W C st groups) :
    ∃ s', Moves W C s s' ∧
      Settling W task pre h (groups.foldl (settleGroup W) st) [] s' := by
  induction groups generalizing st s with
  | nil => exact ⟨s, .refl, hs⟩
  | cons group rest ih =>
      obtain ⟨s₁, hmove, hs₁⟩ := hs.step hcond.1
      obtain ⟨s₂, hmoves, hs₂⟩ := ih hs₁ hcond.2
      exact ⟨s₂, .head hmove hmoves, hs₂⟩

/-! ## Handling graph events -/

/-- A move sequence between idle stages that models a handler. -/
def Handles (W : WorkGraph G T) (C : Conditions G T S V)
    (s : Stage G T S V I E) (q : WorkQueue G T S V) (h : History G T S V)
    (events : List (WorkQueueEvent G S V I E)) : Prop :=
  ∃ s', Moves W C s s' ∧ s'.Idle ∧ s'.queue = q ∧
    s'.ledger.toHistory = h ∧ s'.events = s.events ++ events

theorem taskSuccess_handles {s : Stage G T S V I E} (hinv : Inv W s)
    (hidle : s.Idle) {task : T} {result : WorkResult G T S V}
    (hlegal : Legal (I := I) (E := E) W s.ledger.toHistory s.queue
      (.taskSuccess task result))
    (hmeets : Meets (I := I) (E := E) W C s.ledger.toHistory s.queue
      (.taskSuccess task result)) :
    let r := handleGraphEvent W s.queue (.taskSuccess task result)
    Handles W C s r.1
      (s.ledger.toHistory.record r.2 (.taskSuccess task result)) r.2 := by
  intro r
  obtain ⟨hrunning, hfresh⟩ := hlegal
  obtain ⟨hwork, hsettle⟩ := hmeets
  have hopen := (hinv.tasks.running_open task hrunning).2
  -- The value is stored, and the nested work integrated.
  have hmove : Move W C s _ := .settle task result.value hrunning hidle.current
    hidle.limbo hidle.found
  have hinv₁ := hinv.move hmove
  have hintegrate := integrate_moves (W := W) (C := C) (some task) hinv₁
    hidle.found hidle.limbo rfl (fun w hw => { hfresh w hw with })
    (fun w hw => hwork w hw)
  have hinv₂ := hinv₁.moves hintegrate
  set s₂ := Stage.integrate W _ result.work (some task) with hs₂
  have hroots : (maybeIntegrateWork W (storeValue
      { s.queue with runningTasks := s.queue.runningTasks.erase task } task
        result.value) result.work (some task)).2 = ([], []) := by
    cases hw : result.work with
    | none => rfl
    | some w =>
        obtain ⟨order, -, -, heq⟩ := addGroups_eq W (storeValue
          { s.queue with runningTasks := s.queue.runningTasks.erase task } task
            result.value) w.groups (some task)
        have hnil : ∀ (order : List G) (st : WorkQueue G T S V × List G),
            (order.foldl (createGroup W (some task)) st).2 = st.2 := by
          intro order
          induction order with
          | nil => exact fun st => rfl
          | cons group rest ih =>
              intro st
              rw [List.foldl_cons, ih, (createGroup_eq W _ st group).1]
              simp [newRoots]
        simp only [maybeIntegrateWork, heq, hnil, WorkQueue.addStreams]
  have hstart : Settling W task s.events s₂.ledger.toHistory
      { queue := storeResult W
          { s.queue with runningTasks := s.queue.runningTasks.erase task } task
            result } (W.groups task) s₂ :=
    { inv := hinv₂
      queue := rfl
      limbo := hidle.limbo
      limboStreams := by
        have h := congrArg Prod.snd hroots
        change s.limboStreams ++ _ = _
        rw [hidle.limboStreams]
        exact h
      events := (List.append_nil _).symm
      history := rfl
      current := rfl
      remaining := hinv.tasks.remaining_open task hopen
      excused := hidle.excused
      found := congrArg Prod.fst hroots
      news := hidle.news
      newStreams := by
        have h := congrArg Prod.snd hroots
        change s.newStreams ++ _ = _
        rw [hidle.newStreams]
        exact h }
  obtain ⟨s₃, hloop, hend⟩ := hstart.run hsettle
  obtain ⟨started, hpromote⟩ := startNewWork_moves (W := W) (C := C)
    hend.excused
  have hlast : Move W C _ _ := .settleEnd (C := C) (W := W)
    (s := { s₃ with
      queue := startNewWork s₃.queue s₃.limbo s₃.limboStreams
      limbo := []
      limboStreams := []
      ledger := { s₃.ledger with startedStreams := started } })
    task hend.current hend.remaining rfl
  refine ⟨_, .head hmove (hintegrate.trans
    (hloop.trans (hpromote.tail hlast))), ?_, ?_, ?_, ?_⟩
  · exact
      { found := hend.found
        limbo := rfl
        limboStreams := rfl
        news := hend.news
        newStreams := hend.newStreams
        current := rfl
        excused := hend.excused }
  · change startNewWork s₃.queue s₃.limbo s₃.limboStreams = _
    rw [hend.queue, hend.limbo, hend.limboStreams]
    rfl
  · change s₃.ledger.toHistory = _
    rw [hend.history]
    cases hw : result.work <;>
      simp [hs₂, Stage.integrate, Ledger.addWork, History.addWork,
        History.record, hw]
  · exact hend.events

/-- The stage of the loop of `_task_failure`. -/
structure Failing (W : WorkGraph G T)
    (pre : List (WorkQueueEvent G S V I E)) (γ : Ledger G T S V)
    (st : WorkQueue G T S V × List (WorkQueueEvent G S V I E))
    (s : Stage G T S V I E) : Prop where
  inv : Inv W s
  queue : s.queue = st.1
  events : s.events = pre ++ st.2
  ledger : s.ledger =
    { γ with
      failed := γ.failed ∪
        { g | ∃ error, WorkQueueEvent.groupFailure g error ∈ st.2 } }
  found : s.found = []
  limbo : s.limbo = []
  limboStreams : s.limboStreams = []
  news : s.news = []
  newStreams : s.newStreams = []

theorem finishGroupFailure_alive (q : WorkQueue G T S V) {group g : G}
    (error : E) :
    (((finishGroupFailure W q group error :
        WorkQueue G T S V × WorkQueueEvent G S V I E).1.Alive g) →
      q.Alive g ∧ g ≠ group) := by
  obtain ⟨gone, hremoves⟩ := removeGroup_removes W q [group]
  intro hlive
  obtain ⟨hold, hkept⟩ := hremoves.alive_iff.mp hlive
  refine ⟨hold, ?_⟩
  rintro rfl
  exact hkept (hremoves.start_gone g List.mem_cons_self hold)

theorem Failing.step {pre : List (WorkQueueEvent G S V I E)}
    {γ : Ledger G T S V}
    {st : WorkQueue G T S V × List (WorkQueueEvent G S V I E)} {group : G}
    {error : E} {s : Stage G T S V I E} (hs : Failing W pre γ st s)
    (hcond : st.1.Alive group → C.fail st.1 group) :
    ∃ s', Moves W C s s' ∧
      Failing W pre γ (failGroup W error st group) s' ∧
      ∀ g, (failGroup W error st group).1.Alive g → st.1.Alive g ∧ g ≠ group := by
  by_cases hlive : st.1.Alive group
  · obtain ⟨n, hn⟩ := alive_iff_node.mp hlive
    have hstep : failGroup W error st group =
        ((finishGroupFailure (I := I) W st.1 group error).1,
          st.2 ++ [.groupFailure group error]) := by
      simp only [failGroup, hn]
      rfl
    have hmove : Move W C s _ := .fail group error (hs.queue ▸ hlive) hs.limbo
      hs.found hs.news (hs.queue ▸ hcond hlive) _ rfl
    refine ⟨_, .single hmove, ?_, ?_⟩
    · rw [hstep]
      refine
        { inv := hs.inv.move hmove
          queue := by simp only [hs.queue]
          events := ?_
          ledger := ?_
          found := hs.found
          limbo := hs.limbo
          limboStreams := hs.limboStreams
          news := hs.news
          newStreams := hs.newStreams }
      · simp only [hs.events, List.append_assoc]
        rfl
      · simp only [hs.ledger]
        congr 2
        ext g
        simp only [Set.mem_insert_iff, Set.mem_union, Set.mem_ofPred_eq,
          List.mem_append, List.mem_singleton, WorkQueueEvent.groupFailure.injEq,
          exists_or]
        constructor
        · rintro (rfl | h | h)
          · exact Or.inr (Or.inr ⟨error, rfl, rfl⟩)
          · exact Or.inl h
          · exact Or.inr (Or.inl h)
        · rintro (h | h | ⟨_, rfl, -⟩)
          · exact Or.inr (Or.inl h)
          · exact Or.inr (Or.inr h)
          · exact Or.inl rfl
    · rw [hstep]
      exact fun g hg => finishGroupFailure_alive (I := I) st.1 error hg
  · have hstep : failGroup W error st group = st := by
      simp only [failGroup, not_alive_iff.mp hlive]
    rw [hstep]
    refine ⟨s, .refl, hs, fun g hg => ⟨hg, ?_⟩⟩
    rintro rfl
    exact hlive hg

theorem Failing.run {pre : List (WorkQueueEvent G S V I E)}
    {γ : Ledger G T S V}
    {st : WorkQueue G T S V × List (WorkQueueEvent G S V I E)}
    {groups : List G} {error : E} {s : Stage G T S V I E}
    (hs : Failing W pre γ st s) (hcond : FailMeets W C error st groups) :
    ∃ s', Moves W C s s' ∧
      Failing W pre γ (groups.foldl (failGroup W error) st) s' ∧
      ∀ g, (groups.foldl (failGroup W error) st).1.Alive g →
        st.1.Alive g ∧ g ∉ groups := by
  induction groups generalizing st s with
  | nil => exact ⟨s, .refl, hs, fun g hg => ⟨hg, by simp⟩⟩
  | cons group rest ih =>
      obtain ⟨s₁, hmoves₁, hs₁, halive₁⟩ := hs.step hcond.1
      obtain ⟨s₂, hmoves₂, hs₂, halive₂⟩ := ih hs₁ hcond.2
      refine ⟨s₂, hmoves₁.trans hmoves₂, hs₂, fun g hg => ?_⟩
      obtain ⟨hlive₁, hrest⟩ := halive₂ g hg
      obtain ⟨hlive, hne⟩ := halive₁ g hlive₁
      exact ⟨hlive, by simp [hne, hrest]⟩

theorem taskFailure_handles {s : Stage G T S V I E} (hinv : Inv W s)
    (hidle : s.Idle) {task : T} {error : E}
    (hlegal : Legal (I := I) (E := E) W s.ledger.toHistory s.queue
      (.taskFailure task error))
    (hmeets : Meets (I := I) (E := E) W C s.ledger.toHistory s.queue
      (.taskFailure task error)) :
    let r := handleGraphEvent (I := I) W s.queue (.taskFailure task error)
    Handles W C s r.1
      (s.ledger.toHistory.record r.2 (.taskFailure task error)) r.2 := by
  intro r
  have hmove : Move W C s _ := .failBegin task hlegal hidle.current
    hidle.limbo hidle.found
  have hinv₁ := hinv.move hmove
  set γ : Ledger G T S V :=
    { s.ledger with
      settled := insert task s.ledger.settled
      current := some task
      excused := insert task s.ledger.excused } with hγ
  have hstart : Failing W s.events γ
      ({ s.queue with
         runningTasks := s.queue.runningTasks.erase task
         taskNodes := s.queue.taskNodes.pop task }, [])
      { s with
        queue := { s.queue with
          runningTasks := s.queue.runningTasks.erase task
          taskNodes := s.queue.taskNodes.pop task }
        ledger := γ } :=
    { inv := hinv₁
      queue := rfl
      events := (List.append_nil _).symm
      ledger := by simp [hγ]
      found := hidle.found
      limbo := hidle.limbo
      limboStreams := hidle.limboStreams
      news := hidle.news
      newStreams := hidle.newStreams }
  obtain ⟨s₂, hloop, hend, hdead⟩ := hstart.run hmeets
  have hlast : Move W C s₂ _ := .failEnd task (by rw [hend.ledger])
    (by rw [hend.ledger]; exact Or.inl rfl)
    (by
      intro g hg hlive
      rw [hend.queue] at hlive
      exact (hdead g hlive).2 hg)
  refine ⟨_, .head hmove (hloop.tail hlast), ?_, ?_, ?_, ?_⟩
  · exact
      { found := hend.found
        limbo := hend.limbo
        limboStreams := hend.limboStreams
        news := hend.news
        newStreams := hend.newStreams
        current := rfl
        excused := by
          simp only [hend.ledger, hγ, hidle.excused]
          ext t
          simp }
  · exact hend.queue
  · simp only [hend.ledger]
    rfl
  · exact hend.events

theorem maybeIntegrateWork_rootStreams (q : WorkQueue G T S V)
    (work : Option (Work G T S)) (parentTask : Option T) :
    (maybeIntegrateWork W q work parentTask).1.rootStreams = q.rootStreams := by
  cases work with
  | none => rfl
  | some w =>
      obtain ⟨order, -, -, heq⟩ := addGroups_eq W q w.groups parentTask
      have hcreate : ∀ (order : List G) (st : WorkQueue G T S V × List G),
          (order.foldl (createGroup W parentTask) st).1.rootStreams =
            st.1.rootStreams := by
        intro order
        induction order with
        | nil => exact fun st => rfl
        | cons group rest ih =>
            intro st
            rw [List.foldl_cons, ih]
            exact (createGroup_eq W parentTask st group).2.1.rootStreams
      have hadd : ∀ (tasks : List T) (q : WorkQueue G T S V),
          (tasks.foldl (WorkQueue.addTask W) q).rootStreams =
            q.rootStreams := by
        intro tasks
        induction tasks with
        | nil => exact fun q => rfl
        | cons task rest ih =>
            intro q
            rw [List.foldl_cons, ih]
            exact (foldl_addTaskToGroup q task (W.groups task)).2.1.2.1
      have hstreams : ∀ q : WorkQueue G T S V,
          (WorkQueue.addStreams q w.streams parentTask).1.rootStreams =
            q.rootStreams := by
        intro q
        cases parentTask <;> rfl
      simp only [maybeIntegrateWork, heq, hstreams, hadd, hcreate]

theorem promoteGroup_rootStreams (q : WorkQueue G T S V) (group : G) :
    (q.promoteGroup group).rootStreams = q.rootStreams := by
  rw [promoteGroup, startGroup_eq]
  exact (foldl_startTask_sameGraph _ _).rootStreams

theorem mem_startNewWork_rootStreams {q : WorkQueue G T S V}
    (newGroups : List G) (newStreams : List S) {stream : S}
    (h : stream ∈ q.rootStreams) :
    stream ∈ (startNewWork q newGroups newStreams).rootStreams := by
  have hgroups : ∀ (groups : List G) (q : WorkQueue G T S V),
      (groups.foldl WorkQueue.promoteGroup q).rootStreams = q.rootStreams := by
    intro groups
    induction groups with
    | nil => exact fun q => rfl
    | cons group rest ih =>
        intro q
        rw [List.foldl_cons, ih, promoteGroup_rootStreams]
  have hstreams : ∀ (streams : List S) (q : WorkQueue G T S V),
      stream ∈ q.rootStreams →
        stream ∈ (streams.foldl WorkQueue.promoteStream q).rootStreams := by
    intro streams
    induction streams with
    | nil => exact fun q hq => hq
    | cons x rest ih =>
        exact fun q hq => ih _ (OrderedSet.mem_add.mpr (Or.inl hq))
  exact hstreams newStreams _ ((hgroups newGroups q).symm ▸ h)

/-- The stage of the loop of `_stream_items`. -/
structure Streaming (W : WorkGraph G T) (stream : S)
    (pre : List (WorkQueueEvent G S V I E)) (h : History G T S V)
    (st : ItemsLoop G T S V I) (s : Stage G T S V I E) : Prop where
  inv : Inv W s
  queue : s.queue = st.queue
  root : stream ∈ s.queue.rootStreams
  events : s.events = pre
  history : s.ledger.toHistory = h
  news : s.news = st.newGroups
  newStreams : s.newStreams = st.newStreams
  found : s.found = []
  limbo : s.limbo = []
  limboStreams : s.limboStreams = []
  current : s.ledger.current = none
  excused : s.ledger.excused = ∅
  not_new : stream ∉ st.newStreams

/-- The stage after new root work has been integrated and pruned, and before
it is started. -/
def Stage.accept (W : WorkGraph G T) (s : Stage G T S V I E)
    (work : Option (Work G T S)) : Stage G T S V I E :=
  let r := maybeIntegrateWork W s.queue work none
  let pruned := pruneEmptyGroups r.1.groupNodes r.2.1
  { s with
    queue := { r.1 with groupNodes := pruned.1 }
    limbo := pruned.2
    news := s.news ++ pruned.2
    limboStreams := r.2.2
    newStreams := s.newStreams ++ r.2.2
    ledger := s.ledger.addWork none work }

theorem accept_moves {work : Option (Work G T S)} {s : Stage G T S V I E}
    (hinv : Inv W s) (hfound : s.found = []) (hlimbo : s.limbo = [])
    (hlimboStreams : s.limboStreams = []) (hcurrent : s.ledger.current = none)
    (hfresh : ∀ w ∈ work, Fresh W s.ledger.toHistory w)
    (hmeets : ∀ w ∈ work, WorkMeets W C s.ledger.toHistory s.queue none w) :
    Moves W C s (s.accept W work) := by
  have hintegrate := integrate_moves (W := W) (C := C) none hinv hfound hlimbo
    hcurrent.symm hfresh hmeets
  have hprune : Move W C (s.integrate W work none) _ := .prune hcurrent
  have hend : s.accept W work =
      { s.integrate W work none with
        queue := { (s.integrate W work none).queue with
          groupNodes := (pruneEmptyGroups
            (s.integrate W work none).queue.groupNodes
            (s.integrate W work none).found).1 }
        found := []
        limbo := (s.integrate W work none).limbo ++
          (pruneEmptyGroups (s.integrate W work none).queue.groupNodes
            (s.integrate W work none).found).2
        news := (s.integrate W work none).news ++
          (pruneEmptyGroups (s.integrate W work none).queue.groupNodes
            (s.integrate W work none).found).2 } := by
    simp only [Stage.accept, Stage.integrate, hfound, hlimbo, hlimboStreams,
      List.nil_append]
  rw [hend]
  exact hintegrate.tail hprune

theorem Streaming.step {stream : S} {pre : List (WorkQueueEvent G S V I E)}
    {h : History G T S V} {st : ItemsLoop G T S V I}
    {item : WorkResult G T S I} {s : Stage G T S V I E}
    (hs : Streaming W stream pre h st s)
    (hfresh : ∀ w ∈ item.work, Fresh W h w)
    (hmeets : ∀ w ∈ item.work, WorkMeets W C h st.queue none w) :
    ∃ s', Moves W C s s' ∧
      Streaming W stream pre (h.addWork none item.work) (streamItem W st item)
        s' := by
  have haccept := accept_moves (W := W) (C := C) hs.inv hs.found hs.limbo
    hs.limboStreams hs.current (hs.history ▸ hfresh)
    (by rw [hs.history, hs.queue]; exact hmeets)
  obtain ⟨started, hpromote⟩ := startNewWork_moves (W := W) (C := C)
    (s := s.accept W item.work) hs.excused
  refine ⟨_, haccept.trans hpromote, ?_⟩
  exact
    { inv := (hs.inv.moves haccept).moves hpromote
      queue := by
        simp only [Stage.accept, streamItem, hs.queue]
      root := by
        apply mem_startNewWork_rootStreams
        change stream ∈
          (maybeIntegrateWork W s.queue item.work none).1.rootStreams
        rw [maybeIntegrateWork_rootStreams]
        exact hs.root
      events := hs.events
      history := by
        simp only [Stage.accept, Ledger.addWork, hs.history]
      news := by
        simp only [Stage.accept, streamItem, hs.queue, hs.news]
      newStreams := by
        simp only [Stage.accept, streamItem, hs.queue, hs.newStreams]
      found := hs.found
      limbo := rfl
      limboStreams := rfl
      current := hs.current
      excused := hs.excused
      not_new := by
        have hold := hs.inv.streams
        have hstream := (hold.released stream (Or.inr
          (hold.pump_started stream ((hold.root_iff stream).mp hs.root).1))).1
        intro hmem
        rcases List.mem_append.mp hmem with hmem | hmem
        · exact hs.not_new hmem
        · cases hw : item.work with
          | none => simp [hw] at hmem
          | some w =>
              have hin : stream ∈ w.streams := by
                simpa [hw, maybeIntegrateWork, WorkQueue.addStreams] using hmem
              exact (hfresh w hw).streams stream hin (hs.history ▸ hstream) }

theorem Streaming.run {stream : S} {pre : List (WorkQueueEvent G S V I E)}
    {h : History G T S V} {st : ItemsLoop G T S V I}
    {items : List (WorkResult G T S I)} {s : Stage G T S V I E}
    (hs : Streaming W stream pre h st s) (hfresh : FreshItems W h items)
    (hmeets : ItemsMeet W C h st items) :
    ∃ s', Moves W C s s' ∧
      Streaming W stream pre
        (items.foldl (fun h item => h.addWork none item.work) h)
        (items.foldl (streamItem W) st) s' := by
  induction items generalizing h st s with
  | nil => exact ⟨s, .refl, hs⟩
  | cons item rest ih =>
      obtain ⟨s₁, hmoves₁, hs₁⟩ := hs.step hfresh.1 hmeets.1
      obtain ⟨s₂, hmoves₂, hs₂⟩ := ih hs₁ hfresh.2 hmeets.2
      exact ⟨s₂, hmoves₁.trans hmoves₂, hs₂⟩

theorem streamItems_handles {s : Stage G T S V I E} (hinv : Inv W s)
    (hidle : s.Idle) {stream : S} {items : List (WorkResult G T S I)}
    {isStopped : Bool}
    (hlegal : Legal (E := E) W s.ledger.toHistory s.queue
      (.streamItems stream items isStopped))
    (hmeets : Meets (E := E) W C s.ledger.toHistory s.queue
      (.streamItems stream items isStopped)) :
    let r := handleGraphEvent (E := E) W s.queue
      (.streamItems stream items isStopped)
    Handles W C s r.1
      (s.ledger.toHistory.record r.2 (.streamItems stream items isStopped))
      r.2 := by
  intro r
  obtain ⟨hpump, hrunning, hfresh⟩ := hlegal
  have hstart : Streaming W stream s.events s.ledger.toHistory
      { queue := s.queue } s :=
    { inv := hinv
      queue := rfl
      root := (hinv.streams.root_iff stream).mpr ⟨hpump, hrunning⟩
      events := rfl
      history := rfl
      news := hidle.news
      newStreams := hidle.newStreams
      found := hidle.found
      limbo := hidle.limbo
      limboStreams := hidle.limboStreams
      current := hidle.current
      excused := hidle.excused
      not_new := List.not_mem_nil }
  obtain ⟨s₁, hloop, hend⟩ := hstart.run hfresh hmeets
  set st := items.foldl (streamItem W) { queue := s.queue } with hst
  have hvalues : Move W C s₁ _ := .streamValues stream st.values hend.root
    hend.limbo hend.limboStreams hend.found
    (hend.newStreams ▸ hend.not_new)
  have hidle₁ : Stage.Idle { s₁ with
      news := []
      newStreams := []
      events := s₁.events ++
        [.streamValues stream st.values s₁.news s₁.newStreams] } :=
    { found := hend.found
      limbo := hend.limbo
      limboStreams := hend.limboStreams
      news := rfl
      newStreams := rfl
      current := hend.current
      excused := hend.excused }
  cases isStopped with
  | false =>
      refine ⟨_, hloop.tail hvalues, hidle₁, hend.queue, hend.history, ?_⟩
      simp only [hend.events, hend.news, hend.newStreams]
      rfl
  | true =>
      have hstop : Move W C { s₁ with
          news := []
          newStreams := []
          events := s₁.events ++
            [.streamValues stream st.values s₁.news s₁.newStreams] } _ :=
        .streamStop stream hend.root rfl
      refine ⟨_, (hloop.tail hvalues).tail hstop, { hidle₁ with }, ?_, ?_, ?_⟩
      · simp only [hend.queue]
        rfl
      · simp only [hend.history]
        rfl
      · simp only [hend.events, hend.news, hend.newStreams,
          List.append_assoc]
        rfl

/-- Every handler is a sequence of moves. -/
theorem handleGraphEvent_handles {s : Stage G T S V I E} (hinv : Inv W s)
    (hidle : s.Idle) {event : GraphEvent G T S V I E}
    (hlegal : Legal W s.ledger.toHistory s.queue event)
    (hmeets : Meets W C s.ledger.toHistory s.queue event) :
    Handles W C s (handleGraphEvent W s.queue event).1
      (s.ledger.toHistory.record (handleGraphEvent W s.queue event).2 event)
      (handleGraphEvent W s.queue event).2 := by
  cases event with
  | taskSuccess task result => exact taskSuccess_handles hinv hidle hlegal hmeets
  | taskFailure task error => exact taskFailure_handles hinv hidle hlegal hmeets
  | streamItems stream items isStopped =>
      exact streamItems_handles hinv hidle hlegal hmeets
  | streamSuccess stream =>
      by_cases hroot : stream ∈ s.queue.rootStreams
      · have hmove : Move W C s _ := .streamEnd stream hroot hidle.newStreams
        have hstep : handleGraphEvent (I := I) (E := E) W s.queue
            (.streamSuccess stream) =
            ({ s.queue with
               pumpTasks := s.queue.pumpTasks.erase stream
               rootStreams := OrderedSet.remove s.queue.rootStreams stream },
              [.streamSuccess stream]) := by
          simp only [handleGraphEvent, hroot, if_true]
        rw [hstep]
        exact ⟨_, .single hmove, { hidle with }, rfl, rfl, rfl⟩
      · have hmove : Move W C s _ := .streamExit stream hroot
        have hstep : handleGraphEvent (I := I) (E := E) W s.queue
            (.streamSuccess stream) =
            ({ s.queue with
               pumpTasks := s.queue.pumpTasks.erase stream }, []) := by
          simp only [handleGraphEvent, hroot, if_false]
        rw [hstep]
        exact ⟨_, .single hmove, { hidle with }, rfl, rfl,
          (List.append_nil _).symm⟩
  | streamFailure stream error =>
      have hroot := (hinv.streams.root_iff stream).mpr hlegal
      have hmove : Move W C s _ := .streamFail stream error hroot
        hidle.newStreams
      exact ⟨_, .single hmove, { hidle with }, rfl, rfl, rfl⟩

end GraphqlCore.Incremental
