import GraphqlCore.Incremental.Stages
import Mathlib.Logic.Relation

/-!
# The invariant of the work queue

At every stage of every run the groups form a forest that is released from its
roots, the tasks and streams are where the ledger says, and the values
delivered so far are those of the delivered tasks, each once.
-/

set_option linter.unusedSectionVars false

namespace GraphqlCore.Incremental

open WorkQueue

variable {G T S V I E : Type} [DecidableEq G] [DecidableEq T] [DecidableEq S]

structure Inv (W : WorkGraph G T) (s : Stage G T S V I E) : Prop where
  forest : ReleaseForest W.parent s.queue.kids s.queue.rootGroups
    (s.limbo ++ s.found) s.ledger.groups s.ledger.failed
  limbo_alive : ∀ g ∈ s.limbo ++ s.found, s.queue.Alive g
  not_stopped : s.queue.stopped = false
  tasks : TaskInv W s.queue s.ledger
  streams : StreamInv s.queue s.ledger s.limboStreams
  failed_groups : ∀ g ∈ s.ledger.failed, g ∈ s.ledger.groups
  current_settled : ∀ t, s.ledger.current = some t → t ∈ s.ledger.settled
  results_settled : ∀ t v, s.ledger.results t = some v → t ∈ s.ledger.settled
  values : deliveredValues s.events =
    s.ledger.delivered.filterMap s.ledger.results
  delivered_result : ∀ t ∈ s.ledger.delivered,
    ∃ v, s.ledger.results t = some v

/-! ## What the operations do to the child groups -/

theorem createGroup_kids (W : WorkGraph G T) (parentTask : Option T)
    (st : WorkQueue G T S V × List G) (group g : G) :
    (createGroup W parentTask st group).1.kids g =
      (if g = group then some [] else st.1.kids g).map fun cs =>
        if W.parent group = some g then cs ++ [group] else cs := by
  have hnode := (createGroup_eq W parentTask st group).2.2.2 g
  simp only [kids, hnode, Option.map_map]
  by_cases hg : g = group
  · simp only [hg, if_true, Option.map_some, Function.comp_apply]
    split <;> rfl
  · simp only [hg, if_false, Option.map_map]
    cases st.1.node g with
    | none => rfl
    | some n =>
        simp only [Option.map_some, Function.comp_apply]
        split <;> rfl

theorem addTask_kids (W : WorkGraph G T) (q : WorkQueue G T S V) (task : T) :
    (WorkQueue.addTask W q task).kids = q.kids := by
  funext g
  have hnode := (foldl_addTaskToGroup q task (W.groups task)).1 g
  simp only [kids, WorkQueue.addTask, hnode, Option.map_map]
  rfl

theorem promoteGroup_kids (q : WorkQueue G T S V) (group : G) :
    (q.promoteGroup group).kids = q.kids := by
  funext g
  have hsame := foldl_startTask_sameGraph
    { q with rootGroups := OrderedSet.add q.rootGroups group }
    ((({ q with rootGroups := OrderedSet.add q.rootGroups group } :
      WorkQueue G T S V).members group).getD [])
  simp only [kids, promoteGroup, startGroup_eq, hsame.node]
  rfl

theorem promoteGroup_rootGroups (q : WorkQueue G T S V) (group : G) :
    (q.promoteGroup group).rootGroups = OrderedSet.add q.rootGroups group := by
  rw [promoteGroup, startGroup_eq]
  exact (foldl_startTask_sameGraph _ _).rootGroups

theorem modifyNode_kids (q : WorkQueue G T S V) (group : G)
    {f : GroupNode G T → GroupNode G T}
    (hf : ∀ n, (f n).childGroups = n.childGroups) :
    (q.modifyNode group f).kids = q.kids := by
  funext g
  simp only [kids, modifyNode_node]
  split
  · rw [Option.map_map]
    congr 1
    funext n
    exact hf n
  · rfl

/-- Pruning releases what it deletes and leaves what it finds in limbo. -/
theorem prune_forest {parent : G → Option G}
    {nodes : Dict G (GroupNode G T)} {roots limbo start : List G}
    {introduced failed : Set G}
    (h : ReleaseForest parent (kidsOf nodes) roots (limbo ++ start) introduced
      failed) :
    ReleaseForest parent (kidsOf (pruneEmptyGroups nodes start).1) roots
      (limbo ++ (pruneEmptyGroups nodes start).2) introduced failed := by
  have hrun := pruneEmptyGroups_run nodes start []
    (I := fun nodes' todo out => ReleaseForest parent (kidsOf nodes') roots
      ((limbo ++ out) ++ todo) introduced failed) ?_ ?_ ?_ (by simpa using h)
  · simpa using hrun
  · intro nodes' group rest out h _
    have hsub : List.Sublist (limbo ++ out ++ rest)
        (limbo ++ out ++ group :: rest) :=
      List.Sublist.append_left (List.sublist_cons_self group rest) _
    exact h.shrink_limbo (fun g hg => hsub.subset hg)
      (h.limbo_nodup.sublist hsub)
  · intro nodes' group n rest out h _ _
    simpa using h
  · intro nodes' group n rest out h hn _
    have hkids : kidsOf nodes' group = some n.childGroups := by
      simp [kidsOf, hn]
    have hnodup := h.limbo_nodup
    rw [List.nodup_append, List.nodup_cons] at hnodup
    obtain ⟨hout, ⟨hgroup, hrest⟩, hdisjoint⟩ := hnodup
    have hchild : ∀ c ∈ n.childGroups, c ∉ limbo ++ out ++ group :: rest :=
      fun c hc hmem => h.kid_not_released hkids hc (Or.inr (Or.inl hmem))
    refine h.release group (Or.inr (by simp)) hkids ?_ ?_ ?_ ?_ ?_
    · simp [kidsOf]
    · intro g hne
      simp [kidsOf, Dict.get_pop, hne]
    · intro g hg
      refine ⟨hg, ?_⟩
      rintro rfl
      exact h.limbo_not_root g (by simp) hg
    · intro g hg
      rcases List.mem_append.mp hg with hg | hg
      · refine Or.inl ⟨List.mem_append_left _ hg, ?_⟩
        rintro rfl
        exact hdisjoint g hg g List.mem_cons_self rfl
      · rcases List.mem_append.mp hg with hg | hg
        · exact Or.inr hg
        · refine Or.inl ⟨by simp [hg], ?_⟩
          rintro rfl
          exact hgroup hg
    · refine List.nodup_append.mpr ⟨hout, List.nodup_append.mpr
        ⟨h.kids_nodup group _ hkids, hrest, ?_⟩, ?_⟩
      · rintro c hc c' hc' rfl
        exact hchild c hc (by simp [hc'])
      · rintro g hg g' hg' rfl
        rcases List.mem_append.mp hg' with hg' | hg'
        · exact hchild g hg' (List.mem_append_left _ hg)
        · exact hdisjoint g hg g (List.mem_cons_of_mem _ hg') rfl

namespace Inv

variable {W : WorkGraph G T} {C : Conditions G T S V}
  {s s' : Stage G T S V I E}

theorem alive_introduced (h : Inv W s) {g : G} (hg : s.queue.Alive g) :
    g ∈ s.ledger.groups := by
  apply h.forest.present_introduced
  obtain ⟨cs, hcs⟩ := alive_iff_kids.mp hg
  simp [hcs]

theorem root_alive (h : Inv W s) {g : G} (hg : g ∈ s.queue.rootGroups) :
    s.queue.Alive g := by
  by_contra hdead
  exact h.forest.root_present g hg (kids_eq_none_iff.mpr hdead)

theorem create (h : Inv W s) (parentTask : Option T) {group : G}
    (hfresh : group ∉ s.ledger.groups) :
    Inv W
      { s with
        queue := (createGroup W parentTask (s.queue, s.found) group).1
        found := s.found ++ newRoots W parentTask group
        ledger := { s.ledger with
          groups := insert group s.ledger.groups
          origin := Function.update s.ledger.origin group parentTask } } := by
  obtain ⟨-, hframe, htask, hnode⟩ :=
    createGroup_eq W parentTask (s.queue, s.found) group
  have hkids := createGroup_kids W parentTask (s.queue, s.found) group
  set q' := (createGroup W parentTask (s.queue, s.found) group).1
  have hdead : ¬s.queue.Alive group := fun hlive =>
    hfresh (h.alive_introduced hlive)
  refine
    { forest := ?_
      limbo_alive := ?_
      not_stopped := hframe.stopped.trans h.not_stopped
      tasks := ?_
      streams := ?_
      failed_groups := fun g hg => Or.inr (h.failed_groups g hg)
      current_settled := h.current_settled
      results_settled := h.results_settled
      values := h.values
      delivered_result := h.delivered_result }
  · have hroots : q'.rootGroups = s.queue.rootGroups := hframe.rootGroups
    change ReleaseForest W.parent q'.kids q'.rootGroups
      (s.limbo ++ (s.found ++ newRoots W parentTask group)) _ _
    rw [hroots]
    refine h.forest.create hfresh ?_ ?_ ?_
      fun hf => hfresh (h.failed_groups group hf)
    · unfold newRoots
      split
      · next hc =>
        right
        exact ⟨by simp, hc.2⟩
      · left
        simp
    · intro g
      rw [hkids g]
      by_cases hg : g = group
      · simp [hg]
      · simp [hg]
    · intro p cs hp
      rw [hkids p] at hp
      obtain ⟨old, hold, rfl⟩ := Option.map_eq_some_iff.mp hp
      by_cases hg : p = group
      · rw [if_pos hg] at hold
        obtain rfl := Option.some.inj hold
        by_cases hparent : W.parent group = some p
        · right; left
          simp [hparent]
        · left
          simp [hparent]
      · rw [if_neg hg] at hold
        by_cases hparent : W.parent group = some p
        · right; right; right
          exact ⟨old, hold, by simp [hparent], hparent⟩
        · right; right; left
          simpa [hparent] using hold
  · intro g hg
    rw [← List.append_assoc, List.mem_append] at hg
    change (q'.node g).isSome
    rw [hnode g, Option.isSome_map]
    by_cases hne : g = group
    · simp [hne]
    · rw [if_neg hne]
      refine h.limbo_alive g (hg.resolve_right fun hnew => hne ?_)
      unfold newRoots at hnew
      split at hnew
      · exact List.mem_singleton.mp hnew
      · cases hnew
  · refine h.tasks.create hfresh ?_ ?_ hframe.rootGroups ?_ htask
      hframe.runningTasks _
    · constructor
      · simp only [members, hnode group, if_true, Option.map_some]
        split <;> rfl
      · simp only [pendingCount, hnode group, if_true, Option.map_some]
        split <;> rfl
    · intro g hg
      constructor
      · simp only [members, hnode g, if_neg hg, Option.map_map]
        congr 1
        funext n
        simp only [Function.comp_apply]
        split <;> rfl
      · simp only [pendingCount, hnode g, if_neg hg, Option.map_map]
        congr 1
        funext n
        simp only [Function.comp_apply]
        split <;> rfl
    · exact fun hroot => hdead (h.root_alive hroot)
  · refine h.streams.keep ?_ hframe.rootStreams hframe.pumpTasks rfl rfl rfl
      rfl rfl
    intro t n hn
    exact Or.inr ⟨n, htask ▸ hn, rfl⟩

theorem addTask (h : Inv W s) {task : T} (hfresh : task ∉ s.ledger.tasks)
    (hgroups : ∀ g ∈ W.groups task, g ∈ s.ledger.groups) :
    Inv W
      { s with
        queue := WorkQueue.addTask W s.queue task
        ledger := { s.ledger with tasks := s.ledger.tasks ++ [task] } } := by
  obtain ⟨-, ⟨hroots, hrootStreams, hstopped, hpump⟩, htask, -, -⟩ :=
    foldl_addTaskToGroup s.queue task (W.groups task)
  refine
    { forest := ?_
      limbo_alive := ?_
      not_stopped := hstopped.trans h.not_stopped
      tasks := h.tasks.addTask hfresh hgroups fun g hg => h.root_alive hg
      streams := ?_
      failed_groups := h.failed_groups
      current_settled := h.current_settled
      results_settled := h.results_settled
      values := h.values
      delivered_result := h.delivered_result }
  · have hkids := addTask_kids W s.queue task
    have hroots' : (WorkQueue.addTask W s.queue task).rootGroups =
        s.queue.rootGroups := hroots
    simp only [hkids, hroots']
    exact h.forest
  · intro g hg
    have hkids := congrFun (addTask_kids W s.queue task) g
    rw [alive_iff_kids, hkids, ← alive_iff_kids]
    exact h.limbo_alive g hg
  · refine h.streams.keep ?_ hrootStreams hpump rfl rfl rfl rfl rfl
    intro t n hn
    have hcase := (htask t).symm.trans hn
    split at hcase
    · obtain rfl := Option.some.inj hcase
      exact Or.inl rfl
    · exact Or.inr ⟨n, hcase, rfl⟩

theorem addStreams (h : Inv W s) {parentTask : Option T} {streams : List S}
    (hnodup : streams.Nodup) (hfresh : ∀ x ∈ streams, x ∉ s.ledger.streams) :
    Inv W
      { s with
        queue := (WorkQueue.addStreams s.queue streams parentTask).1
        limboStreams := s.limboStreams ++
          (WorkQueue.addStreams s.queue streams parentTask).2
        newStreams := s.newStreams ++
          (WorkQueue.addStreams s.queue streams parentTask).2
        ledger := { s.ledger with
          streams := s.ledger.streams ∪ { x | x ∈ streams }
          streamOrigin := fun x =>
            if x ∈ streams then parentTask
            else s.ledger.streamOrigin x } } := by
  have hsame : (WorkQueue.addStreams s.queue streams parentTask).1.kids =
      s.queue.kids ∧
      (WorkQueue.addStreams s.queue streams parentTask).1.rootGroups =
        s.queue.rootGroups := by
    cases parentTask <;> exact ⟨rfl, rfl⟩
  refine
    { forest := ?_
      limbo_alive := ?_
      not_stopped := by cases parentTask <;> exact h.not_stopped
      tasks := ?_
      streams := h.streams.add hnodup hfresh
      failed_groups := h.failed_groups
      current_settled := h.current_settled
      results_settled := h.results_settled
      values := h.values
      delivered_result := h.delivered_result }
  · simp only [hsame]
    exact h.forest
  · intro g hg
    rw [alive_iff_kids, congrFun hsame.1 g, ← alive_iff_kids]
    exact h.limbo_alive g hg
  · have htasks : TaskInv W
        (WorkQueue.addStreams s.queue streams parentTask).1 s.ledger := by
      cases parentTask with
      | none => exact h.tasks
      | some task =>
          refine h.tasks.attach (f := fun t l =>
            if t = task then l ++ streams else l) rfl rfl rfl ?_
          intro t
          refine (Dict.get_modify s.queue.taskNodes task t _).trans ?_
          change (if t = task then (s.queue.taskNode t).map _
            else s.queue.taskNode t) = _
          by_cases ht : t = task
          · simp [ht]
          · simp [ht]
    exact { htasks with }

theorem prune (h : Inv W s) :
    Inv W
      { s with
        queue := { s.queue with
          groupNodes := (pruneEmptyGroups s.queue.groupNodes s.found).1 }
        found := []
        limbo := s.limbo ++ (pruneEmptyGroups s.queue.groupNodes s.found).2
        news := s.news ++
          (pruneEmptyGroups s.queue.groupNodes s.found).2 } := by
  obtain ⟨gone, hprune⟩ := pruneEmptyGroups_prunes s.queue.groupNodes s.found
  refine
    { forest := ?_
      limbo_alive := ?_
      not_stopped := h.not_stopped
      tasks := ?_
      streams := ?_
      failed_groups := h.failed_groups
      current_settled := h.current_settled
      results_settled := h.results_settled
      values := h.values
      delivered_result := h.delivered_result }
  · have hold : ReleaseForest W.parent (kidsOf s.queue.groupNodes) _ _ _ _ :=
      h.forest
    have hforest := prune_forest hold
    simp only [List.append_nil]
    exact hforest
  · intro g hg
    rw [List.append_nil] at hg
    have hkept : g ∉ gone ∧ s.queue.Alive g := by
      rcases List.mem_append.mp hg with hg | hg
      · refine ⟨fun hgone => ?_, h.limbo_alive g (List.mem_append_left _ hg)⟩
        have hnodup := List.nodup_append.mp h.forest.limbo_nodup
        cases hprune.prunable g hgone with
        | start hmem _ => exact hnodup.2.2 g hg g hmem rfl
        | kid _ hk hc _ =>
            exact h.forest.kid_not_released hk hc
              (Or.inr (Or.inl (List.mem_append_left _ hg)))
      · obtain ⟨n, hn, hpending⟩ := hprune.out_pending g hg
        refine ⟨fun hgone => hpending ?_, alive_iff_node.mpr ⟨n, hn⟩⟩
        have hzero : (s.queue.groupNodes.get g).map GroupNode.pending = some 0 := by
          cases hprune.prunable g hgone with
          | start _ hp => exact hp
          | kid _ _ _ hp => exact hp
        simpa [hn] using hzero
    change (Dict.get _ g).isSome
    rw [hprune.get_kept g hkept.1]
    exact hkept.2
  · refine h.tasks.restrict ?_ (fun g hg => hg) (fun t => Or.inl rfl) rfl
    intro g
    by_cases hg : g ∈ gone
    · exact Or.inl (hprune.get_gone g hg)
    · right
      have hkept := hprune.get_kept g hg
      constructor
      · exact congrArg (Option.map GroupNode.tasks) hkept
      · exact congrArg (Option.map GroupNode.pending) hkept
  · exact h.streams.keep (fun t n hn => Or.inr ⟨n, hn, rfl⟩) rfl rfl rfl rfl rfl
      rfl rfl

theorem promote (h : Inv W s) {group : G} {rest : List G}
    (hlimbo : s.limbo = group :: rest) (hexcused : s.ledger.excused = ∅) :
    Inv W { s with queue := s.queue.promoteGroup group, limbo := rest } := by
  have hlive : s.queue.Alive group :=
    h.limbo_alive group (by simp [hlimbo])
  have hforest := h.forest
  rw [hlimbo] at hforest
  have hnodup := List.nodup_cons.mp hforest.limbo_nodup
  have hsame := foldl_startTask_sameGraph
    { s.queue with rootGroups := OrderedSet.add s.queue.rootGroups group }
    ((({ s.queue with
      rootGroups := OrderedSet.add s.queue.rootGroups group } :
        WorkQueue G T S V).members group).getD [])
  have htask := foldl_startTask_taskNode
    { s.queue with rootGroups := OrderedSet.add s.queue.rootGroups group }
    ((({ s.queue with
      rootGroups := OrderedSet.add s.queue.rootGroups group } :
        WorkQueue G T S V).members group).getD [])
  refine
    { forest := ?_
      limbo_alive := ?_
      not_stopped := by
        rw [WorkQueue.promoteGroup, startGroup_eq]
        exact hsame.stopped.trans h.not_stopped
      tasks := h.tasks.promoteGroup group hexcused
      streams := ?_
      failed_groups := h.failed_groups
      current_settled := h.current_settled
      results_settled := h.results_settled
      values := h.values
      delivered_result := h.delivered_result }
  · simp only [promoteGroup_kids, promoteGroup_rootGroups]
    refine hforest.promote group (by simp) ?_ ?_ ?_ ?_
    · obtain ⟨cs, hcs⟩ := alive_iff_kids.mp hlive
      simp [hcs]
    · intro g hg
      exact OrderedSet.mem_add.mp hg
    · intro g hg
      refine ⟨List.mem_cons_of_mem _ hg, ?_⟩
      rintro rfl
      exact hnodup.1 hg
    · exact hnodup.2
  · intro g hg
    rw [alive_iff_kids, congrFun (promoteGroup_kids s.queue group) g,
      ← alive_iff_kids]
    refine h.limbo_alive g ?_
    rw [hlimbo]
    exact List.mem_cons_of_mem _ hg
  · have heq : s.queue.promoteGroup group = _ := startGroup_eq _ group
    rw [← heq] at hsame htask
    refine h.streams.keep ?_ hsame.rootStreams hsame.pumpTasks rfl rfl rfl rfl
      rfl
    intro t n hn
    have hcase := (htask t).symm.trans hn
    split at hcase
    · obtain rfl := Option.some.inj hcase
      exact Or.inl rfl
    · exact Or.inr ⟨n, hcase, rfl⟩

theorem promoteStream (h : Inv W s) {stream : S} {rest : List S}
    (hlimbo : s.limboStreams = stream :: rest) :
    Inv W
      { s with
        queue := s.queue.promoteStream stream
        limboStreams := rest
        ledger := { s.ledger with
          startedStreams := insert stream s.ledger.startedStreams } } := by
  have hstreams := h.streams
  rw [hlimbo] at hstreams
  have htasks : TaskInv W (s.queue.promoteStream stream) s.ledger :=
    h.tasks.congr rfl rfl rfl rfl rfl
  exact
    { forest := h.forest
      limbo_alive := h.limbo_alive
      not_stopped := h.not_stopped
      tasks := { htasks with }
      streams := hstreams.promoteStream
      failed_groups := h.failed_groups
      current_settled := h.current_settled
      results_settled := h.results_settled
      values := h.values
      delivered_result := h.delivered_result }

/-- Changing the count of one group. -/
theorem countdown (h : Inv W s) {task : T} {group : G} {rest : List G}
    (hcurrent : s.ledger.current = some task)
    (hremaining : s.ledger.remaining task = group :: rest) :
    Inv W
      { s with
        queue := s.queue.modifyNode group fun n =>
          { n with pending := n.pending - 1 }
        ledger := { s.ledger with
          remaining := Function.update s.ledger.remaining task rest } } := by
  have hset := h.current_settled task hcurrent
  have hkids : (s.queue.modifyNode group fun n =>
      { n with pending := n.pending - 1 }).kids = s.queue.kids :=
    modifyNode_kids s.queue group fun _ => rfl
  refine
    { forest := ?_
      limbo_alive := ?_
      not_stopped := h.not_stopped
      tasks := h.tasks.countdown (h.tasks.settled_task task hset) hset hcurrent
        hremaining
      streams := h.streams.keep (fun t n hn => Or.inr ⟨n, hn, rfl⟩) rfl rfl rfl
        rfl rfl rfl rfl
      failed_groups := h.failed_groups
      current_settled := h.current_settled
      results_settled := h.results_settled
      values := h.values
      delivered_result := h.delivered_result }
  · simp only [hkids, modifyNode_rootGroups]
    exact h.forest
  · intro g hg
    rw [alive_iff_kids, congrFun hkids g, ← alive_iff_kids]
    exact h.limbo_alive g hg

/-- Every task of a group that finishes has a value to deliver. -/
theorem finishing_value (h : Inv W s) {task : T} {group : G} {rest : List G}
    {n : GroupNode G T} (hcurrent : s.ledger.current = some task)
    (hremaining : s.ledger.remaining task = group :: rest)
    (hfinishes : s.queue.Finishes group) (hexcused : s.ledger.excused = ∅)
    (hn : s.queue.node group = some n) :
    ∀ t ∈ n.tasks, t ∈ s.ledger.settled ∧ ∃ m v,
      s.queue.taskNode t = some m ∧ m.value = some v ∧
        s.ledger.results t = some v := by
  intro t ht
  have hmembers : s.queue.members group = some n.tasks := by
    simp [members, hn]
  obtain ⟨htask, hgroup, -⟩ := (h.tasks.member group _ hmembers t).mp ht
  -- After the countdown nothing is owed to the group any more.
  have hset : t ∈ s.ledger.settled := by
    by_contra hopen
    have hdown := (h.countdown hcurrent hremaining).tasks
    have hzero : (s.queue.modifyNode group fun n =>
        { n with pending := n.pending - 1 }).pendingCount group = some 0 := by
      have hpending := hfinishes.2
      simp only [pendingCount, hn, Option.map_some, Option.some.injEq] at hpending
      simp [pendingCount, modifyNode_node, hn, hpending]
    have howed := hdown.pending group 0 hzero
    have hcount : ((s.ledger.tasks.map fun t =>
        (Function.update s.ledger.remaining task rest t).count group).sum : ℕ) =
          0 := by
      exact_mod_cast howed.symm
    have hne : t ≠ task := fun heq =>
      hopen (heq ▸ h.current_settled task hcurrent)
    have hterm := List.sum_eq_zero_iff_forall_eq_nat.mp hcount _
      (List.mem_map.mpr ⟨t, htask, rfl⟩)
    rw [Function.update_of_ne hne, h.tasks.remaining_open t hopen,
      List.count_eq_zero] at hterm
    exact hterm hgroup
  obtain ⟨m, v, hm, hv⟩ := h.tasks.value group _ hmembers t ht hset
    (by simp [hexcused])
  exact ⟨hset, m, v, hm, hv, (h.tasks.value_result t m v hm hv).1⟩

theorem finish (h : Inv W s) {task : T} {group : G} {rest : List G}
    {n n' : GroupNode G T} (hcurrent : s.ledger.current = some task)
    (hremaining : s.ledger.remaining task = group :: rest)
    (hfinishes : s.queue.Finishes group) (hexcused : s.ledger.excused = ∅)
    (hfound : s.found = []) (hn : s.queue.node group = some n)
    (hn' : n' = { n with pending := n.pending - 1 })
    {r : WorkQueue G T S V × GroupFinish G S V I E}
    (hr : r = finishGroupSuccess W
      (s.queue.modifyNode group fun _ => n') group n') :
    Inv W
      { s with
        queue := r.1
        limbo := s.limbo ++ r.2.newGroups
        limboStreams := s.limboStreams ++ r.2.newStreams
        events := s.events ++ r.2.events
        ledger := { s.ledger with
          remaining := Function.update s.ledger.remaining task rest
          delivered := s.ledger.delivered ++ n.tasks } } := by
  have hmembers : s.queue.members group = some n.tasks := by
    simp [members, hn]
  have hnodup := h.tasks.members_nodup group _ hmembers
  have hvalue := h.finishing_value hcurrent hremaining hfinishes hexcused hn
  have hnew : ∀ t ∈ n.tasks, t ∉ s.ledger.delivered := fun t ht =>
    ((h.tasks.member group _ hmembers t).mp ht).2.2
  obtain ⟨⟨gone, hfin⟩, ⟨nodes, hkids₁, hkids, hnewGroups⟩, hstreams, hevents⟩ :=
    finishGroupSuccess_finished (I := I) (E := E) W s.queue group n n' (by rw [hn'])
    (by rw [hn']) hnodup
  rw [← hr] at hfin hkids hnewGroups hstreams hevents
  have hchildren : s.queue.kids group = some n.childGroups := by
    simp [kids, hn]
  have hroot := hfinishes.1
  have hforest := h.forest
  rw [hfound, List.append_nil] at hforest
  -- The group is released, and then its children are pruned.
  have hrelease : ReleaseForest W.parent (kidsOf nodes) r.1.rootGroups
      (s.limbo ++ n.childGroups) s.ledger.groups s.ledger.failed := by
    refine hforest.release group (Or.inl hroot) hchildren ?_ ?_ ?_ ?_ ?_
    · rw [hkids₁, if_pos rfl]
    · intro g hne
      rw [hkids₁, if_neg hne]
    · intro g hg
      rw [hfin.rootGroups, OrderedSet.mem_remove] at hg
      exact hg
    · intro g hg
      rcases List.mem_append.mp hg with hg | hg
      · refine Or.inl ⟨hg, ?_⟩
        rintro rfl
        exact hforest.limbo_not_root g hg hroot
      · exact Or.inr hg
    · rw [List.nodup_append]
      refine ⟨hforest.limbo_nodup, hforest.kids_nodup group _ hchildren, ?_⟩
      rintro g hg g' hg' rfl
      exact hforest.kid_not_released hchildren hg' (Or.inr (Or.inl hg))
  have hpruned := prune_forest hrelease
  have hlive : ∀ g ∈ s.limbo ++ r.2.newGroups, g ∉ gone ∧ g ≠ group ∧
      s.queue.Alive g := by
    intro g hg
    rcases List.mem_append.mp hg with hg | hg
    · refine ⟨fun hgone => ?_, ?_, h.limbo_alive g (List.mem_append_left _ hg)⟩
      · cases hfin.prunable g hgone with
        | start hmem _ =>
            exact hforest.kid_not_released hchildren hmem (Or.inr (Or.inl hg))
        | kid _ hk hc _ =>
            exact hforest.kid_not_released hk hc (Or.inr (Or.inl hg))
      · rintro rfl
        exact hforest.limbo_not_root g hg hroot
    · obtain ⟨m, hm, hpending, hne⟩ := hfin.out_pending g hg
      refine ⟨fun hgone => hpending ?_, hne, alive_iff_node.mpr ⟨m, hm⟩⟩
      have hzero : s.queue.pendingCount g = some 0 := by
        cases hfin.prunable g hgone with
        | start _ hp => exact hp
        | kid _ _ _ hp => exact hp
      simpa [pendingCount, hm] using hzero
  refine
    { forest := ?_
      limbo_alive := ?_
      not_stopped := hfin.stopped.trans h.not_stopped
      tasks := ?_
      streams := ?_
      failed_groups := h.failed_groups
      current_settled := h.current_settled
      results_settled := h.results_settled
      values := ?_
      delivered_result := ?_ }
  · simp only [hfound, List.append_nil, hkids, hnewGroups]
    exact hpruned
  · intro g hg
    rw [hfound, List.append_nil] at hg
    obtain ⟨hgone, hne, hlive⟩ := hlive g hg
    change (r.1.node g).isSome
    rw [hfin.node_kept g hgone hne, Option.isSome_map]
    exact hlive
  · -- The tasks are delivered before the groups are deleted.
    set q₁ := s.queue.modifyNode group fun n =>
      { n with pending := n.pending - 1 } with hq₁
    have hdown := (h.countdown hcurrent hremaining).tasks
    have hdeliver := foldl_deliverTask W (q := q₁) {} hnodup
    obtain ⟨-, hframe, htask, hnode⟩ := hdeliver
    set q₂ := (n.tasks.foldl (deliverTask W) (q₁, {})).1
    have hdelivered := hdown.deliver hnodup
      (fun t ht => (hvalue t ht).1)
      (fun t ht => by
        obtain ⟨-, m, v, hm, -⟩ := hvalue t ht
        change s.queue.taskNode t ≠ none
        simp [hm])
      hnode hframe.rootGroups hframe.runningTasks htask
    refine hdelivered.restrict ?_ ?_ ?_ ?_
    · intro g
      by_cases hg : g = group ∨ g ∈ gone
      · left
        rcases hg with rfl | hg
        · exact hfin.node_group
        · exact hfin.node_gone g hg
      · right
        rw [not_or] at hg
        have hsame : q₂.node g = r.1.node g := by
          rw [hnode g, hfin.node_kept g hg.2 hg.1, hq₁, modifyNode_node,
            if_neg hg.1]
          rfl
        simp only [members, pendingCount, hsame, and_self]
    · intro g hg
      rw [hframe.rootGroups]
      rw [hfin.rootGroups, OrderedSet.mem_remove] at hg
      exact hg.1
    · intro t
      left
      rw [hfin.taskNode t, htask t]
      rfl
    · rw [hfin.runningTasks, hframe.runningTasks]
      rfl
  · rw [hstreams]
    exact h.streams.deliver hnodup hnew hfin.taskNode hfin.rootStreams
      hfin.pumpTasks rfl rfl rfl rfl rfl
  · have hvalues : (deliveryOf s.queue n.tasks).values =
        n.tasks.filterMap s.ledger.results := by
      rw [List.filterMap_eq_flatMap_toList]
      apply List.flatMap_congr
      intro t ht
      obtain ⟨-, m, v, hm, hv, hres⟩ := hvalue t ht
      simp [hm, hv, hres]
    have hdelivered : deliveredValues r.2.events =
        (deliveryOf s.queue n.tasks).values := by
      rw [hevents]
      split
      · next hnil => simp [deliveredValues, WorkQueueEvent.delivered, hnil]
      · simp [deliveredValues, WorkQueueEvent.delivered]
    simp only [deliveredValues_append, hdelivered, hvalues,
      List.filterMap_append, h.values]
  · intro t ht
    rcases List.mem_append.mp ht with ht | ht
    · exact h.delivered_result t ht
    · obtain ⟨-, m, v, -, -, hres⟩ := hvalue t ht
      exact ⟨v, hres⟩

theorem settle (h : Inv W s) {task : T} {value : V}
    (hrunning : task ∈ s.queue.runningTasks)
    (hcurrent : s.ledger.current = none) :
    Inv W
      { s with
        queue := { s.queue with
          runningTasks := s.queue.runningTasks.erase task
          taskNodes := s.queue.taskNodes.modify task fun taskNode =>
            { taskNode with value := some value } }
        ledger := { s.ledger with
          settled := insert task s.ledger.settled
          results := Function.update s.ledger.results task (some value)
          current := some task } } := by
  have hget : ∀ t, (s.queue.taskNodes.modify task fun taskNode =>
      { taskNode with value := some value }).get t =
        if t = task then (s.queue.taskNode t).map fun n =>
          { n with value := some value }
        else s.queue.taskNode t :=
    fun t => Dict.get_modify s.queue.taskNodes task t _
  have hopen := (h.tasks.running_open task hrunning).2
  have hne : ∀ t ∈ s.ledger.delivered, t ≠ task := by
    rintro t ht rfl
    exact hopen (h.tasks.delivered_settled t ht)
  refine
    { forest := h.forest
      limbo_alive := h.limbo_alive
      not_stopped := h.not_stopped
      tasks := h.tasks.settle hrunning value hcurrent rfl rfl rfl hget
      streams := ?_
      failed_groups := h.failed_groups
      current_settled := ?_
      results_settled := ?_
      values := ?_
      delivered_result := ?_ }
  · refine h.streams.keep ?_ rfl rfl rfl rfl rfl rfl rfl
    intro t n hn
    right
    have hn' := (hget t).symm.trans hn
    split at hn'
    · obtain ⟨m, hm, rfl⟩ := Option.map_eq_some_iff.mp hn'
      exact ⟨m, hm, rfl⟩
    · exact ⟨n, hn', rfl⟩
  · rintro t heq
    exact Or.inl (Option.some.inj heq).symm
  · intro t v hv
    by_cases heq : t = task
    · exact Or.inl heq
    · simp only [Function.update_of_ne heq] at hv
      exact Or.inr (h.results_settled t v hv)
  · rw [h.values]
    apply List.filterMap_congr
    intro t ht
    simp [Function.update_of_ne (hne t ht)]
  · intro t ht
    obtain ⟨v, hv⟩ := h.delivered_result t ht
    exact ⟨v, by simp [Function.update_of_ne (hne t ht), hv]⟩

theorem settleEnd (h : Inv W s) {task : T}
    (hcurrent : s.ledger.current = some task)
    (hremaining : s.ledger.remaining task = []) :
    Inv W { s with ledger := { s.ledger with current := none } } :=
  { forest := h.forest
    limbo_alive := h.limbo_alive
    not_stopped := h.not_stopped
    tasks := h.tasks.settleEnd hremaining hcurrent
    streams := h.streams.keep (fun t n hn => Or.inr ⟨n, hn, rfl⟩) rfl rfl rfl
      rfl rfl rfl rfl
    failed_groups := h.failed_groups
    current_settled := by simp
    results_settled := h.results_settled
    values := h.values
    delivered_result := h.delivered_result }

theorem failBegin (h : Inv W s) {task : T}
    (hrunning : task ∈ s.queue.runningTasks)
    (hcurrent : s.ledger.current = none) :
    Inv W
      { s with
        queue := { s.queue with
          runningTasks := s.queue.runningTasks.erase task
          taskNodes := s.queue.taskNodes.pop task }
        ledger := { s.ledger with
          settled := insert task s.ledger.settled
          current := some task
          excused := insert task s.ledger.excused } } := by
  have hget : ∀ t, (s.queue.taskNodes.pop task).get t =
      if t = task then none else s.queue.taskNode t :=
    fun t => Dict.get_pop s.queue.taskNodes task t
  refine
    { forest := h.forest
      limbo_alive := h.limbo_alive
      not_stopped := h.not_stopped
      tasks := h.tasks.failBegin hrunning hcurrent rfl rfl rfl hget
      streams := ?_
      failed_groups := h.failed_groups
      current_settled := ?_
      results_settled := fun t v hv => Or.inr (h.results_settled t v hv)
      values := h.values
      delivered_result := h.delivered_result }
  · refine h.streams.keep ?_ rfl rfl rfl rfl rfl rfl rfl
    intro t n hn
    right
    have hn' := (hget t).symm.trans hn
    split at hn'
    · simp at hn'
    · exact ⟨n, hn', rfl⟩
  · rintro t heq
    exact Or.inl (Option.some.inj heq).symm

/-- A group fails with all groups below it. -/
theorem fail (h : Inv W s) {group : G} {error : E}
    (halive : s.queue.Alive group) (hlimbo : s.limbo = [])
    (hfound : s.found = [])
    {r : WorkQueue G T S V × WorkQueueEvent G S V I E}
    (hr : r = finishGroupFailure W s.queue group error) :
    Inv W
      { s with
        queue := r.1
        events := s.events ++ [r.2]
        ledger := { s.ledger with
          failed := insert group s.ledger.failed } } := by
  obtain ⟨gone, hremoves⟩ := removeGroup_removes W s.queue [group]
  have hq : r.1 = { removeGroup W s.queue [group] with
      rootGroups := OrderedSet.remove
        (removeGroup W s.queue [group]).rootGroups group } := by
    rw [hr]
    rfl
  have hnode : r.1.node = (removeGroup W s.queue [group]).node := by
    rw [hq]
    rfl
  have htask : r.1.taskNode = (removeGroup W s.queue [group]).taskNode := by
    rw [hq]
    rfl
  have hroots : r.1.rootGroups =
      OrderedSet.remove s.queue.rootGroups group := by
    rw [hq, hremoves.frame.rootGroups]
  have hbelow : ∀ g, Below s.queue.kids [group] g →
      g = group ∨ Ancestor W.parent group g := by
    intro g hg
    induction hg with
    | start hmem => exact Or.inl (List.mem_singleton.mp hmem)
    | kid _ hk hc ih =>
        have hparent := h.forest.kid_parent _ _ hk _ hc
        right
        rcases ih with rfl | hanc
        · exact .parent hparent
        · exact .step hparent hanc
  refine
    { forest := ?_
      limbo_alive := by simp [hlimbo, hfound]
      not_stopped := by
        rw [hq]
        exact hremoves.frame.stopped.trans h.not_stopped
      tasks := ?_
      streams := ?_
      failed_groups := ?_
      current_settled := h.current_settled
      results_settled := h.results_settled
      values := ?_
      delivered_result := h.delivered_result }
  · refine h.forest.fail group
      (hremoves.start_gone group List.mem_cons_self halive) ?_ ?_ ?_ ?_ ?_
    · obtain ⟨cs, hcs⟩ := alive_iff_kids.mp halive
      simp [hcs]
    · intro g hg
      simp only [kids, hnode, hremoves.node_gone g hg, Option.map_none]
    · intro g hg
      simp only [kids, hnode, hremoves.node_kept g hg]
    · exact fun g hg => hbelow g (hremoves.below g hg)
    · intro g hg
      rw [hroots, OrderedSet.mem_remove] at hg
      exact hg
  · have htasks : TaskInv W r.1 s.ledger := by
      refine h.tasks.restrict ?_ ?_ ?_ ?_
      · intro g
        by_cases hg : g ∈ gone
        · left
          rw [hnode]
          exact hremoves.node_gone g hg
        · right
          simp only [members, pendingCount, hnode, hremoves.node_kept g hg,
            and_self]
      · intro g hg
        rw [hroots, OrderedSet.mem_remove] at hg
        exact hg.1
      · intro t
        rw [htask]
        refine (hremoves.drops t).imp_right (And.imp_right ?_)
        intro hdead g hg
        rw [not_alive_iff, hnode]
        exact not_alive_iff.mp (hdead g hg)
      · rw [hq]
        exact hremoves.frame.runningTasks
    exact { htasks with }
  · refine h.streams.keep ?_ ?_ ?_ rfl rfl rfl rfl rfl
    · intro t n hn
      rw [htask] at hn
      rcases hremoves.drops t with hsame | ⟨hnone, -⟩
      · exact Or.inr ⟨n, hsame ▸ hn, rfl⟩
      · simp [hnone] at hn
    · rw [hq]
      exact hremoves.frame.rootStreams
    · rw [hq]
      exact hremoves.frame.pumpTasks
  · rintro g (rfl | hg)
    · exact h.alive_introduced halive
    · exact h.failed_groups g hg
  · rw [hr]
    simpa [deliveredValues, WorkQueueEvent.delivered, finishGroupFailure]
      using h.values

theorem failEnd (h : Inv W s) {task : T}
    (hcurrent : s.ledger.current = some task)
    (hsettled : task ∈ s.ledger.settled)
    (hdead : ∀ g ∈ W.groups task, ¬s.queue.Alive g) :
    Inv W
      { s with
        ledger := { s.ledger with
          excused := s.ledger.excused \ {task}
          current := none
          remaining := Function.update s.ledger.remaining task [] } } :=
  { forest := h.forest
    limbo_alive := h.limbo_alive
    not_stopped := h.not_stopped
    tasks := h.tasks.failEnd hsettled hcurrent hdead
    streams := h.streams.keep (fun t n hn => Or.inr ⟨n, hn, rfl⟩) rfl rfl rfl
      rfl rfl rfl rfl
    failed_groups := h.failed_groups
    current_settled := by simp
    results_settled := h.results_settled
    values := h.values
    delivered_result := h.delivered_result }

/-- The queue and the ledger of a stream that stops or ends. -/
theorem stopStream (h : Inv W s) (stream : S) {q' : WorkQueue G T S V}
    {γ' : Ledger G T S V} {event : WorkQueueEvent G S V I E}
    (hevent : event.delivered = [])
    (hq : q' = { s.queue with
      rootStreams := OrderedSet.remove s.queue.rootStreams stream
      pumpTasks := q'.pumpTasks })
    (hγ : γ' = { s.ledger with stoppedStreams := γ'.stoppedStreams })
    (hpump : q'.pumpTasks = s.queue.pumpTasks.erase stream ∧
        γ'.stoppedStreams = s.ledger.stoppedStreams ∨
      q'.pumpTasks = s.queue.pumpTasks ∧ stream ∈ s.queue.pumpTasks ∧
        γ'.stoppedStreams = insert stream s.ledger.stoppedStreams) :
    Inv W { s with
      queue := q', events := s.events ++ [event], ledger := γ' } := by
  have hstop := h.streams.stop stream (by rw [hq]; rfl) (by rw [hq]) hpump (by rw [hγ]) (by rw [hγ])
    (by rw [hγ]) (by rw [hγ])
  have htasks : TaskInv W q' s.ledger :=
    h.tasks.congr (by rw [hq]; rfl) (by rw [hq]; rfl) (by rw [hq])
      (by rw [hq]; rfl) (by rw [hq])
  rw [hγ] at hstop ⊢
  rw [hq] at hstop htasks ⊢
  exact
    { forest := h.forest
      limbo_alive := h.limbo_alive
      not_stopped := h.not_stopped
      tasks := { htasks with }
      streams := hstop
      failed_groups := h.failed_groups
      current_settled := h.current_settled
      results_settled := h.results_settled
      values := by simpa [deliveredValues, hevent] using h.values
      delivered_result := h.delivered_result }

/-- Every move preserves the invariant. -/
theorem move (h : Inv W s) (hmove : Move W C s s') : Inv W s' := by
  cases hmove with
  | create parentTask group hfresh => exact h.create parentTask hfresh
  | addTask task hfresh hgroups => exact h.addTask hfresh hgroups
  | addStreams parentTask streams hnodup hfresh =>
      exact h.addStreams hnodup hfresh
  | prune => exact h.prune
  | promote group rest hlimbo hexcused => exact h.promote hlimbo hexcused
  | promoteStream stream rest hlimbo => exact h.promoteStream hlimbo
  | settle task value hrunning hcurrent => exact h.settle hrunning hcurrent
  | countdown task group rest hcurrent hremaining =>
      exact h.countdown hcurrent hremaining
  | finish task group rest n n' hcurrent hremaining hfinishes hexcused _ _
      hfound hn hn' _ r hr =>
      exact h.finish hcurrent hremaining hfinishes hexcused hfound hn hn' hr
  | settleEnd task hcurrent hremaining =>
      exact h.settleEnd hcurrent hremaining
  | failBegin task hrunning hcurrent => exact h.failBegin hrunning hcurrent
  | fail group error halive hlimbo hfound _ _ r hr =>
      exact h.fail halive hlimbo hfound hr
  | failEnd task hcurrent hsettled hdead =>
      exact h.failEnd hcurrent hsettled hdead
  | streamValues stream values =>
      exact
        { h with
          values := by
            simpa [deliveredValues, WorkQueueEvent.delivered] using h.values }
  | streamStop stream hroot =>
      exact h.stopStream stream rfl rfl rfl
        (Or.inr ⟨rfl, ((h.streams.root_iff stream).mp hroot).1, rfl⟩)
  | streamEnd stream =>
      exact h.stopStream stream rfl rfl rfl (Or.inl ⟨rfl, rfl⟩)
  | streamExit stream hroot =>
      have hstop : StreamInv
          { s.queue with pumpTasks := s.queue.pumpTasks.erase stream }
          s.ledger s.limboStreams := h.streams.stop stream rfl
        (OrderedSet.remove_of_not_mem hroot).symm (Or.inl ⟨rfl, rfl⟩) rfl rfl
        rfl rfl
      exact { h with tasks := h.tasks.congr rfl rfl rfl rfl rfl, streams := hstop }
  | streamFail stream =>
      exact h.stopStream stream rfl rfl rfl (Or.inl ⟨rfl, rfl⟩)

end Inv

/-- Sequences of moves. -/
abbrev Moves (W : WorkGraph G T) (C : Conditions G T S V) :
    Stage G T S V I E → Stage G T S V I E → Prop :=
  Relation.ReflTransGen (Move W C)

theorem Inv.moves {W : WorkGraph G T} {C : Conditions G T S V}
    {s s' : Stage G T S V I E} (h : Inv W s) (hmoves : Moves W C s s') :
    Inv W s' := by
  induction hmoves with
  | refl => exact h
  | tail _ hmove ih => exact ih.move hmove

end GraphqlCore.Incremental
