import GraphqlCore.Incremental.Progress

/-!
# Which groups a move releases

A move leaves the groups as they are, adds one, or deletes some: by pruning, by
finishing a root group, or by failing a group with everything below it.  From
this case analysis follows what the moves release and which groups can still
become roots.
-/

set_option linter.unusedSectionVars false

namespace GraphqlCore.Incremental

open WorkQueue

variable {G T S V I E : Type} [DecidableEq G] [DecidableEq T] [DecidableEq S]
  {W : WorkGraph G T} {C : Conditions G T S V}

namespace Stage

/-- The group is gone without having failed. -/
def Released (W : WorkGraph G T) (s : Stage G T S V I E) (g : G) : Prop :=
  GraphqlCore.Released W.parent s.queue.kids s.ledger.groups s.ledger.failed g

/-- The roots and the groups that are about to become roots. -/
def tops (s : Stage G T S V I E) : List G :=
  s.queue.rootGroups ++ (s.limbo ++ s.found)

/-- The group can still become a root. -/
def Attached (s : Stage G T S V I E) (g : G) : Prop :=
  s.queue.Alive g ∧ Below s.queue.kids s.tops g

/-- From `s` to `s'` the groups in `gone` are deleted and their children
released. -/
structure LetsGo (W : WorkGraph G T) (s s' : Stage G T S V I E)
    (gone : Set G) : Prop where
  groups : s'.ledger.groups = s.ledger.groups
  failed : s'.ledger.failed = s.ledger.failed
  kids_gone : ∀ g ∈ gone, s'.queue.kids g = none
  kids_kept : ∀ g ∉ gone, s'.queue.kids g = s.queue.kids g
  not_lost : ∀ g ∈ gone, s.queue.Alive g ∧ ¬Lost W.parent s.ledger.failed g
  below : ∀ g ∈ gone, Below s.queue.kids s.tops g
  tops : ∀ g ∈ s'.tops, g ∈ s.tops ∨
    ∃ p ∈ gone, ∃ cs, s.queue.kids p = some cs ∧ g ∈ cs
  cover : ∀ g, s.queue.Alive g → (g ∈ s.tops ∨
    ∃ p ∈ gone, ∃ cs, s.queue.kids p = some cs ∧ g ∈ cs) →
      g ∈ gone ∨ g ∈ s'.tops

/-- What a move does to the forest of groups. -/
inductive Reshape (W : WorkGraph G T) (C : Conditions G T S V)
    (s s' : Stage G T S V I E) : Prop
  | keep (hkids : s'.queue.kids = s.queue.kids)
      (htops : ∀ g, g ∈ s'.tops ↔ g ∈ s.tops)
      (hgroups : s'.ledger.groups = s.ledger.groups)
      (hfailed : s'.ledger.failed = s.ledger.failed)
  | create (parentTask : Option T) (group : G)
      (hfresh : group ∉ s.ledger.groups)
      (hkids : ∀ g, s'.queue.kids g =
        (if g = group then some [] else s.queue.kids g).map fun cs =>
          if W.parent group = some g then cs ++ [group] else cs)
      (htops : ∀ g, g ∈ s'.tops ↔
        g ∈ s.tops ∨ g ∈ newRoots W parentTask group)
      (hgroups : s'.ledger.groups = insert group s.ledger.groups)
      (hfailed : s'.ledger.failed = s.ledger.failed)
  | prune (gone : Set G) (h : LetsGo W s s' gone)
      (hcurrent : s.ledger.current = none)
      (hprunable : ∀ g ∈ gone,
        Prunable s.queue.kids s.queue.pendingCount s.found g)
  | finish (group : G) (rest : List G) (n : GroupNode G T) (gone : Set G)
      (h : LetsGo W s s' (insert group gone))
      (hn : s.queue.node group = some n)
      (hcond : C.finish s.queue group rest)
      (hprunable : ∀ g ∈ gone,
        Prunable s.queue.kids s.queue.pendingCount n.childGroups g)
      (hdelivered : s'.ledger.delivered = s.ledger.delivered ++ n.tasks)
  | fail (group : G) (gone : Set G) (hmem : group ∈ gone)
      (halive : ∀ g ∈ gone, s.queue.Alive g)
      (hgone : ∀ g ∈ gone, s'.queue.kids g = none)
      (hkept : ∀ g ∉ gone, s'.queue.kids g = s.queue.kids g)
      (hbelow : ∀ g ∈ gone, g = group ∨ Ancestor W.parent group g)
      (hchildren : ∀ p ∈ gone, ∀ cs, s.queue.kids p = some cs → ∀ c ∈ cs,
        s.queue.Alive c → c ∈ gone)
      (htops : ∀ g, g ∈ s'.tops ↔ g ∈ s.tops ∧ g ≠ group)
      (hgroups : s'.ledger.groups = s.ledger.groups)
      (hfailed : s'.ledger.failed = insert group s.ledger.failed)

end Stage

/-! ## The case analysis -/

theorem WorkQueue.Prunable.pending_zero {kids : G → Option (List G)}
    {pending : G → Option ℤ} {start : List G} {g : G}
    (h : Prunable kids pending start g) : pending g = some 0 := by
  cases h with
  | start _ hp => exact hp
  | kid _ _ _ hp => exact hp

theorem WorkQueue.Prunable.toBelow {kids : G → Option (List G)}
    {pending : G → Option ℤ} {start : List G} {g : G}
    (h : Prunable kids pending start g) : Below kids start g := by
  induction h with
  | start hmem _ => exact .start hmem
  | kid _ hk hc _ ih => exact .kid ih hk hc

theorem WorkQueue.Below.trans {kids : G → Option (List G)}
    {start tops : List G} {g : G} (hg : Below kids start g)
    (hstart : ∀ x ∈ start, Below kids tops x) : Below kids tops g := by
  induction hg with
  | start hmem => exact hstart _ hmem
  | kid _ hk hc ih => exact .kid ih hk hc

theorem WorkQueue.alive_of_pendingCount {q : WorkQueue G T S V} {g : G} {p : ℤ}
    (h : q.pendingCount g = some p) : q.Alive g := by
  obtain ⟨n, hn, -⟩ := Option.map_eq_some_iff.mp h
  exact alive_iff_node.mpr ⟨n, hn⟩

namespace Inv

variable {s s' : Stage G T S V I E}

theorem tops_eq (s : Stage G T S V I E) (g : G) : g ∈ s.tops ↔
    g ∈ s.queue.rootGroups ∨ g ∈ s.limbo ∨ g ∈ s.found := by
  simp [Stage.tops]

theorem tops_alive (h : Inv W s) {g : G} (hg : g ∈ s.tops) :
    s.queue.Alive g := by
  rcases List.mem_append.mp hg with hg | hg
  · exact h.root_alive hg
  · exact h.limbo_alive g hg

/-- A living child of a group that is not lost is not lost. -/
theorem kid_not_lost (h : Inv W s) {p c : G} {cs : List G}
    (hk : s.queue.kids p = some cs) (hc : c ∈ cs) (hlive : s.queue.Alive c)
    (hp : ¬Lost W.parent s.ledger.failed p) :
    ¬Lost W.parent s.ledger.failed c := by
  rw [lost_iff]
  rintro (hf | ⟨p', hp', hlost⟩)
  · exact kids_eq_none_iff.mp (h.forest.failed_gone c hf) hlive
  · have hparent := h.forest.kid_parent p cs hk c hc
    obtain rfl := Option.some.inj (hp'.symm.trans hparent)
    exact hp hlost

theorem prunable_not_lost (h : Inv W s) {start : List G} {g : G}
    (hstart : ∀ x ∈ start, s.queue.Alive x →
      ¬Lost W.parent s.ledger.failed x)
    (hg : Prunable s.queue.kids s.queue.pendingCount start g) :
    s.queue.Alive g ∧ ¬Lost W.parent s.ledger.failed g := by
  have hlive := alive_of_pendingCount hg.pending_zero
  refine ⟨hlive, ?_⟩
  clear hlive
  induction hg with
  | start hmem hp => exact hstart _ hmem (alive_of_pendingCount hp)
  | kid _ hk hc hp ih =>
      exact h.kid_not_lost hk hc (alive_of_pendingCount hp) ih

theorem top_not_lost (h : Inv W s) {g : G} (hg : g ∈ s.tops) :
    ¬Lost W.parent s.ledger.failed g := by
  obtain ⟨cs, hcs⟩ := alive_iff_kids.mp (h.tops_alive hg)
  refine h.forest.not_lost_of_present ?_ (by simp [hcs])
  rcases List.mem_append.mp hg with hg | hg
  · exact Or.inl hg
  · exact Or.inr hg

theorem prune_letsGo (h : Inv W s) :
    ∃ gone, Stage.LetsGo W s
      { s with
        queue := { s.queue with
          groupNodes := (pruneEmptyGroups s.queue.groupNodes s.found).1 }
        found := []
        limbo := s.limbo ++ (pruneEmptyGroups s.queue.groupNodes s.found).2
        news := s.news ++ (pruneEmptyGroups s.queue.groupNodes s.found).2 }
      gone ∧ ∀ g ∈ gone,
        Prunable s.queue.kids s.queue.pendingCount s.found g := by
  obtain ⟨gone, hprune⟩ := pruneEmptyGroups_prunes s.queue.groupNodes s.found
  have hprunable : ∀ g ∈ gone,
      Prunable s.queue.kids s.queue.pendingCount s.found g :=
    hprune.prunable
  have hkid : ∀ g, (∃ p ∈ gone, ∃ cs, s.queue.kids p = some cs ∧ g ∈ cs) →
      ∃ p ∈ gone, ∃ n, s.queue.groupNodes.get p = some n ∧
        g ∈ n.childGroups := by
    rintro g ⟨p, hp, cs, hcs, hg⟩
    obtain ⟨n, hn, rfl⟩ := Option.map_eq_some_iff.mp hcs
    exact ⟨p, hp, n, hn, hg⟩
  refine ⟨gone, ⟨rfl, rfl, ?_, ?_, ?_, ?_, ?_, ?_⟩, hprunable⟩
  · intro g hg
    simp only [kids, node, hprune.get_gone g hg, Option.map_none]
  · intro g hg
    simp only [kids, node, hprune.get_kept g hg]
  · intro g hg
    refine h.prunable_not_lost (fun x hx _ => ?_) (hprunable g hg)
    exact h.top_not_lost ((tops_eq s x).mpr (Or.inr (Or.inr hx)))
  · intro g hg
    refine (hprunable g hg).toBelow.trans fun x hx => .start ?_
    exact (tops_eq s x).mpr (Or.inr (Or.inr hx))
  · intro g hg
    rw [tops_eq] at hg ⊢
    simp only [List.mem_append, List.not_mem_nil, or_false] at hg
    rcases hg with hg | hg | hg
    · exact Or.inl (Or.inl hg)
    · exact Or.inl (Or.inr (Or.inl hg))
    · rcases hprune.reached g (Or.inr hg) with hg | ⟨p, hp, n, hn, hg⟩
      · exact Or.inl (Or.inr (Or.inr hg))
      · refine Or.inr ⟨p, hp, n.childGroups, ?_, hg⟩
        simp only [kids, node, hn, Option.map_some]
  · intro g hlive hg
    rw [tops_eq] at hg ⊢
    simp only [List.mem_append, List.not_mem_nil, or_false]
    obtain ⟨m, hm⟩ := alive_iff_node.mp hlive
    have hcover := hprune.cover g
    rcases hg with (hg | hg | hg) | hg
    · exact Or.inr (Or.inl hg)
    · exact Or.inr (Or.inr (Or.inl hg))
    · rcases hcover (Or.inl hg) ⟨m, hm⟩ with hg | hg | hg
      · exact Or.inl hg
      · exact Or.inr (Or.inr (Or.inr hg))
      · cases hg
    · rcases hcover (Or.inr (hkid g hg)) ⟨m, hm⟩ with hg | hg | hg
      · exact Or.inl hg
      · exact Or.inr (Or.inr (Or.inr hg))
      · cases hg

theorem finish_letsGo (h : Inv W s) {group : G} {n n' : GroupNode G T}
    (hroot : group ∈ s.queue.rootGroups) (hn : s.queue.node group = some n)
    (hn' : n' = { n with pending := n.pending - 1 }) (hfound : s.found = [])
    {r : WorkQueue G T S V × GroupFinish G S V I E}
    (hr : r = finishGroupSuccess W
      (s.queue.modifyNode group fun _ => n') group n') :
    ∃ gone, (∀ s' : Stage G T S V I E, s'.queue = r.1 →
        s'.limbo = s.limbo ++ r.2.newGroups → s'.found = s.found →
        s'.ledger.groups = s.ledger.groups →
        s'.ledger.failed = s.ledger.failed →
        Stage.LetsGo W s s' (insert group gone)) ∧ ∀ g ∈ gone,
      Prunable s.queue.kids s.queue.pendingCount n.childGroups g := by
  have hmembers : s.queue.members group = some n.tasks := by
    simp [members, hn]
  obtain ⟨⟨gone, hfin⟩, -⟩ :=
    finishGroupSuccess_finished (I := I) (E := E) W s.queue group n n'
      (by rw [hn']) (by rw [hn']) (h.tasks.members_nodup group _ hmembers)
  refine ⟨gone, ?_, hfin.prunable⟩
  intro s' hqueue hlimbo hfound' hgroups hfailed
  rw [← hr, ← hqueue] at hfin
  have hkids : s.queue.kids group = some n.childGroups := by simp [kids, hn]
  have htop : group ∈ s.tops := (tops_eq s group).mpr (Or.inl hroot)
  have hkid : ∀ g, (∃ p ∈ insert group gone, ∃ cs,
      s.queue.kids p = some cs ∧ g ∈ cs) ↔
      g ∈ n.childGroups ∨ ∃ p ∈ gone, ∃ cs, s.queue.kids p = some cs ∧
        g ∈ cs := by
    intro g
    constructor
    · rintro ⟨p, rfl | hp, cs, hcs, hg⟩
      · obtain rfl := Option.some.inj (hkids.symm.trans hcs)
        exact Or.inl hg
      · exact Or.inr ⟨p, hp, cs, hcs, hg⟩
    · rintro (hg | ⟨p, hp, cs, hcs, hg⟩)
      · exact ⟨group, Or.inl rfl, _, hkids, hg⟩
      · exact ⟨p, Or.inr hp, cs, hcs, hg⟩
  refine ⟨hgroups, hfailed, ?_, ?_, ?_, ?_, ?_, ?_⟩
  · rintro g (rfl | hg)
    · simp only [kids, hfin.node_group, Option.map_none]
    · simp only [kids, hfin.node_gone g hg, Option.map_none]
  · intro g hg
    rw [Set.mem_insert_iff, not_or] at hg
    simp only [kids, hfin.node_kept g hg.2 hg.1, Option.map_map]
    rfl
  · rintro g (rfl | hg)
    · exact ⟨h.root_alive hroot, h.top_not_lost htop⟩
    · exact h.prunable_not_lost
        (fun x hx hlive => h.kid_not_lost hkids hx hlive (h.top_not_lost htop))
        (hfin.prunable g hg)
  · rintro g (rfl | hg)
    · exact .start htop
    · exact (hfin.prunable g hg).toBelow.trans fun x hx =>
        .kid (.start htop) hkids hx
  · intro g hg
    rw [tops_eq, hfound', hfound, hlimbo, hfin.rootGroups,
      OrderedSet.mem_remove, List.mem_append] at hg
    rw [hkid g, tops_eq]
    rcases hg with hg | (hg | hg) | hg
    · exact Or.inl (Or.inl hg.1)
    · exact Or.inl (Or.inr (Or.inl hg))
    · exact Or.inr (hfin.out_reached g hg)
    · cases hg
  · intro g hlive hg
    rw [tops_eq s', hfound', hlimbo, hfin.rootGroups, OrderedSet.mem_remove,
      List.mem_append, Set.mem_insert_iff]
    rw [hkid g, tops_eq, hfound] at hg
    by_cases heq : g = group
    · exact Or.inl (Or.inl heq)
    rcases hg with (hg | hg | hg) | hg
    · exact Or.inr (Or.inl ⟨hg, heq⟩)
    · exact Or.inr (Or.inr (Or.inl (Or.inl hg)))
    · cases hg
    · rcases hfin.cover g hg hlive with hg | hg | hg
      · exact absurd hg heq
      · exact Or.inl (Or.inr hg)
      · exact Or.inr (Or.inr (Or.inl (Or.inr hg)))

theorem below_singleton_ancestor (h : Inv W s) {group g : G}
    (hg : Below s.queue.kids [group] g) :
    g = group ∨ Ancestor W.parent group g := by
  induction hg with
  | start hmem => exact Or.inl (List.mem_singleton.mp hmem)
  | kid _ hk hc ih =>
      have hparent := h.forest.kid_parent _ _ hk _ hc
      right
      rcases ih with rfl | hanc
      · exact .parent hparent
      · exact .step hparent hanc

/-- What a move does to the forest of groups. -/
theorem reshape (h : Inv W s) (hmove : Move W C s s') :
    Stage.Reshape W C s s' := by
  cases hmove with
  | create parentTask group hfresh =>
      refine .create parentTask group hfresh ?_ ?_ rfl rfl
      · exact createGroup_kids W parentTask (s.queue, s.found) group
      · intro g
        have hroots := (createGroup_eq W parentTask
          (s.queue, s.found) group).2.1.rootGroups
        simp only [tops_eq, hroots, List.mem_append]
        tauto
  | addTask task =>
      refine .keep (addTask_kids W s.queue task) (fun g => ?_) rfl rfl
      simp only [tops_eq, addTask_rootGroups]
  | addStreams parentTask streams =>
      cases parentTask <;> exact .keep rfl (fun _ => Iff.rfl) rfl rfl
  | prune hcurrent =>
      obtain ⟨gone, hgone, hprunable⟩ := h.prune_letsGo
      exact .prune gone hgone hcurrent hprunable
  | promote group rest hlimbo =>
      refine .keep (promoteGroup_kids s.queue group) (fun g => ?_) rfl rfl
      simp only [tops_eq, promoteGroup_rootGroups, OrderedSet.mem_add, hlimbo,
        List.mem_cons]
      tauto
  | promoteStream => exact .keep rfl (fun _ => Iff.rfl) rfl rfl
  | settle => exact .keep rfl (fun _ => Iff.rfl) rfl rfl
  | countdown task group =>
      refine .keep (modifyNode_kids s.queue group fun _ => rfl) (fun g => ?_)
        rfl rfl
      simp only [tops_eq, modifyNode_rootGroups]
  | finish task group rest n n' hcurrent hremaining hfinishes hexcused _ _
      hfound hn hn' hcond r hr =>
      obtain ⟨gone, hlets, hprunable⟩ := h.finish_letsGo hfinishes.1 hn hn'
        hfound hr
      exact .finish group rest n gone (hlets _ rfl rfl rfl rfl rfl) hn hcond
        hprunable rfl
  | settleEnd => exact .keep rfl (fun _ => Iff.rfl) rfl rfl
  | failBegin => exact .keep rfl (fun _ => Iff.rfl) rfl rfl
  | fail group error halive hlimbo hfound hnews hcond r hr =>
      obtain ⟨gone, hremoves⟩ := removeGroup_removes W s.queue [group]
      have hkids : ∀ g, r.1.kids g =
          (removeGroup W s.queue [group]).kids g := by
        rw [hr]
        exact fun g => rfl
      refine .fail group gone
        (hremoves.start_gone group List.mem_cons_self halive) hremoves.alive
        ?_ ?_ (fun g hg => h.below_singleton_ancestor (hremoves.below g hg))
        hremoves.kids_gone ?_ rfl rfl
      · intro g hg
        refine (hkids g).trans ?_
        simp only [kids, hremoves.node_gone g hg, Option.map_none]
      · intro g hg
        refine (hkids g).trans ?_
        simp only [kids, hremoves.node_kept g hg]
      · intro g
        have hroots : r.1.rootGroups =
            OrderedSet.remove s.queue.rootGroups group := by
          rw [hr, ← hremoves.frame.rootGroups]
          rfl
        simp only [tops_eq, hroots, OrderedSet.mem_remove, hlimbo, hfound,
          List.not_mem_nil, or_false]
  | failEnd => exact .keep rfl (fun _ => Iff.rfl) rfl rfl
  | streamValues => exact .keep rfl (fun _ => Iff.rfl) rfl rfl
  | streamStop => exact .keep rfl (fun _ => Iff.rfl) rfl rfl
  | streamEnd => exact .keep rfl (fun _ => Iff.rfl) rfl rfl
  | streamExit => exact .keep rfl (fun _ => Iff.rfl) rfl rfl
  | streamFail => exact .keep rfl (fun _ => Iff.rfl) rfl rfl

end Inv

/-! ## What follows for released and attached groups -/

namespace Stage.LetsGo

variable {s s' : Stage G T S V I E} {gone : Set G}

theorem dead (h : LetsGo W s s' gone) {g : G} (hg : g ∈ gone) :
    ¬s'.queue.Alive g :=
  kids_eq_none_iff.mp (h.kids_gone g hg)

theorem released (h : LetsGo W s s' gone) (hinv : Inv W s) {g : G}
    (hg : g ∈ gone) : s'.Released W g :=
  ⟨h.groups ▸ hinv.alive_introduced (h.not_lost g hg).1, h.kids_gone g hg,
    h.failed ▸ (h.not_lost g hg).2⟩

theorem below_forward (h : LetsGo W s s' gone) {g : G}
    (hg : Below s.queue.kids s.tops g) (hold : s.queue.Alive g)
    (hlive : s'.queue.Alive g) : Below s'.queue.kids s'.tops g := by
  induction hg with
  | @start g hmem =>
      exact .start ((h.cover g hold (Or.inl hmem)).resolve_left
        fun hgone => h.dead hgone hlive)
  | @kid p c cs _ hk hc ih =>
      by_cases hp : p ∈ gone
      · exact .start ((h.cover c hold (Or.inr ⟨p, hp, cs, hk, hc⟩)).resolve_left
          fun hgone => h.dead hgone hlive)
      · have hk' : s'.queue.kids p = some cs := (h.kids_kept p hp).trans hk
        exact .kid (ih (alive_iff_kids.mpr ⟨cs, hk⟩)
          (alive_iff_kids.mpr ⟨cs, hk'⟩)) hk' hc

theorem below_backward (h : LetsGo W s s' gone) {g : G}
    (hg : Below s'.queue.kids s'.tops g) : Below s.queue.kids s.tops g := by
  induction hg with
  | start hmem =>
      rcases h.tops _ hmem with htop | ⟨p, hp, cs, hk, hc⟩
      · exact .start htop
      · exact .kid (h.below p hp) hk hc
  | @kid p c cs _ hk hc ih =>
      have hp : p ∉ gone := fun hgone => h.dead hgone
        (alive_iff_kids.mpr ⟨cs, hk⟩)
      exact .kid ih ((h.kids_kept p hp).symm.trans hk) hc

theorem alive_backward (h : LetsGo W s s' gone) {g : G}
    (hg : s'.queue.Alive g) : s.queue.Alive g := by
  obtain ⟨cs, hk⟩ := alive_iff_kids.mp hg
  have hnot : g ∉ gone := fun hgone => h.dead hgone hg
  exact alive_iff_kids.mpr ⟨cs, (h.kids_kept g hnot).symm.trans hk⟩

end Stage.LetsGo

namespace Inv

variable {s s' : Stage G T S V I E}

theorem released_mono (h : Inv W s) (hmove : Move W C s s') {g : G}
    (hg : s.Released W g) : s'.Released W g := by
  obtain ⟨hintro, hgone, hlost⟩ := hg
  cases h.reshape hmove with
  | keep hkids htops hgroups hfailed =>
      exact ⟨hgroups ▸ hintro, hkids ▸ hgone, hfailed ▸ hlost⟩
  | create parentTask group hfresh hkids htops hgroups hfailed =>
      refine ⟨hgroups ▸ Or.inr hintro, ?_, hfailed ▸ hlost⟩
      have hne : g ≠ group := fun heq => hfresh (heq ▸ hintro)
      rw [hkids g, if_neg hne, hgone, Option.map_none]
  | prune gone hlets =>
      refine ⟨hlets.groups ▸ hintro, ?_, hlets.failed ▸ hlost⟩
      by_cases hmem : g ∈ gone
      · exact hlets.kids_gone g hmem
      · rw [hlets.kids_kept g hmem, hgone]
  | finish group rest n gone hlets =>
      refine ⟨hlets.groups ▸ hintro, ?_, hlets.failed ▸ hlost⟩
      by_cases hmem : g ∈ insert group gone
      · exact hlets.kids_gone g hmem
      · rw [hlets.kids_kept g hmem, hgone]
  | fail group gone hmem halive hkgone hkept hbelow hchildren htops hgroups
      hfailed =>
      have hpresent : s.queue.kids group ≠ none := by
        intro hnone
        exact kids_eq_none_iff.mp hnone (halive group hmem)
      refine ⟨hgroups ▸ hintro, ?_, ?_⟩
      · by_cases hg : g ∈ gone
        · exact hkgone g hg
        · rw [hkept g hg, hgone]
      · rw [hfailed, lost_insert_iff]
        rintro (hl | rfl | hanc)
        · exact hlost hl
        · exact hpresent hgone
        · exact hpresent (h.forest.ancestor_released
            (Or.inr (Or.inr ⟨hintro, hgone, hlost⟩)) hanc).gone

/-- What a move releases is pruned, or finishes. -/
theorem released_cases (h : Inv W s) (hmove : Move W C s s') {g : G}
    (hg : s'.Released W g) :
    s.Released W g ∨
      (s.ledger.current = none ∧
        Prunable s.queue.kids s.queue.pendingCount s.found g) ∨
      ∃ group rest n, s.queue.node group = some n ∧
        C.finish s.queue group rest ∧
        s'.ledger.delivered = s.ledger.delivered ++ n.tasks ∧
        (g = group ∨
          Prunable s.queue.kids s.queue.pendingCount n.childGroups g) := by
  obtain ⟨hintro, hgone, hlost⟩ := hg
  cases h.reshape hmove with
  | keep hkids htops hgroups hfailed =>
      exact Or.inl ⟨hgroups ▸ hintro, hkids ▸ hgone, hfailed ▸ hlost⟩
  | create parentTask group hfresh hkids htops hgroups hfailed =>
      rw [hkids g] at hgone
      by_cases heq : g = group
      · simp [heq] at hgone
      · rw [if_neg heq, Option.map_eq_none_iff] at hgone
        rw [hgroups] at hintro
        exact Or.inl ⟨hintro.resolve_left heq, hgone, hfailed ▸ hlost⟩
  | prune gone hlets hcurrent hprunable =>
      by_cases hmem : g ∈ gone
      · exact Or.inr (Or.inl ⟨hcurrent, hprunable g hmem⟩)
      · rw [hlets.kids_kept g hmem] at hgone
        exact Or.inl ⟨hlets.groups ▸ hintro, hgone, hlets.failed ▸ hlost⟩
  | finish group rest n gone hlets hn hcond hprunable hdelivered =>
      by_cases hmem : g ∈ insert group gone
      · refine Or.inr (Or.inr ⟨group, rest, n, hn, hcond, hdelivered, ?_⟩)
        exact hmem.imp_right (hprunable g)
      · rw [hlets.kids_kept g hmem] at hgone
        exact Or.inl ⟨hlets.groups ▸ hintro, hgone, hlets.failed ▸ hlost⟩
  | fail group gone hmem halive hkgone hkept hbelow hchildren htops hgroups
      hfailed =>
      rw [hfailed, lost_insert_iff, not_or, not_or] at hlost
      have hnot : g ∉ gone := fun hg =>
        (hbelow g hg).elim hlost.2.1 hlost.2.2
      rw [hkept g hnot] at hgone
      exact Or.inl ⟨hgroups ▸ hintro, hgone, hlost.1⟩

/-- An attached group stays attached as long as it is there. -/
theorem attached_move (h : Inv W s) (hmove : Move W C s s') {g : G}
    (hg : s.Attached g) (hlive : s'.queue.Alive g) : s'.Attached g := by
  refine ⟨hlive, ?_⟩
  obtain ⟨hold, hbelow⟩ := hg
  cases h.reshape hmove with
  | keep hkids htops hgroups hfailed =>
      rw [hkids]
      exact hbelow.mono fun x hx => (htops x).mpr hx
  | create parentTask group hfresh hkids htops hgroups hfailed =>
      clear hlive hold
      induction hbelow with
      | start hmem => exact .start ((htops _).mpr (Or.inl hmem))
      | @kid p c cs _ hk hc ih =>
          have hne : p ≠ group := by
            rintro rfl
            exact hfresh (h.alive_introduced (alive_iff_kids.mpr ⟨cs, hk⟩))
          have hkids' := hkids p
          rw [if_neg hne, hk, Option.map_some] at hkids'
          refine .kid ih hkids' ?_
          split
          · exact List.mem_append_left _ hc
          · exact hc
  | prune gone hlets => exact hlets.below_forward hbelow hold hlive
  | finish group rest n gone hlets => exact hlets.below_forward hbelow hold hlive
  | fail group gone hmem halive hkgone hkept hbelow' hchildren htops hgroups
      hfailed =>
      induction hbelow with
      | @start g hg =>
          refine .start ((htops _).mpr ⟨hg, ?_⟩)
          rintro rfl
          exact kids_eq_none_iff.mp (hkgone g hmem) hlive
      | @kid p c cs _ hk hc ih =>
          have hp : p ∉ gone := fun hp => kids_eq_none_iff.mp
            (hkgone c (hchildren p hp cs hk c hc hold)) hlive
          have hk' : s'.queue.kids p = some cs := (hkept p hp).trans hk
          exact .kid (ih (alive_iff_kids.mpr ⟨cs, hk'⟩)
            (alive_iff_kids.mpr ⟨cs, hk⟩)) hk' hc

/-- Only new groups become attached. -/
theorem attached_cases (h : Inv W s) (hmove : Move W C s s') {g : G}
    (hg : s'.Attached g) : s.Attached g ∨ g ∉ s.ledger.groups := by
  obtain ⟨hlive, hbelow⟩ := hg
  cases h.reshape hmove with
  | keep hkids htops hgroups hfailed =>
      left
      rw [alive_iff_kids, hkids, ← alive_iff_kids] at hlive
      rw [hkids] at hbelow
      exact ⟨hlive, hbelow.mono fun x hx => (htops x).mp hx⟩
  | create parentTask group hfresh hkids htops hgroups hfailed =>
      by_cases heq : g = group
      · exact Or.inr (heq ▸ hfresh)
      left
      constructor
      · by_contra hdead
        rw [← kids_eq_none_iff] at hdead
        refine kids_eq_none_iff.mp ?_ hlive
        rw [hkids g, if_neg heq, hdead, Option.map_none]
      · clear hlive
        induction hbelow with
        | @start g hmem =>
            refine .start (((htops g).mp hmem).resolve_right fun hnew => ?_)
            unfold newRoots at hnew
            split at hnew
            · exact heq (List.mem_singleton.mp hnew)
            · cases hnew
        | @kid p c cs _ hk hc ih =>
            rw [hkids p] at hk
            obtain ⟨old, hold, rfl⟩ := Option.map_eq_some_iff.mp hk
            have hmem : c ∈ old := by
              split at hc
              · rcases List.mem_append.mp hc with hc | hc
                · exact hc
                · exact absurd (List.mem_singleton.mp hc) heq
              · exact hc
            by_cases hp : p = group
            · rw [if_pos hp] at hold
              obtain rfl := Option.some.inj hold
              cases hmem
            · rw [if_neg hp] at hold
              exact .kid (ih hp) hold hmem
  | prune gone hlets =>
      exact Or.inl ⟨hlets.alive_backward hlive, hlets.below_backward hbelow⟩
  | finish group rest n gone hlets =>
      exact Or.inl ⟨hlets.alive_backward hlive, hlets.below_backward hbelow⟩
  | fail group gone hmem halive hkgone hkept hbelow' hchildren htops hgroups
      hfailed =>
      left
      have hstay : ∀ p cs, s'.queue.kids p = some cs →
          s.queue.kids p = some cs := by
        intro p cs hk
        have hp : p ∉ gone := fun hp => by
          rw [hkgone p hp] at hk
          cases hk
        exact (hkept p hp).symm.trans hk
      constructor
      · obtain ⟨cs, hk⟩ := alive_iff_kids.mp hlive
        exact alive_iff_kids.mpr ⟨cs, hstay g cs hk⟩
      · clear hlive
        induction hbelow with
        | start hmem => exact .start ((htops _).mp hmem).1
        | @kid p c cs _ hk hc ih => exact .kid ih (hstay p cs hk) hc

end Inv

end GraphqlCore.Incremental
