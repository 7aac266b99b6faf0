import GraphqlCore.Data.RefSet
import GraphqlCore.Data.Settles
import Mathlib.Data.Fintype.Card
import Mathlib.Logic.Relation

/-!
# Collecting what is reached

A depth-first collection of the nodes of a graph into an ordered set, which ignores the
nodes that the set already has.  So it leaves a set closed under edges, except for those
nodes that were put there before they were collected.
-/

namespace GraphqlCore.Collecting

universe u v

variable {ν : Type u} {ε : Type v}

/-- The node is reached from one of the starts. -/
def ReachedFrom (next : ν → List ν) (starts : List ν) (node : ν) : Prop :=
  ∃ start ∈ starts, Relation.ReflTransGen (fun node target => target ∈ next node) start node

section ReachedFrom

variable {next : ν → List ν} {starts starts' : List ν} {node target : ν}

theorem ReachedFrom.start (h : node ∈ starts) : ReachedFrom next starts node :=
  ⟨node, h, .refl⟩

theorem ReachedFrom.mono (h : ReachedFrom next starts node) (hsub : starts ⊆ starts') :
    ReachedFrom next starts' node := by
  obtain ⟨start, hstart, hpath⟩ := h
  exact ⟨start, hsub hstart, hpath⟩

theorem ReachedFrom.step (h : ReachedFrom next starts node) (hedge : target ∈ next node) :
    ReachedFrom next starts target := by
  obtain ⟨start, hstart, hpath⟩ := h
  exact ⟨start, hstart, hpath.tail hedge⟩

/-- What is reached from the successors of a node is reached from it. -/
theorem ReachedFrom.of_next (h : ReachedFrom next (next node) target) :
    ReachedFrom next [node] target := by
  obtain ⟨start, hstart, hpath⟩ := h
  exact ⟨node, List.mem_singleton_self node, .head hstart hpath⟩

/-- A set that has the starts and is closed has all that is reached. -/
theorem ReachedFrom.mem {s : RefSet ν} (h : ReachedFrom next starts node)
    (hstarts : ∀ start ∈ starts, start ∈ s)
    (hclosed : ∀ node ∈ s, ∀ target ∈ next node, target ∈ s) : node ∈ s := by
  obtain ⟨start, hstart, hpath⟩ := h
  induction hpath with
  | refl => exact hstarts start hstart
  | tail _ hedge ih => exact hclosed _ ih _ hedge

end ReachedFrom

/-! ## Collecting -/

/-- The nodes from the starts on are added to the set. -/
structure Collects (next : ν → List ν) (starts : List ν) (s s' : RefSet ν) : Prop where
  subset : ∀ node ∈ s, node ∈ s'
  starts_mem : ∀ node ∈ starts, node ∈ s'
  closed : ∀ node ∈ s', node ∉ s → ∀ target ∈ next node, target ∈ s'
  sound : ∀ node ∈ s', node ∈ s ∨ ReachedFrom next starts node

/-- The nodes of the set that are not pending have their successors in it. -/
def ClosedUpTo (next : ν → List ν) (pending : List ν) (s : RefSet ν) : Prop :=
  ∀ node ∈ s, node ∉ pending → ∀ target ∈ next node, target ∈ s

namespace Collects

variable {next : ν → List ν} {starts starts' : List ν} {s s' s'' : RefSet ν} {node : ν}

theorem nil (s : RefSet ν) : Collects next [] s s where
  subset := fun _ h => h
  starts_mem := fun _ h => absurd h List.not_mem_nil
  closed := fun _ h hnot => absurd h hnot
  sound := fun _ h => .inl h

theorem append (h : Collects next starts s s') (h' : Collects next starts' s' s'') :
    Collects next (starts ++ starts') s s'' where
  subset := fun node hnode => h'.subset node (h.subset node hnode)
  starts_mem := by
    intro node hnode
    rcases List.mem_append.mp hnode with hleft | hright
    · exact h'.subset node (h.starts_mem node hleft)
    · exact h'.starts_mem node hright
  closed := by
    intro node hnode hnew target htarget
    by_cases hbefore : node ∈ s'
    · exact h'.subset target (h.closed node hbefore hnew target htarget)
    · exact h'.closed node hnode hbefore target htarget
  sound := by
    intro node hnode
    rcases h'.sound node hnode with hbefore | hreached
    · exact (h.sound node hbefore).imp_right (·.mono (List.subset_append_left _ _))
    · exact .inr (hreached.mono (List.subset_append_right _ _))

theorem of_mem (hmem : node ∈ s) : Collects next [node] s s where
  subset := fun _ h => h
  starts_mem := fun _ h => List.mem_singleton.mp h ▸ hmem
  closed := fun _ h hnot => absurd h hnot
  sound := fun _ h => .inl h

/-- A set that was closed stays so. -/
theorem closedUpTo {pending : List ν} (h : Collects next starts s s')
    (hclosed : ClosedUpTo next pending s) : ClosedUpTo next pending s' := by
  intro node hnode hpending target htarget
  by_cases hbefore : node ∈ s
  · exact h.subset target (hclosed node hbefore hpending target htarget)
  · exact h.closed node hnode hbefore target htarget

variable [DecidableEq ν]

/-- A node is collected with its successors. -/
theorem of_add (h : Collects next (next node) (s.add node) s') :
    Collects next [node] s s' where
  subset := fun other hother => h.subset other (RefSet.mem_add.mpr (.inl hother))
  starts_mem := by
    intro other hother
    rw [List.mem_singleton.mp hother]
    exact h.subset node (RefSet.mem_add.mpr (.inr rfl))
  closed := by
    intro other hother hnew target htarget
    by_cases heq : other = node
    · rw [heq] at htarget
      exact h.starts_mem target htarget
    · refine h.closed other hother (fun hadd => ?_) target htarget
      exact (RefSet.mem_add.mp hadd).elim hnew heq
  sound := by
    intro other hother
    rcases h.sound other hother with hadd | hreached
    · exact (RefSet.mem_add.mp hadd).imp_right
        fun heq => .start (List.mem_singleton.mpr heq)
    · exact .inr hreached.of_next

/-- A pending node that is removed and then collected is not pending any more. -/
theorem closedUpTo_of_discard {rest : List ν}
    (h : Collects next [node] (s.discard node) s')
    (hclosed : ClosedUpTo next (node :: rest) s) : ClosedUpTo next rest s' := by
  intro other hother hrest target htarget
  by_cases hbefore : other ∈ s.discard node
  · obtain ⟨hmem, hne⟩ := RefSet.mem_discard.mp hbefore
    have hpending : other ∉ node :: rest := List.not_mem_cons_of_ne_of_not_mem hne hrest
    have htarget := hclosed other hmem hpending target htarget
    by_cases heq : target = node
    · exact heq ▸ h.starts_mem node (List.mem_singleton_self node)
    · exact h.subset target (RefSet.mem_discard.mpr ⟨htarget, heq⟩)
  · exact h.closed other hother hbefore target htarget

theorem subset_of_discard (h : Collects next [node] (s.discard node) s') :
    ∀ other ∈ s, other ∈ s' := by
  intro other hother
  by_cases heq : other = node
  · exact heq ▸ h.starts_mem node (List.mem_singleton_self node)
  · exact h.subset other (RefSet.mem_discard.mpr ⟨hother, heq⟩)

end Collects

section Collect

variable [DecidableEq ν] (next : ν → List ν) (stop : ε)

/-- Collect from a node, down to a depth. -/
def collect : ℕ → RefSet ν → ν → Except ε (RefSet ν)
  | 0, _, _ => .error stop
  | depth + 1, s, node =>
      if node ∈ s then .ok s else (next node).foldlM (collect depth) (s.add node)

variable {next stop}

omit [DecidableEq ν] in
/-- A loop that collects from each item collects from all of them. -/
theorem exists_foldlM_collects {α : Type*} {f : RefSet ν → α → Except ε (RefSet ν)}
    (startsOf : α → List ν) (items : List α) (enough : RefSet ν → Prop)
    (hstep : ∀ s, ∀ item ∈ items, enough s →
      ∃ s', f s item = .ok s' ∧ Collects next (startsOf item) s s')
    (henough : ∀ {starts s s'}, Collects next starts s s' → enough s → enough s')
    {s : RefSet ν} (h : enough s) :
    ∃ s', items.foldlM f s = .ok s' ∧ Collects next (items.flatMap startsOf) s s' := by
  induction items generalizing s with
  | nil => exact ⟨s, rfl, .nil s⟩
  | cons item rest ih =>
      obtain ⟨s₁, hrun₁, hfirst⟩ := hstep s item List.mem_cons_self h
      obtain ⟨s₂, hrun₂, hrest⟩ := ih
        (fun s item hitem => hstep s item (List.mem_cons_of_mem _ hitem))
        (henough hfirst h)
      refine ⟨s₂, ?_, hfirst.append hrest⟩
      rw [List.foldlM_cons, hrun₁]
      exact hrun₂

variable (nodes : Finset ν)

/-- The depth is enough for the nodes that the set does not have yet. -/
def DeepEnough (depth : ℕ) (s : RefSet ν) : Prop := (nodes \ s.elems.toFinset).card < depth

variable {nodes}

theorem DeepEnough.mono {depth : ℕ} {starts : List ν} {s s' : RefSet ν}
    (h : Collects next starts s s') (hdeep : DeepEnough nodes depth s) :
    DeepEnough nodes depth s' := by
  refine lt_of_le_of_lt (Finset.card_le_card (Finset.sdiff_subset_sdiff subset_rfl ?_)) hdeep
  intro node hnode
  rw [List.mem_toFinset] at hnode ⊢
  exact h.subset node hnode

theorem DeepEnough.add {depth : ℕ} {s : RefSet ν} {node : ν} (hnode : node ∈ nodes)
    (hdeep : DeepEnough nodes (depth + 1) s) (hnew : node ∉ s) :
    DeepEnough nodes depth (s.add node) := by
  have hmem : node ∈ nodes \ s.elems.toFinset := by
    rw [Finset.mem_sdiff, List.mem_toFinset]
    exact ⟨hnode, hnew⟩
  have hadd : nodes \ (s.add node).elems.toFinset = (nodes \ s.elems.toFinset).erase node := by
    ext other
    have hother : other ∈ (s.add node).elems ↔ other ∈ s.elems ∨ other = node := RefSet.mem_add
    rw [Finset.mem_sdiff, List.mem_toFinset, Finset.mem_erase, Finset.mem_sdiff,
      List.mem_toFinset, hother]
    tauto
  unfold DeepEnough at hdeep ⊢
  rw [hadd, Finset.card_erase_of_mem hmem]
  have hpos := Finset.card_pos.mpr ⟨node, hmem⟩
  omega

/-- Where the depth is enough, the collection ends. -/
theorem exists_collect (hclosed : ∀ node ∈ nodes, ∀ target ∈ next node, target ∈ nodes)
    {depth : ℕ} {s : RefSet ν} (hdeep : DeepEnough nodes depth s) {node : ν}
    (hnode : node ∈ nodes) :
    ∃ s', collect next stop depth s node = .ok s' ∧ Collects next [node] s s' := by
  induction depth generalizing s node with
  | zero => exact absurd hdeep (Nat.not_lt_zero _)
  | succ depth ih =>
      rw [collect]
      by_cases hmem : node ∈ s
      · rw [if_pos hmem]
        exact ⟨s, rfl, .of_mem hmem⟩
      · rw [if_neg hmem]
        obtain ⟨s', hrun, hcollects⟩ := exists_foldlM_collects (fun node => [node])
          (next node) (DeepEnough nodes depth)
          (fun s target htarget hdeep => ih hdeep (hclosed node hnode target htarget))
          DeepEnough.mono (hdeep.add hnode hmem)
        rw [List.flatMap_singleton'] at hcollects
        exact ⟨s', hrun, hcollects.of_add⟩

end Collect

end GraphqlCore.Collecting
