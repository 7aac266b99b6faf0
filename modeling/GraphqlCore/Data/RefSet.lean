import GraphqlCore.Data.Dict
import GraphqlCore.Data.ReleaseForest
import Mathlib.Data.List.Perm.Subperm

/-!
# Sets of references

Insertion-ordered sets that are compared by their elements.  Where the elements lie in
a forest, those without an ancestor in the set cover the set, and none of them is below
another.
-/

namespace GraphqlCore

universe u

/-- A set that is iterated in insertion order. -/
structure RefSet (α : Type u) where
  elems : List α
  nodup : elems.Nodup

namespace RefSet

variable {α : Type u}

instance : Membership α (RefSet α) := ⟨fun s a => a ∈ s.elems⟩

theorem mem_def {s : RefSet α} {a : α} : a ∈ s ↔ a ∈ s.elems := Iff.rfl

def empty : RefSet α := ⟨[], List.nodup_nil⟩

@[simp] theorem not_mem_empty {a : α} : a ∉ (empty : RefSet α) := by
  rw [mem_def, empty]
  exact List.not_mem_nil

variable [DecidableEq α]

instance (a : α) (s : RefSet α) : Decidable (a ∈ s) :=
  inferInstanceAs (Decidable (a ∈ s.elems))

def add (s : RefSet α) (a : α) : RefSet α :=
  ⟨OrderedSet.add s.elems a, OrderedSet.nodup_add a s.nodup⟩

def discard (s : RefSet α) (a : α) : RefSet α :=
  ⟨OrderedSet.remove s.elems a, OrderedSet.nodup_remove a s.nodup⟩

@[simp] theorem mem_add {s : RefSet α} {a b : α} : b ∈ s.add a ↔ b ∈ s ∨ b = a :=
  OrderedSet.mem_add

@[simp] theorem mem_discard {s : RefSet α} {a b : α} :
    b ∈ s.discard a ↔ b ∈ s ∧ b ≠ a :=
  OrderedSet.mem_remove

/-- Equality of sets: as many elements, and all of them in the other set. -/
def beq (s t : RefSet α) : Bool :=
  s.elems.length = t.elems.length && s.elems.all (· ∈ t)

theorem beq_iff {s t : RefSet α} : s.beq t ↔ ∀ a, a ∈ s ↔ a ∈ t := by
  unfold beq
  rw [Bool.and_eq_true, decide_eq_true_iff, List.all_eq_true]
  constructor
  · rintro ⟨hlength, hall⟩ a
    have hsubset : s.elems ⊆ t.elems := fun b hb => of_decide_eq_true (hall b hb)
    have hperm := (s.nodup.subperm hsubset).perm_of_length_le hlength.ge
    exact hperm.mem_iff
  · intro h
    have hperm : s.elems.Perm t.elems :=
      (List.perm_ext_iff_of_nodup s.nodup t.nodup).mpr h
    exact ⟨hperm.length_eq, fun a ha => decide_eq_true ((h a).mp ha)⟩

end RefSet

/-! ## Sets of nodes of a forest -/

section Forest

variable {ι : Type u} {parent : ι → Option ι}

/-- The ancestors of a node are its parent and the ancestors of that. -/
theorem ancestor_iff {a g : ι} :
    Ancestor parent a g ↔ ∃ p, parent g = some p ∧ (a = p ∨ Ancestor parent a p) := by
  constructor
  · intro h
    cases h with
    | parent h => exact ⟨_, h, .inl rfl⟩
    | step h ha => exact ⟨_, h, .inr ha⟩
  · rintro ⟨p, hp, rfl | ha⟩
    · exact .parent hp
    · exact .step hp ha

theorem Ancestor.trans {a b g : ι} (hab : Ancestor parent a b)
    (hbg : Ancestor parent b g) : Ancestor parent a g := by
  induction hbg with
  | parent h => exact .step h hab
  | step h _ ih => exact .step h ih

/-- A node of the set that has no ancestor in it. -/
structure IsTopmost (parent : ι → Option ι) (s : ι → Prop) (g : ι) : Prop where
  mem : s g
  no_ancestor : ∀ a, s a → ¬ Ancestor parent a g

/-- Every node of a set is topmost or below a topmost one. -/
theorem exists_isTopmost {depth : ι → ℕ}
    (hdepth : ∀ g p, parent g = some p → depth p < depth g) {s : ι → Prop} {g : ι}
    (hg : s g) : ∃ a, IsTopmost parent s a ∧ (a = g ∨ Ancestor parent a g) := by
  have hlt {a g : ι} (h : Ancestor parent a g) : depth a < depth g := by
    induction h with
    | parent h => exact hdepth _ _ h
    | step h _ ih => exact ih.trans (hdepth _ _ h)
  induction hn : depth g using Nat.strong_induction_on generalizing g with
  | _ n ih =>
      by_cases habove : ∃ a, s a ∧ Ancestor parent a g
      · obtain ⟨a, ha, hanc⟩ := habove
        obtain ⟨b, hb, heq | hba⟩ := ih (depth a) (hn ▸ hlt hanc) ha rfl
        · exact ⟨b, hb, .inr (heq ▸ hanc)⟩
        · exact ⟨b, hb, .inr (hba.trans hanc)⟩
      · refine ⟨g, ⟨hg, ?_⟩, .inl rfl⟩
        exact fun a ha hanc => habove ⟨a, ha, hanc⟩

/-- Whatever is left of a set with its topmost nodes, a node has an ancestor in it as
soon as it has one in the set. -/
theorem exists_ancestor_iff {depth : ι → ℕ}
    (hdepth : ∀ g p, parent g = some p → depth p < depth g) {s rest : ι → Prop}
    (hsub : ∀ g, rest g → s g) (htop : ∀ g, IsTopmost parent s g → rest g) {g : ι} :
    (∃ a, rest a ∧ Ancestor parent a g) ↔ ∃ a, s a ∧ Ancestor parent a g := by
  constructor
  · rintro ⟨a, ha, hanc⟩
    exact ⟨a, hsub a ha, hanc⟩
  · rintro ⟨a, ha, hanc⟩
    obtain ⟨b, hb, rfl | hba⟩ := exists_isTopmost hdepth ha
    · exact ⟨b, htop b hb, hanc⟩
    · exact ⟨b, htop b hb, hba.trans hanc⟩

end Forest

end GraphqlCore
