import Mathlib.Data.List.Sort
import Mathlib.Tactic.Common

/-!
# Linear relations

Relations that order all values, their lexicographic extensions to pairs and lists, and
sorting by a key.  Lists of the same items with different keys are sorted to the same list.
-/

namespace GraphqlCore

universe u v

/-- The relation is a linear order. -/
structure IsLinear {α : Type u} (le : α → α → Bool) : Prop where
  total : ∀ a b, le a b = true ∨ le b a = true
  antisymm : ∀ a b, le a b = true → le b a = true → a = b
  trans : ∀ a b c, le a b = true → le b c = true → le a c = true

namespace IsLinear

variable {α : Type u} {β : Type v} {le : α → α → Bool}

theorem refl (h : IsLinear le) (a : α) : le a a = true := (h.total a a).elim id id

theorem nat : IsLinear fun a b : ℕ => decide (a ≤ b) where
  total := fun a b => by simpa using Nat.le_total a b
  antisymm := fun a b hab hba => by
    simp only [decide_eq_true_iff] at hab hba
    omega
  trans := fun a b c hab hbc => by
    simp only [decide_eq_true_iff] at hab hbc ⊢
    omega

/-- A linear order of keys that tell the values apart is one of the values. -/
theorem comap {f : β → α} (h : IsLinear le) (hf : Function.Injective f) :
    IsLinear fun a b => le (f a) (f b) where
  total := fun a b => h.total (f a) (f b)
  antisymm := fun _ _ hab hba => hf (h.antisymm _ _ hab hba)
  trans := fun a b c => h.trans (f a) (f b) (f c)

end IsLinear

/-! ## Lexicographic orders -/

section Lexicographic

variable {α : Type u} {β : Type v}

/-- Pairs are compared by their first components first. -/
def pairLe [DecidableEq α] (le : α → α → Bool) (le' : β → β → Bool) (a b : α × β) : Bool :=
  if a.1 = b.1 then le' a.2 b.2 else le a.1 b.1

/-- Lists are compared by the first items that are different. -/
def listLe [DecidableEq α] (le : α → α → Bool) : List α → List α → Bool
  | [], _ => true
  | _ :: _, [] => false
  | a :: rest, b :: rest' => if a = b then listLe le rest rest' else le a b

variable [DecidableEq α] {le : α → α → Bool} {le' : β → β → Bool}

theorem pairLe_total (h : IsLinear le) {a b : α × β}
    (h' : le' a.2 b.2 = true ∨ le' b.2 a.2 = true) :
    pairLe le le' a b = true ∨ pairLe le le' b a = true := by
  unfold pairLe
  by_cases heq : a.1 = b.1
  · simpa [heq] using h'
  · simpa [heq, Ne.symm heq] using h.total a.1 b.1

theorem pairLe_antisymm (h : IsLinear le) {a b : α × β}
    (h' : le' a.2 b.2 = true → le' b.2 a.2 = true → a.2 = b.2)
    (hab : pairLe le le' a b = true) (hba : pairLe le le' b a = true) : a = b := by
  unfold pairLe at hab hba
  by_cases heq : a.1 = b.1
  · rw [if_pos heq] at hab
    rw [if_pos heq.symm] at hba
    exact Prod.ext heq (h' hab hba)
  · rw [if_neg heq] at hab
    rw [if_neg (Ne.symm heq)] at hba
    exact absurd (h.antisymm _ _ hab hba) heq

theorem pairLe_trans (h : IsLinear le) {a b c : α × β}
    (h' : le' a.2 b.2 = true → le' b.2 c.2 = true → le' a.2 c.2 = true)
    (hab : pairLe le le' a b = true) (hbc : pairLe le le' b c = true) :
    pairLe le le' a c = true := by
  unfold pairLe at hab hbc ⊢
  by_cases heq : a.1 = b.1
  · by_cases heq' : b.1 = c.1
    · rw [if_pos heq] at hab
      rw [if_pos heq'] at hbc
      rw [if_pos (heq.trans heq')]
      exact h' hab hbc
    · rw [if_neg heq'] at hbc
      rw [if_neg (heq ▸ heq'), heq]
      exact hbc
  · rw [if_neg heq] at hab
    by_cases heq' : b.1 = c.1
    · rw [if_neg (heq' ▸ heq), ← heq']
      exact hab
    · rw [if_neg heq'] at hbc
      have hac : a.1 ≠ c.1 := fun hac => heq (h.antisymm _ _ hab (hac ▸ hbc))
      rw [if_neg hac]
      exact h.trans _ _ _ hab hbc

theorem IsLinear.pair (h : IsLinear le) (h' : IsLinear le') : IsLinear (pairLe le le') where
  total := fun a b => pairLe_total h (h'.total a.2 b.2)
  antisymm := fun _ _ => pairLe_antisymm h (h'.antisymm _ _)
  trans := fun _ _ _ => pairLe_trans h (h'.trans _ _ _)

/-- Lists that are not empty are compared like pairs of heads and tails. -/
theorem listLe_cons (a b : α) (rest rest' : List α) :
    listLe le (a :: rest) (b :: rest') = pairLe le (listLe le) (a, rest) (b, rest') := rfl

theorem IsLinear.list (h : IsLinear le) : IsLinear (listLe le) where
  total := by
    intro l
    induction l with
    | nil => exact fun _ => .inl rfl
    | cons a rest ih =>
        intro l'
        cases l' with
        | nil => exact .inr rfl
        | cons b rest' =>
            rw [listLe_cons, listLe_cons]
            exact pairLe_total h (ih rest')
  antisymm := by
    intro l
    induction l with
    | nil =>
        intro l' _ hle
        cases l' with
        | nil => rfl
        | cons => cases hle
    | cons a rest ih =>
        intro l' hle hge
        cases l' with
        | nil => cases hle
        | cons b rest' =>
            rw [listLe_cons] at hle hge
            obtain ⟨rfl, rfl⟩ := Prod.mk.inj (pairLe_antisymm h (ih rest') hle hge)
            rfl
  trans := by
    intro l
    induction l with
    | nil => exact fun _ _ _ _ => rfl
    | cons a rest ih =>
        intro l' l'' hle hle'
        cases l' with
        | nil => cases hle
        | cons b rest' =>
            cases l'' with
            | nil => cases hle'
            | cons c rest'' =>
                rw [listLe_cons] at hle hle' ⊢
                exact pairLe_trans h (ih rest' rest'') hle hle'

end Lexicographic

/-! ## Sorting by a key -/

section SortBy

variable {α : Type u} {κ : Type v}

/-- Sort by a key, where items with the same key keep their order. -/
def sortBy (le : κ → κ → Bool) (key : α → κ) (items : List α) : List α :=
  items.insertionSort fun a b => le (key a) (key b)

variable {le : κ → κ → Bool} {key : α → κ} {items items' : List α}

theorem sortBy_perm (le : κ → κ → Bool) (key : α → κ) (items : List α) :
    (sortBy le key items).Perm items :=
  List.perm_insertionSort _ items

theorem mem_sortBy {item : α} : item ∈ sortBy le key items ↔ item ∈ items :=
  (sortBy_perm le key items).mem_iff

theorem pairwise_sortBy (h : IsLinear le) (key : α → κ) (items : List α) :
    (sortBy le key items).Pairwise fun a b => le (key a) (key b) = true := by
  have : Std.Total fun a b => le (key a) (key b) = true := ⟨fun _ _ => h.total _ _⟩
  have : IsTrans α fun a b => le (key a) (key b) = true := ⟨fun _ _ _ => h.trans _ _ _⟩
  exact List.pairwise_insertionSort _ items

/-- Items with different keys are sorted to the same list, in whatever order they come. -/
theorem sortBy_eq_of_perm (h : IsLinear le) (hperm : items.Perm items')
    (hkeys : ∀ a ∈ items, ∀ b ∈ items, key a = key b → a = b) :
    sortBy le key items = sortBy le key items' := by
  refine List.Perm.eq_of_pairwise (fun a b ha hb hab hba => ?_) (pairwise_sortBy h key items)
    (pairwise_sortBy h key items') ?_
  · exact hkeys a (mem_sortBy.mp ha) b (hperm.mem_iff.mpr (mem_sortBy.mp hb))
      (h.antisymm _ _ hab hba)
  · exact (sortBy_perm le key items).trans (hperm.trans (sortBy_perm le key items').symm)

/-- Lists that have the same chosen items, with different keys, have them in the same order when
they are sorted. -/
theorem filter_sortBy_eq_of_perm (h : IsLinear le) (p : α → Bool)
    (hperm : (items.filter p).Perm (items'.filter p))
    (hkeys : ∀ a ∈ items.filter p, ∀ b ∈ items.filter p, key a = key b → a = b) :
    (sortBy le key items).filter p = (sortBy le key items').filter p := by
  have hfilter (items : List α) : ((sortBy le key items).filter p).Perm (items.filter p) :=
    (sortBy_perm le key items).filter p
  refine List.Perm.eq_of_pairwise (fun a b ha hb hab hba => ?_)
    ((pairwise_sortBy h key items).filter p) ((pairwise_sortBy h key items').filter p) ?_
  · exact hkeys a ((hfilter items).mem_iff.mp ha) b
      (hperm.mem_iff.mpr ((hfilter items').mem_iff.mp hb)) (h.antisymm _ _ hab hba)
  · exact (hfilter items).trans (hperm.trans (hfilter items').symm)

/-- To sort again changes nothing. -/
theorem sortBy_sortBy (h : IsLinear le) (key : α → κ) (items : List α) :
    sortBy le key (sortBy le key items) = sortBy le key items :=
  (pairwise_sortBy h key items).insertionSort_eq

/-- A function that keeps the keys may be applied before or after sorting. -/
theorem map_sortBy {β : Type*} {key' : β → κ} {f : α → β} (hf : ∀ a, key' (f a) = key a)
    (items : List α) : (sortBy le key items).map f = sortBy le key' (items.map f) :=
  List.map_insertionSort _ _ f items fun a _ b _ => by rw [hf, hf]

end SortBy

end GraphqlCore
