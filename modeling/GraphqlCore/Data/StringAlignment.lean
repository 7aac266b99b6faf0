import Mathlib.Data.List.Basic
import Mathlib.Order.Bounds.Basic
import Mathlib.Order.Lattice.Nat
import Mathlib.Tactic.Common

/-!
# Optimal string alignment

An alignment of two lists deletes, inserts and substitutes single items and swaps adjacent
ones, and edits no item twice.  The distance of two lists is the least number of edits of
an alignment; it is given by those of shorter lists.
-/

namespace GraphqlCore.StringAlignment

universe u

variable {α : Type u}

/-- The lists can be aligned with that number of edits. -/
inductive Aligns : List α → List α → ℕ → Prop
  | nil : Aligns [] [] 0
  | delete {a b : List α} {n : ℕ} (x : α) (h : Aligns a b n) : Aligns (x :: a) b (n + 1)
  | insert {a b : List α} {n : ℕ} (y : α) (h : Aligns a b n) : Aligns a (y :: b) (n + 1)
  | keep {a b : List α} {n : ℕ} (x : α) (h : Aligns a b n) : Aligns (x :: a) (x :: b) n
  | substitute {a b : List α} {n : ℕ} (x y : α) (h : Aligns a b n) :
      Aligns (x :: a) (y :: b) (n + 1)
  | transpose {a b : List α} {n : ℕ} (x y : α) (h : Aligns a b n) :
      Aligns (x :: y :: a) (y :: x :: b) (n + 1)

/-- The least number of edits. -/
noncomputable def distance (a b : List α) : ℕ := sInf {n | Aligns a b n}

/-! ## Alignments -/

namespace Aligns

variable {a b a' b' : List α} {n m : ℕ}

theorem append (h : Aligns a b n) (h' : Aligns a' b' m) :
    Aligns (a ++ a') (b ++ b') (n + m) := by
  induction h with
  | nil => rwa [Nat.zero_add]
  | delete x _ ih => exact Nat.add_right_comm _ m 1 ▸ ih.delete x
  | insert y _ ih => exact Nat.add_right_comm _ m 1 ▸ ih.insert y
  | keep x _ ih => exact ih.keep x
  | substitute x y _ ih => exact Nat.add_right_comm _ m 1 ▸ ih.substitute x y
  | transpose x y _ ih => exact Nat.add_right_comm _ m 1 ▸ ih.transpose x y

theorem symm (h : Aligns a b n) : Aligns b a n := by
  induction h with
  | nil => exact .nil
  | delete x _ ih => exact ih.insert x
  | insert y _ ih => exact ih.delete y
  | keep x _ ih => exact ih.keep x
  | substitute x y _ ih => exact ih.substitute y x
  | transpose x y _ ih => exact ih.transpose y x

theorem reverse (h : Aligns a b n) : Aligns a.reverse b.reverse n := by
  induction h with
  | nil => exact .nil
  | delete x _ ih => simpa using ih.append (.delete x .nil)
  | insert y _ ih => simpa using ih.append (.insert y .nil)
  | keep x _ ih => simpa using ih.append (.keep x .nil)
  | substitute x y _ ih => simpa using ih.append (.substitute x y .nil)
  | transpose x y _ ih => simpa using ih.append (.transpose y x .nil)

/-- All items are deleted. -/
theorem deleteAll (a : List α) : Aligns a [] a.length := by
  induction a with
  | nil => exact .nil
  | cons x a ih => exact ih.delete x

theorem length_le (h : Aligns a b n) : a.length ≤ b.length + n := by
  induction h <;> simp only [List.length_nil, List.length_cons] at * <;> omega

/-- Without the first item of one list, another part of the other list is aligned. -/
theorem exists_suffix_of_cons {x : α} (h : Aligns (x :: a) b n) :
    ∃ b' m, b' <:+ b ∧ m ≤ n ∧ Aligns a b' m := by
  generalize hlist : x :: a = list at h
  induction h with
  | nil => cases hlist
  | delete x' h _ =>
      obtain ⟨rfl, rfl⟩ := List.cons.inj hlist
      exact ⟨_, _, List.suffix_rfl, Nat.le_succ _, h⟩
  | insert y _ ih =>
      obtain ⟨b', m, hsuffix, hle, halign⟩ := ih hlist
      exact ⟨b', m, hsuffix.trans (List.suffix_cons y _), Nat.le_succ_of_le hle, halign⟩
  | keep x' h _ =>
      obtain ⟨rfl, rfl⟩ := List.cons.inj hlist
      exact ⟨_, _, List.suffix_cons _ _, Nat.le_refl _, h⟩
  | substitute x' y h _ =>
      obtain ⟨rfl, rfl⟩ := List.cons.inj hlist
      exact ⟨_, _, List.suffix_cons _ _, Nat.le_succ _, h⟩
  | transpose x' y h _ =>
      -- The second item is substituted by the first one, which it was swapped with.
      obtain ⟨rfl, rfl⟩ := List.cons.inj hlist
      exact ⟨_, _, List.suffix_cons _ _, Nat.le_refl _, h.substitute y x⟩

theorem exists_suffix (hsuffix : a' <:+ a) (h : Aligns a b n) :
    ∃ b' m, b' <:+ b ∧ m ≤ n ∧ Aligns a' b' m := by
  obtain ⟨front, rfl⟩ := hsuffix
  induction front generalizing b n with
  | nil => exact ⟨b, n, List.suffix_rfl, Nat.le_refl n, h⟩
  | cons x front ih =>
      obtain ⟨b₁, m₁, hsuffix₁, hle₁, h₁⟩ := h.exists_suffix_of_cons
      obtain ⟨b₂, m₂, hsuffix₂, hle₂, h₂⟩ := ih h₁
      exact ⟨b₂, m₂, hsuffix₂.trans hsuffix₁, hle₂.trans hle₁, h₂⟩

end Aligns

/-! ## Distances -/

section Distance

variable {a b a' b' : List α} {n : ℕ}

theorem exists_aligns (a b : List α) : ∃ n, Aligns a b n := by
  have h := (Aligns.deleteAll a).append (Aligns.deleteAll b).symm
  rw [List.append_nil, List.nil_append] at h
  exact ⟨_, h⟩

/-- The distance is the least number of edits. -/
theorem isLeast_distance (a b : List α) : IsLeast {n | Aligns a b n} (distance a b) :=
  ⟨Nat.sInf_mem (exists_aligns a b), fun _ h => Nat.sInf_le h⟩

theorem aligns_distance (a b : List α) : Aligns a b (distance a b) := (isLeast_distance a b).1

theorem distance_le (h : Aligns a b n) : distance a b ≤ n := (isLeast_distance a b).2 h

theorem distance_comm (a b : List α) : distance a b = distance b a :=
  Nat.le_antisymm (distance_le (aligns_distance b a).symm) (distance_le (aligns_distance a b).symm)

theorem distance_reverse (a b : List α) : distance a.reverse b.reverse = distance a b := by
  refine Nat.le_antisymm (distance_le (aligns_distance a b).reverse) (distance_le ?_)
  have h := (aligns_distance a.reverse b.reverse).reverse
  rwa [List.reverse_reverse, List.reverse_reverse] at h

theorem distance_nil (a : List α) : distance a [] = a.length :=
  Nat.le_antisymm (distance_le (.deleteAll a))
    ((aligns_distance a []).length_le.trans (Nat.le_of_eq (Nat.zero_add _)))

theorem nil_distance (b : List α) : distance [] b = b.length := by
  rw [distance_comm, distance_nil]

theorem distance_self (a : List α) : distance a a = 0 := by
  have h : Aligns a a 0 := by
    induction a with
    | nil => exact .nil
    | cons x a ih => exact ih.keep x
  exact Nat.le_zero.mp (distance_le h)

/-- The lengths are at most as far apart as the lists. -/
theorem length_le_add_distance (a b : List α) : a.length ≤ b.length + distance a b :=
  (aligns_distance a b).length_le

/-- Parts of the lists are at most as far apart as the lists. -/
theorem exists_suffix_distance_le (hsuffix : a' <:+ a) (b : List α) :
    ∃ b', b' <:+ b ∧ distance a' b' ≤ distance a b := by
  obtain ⟨b', m, hb', hle, h⟩ := (aligns_distance a b).exists_suffix hsuffix
  exact ⟨b', hb', (distance_le h).trans hle⟩

variable [DecidableEq α]

/-- The least number of edits if the last step is no swap. -/
noncomputable def distanceByOne (x : α) (a : List α) (y : α) (b : List α) : ℕ :=
  min (min (distance a (y :: b) + 1) (distance (x :: a) b + 1))
    (distance a b + if x = y then 0 else 1)

theorem distance_le_byOne (x y : α) (a b : List α) :
    distance (x :: a) (y :: b) ≤ distanceByOne x a y b := by
  refine le_min (le_min ?_ ?_) ?_
  · exact distance_le ((aligns_distance a (y :: b)).delete x)
  · exact distance_le ((aligns_distance (x :: a) b).insert y)
  · split
    · next h =>
      subst h
      exact distance_le ((aligns_distance a b).keep x)
    · exact distance_le ((aligns_distance a b).substitute x y)

/-- An alignment of lists that are not empty starts with an edit of one item or a swap. -/
theorem byOne_le_or_swap {x y : α} (h : Aligns (x :: a) (y :: b) n) :
    distanceByOne x a y b ≤ n ∨
      ∃ a' b', a = y :: a' ∧ b = x :: b' ∧ distance a' b' + 1 ≤ n := by
  cases h with
  | delete _ h => exact .inl ((min_le_left _ _).trans ((min_le_left _ _).trans
      (Nat.succ_le_succ (distance_le h))))
  | insert _ h => exact .inl ((min_le_left _ _).trans ((min_le_right _ _).trans
      (Nat.succ_le_succ (distance_le h))))
  | keep _ h =>
      refine .inl ((min_le_right _ _).trans ?_)
      rw [if_pos rfl]
      exact distance_le h
  | substitute _ _ h =>
      refine .inl ((min_le_right _ _).trans (Nat.add_le_add (distance_le h) ?_))
      split
      · exact Nat.zero_le 1
      · exact Nat.le_refl 1
  | transpose _ _ h => exact .inr ⟨_, _, rfl, rfl, Nat.succ_le_succ (distance_le h)⟩

theorem distance_swap (x y : α) (a b : List α) :
    distance (x :: y :: a) (y :: x :: b) =
      min (distanceByOne x (y :: a) y (x :: b)) (distance a b + 1) := by
  refine Nat.le_antisymm (le_min (distance_le_byOne _ _ _ _)
    (distance_le ((aligns_distance a b).transpose x y))) ?_
  rcases byOne_le_or_swap (aligns_distance (x :: y :: a) (y :: x :: b)) with
    hone | ⟨a', b', ha, hb, hswap⟩
  · exact (min_le_left _ _).trans hone
  · obtain ⟨-, rfl⟩ := List.cons.inj ha
    obtain ⟨-, rfl⟩ := List.cons.inj hb
    exact (min_le_right _ _).trans hswap

theorem distance_of_no_swap {x y : α} (h : ∀ a' b', a = y :: a' → b ≠ x :: b') :
    distance (x :: a) (y :: b) = distanceByOne x a y b := by
  refine Nat.le_antisymm (distance_le_byOne _ _ _ _) ?_
  rcases byOne_le_or_swap (aligns_distance (x :: a) (y :: b)) with hone | ⟨a', b', ha, hb, -⟩
  · exact hone
  · exact absurd hb (h a' b' ha)

end Distance

end GraphqlCore.StringAlignment
