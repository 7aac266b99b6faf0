import GraphqlCore.Data.Dict

/-!
# Lists that are shared by reference

A list that is changed in place is seen by everyone who holds a reference to it.  A table of
lists owns what its references lead to if no two of its keys share a list.
-/

namespace GraphqlCore

/-- The lists that have been created; a reference is a position among them. -/
structure ListHeap (α : Type*) where
  lists : List (List α) := []

namespace ListHeap

variable {κ α : Type*} [DecidableEq κ] (heap : ListHeap α)

def read (ref : ℕ) : List α := (heap.lists[ref]?).getD []

def create (items : List α) : ℕ × ListHeap α := (heap.lists.length, ⟨heap.lists ++ [items]⟩)

def extend (ref : ℕ) (items : List α) : ListHeap α := ⟨heap.lists.modify ref (· ++ items)⟩

variable {heap} {ref ref' : ℕ} {items : List α}

theorem read_create_of_lt (h : ref < heap.lists.length) :
    (heap.create items).2.read ref = heap.read ref := by
  rw [read, create, List.getElem?_append_left h, read]

theorem read_create_self : (heap.create items).2.read (heap.create items).1 = items := by
  simp [read, create]

/-- The reference to a new list is new. -/
theorem create_ne (h : ref < heap.lists.length) : (heap.create items).1 ≠ ref := Nat.ne_of_gt h

theorem length_create : (heap.create items).2.lists.length = heap.lists.length + 1 := by
  simp [create]

theorem read_extend_self (h : ref < heap.lists.length) :
    (heap.extend ref items).read ref = heap.read ref ++ items := by
  simp [read, extend, h]

theorem read_extend_of_ne (h : ref ≠ ref') :
    (heap.extend ref items).read ref' = heap.read ref' := by
  simp [read, extend, h]

theorem length_extend : (heap.extend ref items).lists.length = heap.lists.length := by
  simp [extend]

/-- Every key of the table has a list of its own, with that content. -/
structure Owns (heap : ListHeap α) (refs : Dict κ ℕ) (content : κ → List α) : Prop where
  valid : ∀ key ref, refs.get key = some ref → ref < heap.lists.length
  stored : ∀ key ref, refs.get key = some ref → heap.read ref = content key
  separate : ∀ key key' ref, refs.get key = some ref → refs.get key' = some ref → key = key'

namespace Owns

variable {refs : Dict κ ℕ} {content : κ → List α} {key : κ}

theorem empty (heap : ListHeap α) (content : κ → List α) :
    heap.Owns Dict.empty content where
  valid := fun _ _ h => nomatch h
  stored := fun _ _ h => nomatch h
  separate := fun _ _ _ h => nomatch h

/-- The key that a new list is stored for had none. -/
theorem create (h : heap.Owns refs content) :
    (heap.create (content key)).2.Owns (refs.set key (heap.create (content key)).1) content := by
  constructor
  · intro key' ref hget
    rw [length_create]
    rw [Dict.get_set] at hget
    split at hget
    · exact Nat.lt_succ_of_le (Nat.le_of_eq (Option.some.inj hget).symm)
    · exact Nat.lt_succ_of_lt (h.valid key' ref hget)
  · intro key' ref hget
    rw [Dict.get_set] at hget
    split at hget
    · rename_i heq
      rw [← Option.some.inj hget, read_create_self, heq]
    · rw [read_create_of_lt (h.valid key' ref hget), h.stored key' ref hget]
  · intro key₁ key₂ ref hget₁ hget₂
    rw [Dict.get_set] at hget₁ hget₂
    split at hget₁ <;> split at hget₂
    · rename_i heq₁ heq₂
      exact heq₁.trans heq₂.symm
    · exact absurd (Option.some.inj hget₁) (create_ne (h.valid key₂ ref hget₂))
    · exact absurd (Option.some.inj hget₂) (create_ne (h.valid key₁ ref hget₁))
    · exact h.separate key₁ key₂ ref hget₁ hget₂

/-- A list that is extended changes for its own key only. -/
theorem extend (h : heap.Owns refs content) (hget : refs.get key = some ref) (items : List α) :
    (heap.extend ref items).Owns refs
      (Function.update content key (content key ++ items)) := by
  constructor
  · intro key' ref' hget'
    rw [length_extend]
    exact h.valid key' ref' hget'
  · intro key' ref' hget'
    by_cases heq : key' = key
    · subst heq
      obtain rfl : ref = ref' := Option.some.inj (hget.symm.trans hget')
      rw [read_extend_self (h.valid key' ref hget), h.stored key' ref hget, Function.update_self]
    · have hne : ref ≠ ref' := by
        rintro rfl
        exact heq (h.separate key' key ref hget' hget)
      rw [read_extend_of_ne hne, h.stored key' ref' hget', Function.update_of_ne heq]
  · exact h.separate

end Owns

end ListHeap

end GraphqlCore
