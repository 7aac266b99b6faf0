import Mathlib.Data.List.Basic
import Mathlib.Data.List.Nodup
import Mathlib.Algebra.BigOperators.Group.List.Basic
import Mathlib.Algebra.GroupWithZero.Nat
import Mathlib.Tactic.Common

/-!
# Insertion-ordered dictionaries and sets

The program keeps its bookkeeping in dictionaries that iterate in insertion
order, and uses dictionaries without values as ordered sets.  Both are modelled
by lists without duplicate keys; overwriting a key keeps its position.
-/

namespace GraphqlCore

universe u v

/-- A finite dictionary, iterated in insertion order. -/
structure Dict (κ : Type u) (β : Type v) where
  items : List (κ × β)
  nodup_keys : (items.map Prod.fst).Nodup

namespace Dict

variable {κ : Type u} {β : Type v}

def empty : Dict κ β := ⟨[], by simp⟩

instance : Inhabited (Dict κ β) := ⟨empty⟩

def keys (d : Dict κ β) : List κ := d.items.map Prod.fst

def values (d : Dict κ β) : List β := d.items.map Prod.snd

variable [DecidableEq κ]

/-- The value stored first under `k` in a list of items. -/
def find (k : κ) : List (κ × β) → Option β
  | [] => none
  | (k', v) :: rest => if k' = k then some v else find k rest

/-- Overwrite the item of `k`, or add a new one at the end. -/
def store (k : κ) (v : β) : List (κ × β) → List (κ × β)
  | [] => [(k, v)]
  | (k', v') :: rest =>
      if k' = k then (k', v) :: rest else (k', v') :: store k v rest

def discard (k : κ) : List (κ × β) → List (κ × β)
  | [] => []
  | (k', v') :: rest => if k' = k then rest else (k', v') :: discard k rest

theorem mem_map_fst_store {k k' : κ} {v : β} {l : List (κ × β)} :
    k' ∈ (store k v l).map Prod.fst ↔ k' = k ∨ k' ∈ l.map Prod.fst := by
  induction l with
  | nil => simp [store]
  | cons e rest ih =>
      obtain ⟨a, b⟩ := e
      by_cases h : a = k
      · simp only [store, if_pos h, List.map_cons, List.mem_cons]
        rw [h]
        tauto
      · simp only [store, if_neg h, List.map_cons, List.mem_cons, ih]
        tauto

theorem nodup_store {k : κ} {v : β} {l : List (κ × β)}
    (h : (l.map Prod.fst).Nodup) : ((store k v l).map Prod.fst).Nodup := by
  induction l with
  | nil => simp [store]
  | cons e rest ih =>
      obtain ⟨a, b⟩ := e
      rw [List.map_cons, List.nodup_cons] at h
      by_cases hk : a = k
      · simpa [store, hk] using h
      · simp only [store, if_neg hk, List.map_cons, List.nodup_cons,
          mem_map_fst_store]
        exact ⟨by rintro (rfl | hmem) <;> simp_all, ih h.2⟩

theorem discard_sublist (k : κ) (l : List (κ × β)) :
    List.Sublist (discard k l) l := by
  induction l with
  | nil => exact .slnil
  | cons e rest ih =>
      obtain ⟨a, b⟩ := e
      by_cases hk : a = k
      · simp [discard, hk]
      · simpa [discard, hk] using ih

theorem nodup_discard {k : κ} {l : List (κ × β)}
    (h : (l.map Prod.fst).Nodup) : ((discard k l).map Prod.fst).Nodup :=
  h.sublist ((discard_sublist k l).map _)

def get (d : Dict κ β) (k : κ) : Option β := find k d.items

def set (d : Dict κ β) (k : κ) (v : β) : Dict κ β :=
  ⟨store k v d.items, nodup_store d.nodup_keys⟩

def pop (d : Dict κ β) (k : κ) : Dict κ β :=
  ⟨discard k d.items, nodup_discard d.nodup_keys⟩

/-- Apply `f` to the value stored under `k`, if there is one. -/
def modify (d : Dict κ β) (k : κ) (f : β → β) : Dict κ β :=
  match d.get k with
  | none => d
  | some v => d.set k (f v)

theorem find_store (k k' : κ) (v : β) (l : List (κ × β)) :
    find k' (store k v l) = if k' = k then some v else find k' l := by
  induction l with
  | nil => simp [store, find, eq_comm]
  | cons e rest ih =>
      obtain ⟨a, b⟩ := e
      by_cases hk : a = k
      · subst hk
        by_cases hk' : a = k'
        · simp [store, find, hk']
        · simp [store, find, hk', Ne.symm hk']
      · by_cases hk' : a = k'
        · subst hk'
          simp [store, find, hk]
        · simp [store, find, hk, hk', ih]

theorem find_eq_none {k : κ} {l : List (κ × β)}
    (h : k ∉ l.map Prod.fst) : find k l = none := by
  induction l with
  | nil => rfl
  | cons e rest ih =>
      obtain ⟨a, b⟩ := e
      rw [List.map_cons, List.mem_cons, not_or] at h
      rw [find, if_neg (Ne.symm h.1), ih h.2]

theorem find_discard (k k' : κ) {l : List (κ × β)}
    (h : (l.map Prod.fst).Nodup) :
    find k' (discard k l) = if k' = k then none else find k' l := by
  induction l with
  | nil => simp [discard, find]
  | cons e rest ih =>
      obtain ⟨a, b⟩ := e
      rw [List.map_cons, List.nodup_cons] at h
      by_cases hk : a = k
      · subst hk
        by_cases hk' : k' = a
        · subst hk'
          simpa [discard] using find_eq_none h.1
        · simp [discard, find, hk', Ne.symm hk']
      · by_cases hk' : a = k'
        · subst hk'
          simp [discard, find, hk]
        · simp [discard, find, hk, hk', ih h.2]

theorem mem_of_find {k : κ} {v : β} {l : List (κ × β)} (h : find k l = some v) :
    (k, v) ∈ l := by
  induction l with
  | nil => cases h
  | cons entry rest ih =>
      rw [find] at h
      split at h
      · next heq =>
          cases h
          rw [← heq]
          exact List.mem_cons_self
      · exact List.mem_cons_of_mem _ (ih h)

theorem mem_iff_find {k : κ} {v : β} {l : List (κ × β)}
    (h : (l.map Prod.fst).Nodup) : (k, v) ∈ l ↔ find k l = some v := by
  induction l with
  | nil => simp [find]
  | cons entry rest ih =>
      obtain ⟨k', v'⟩ := entry
      rw [List.map_cons, List.nodup_cons] at h
      rw [List.mem_cons, Prod.mk.injEq, find]
      by_cases hk : k' = k
      · subst hk
        have hnot : (k', v) ∉ rest := fun hmem =>
          h.1 (List.mem_map.mpr ⟨_, hmem, rfl⟩)
        simp [hnot, eq_comm]
      · simp [hk, ih h.2, Ne.symm hk]

theorem mem_items_iff {d : Dict κ β} {k : κ} {v : β} :
    (k, v) ∈ d.items ↔ d.get k = some v := mem_iff_find d.nodup_keys

@[simp] theorem get_empty (k : κ) : (empty : Dict κ β).get k = none := rfl

theorem get_set (d : Dict κ β) (k k' : κ) (v : β) :
    (d.set k v).get k' = if k' = k then some v else d.get k' :=
  find_store k k' v d.items

theorem get_pop (d : Dict κ β) (k k' : κ) :
    (d.pop k).get k' = if k' = k then none else d.get k' :=
  find_discard k k' d.nodup_keys

@[simp] theorem get_set_self (d : Dict κ β) (k : κ) (v : β) :
    (d.set k v).get k = some v := by
  simp [get_set]

@[simp] theorem get_pop_self (d : Dict κ β) (k : κ) :
    (d.pop k).get k = none := by
  simp [get_pop]

theorem get_modify (d : Dict κ β) (k k' : κ) (f : β → β) :
    (d.modify k f).get k' =
      if k' = k then (d.get k').map f else d.get k' := by
  unfold modify
  cases h : d.get k with
  | none =>
      by_cases hk : k' = k
      · simp [hk, h]
      · simp [hk]
  | some v =>
      by_cases hk : k' = k
      · simp [hk, h]
      · simp [get_set, hk]

theorem store_eq_append {k : κ} {v : β} {l : List (κ × β)}
    (h : k ∉ l.map Prod.fst) : store k v l = l ++ [(k, v)] := by
  induction l with
  | nil => rfl
  | cons e rest ih =>
      rw [List.map_cons, List.mem_cons, not_or] at h
      rw [store, if_neg (Ne.symm h.1), ih h.2, List.cons_append]

theorem mem_keys_iff {d : Dict κ β} {k : κ} : k ∈ d.keys ↔ (d.get k).isSome := by
  constructor
  · intro h
    obtain ⟨e, hmem, rfl⟩ := List.mem_map.mp h
    rw [mem_items_iff.mp hmem]
    rfl
  · intro h
    obtain ⟨v, hv⟩ := Option.isSome_iff_exists.mp h
    exact List.mem_map_of_mem (mem_items_iff.mpr hv)

theorem keys_set_of_mem {d : Dict κ β} {k : κ} {v : β} (h : k ∈ d.keys) :
    (d.set k v).keys = d.keys := by
  have hgeneral : ∀ l : List (κ × β), k ∈ l.map Prod.fst →
      (store k v l).map Prod.fst = l.map Prod.fst := by
    intro l
    induction l with
    | nil => simp
    | cons e rest ih =>
        intro hmem
        obtain ⟨a, b⟩ := e
        rw [store]
        split
        · rfl
        · rename_i hne
          rw [List.map_cons, List.map_cons, ih]
          simpa [Ne.symm hne] using hmem
  exact hgeneral d.items h

theorem keys_set_of_not_mem {d : Dict κ β} {k : κ} {v : β} (h : k ∉ d.keys) :
    (d.set k v).keys = d.keys ++ [k] := by
  have hstore : (d.set k v).items = d.items ++ [(k, v)] := store_eq_append h
  rw [keys, hstore, List.map_append]
  rfl

/-! ## Applying a function to the values -/

section Map

variable {γ : Type v}

omit [DecidableEq κ] in
theorem map_fst_map (f : β → γ) (l : List (κ × β)) :
    (l.map fun e => (e.1, f e.2)).map Prod.fst = l.map Prod.fst := by
  rw [List.map_map]
  rfl

def map (f : β → γ) (d : Dict κ β) : Dict κ γ :=
  ⟨d.items.map fun e => (e.1, f e.2), by rw [map_fst_map]; exact d.nodup_keys⟩

theorem find_map (f : β → γ) (k : κ) (l : List (κ × β)) :
    find k (l.map fun e => (e.1, f e.2)) = (find k l).map f := by
  induction l with
  | nil => rfl
  | cons e rest ih =>
      rw [List.map_cons, find, find, ih]
      split <;> rfl

theorem get_map (f : β → γ) (d : Dict κ β) (k : κ) :
    (d.map f).get k = (d.get k).map f := find_map f k d.items

theorem map_store (f : β → γ) (k : κ) (v : β) (l : List (κ × β)) :
    (store k v l).map (fun e => (e.1, f e.2)) =
      store k (f v) (l.map fun e => (e.1, f e.2)) := by
  induction l with
  | nil => rfl
  | cons e rest ih =>
      rw [List.map_cons, store, store]
      split
      · rfl
      · rw [List.map_cons, ih]

theorem map_set (f : β → γ) (d : Dict κ β) (k : κ) (v : β) :
    (d.set k v).map f = (d.map f).set k (f v) := by
  simp only [set, map, map_store]

omit [DecidableEq κ] in
@[simp] theorem keys_map (f : β → γ) (d : Dict κ β) : (d.map f).keys = d.keys :=
  map_fst_map f d.items

end Map

/-! ## Weighing the items of a dictionary -/

/-- The total weight of the stored values. -/
def weigh (w : β → ℕ) (d : Dict κ β) : ℕ := (d.values.map w).sum

theorem sum_discard (w : β → ℕ) {k : κ} {v : β} {l : List (κ × β)}
    (h : find k l = some v) :
    (((discard k l).map Prod.snd).map w).sum + w v =
      ((l.map Prod.snd).map w).sum := by
  induction l with
  | nil => simp [find] at h
  | cons e rest ih =>
      obtain ⟨a, b⟩ := e
      by_cases hk : a = k
      · rw [find, if_pos hk] at h
        obtain rfl := Option.some.inj h
        simp [discard, hk, Nat.add_comm]
      · rw [find, if_neg hk] at h
        have hrest := ih h
        simp only [discard, if_neg hk, List.map_cons, List.sum_cons]
        omega

theorem sum_store (w : β → ℕ) {k : κ} {v : β} (v' : β) {l : List (κ × β)}
    (h : find k l = some v) :
    (((store k v' l).map Prod.snd).map w).sum + w v =
      ((l.map Prod.snd).map w).sum + w v' := by
  induction l with
  | nil => simp [find] at h
  | cons e rest ih =>
      obtain ⟨a, b⟩ := e
      by_cases hk : a = k
      · rw [find, if_pos hk] at h
        obtain rfl := Option.some.inj h
        simp only [store, if_pos hk, List.map_cons, List.sum_cons]
        omega
      · rw [find, if_neg hk] at h
        have hrest := ih h
        simp only [store, if_neg hk, List.map_cons, List.sum_cons]
        omega

theorem weigh_pop (w : β → ℕ) {d : Dict κ β} {k : κ} {v : β}
    (h : d.get k = some v) : (d.pop k).weigh w + w v = d.weigh w :=
  sum_discard w h

/-- Changing values without changing their weight leaves the total alone. -/
theorem weigh_modify (w : β → ℕ) (d : Dict κ β) (k : κ) {f : β → β}
    (hf : ∀ v, w (f v) = w v) : (d.modify k f).weigh w = d.weigh w := by
  unfold modify
  cases h : d.get k with
  | none => rfl
  | some v =>
      have hsum := sum_store w (f v) h
      rw [hf v] at hsum
      exact Nat.add_right_cancel hsum

end Dict

/-! ## Ordered sets -/

namespace OrderedSet

variable {α : Type u} [DecidableEq α]

/-- Add `a` at the end, unless it is there already. -/
def add (l : List α) (a : α) : List α := if a ∈ l then l else l ++ [a]

def remove (l : List α) (a : α) : List α := l.filter (· ≠ a)

@[simp] theorem mem_add {l : List α} {a b : α} :
    b ∈ add l a ↔ b ∈ l ∨ b = a := by
  unfold add
  split
  · exact ⟨Or.inl, fun h => h.elim id fun hb => hb ▸ ‹a ∈ l›⟩
  · simp

@[simp] theorem mem_remove {l : List α} {a b : α} :
    b ∈ remove l a ↔ b ∈ l ∧ b ≠ a := by
  simp [remove]

theorem add_of_mem {l : List α} {a : α} (h : a ∈ l) : add l a = l :=
  if_pos h

theorem remove_of_not_mem {l : List α} {a : α} (h : a ∉ l) :
    remove l a = l := by
  rw [remove, List.filter_eq_self]
  intro b hb
  simpa using fun heq : b = a => h (heq ▸ hb)

theorem nodup_add {l : List α} (a : α) (h : l.Nodup) : (add l a).Nodup := by
  unfold add
  split
  · exact h
  · next hnot =>
    rw [List.nodup_append]
    refine ⟨h, List.nodup_singleton a, ?_⟩
    intro x hx y hy hxy
    rw [List.mem_singleton] at hy
    exact hnot (hy ▸ hxy ▸ hx)

/-- Adding distinct new elements appends them. -/
theorem foldl_add_of_nodup {l new : List α} (h : (l ++ new).Nodup) :
    new.foldl add l = l ++ new := by
  induction new generalizing l with
  | nil => simp
  | cons a rest ih =>
      have hnot : a ∉ l := by
        intro ha
        exact (List.nodup_append.mp h).2.2 a ha a List.mem_cons_self rfl
      have hadd : add l a = l ++ [a] := if_neg hnot
      rw [List.foldl_cons, hadd, ih (by simpa using h)]
      simp

theorem nodup_remove {l : List α} (a : α) (h : l.Nodup) :
    (remove l a).Nodup :=
  h.filter _

end OrderedSet

end GraphqlCore
