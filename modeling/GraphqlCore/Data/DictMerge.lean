import GraphqlCore.Data.Dict

/-!
# Merging dictionaries

Dictionary displays such as `{**a, **b}`, and dictionaries that are built from a list of items.
-/

namespace GraphqlCore.Dict

universe u v

variable {κ : Type u} {β : Type v}

theorem ext_items {d d' : Dict κ β} (h : d.items = d'.items) : d = d' := by
  cases d
  cases d'
  congr

variable [DecidableEq κ]

/-- The dictionary that the items are stored in one after another. -/
def ofList (items : List (κ × β)) : Dict κ β :=
  items.foldl (fun d item => d.set item.1 item.2) empty

/-- The dictionary `{**d, **d'}`. -/
def update (d d' : Dict κ β) : Dict κ β :=
  d'.items.foldl (fun d item => d.set item.1 item.2) d

theorem get_foldl_set {items : List (κ × β)} (hnodup : (items.map Prod.fst).Nodup)
    (d : Dict κ β) (k : κ) :
    (items.foldl (fun d item => d.set item.1 item.2) d).get k =
      (find k items).or (d.get k) := by
  induction items generalizing d with
  | nil => rfl
  | cons item rest ih =>
      obtain ⟨a, b⟩ := item
      rw [List.map_cons, List.nodup_cons] at hnodup
      rw [List.foldl_cons, ih hnodup.2, get_set]
      by_cases h : a = k
      · subst h
        rw [find_eq_none hnodup.1]
        simp [find]
      · simp [find, h, Ne.symm h]

end GraphqlCore.Dict
