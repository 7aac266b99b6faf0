import GraphqlCore.Data.StringAlignment
import GraphqlCore.Utilities.SuggestionList

/-!
# The lexical distance is exact

The three rows hold the distances of the first parts of the texts: while a row is filled in,
the two rows before it are complete.  A row whose cells all exceed the threshold ends the
computation, because some cell of it is at most the distance of the whole texts.
-/

namespace GraphqlCore.Suggestion

open StringAlignment

/-! ## Cells -/

def cell (rows : Rows) (i j : ℕ) : Option ℕ := rows[i]?.bind fun row => row[j]?

/-- Three rows of that size. -/
structure HasShape (size : ℕ) (rows : Rows) : Prop where
  rows_length : rows.length = 3
  row_length : ∀ row ∈ rows, row.length = size

section Cells

variable {size i j value : ℕ} {rows : Rows}

theorem hasShape_init (methods : StringMethods) (input : Text) :
    HasShape (input.length + 1) (LexicalDistance.init methods input).rows where
  rows_length := List.length_replicate
  row_length := fun row hrow => by
    rw [List.eq_of_mem_replicate hrow, List.length_replicate]

theorem getItem_of_getElem? {α : Type} {items : List α} {item : α} (h : items[i]? = some item) :
    getItem items i = .ok item := by
  rw [getItem, h]

theorem getCell_of_cell (h : cell rows i j = some value) : getCell rows i j = .ok value := by
  obtain ⟨row, hrow, hcell⟩ := Option.bind_eq_some_iff.mp h
  rw [getCell, getItem_of_getElem? hrow]
  exact getItem_of_getElem? hcell

theorem HasShape.exists_row (h : HasShape size rows) (hi : i < 3) :
    ∃ row, rows[i]? = some row ∧ row.length = size := by
  have hlt : i < rows.length := h.rows_length ▸ hi
  exact ⟨rows[i], List.getElem?_eq_getElem hlt, h.row_length _ (List.getElem_mem hlt)⟩

/-- A cell of the rows can be set, and the others stay as they are. -/
theorem HasShape.exists_setCell (h : HasShape size rows) (hi : i < 3) (hj : j < size)
    (value : ℕ) :
    ∃ rows', setCell rows i j value = .ok rows' ∧ HasShape size rows' ∧
      ∀ i' j', cell rows' i' j' =
        if i' = i ∧ j' = j then some value else cell rows i' j' := by
  obtain ⟨row, hrow, hlength⟩ := h.exists_row hi
  have hlt : i < rows.length := h.rows_length ▸ hi
  refine ⟨rows.set i (row.set j value), ?_, ⟨?_, ?_⟩, ?_⟩
  · rw [setCell, getItem_of_getElem? hrow]
    simp [setItem, hlength, hj, hlt, bind, Except.bind]
  · rw [List.length_set]
    exact h.rows_length
  · intro row' hrow'
    rcases List.mem_or_eq_of_mem_set hrow' with hmem | rfl
    · exact h.row_length row' hmem
    · rw [List.length_set, hlength]
  · intro i' j'
    unfold cell
    by_cases hi' : i' = i
    · subst hi'
      rw [List.getElem?_set_self hlt, hrow, Option.bind_some, Option.bind_some]
      by_cases hj' : j' = j
      · subst hj'
        rw [List.getElem?_set_self (hlength ▸ hj), if_pos ⟨rfl, rfl⟩]
      · rw [List.getElem?_set_ne (Ne.symm hj'), if_neg (fun h => hj' h.2)]
    · rw [List.getElem?_set_ne (Ne.symm hi'), if_neg (fun h => hi' h.1)]

/-- Behind the end of a row no cell can be set. -/
theorem HasShape.setCell_outside (h : HasShape size rows) (hi : i < 3) (hj : size ≤ j) :
    setCell rows i j value = .error .indexError := by
  obtain ⟨row, hrow, hlength⟩ := h.exists_row hi
  rw [setCell, getItem_of_getElem? hrow]
  simp [setItem, hlength, Nat.not_lt_of_le hj, bind, Except.bind]

end Cells

/-! ## Distances of first parts -/

/-- The first items, the last of them in front. -/
def part (a : Text) (i : ℕ) : Text := (a.take i).reverse

/-- The distance of the first items. -/
noncomputable def partDistance (a b : Text) (i j : ℕ) : ℕ := distance (part a i) (part b j)

section Parts

variable {a b : Text} {i j x y : ℕ}

theorem part_succ (h : a[i]? = some x) : part a (i + 1) = x :: part a i := by
  rw [part, List.take_add_one, h, List.reverse_append]
  rfl

theorem length_part (hi : i ≤ a.length) : (part a i).length = i := by
  rw [part, List.length_reverse, List.length_take, Nat.min_eq_left hi]

theorem part_length (a : Text) : part a a.length = a.reverse := by rw [part, List.take_length]

theorem partDistance_length (a b : Text) :
    partDistance a b a.length b.length = distance a b := by
  rw [partDistance, part_length, part_length, distance_reverse]

theorem partDistance_zero_left (hj : j ≤ b.length) : partDistance a b 0 j = j := by
  rw [partDistance, part, List.take_zero, List.reverse_nil, nil_distance, length_part hj]

theorem partDistance_zero_right (hi : i ≤ a.length) : partDistance a b i 0 = i := by
  rw [partDistance, part, part, List.take_zero, List.reverse_nil, distance_nil, ← part,
    length_part hi]

/-- The least number of edits of the first items if the last step is no swap. -/
noncomputable def partByOne (a b : Text) (i j x y : ℕ) : ℕ :=
  min (min (partDistance a b i (j + 1) + 1) (partDistance a b (i + 1) j + 1))
    (partDistance a b i j + if x = y then 0 else 1)

theorem distanceByOne_part (ha : a[i]? = some x) (hb : b[j]? = some y) :
    distanceByOne x (part a i) y (part b j) = partByOne a b i j x y := by
  rw [distanceByOne, partByOne, partDistance, partDistance, partDistance, part_succ ha,
    part_succ hb]

theorem partDistance_of_no_swap (ha : a[i]? = some x) (hb : b[j]? = some y)
    (h : ∀ a' b', part a i = y :: a' → part b j ≠ x :: b') :
    partDistance a b (i + 1) (j + 1) = partByOne a b i j x y := by
  rw [partDistance, part_succ ha, part_succ hb, distance_of_no_swap h, distanceByOne_part ha hb]

/-- The last two items are swapped, or not. -/
theorem partDistance_add_two {x' y' : ℕ} (ha' : a[i]? = some x') (ha : a[i + 1]? = some x)
    (hb' : b[j]? = some y') (hb : b[j + 1]? = some y) :
    partDistance a b (i + 2) (j + 2) =
      if x = y' ∧ x' = y then min (partByOne a b (i + 1) (j + 1) x y) (partDistance a b i j + 1)
      else partByOne a b (i + 1) (j + 1) x y := by
  split
  · next hswap =>
    obtain ⟨rfl, rfl⟩ := hswap
    rw [← distanceByOne_part ha hb, partDistance, part_succ ha, part_succ ha', part_succ hb,
      part_succ hb', distance_swap]
    rfl
  · next hswap =>
    refine partDistance_of_no_swap ha hb fun a' b' hparta hpartb => hswap ?_
    rw [part_succ ha'] at hparta
    rw [part_succ hb'] at hpartb
    exact ⟨(List.cons.inj hpartb).1.symm, (List.cons.inj hparta).1⟩

/-- Some cell of a row is at most the distance of the whole texts. -/
theorem exists_partDistance_le (a b : Text) (i : ℕ) :
    ∃ j ≤ b.length, partDistance a b i j ≤ distance a b := by
  have hsuffix : part a i <:+ a.reverse := by
    rw [part, List.reverse_suffix]
    exact List.take_prefix i a
  obtain ⟨b', hb', hle⟩ := exists_suffix_distance_le hsuffix b.reverse
  rw [distance_reverse] at hle
  have hpart : b' = part b b'.length := by
    have htake : b'.reverse = b.take b'.reverse.length :=
      List.prefix_iff_eq_take.mp (List.reverse_suffix.mp (b'.reverse_reverse.symm ▸ hb'))
    rw [List.length_reverse] at htake
    rw [part, ← htake, List.reverse_reverse]
  refine ⟨b'.length, ?_, ?_⟩
  · exact hb'.length_le.trans (Nat.le_of_eq List.length_reverse)
  · rw [partDistance, ← hpart]
    exact hle

end Parts

/-! ## Filling in a row -/

/-- Row `i` is stored completely. -/
def Stored (a b : Text) (rows : Rows) (i : ℕ) : Prop :=
  ∀ j ≤ b.length, cell rows (i % 3) j = some (partDistance a b i j)

/-- Row `i` is stored, and the row before it. -/
structure Complete (a b : Text) (size : ℕ) (rows : Rows) (i : ℕ) : Prop where
  shape : HasShape size rows
  up : Stored a b rows i
  beforeUp : ∀ k, k + 1 = i → Stored a b rows k

/-- The rows before row `i + 1` are stored, and of that row the cells up to `j`. -/
structure Filled (a b : Text) (size : ℕ) (rows : Rows) (i j : ℕ) : Prop
    extends Complete a b size rows i where
  current : ∀ j' ≤ j, cell rows ((i + 1) % 3) j' = some (partDistance a b (i + 1) j')

section Filling

variable {a b : Text} {size i j x y smallest : ℕ} {rows : Rows}

/-- A cell of the current row does not belong to the rows before it. -/
theorem Complete.set {rows' : Rows} {value : ℕ} (h : Complete a b size rows i)
    (hshape : HasShape size rows')
    (hcell : ∀ i' j', cell rows' i' j' =
      if i' = (i + 1) % 3 ∧ j' = j then some value else cell rows i' j') :
    Complete a b size rows' i where
  shape := hshape
  up := fun j' hj' => by
    rw [hcell, if_neg (fun h => by omega)]
    exact h.up j' hj'
  beforeUp := fun k hk j' hj' => by
    rw [hcell, if_neg (fun h => by omega)]
    exact h.beforeUp k hk j' hj'

theorem Filled.set {rows' : Rows} {value : ℕ} (h : Filled a b size rows i j)
    (hshape : HasShape size rows')
    (hcell : ∀ i' j', cell rows' i' j' =
      if i' = (i + 1) % 3 ∧ j' = j + 1 then some value else cell rows i' j')
    (hvalue : value = partDistance a b (i + 1) (j + 1)) :
    Filled a b size rows' i (j + 1) where
  toComplete := h.toComplete.set hshape hcell
  current := fun j' hj' => by
    rw [hcell]
    split
    · next heq => rw [heq.2, hvalue]
    · next hne => exact h.current j' (by omega)

theorem isTransposition_of_le (h : i ≤ 1 ∨ j ≤ 1) : isTransposition a b i j = .ok false := by
  rw [isTransposition, if_neg (by omega)]

theorem isTransposition_add_two {x' y' : ℕ} (ha' : a[i]? = some x') (ha : a[i + 1]? = some x)
    (hb' : b[j]? = some y') (hb : b[j + 1]? = some y) :
    isTransposition a b (i + 2) (j + 2) = .ok (decide (x = y' ∧ x' = y)) := by
  rw [isTransposition, if_pos (by omega)]
  simp only [Nat.add_sub_cancel, Nat.add_succ_sub_one, getItem_of_getElem? ha',
    getItem_of_getElem? ha, getItem_of_getElem? hb', getItem_of_getElem? hb, bind, Except.bind,
    pure, Except.pure]
  by_cases hx : x = y' <;> simp [hx]

/-- The last items of the parts are swapped, or not. -/
theorem Filled.isTransposition_cases (h : Filled a b size rows i j) (ha : a[i]? = some x)
    (hb : b[j]? = some y) :
    isTransposition a b (i + 1) (j + 1) = .ok false ∧
        partDistance a b (i + 1) (j + 1) = partByOne a b i j x y ∨
      ∃ doubleDiagonalCell, isTransposition a b (i + 1) (j + 1) = .ok true ∧
        getCell rows ((i + 1 - 2) % 3) (j + 1 - 2) = .ok doubleDiagonalCell ∧
        partDistance a b (i + 1) (j + 1) =
          min (partByOne a b i j x y) (doubleDiagonalCell + 1) := by
  have hia : i < a.length := (List.getElem?_eq_some_iff.mp ha).1
  have hjb : j < b.length := (List.getElem?_eq_some_iff.mp hb).1
  cases i with
  | zero =>
      exact .inl ⟨isTransposition_of_le (.inl (Nat.le_refl 1)),
        partDistance_of_no_swap ha hb (fun a' b' hpart => by simp [part] at hpart)⟩
  | succ i =>
      cases j with
      | zero =>
          exact .inl ⟨isTransposition_of_le (.inr (Nat.le_refl 1)),
            partDistance_of_no_swap ha hb (fun a' b' _ hpart => by simp [part] at hpart)⟩
      | succ j =>
          have ha' : a[i]? = some a[i] := List.getElem?_eq_getElem (by omega)
          have hb' : b[j]? = some b[j] := List.getElem?_eq_getElem (by omega)
          rw [isTransposition_add_two ha' ha hb' hb, partDistance_add_two ha' ha hb' hb]
          by_cases hswap : x = b[j] ∧ a[i] = y
          · rw [if_pos hswap, decide_eq_true hswap]
            exact .inr ⟨_, rfl, getCell_of_cell (h.beforeUp i rfl j (by omega)), rfl⟩
          · rw [if_neg hswap, decide_eq_false hswap]
            exact .inl ⟨rfl, rfl⟩

theorem Filled.measureCell (h : Filled a b size rows i j) (hi : i < a.length)
    (hj : j < b.length) (hsize : b.length < size) (smallest : ℕ) :
    ∃ rows', measureCell a b (i + 1) (rows, smallest) (j + 1) =
        .ok (rows', min (partDistance a b (i + 1) (j + 1)) smallest) ∧
      Filled a b size rows' i (j + 1) := by
  have ha : a[i]? = some a[i] := List.getElem?_eq_getElem hi
  have hb : b[j]? = some b[j] := List.getElem?_eq_getElem hj
  obtain ⟨rows', hset, hshape, hcell⟩ := h.shape.exists_setCell
    (Nat.mod_lt (i + 1) (Nat.succ_pos 2)) (Nat.lt_of_le_of_lt hj hsize)
    (partDistance a b (i + 1) (j + 1))
  refine ⟨rows', ?_, h.set hshape hcell rfl⟩
  have hdelete : getCell rows (i % 3) (j + 1) = .ok (partDistance a b i (j + 1)) :=
    getCell_of_cell (h.up (j + 1) hj)
  have hinsert : getCell rows ((i + 1) % 3) j = .ok (partDistance a b (i + 1) j) :=
    getCell_of_cell (h.current j (Nat.le_refl j))
  have hsubstitute : getCell rows (i % 3) j = .ok (partDistance a b i j) :=
    getCell_of_cell (h.up j (Nat.le_of_lt hj))
  rw [Suggestion.measureCell]
  simp only [Nat.add_sub_cancel, getItem_of_getElem? ha, getItem_of_getElem? hb, hdelete,
    hinsert, hsubstitute]
  rcases h.isTransposition_cases ha hb with ⟨hswap, heq⟩ | ⟨d, hswap, hdiagonal, heq⟩
  · rw [heq, partByOne] at hset ⊢
    simp only [hswap, bind, Except.bind, pure, Except.pure, hset, Bool.false_eq_true, if_false]
  · rw [heq, partByOne] at hset ⊢
    simp only [hswap, hdiagonal, bind, Except.bind, pure, Except.pure, hset, if_true]

/-- A row that is filled in to its end is the last one that is stored. -/
theorem Filled.complete (h : Filled a b size rows i b.length) :
    Complete a b size rows (i + 1) where
  shape := h.shape
  up := h.current
  beforeUp := fun _ hk => Nat.succ.inj hk ▸ h.up

/-- The loop over the rest of the cells of a row. -/
theorem Filled.measureCells (hi : i < a.length) (hsize : b.length < size) (n : ℕ) {j : ℕ}
    (hn : j + n = b.length) (h : Filled a b size rows i j)
    (hsmallest : ∀ j' ≤ j, smallest ≤ partDistance a b (i + 1) j') :
    ∃ rows' smallest',
      (List.range' (j + 1) n).foldlM (Suggestion.measureCell a b (i + 1)) (rows, smallest) =
        .ok (rows', smallest') ∧
      Filled a b size rows' i b.length ∧
      ∀ j' ≤ b.length, smallest' ≤ partDistance a b (i + 1) j' := by
  induction n generalizing rows smallest j with
  | zero =>
      obtain rfl : j = b.length := hn
      exact ⟨rows, smallest, rfl, h, hsmallest⟩
  | succ n ih =>
      obtain ⟨rows₁, hcell, h₁⟩ := h.measureCell hi (by omega) hsize smallest
      have hsmallest₁ : ∀ j' ≤ j + 1,
          min (partDistance a b (i + 1) (j + 1)) smallest ≤ partDistance a b (i + 1) j' := by
        intro j' hj'
        rcases Nat.of_le_succ hj' with hle | rfl
        · exact (min_le_right _ _).trans (hsmallest j' hle)
        · exact min_le_left _ _
      obtain ⟨rows₂, smallest₂, hcells, hfilled⟩ := ih (by omega) h₁ hsmallest₁
      refine ⟨rows₂, smallest₂, ?_, hfilled⟩
      rw [List.range'_succ, List.foldlM_cons, hcell]
      exact hcells

/-- A row is filled in, and no cell of it is less than the smallest one. -/
theorem Complete.measureRow (h : Complete a b size rows i) (hi : i < a.length)
    (hsize : b.length < size) :
    ∃ rows' smallest, measureRow a b rows (i + 1) = .ok (rows', smallest) ∧
      Complete a b size rows' (i + 1) ∧
      ∀ j ≤ b.length, smallest ≤ partDistance a b (i + 1) j := by
  obtain ⟨rows₁, hset, hshape, hcell⟩ := h.shape.exists_setCell
    (Nat.mod_lt (i + 1) (Nat.succ_pos 2)) (Nat.zero_lt_of_lt hsize) (i + 1)
  have hzero : partDistance a b (i + 1) 0 = i + 1 := partDistance_zero_right hi
  have hfilled : Filled a b size rows₁ i 0 :=
    { toComplete := h.set hshape hcell
      current := fun j' hj' => by
        obtain rfl := Nat.le_zero.mp hj'
        rw [hcell, if_pos ⟨rfl, rfl⟩, hzero] }
  have hsmallest : ∀ j' ≤ 0, i + 1 ≤ partDistance a b (i + 1) j' := by
    intro j' hj'
    obtain rfl := Nat.le_zero.mp hj'
    exact Nat.le_of_eq hzero.symm
  obtain ⟨rows₂, smallest, hcells, hfilled₂, hsmallest₂⟩ :=
    hfilled.measureCells hi hsize b.length (Nat.zero_add _) hsmallest
  refine ⟨rows₂, smallest, ?_, hfilled₂.complete, hsmallest₂⟩
  rw [Suggestion.measureRow, hset]
  exact hcells

/-- The loop over the rest of the rows.  It is left only if the distance exceeds the
threshold. -/
theorem Complete.measureRows (threshold : ℤ) (hsize : b.length < size) (n : ℕ) {i : ℕ}
    (hn : i + n = a.length) (h : Complete a b size rows i) :
    ∃ rows' toEnd, measureRows a b threshold (List.range' (i + 1) n) rows =
        .ok (rows', toEnd) ∧
      HasShape size rows' ∧
      (toEnd = true → Complete a b size rows' a.length) ∧
      (toEnd = false → threshold < distance a b) := by
  induction n generalizing rows i with
  | zero =>
      obtain rfl : i = a.length := hn
      exact ⟨rows, true, rfl, h.shape, fun _ => h, fun h => absurd h Bool.true_eq_false_eq_False⟩
  | succ n ih =>
      obtain ⟨rows₁, smallest, hrow, h₁, hsmallest⟩ := h.measureRow (by omega) hsize
      rw [List.range'_succ, Suggestion.measureRows, hrow]
      by_cases hexceeds : threshold < smallest
      · refine ⟨rows₁, false, ?_, h₁.shape, nofun, fun _ => ?_⟩
        · simp only [bind, Except.bind, if_pos hexceeds, pure, Except.pure]
        · obtain ⟨j, hj, hle⟩ := exists_partDistance_le a b (i + 1)
          have := hsmallest j hj
          omega
      · obtain ⟨rows₂, toEnd, hrows, hspec⟩ := ih (by omega) h₁
        refine ⟨rows₂, toEnd, ?_, hspec⟩
        simp only [bind, Except.bind, if_neg hexceeds]
        exact hrows

end Filling

/-! ## The distance of two texts -/

/-- Some distance, unless it exceeds the threshold. -/
def upTo (threshold : ℤ) (distance : ℕ) : Option ℕ :=
  if (distance : ℤ) ≤ threshold then some distance else none

section Texts

variable {a b : Text} {size : ℕ} {rows : Rows}

/-- The loop that sets the first row. -/
theorem HasShape.exists_setFirstRow (h : HasShape size rows) {n : ℕ} (hn : n ≤ size) :
    ∃ rows', (List.range n).foldlM (fun rows j => setCell rows 0 j j) rows = .ok rows' ∧
      HasShape size rows' ∧ ∀ j < n, cell rows' 0 j = some j := by
  induction n with
  | zero => exact ⟨rows, rfl, h, nofun⟩
  | succ n ih =>
      obtain ⟨rows₁, hrows₁, h₁, hcell₁⟩ := ih (Nat.le_of_succ_le hn)
      obtain ⟨rows₂, hset, h₂, hcell₂⟩ := h₁.exists_setCell (Nat.succ_pos 2) hn n
      refine ⟨rows₂, ?_, h₂, fun j hj => ?_⟩
      · rw [List.range_succ, List.foldlM_append, hrows₁]
        simp only [List.foldlM_cons, List.foldlM_nil, bind, Except.bind, hset, pure, Except.pure]
      · rw [hcell₂]
        split
        · next heq => rw [heq.2]
        · next hne => exact hcell₁ j (by omega)

/-- Texts which are too long for the rows cannot be compared. -/
theorem HasShape.setFirstRow_outside (h : HasShape size rows) {n : ℕ} (hn : size < n) :
    (List.range n).foldlM (fun rows j => setCell rows 0 j j) rows = .error .indexError := by
  induction n with
  | zero => exact absurd hn (Nat.not_lt_zero _)
  | succ n ih =>
      rw [List.range_succ, List.foldlM_append]
      by_cases hlt : size < n
      · rw [ih hlt]
        rfl
      · obtain ⟨rows₁, hrows₁, h₁, -⟩ := h.exists_setFirstRow (Nat.le_of_not_lt hlt)
        rw [hrows₁]
        simp only [List.foldlM_cons, bind, Except.bind,
          h₁.setCell_outside (Nat.succ_pos 2) (Nat.le_of_lt_succ hn)]

/-- Rows that are large enough give the distance, if the threshold is not exceeded. -/
theorem HasShape.measureTexts (h : HasShape size rows) {threshold : ℤ}
    (hfits : (a.length : ℤ) - b.length ≤ threshold → b.length < size) :
    ∃ rows', measureTexts a b rows threshold = .ok (upTo threshold (distance a b), rows') ∧
      HasShape size rows' := by
  have hlength := length_le_add_distance a b
  rw [Suggestion.measureTexts, upTo]
  by_cases hexceeds : threshold < (a.length : ℤ) - b.length
  · refine ⟨rows, ?_, h⟩
    rw [if_pos hexceeds, if_neg (by omega)]
    rfl
  · rw [if_neg hexceeds]
    have hsize : b.length < size := hfits (Int.le_of_not_gt hexceeds)
    obtain ⟨rows₁, hfirst, h₁, hcell⟩ := h.exists_setFirstRow hsize
    have hcomplete : Complete a b size rows₁ 0 :=
      { shape := h₁
        up := fun j hj => by
          rw [partDistance_zero_left hj]
          exact hcell j (Nat.lt_succ_of_le hj)
        beforeUp := nofun }
    obtain ⟨rows₂, toEnd, hrows, h₂, htrue, hfalse⟩ :=
      hcomplete.measureRows threshold hsize a.length (Nat.zero_add _)
    refine ⟨rows₂, ?_, h₂⟩
    rw [Nat.zero_add] at hrows
    simp only [bind, Except.bind, pure, Except.pure, hfirst, hrows]
    cases toEnd with
    | false =>
        have hlt := hfalse rfl
        rw [if_neg (by omega)]
    | true =>
        have hdistance := (htrue rfl).up b.length (Nat.le_refl _)
        rw [partDistance_length] at hdistance
        simp only [getCell_of_cell hdistance]

/-- Rows that are too small are read out of range, unless the lengths are too far apart. -/
theorem HasShape.measureTexts_outside (h : HasShape size rows) (hsize : size ≤ b.length)
    {threshold : ℤ} (hle : (a.length : ℤ) - b.length ≤ threshold) :
    Suggestion.measureTexts a b rows threshold = .error .indexError := by
  rw [Suggestion.measureTexts, if_neg (Int.not_lt_of_ge hle)]
  simp only [h.setFirstRow_outside (Nat.lt_succ_of_le hsize), bind, Except.bind]

end Texts

/-! ## The distance to an option -/

section Options

variable (methods : StringMethods) (input : Text)

/-- An object that measures the distances to this input. -/
structure Measures (lexicalDistance : LexicalDistance) : Prop where
  input_eq : lexicalDistance.input = input
  lower_eq : lexicalDistance.inputLowerCase = methods.lower input
  shape : HasShape (input.length + 1) lexicalDistance.rows

theorem measures_init : Measures methods input (LexicalDistance.init methods input) where
  input_eq := rfl
  lower_eq := rfl
  shape := hasShape_init methods input

/-- What is measured: a change of case is a single edit. -/
noncomputable def optionDistance (option : Text) (threshold : ℤ) : Option ℕ :=
  if input = option then some 0
  else if methods.lower input = methods.lower option then some 1
  else upTo threshold (distance (methods.lower input) (methods.lower option))

/-- The rows are too small for the input and an option that is not ruled out by its
length. -/
def OutOfRange (option : Text) (threshold : ℤ) : Prop :=
  input ≠ option ∧ methods.lower input ≠ methods.lower option ∧
    input.length < min (methods.lower input).length (methods.lower option).length ∧
    ((methods.lower input).length : ℤ) - (methods.lower option).length ≤ threshold ∧
    ((methods.lower option).length : ℤ) - (methods.lower input).length ≤ threshold

variable {methods input} {lexicalDistance : LexicalDistance} {option : Text} {threshold : ℤ}

/-- If the shorter text does not fit into the rows, then all depends on the lengths. -/
theorem Measures.measure_outside (h : Measures methods input lexicalDistance)
    (hout : OutOfRange methods input option threshold) :
    lexicalDistance.measure methods option threshold = .error .indexError := by
  obtain ⟨hne, hlower, hsize, hle, hle'⟩ := hout
  rw [LexicalDistance.measure, h.input_eq, h.lower_eq]
  simp only [if_neg hne, if_neg hlower]
  split
  · next hlt =>
    rw [h.shape.measureTexts_outside (by omega) hle]
    rfl
  · next hlt =>
    rw [h.shape.measureTexts_outside (by omega) hle']
    rfl

theorem Measures.measure (h : Measures methods input lexicalDistance)
    (hin : ¬OutOfRange methods input option threshold) :
    ∃ lexicalDistance', lexicalDistance.measure methods option threshold =
        .ok (optionDistance methods input option threshold, lexicalDistance') ∧
      Measures methods input lexicalDistance' := by
  rw [LexicalDistance.measure, h.input_eq, h.lower_eq, optionDistance]
  by_cases heq : input = option
  · rw [if_pos heq, if_pos heq]
    exact ⟨lexicalDistance, rfl, h⟩
  rw [if_neg heq, if_neg heq]
  by_cases hlower : methods.lower input = methods.lower option
  · exact ⟨lexicalDistance, by simp only [if_pos hlower]; rfl, h⟩
  simp only [if_neg hlower]
  unfold OutOfRange at hin
  split
  · next hlt =>
    have hfits : ((methods.lower input).length : ℤ) - (methods.lower option).length ≤
        threshold → (methods.lower option).length < input.length + 1 := by grind
    obtain ⟨rows, hrows, hshape⟩ := h.shape.measureTexts hfits
    rw [hrows]
    exact ⟨_, rfl, rfl, rfl, hshape⟩
  · next hlt =>
    have hfits : ((methods.lower option).length : ℤ) - (methods.lower input).length ≤
        threshold → (methods.lower input).length < input.length + 1 := by grind
    obtain ⟨rows, hrows, hshape⟩ := h.shape.measureTexts hfits
    rw [hrows, distance_comm]
    exact ⟨_, rfl, rfl, rfl, hshape⟩

end Options

/-! ## Objects that are used again -/

/-- The object after options were measured with some thresholds. -/
def LexicalDistance.measureAll (methods : StringMethods) (lexicalDistance : LexicalDistance)
    (history : List (Text × ℤ)) : Except SuggestionError LexicalDistance :=
  history.foldlM (fun lexicalDistance measured => do
    let (_, lexicalDistance) ← lexicalDistance.measure methods measured.1 measured.2
    return lexicalDistance) lexicalDistance

section History

variable {methods : StringMethods} {input : Text}

theorem not_outOfRange_of_length (hlower : (methods.lower input).length = input.length)
    (option : Text) (threshold : ℤ) : ¬OutOfRange methods input option threshold :=
  fun h => absurd (hlower ▸ h.2.2.1) (Nat.not_lt_of_le (Nat.min_le_left _ _))

theorem Measures.measureAll {lexicalDistance : LexicalDistance}
    (h : Measures methods input lexicalDistance)
    (hlower : (methods.lower input).length = input.length) (history : List (Text × ℤ)) :
    ∃ lexicalDistance', lexicalDistance.measureAll methods history = .ok lexicalDistance' ∧
      Measures methods input lexicalDistance' := by
  induction history generalizing lexicalDistance with
  | nil => exact ⟨lexicalDistance, rfl, h⟩
  | cons measured history ih =>
      obtain ⟨lexicalDistance₁, hmeasure, h₁⟩ :=
        h.measure (not_outOfRange_of_length hlower measured.1 measured.2)
      obtain ⟨lexicalDistance₂, hall, h₂⟩ := ih h₁
      refine ⟨lexicalDistance₂, ?_, h₂⟩
      rw [LexicalDistance.measureAll, List.foldlM_cons, hmeasure]
      exact hall

/-- Whatever was measured before, an object gives the distance of its input to an option:
that of the lower-cased texts if it does not exceed the threshold, and nothing if it does,
but at most one edit if only the cases differ, and none if nothing does. -/
theorem measure_exact (hlower : (methods.lower input).length = input.length)
    (history : List (Text × ℤ)) (option : Text) (threshold : ℤ) :
    ∃ lexicalDistance lexicalDistance',
      (LexicalDistance.init methods input).measureAll methods history = .ok lexicalDistance ∧
      lexicalDistance.measure methods option threshold =
        .ok (optionDistance methods input option threshold, lexicalDistance') := by
  obtain ⟨lexicalDistance, hall, h⟩ := (measures_init methods input).measureAll hlower history
  obtain ⟨lexicalDistance', hmeasure, -⟩ :=
    h.measure (not_outOfRange_of_length hlower option threshold)
  exact ⟨lexicalDistance, lexicalDistance', hall, hmeasure⟩

end History

/-- String methods that know the letters and digits of ASCII. -/
def asciiMethods : StringMethods where
  lower := List.map fun c => if 65 ≤ c ∧ c ≤ 90 then c + 32 else c
  decimal := fun c => if 48 ≤ c ∧ c ≤ 57 then some (c - 48) else none
  maxStrDigits := some 4300

/-- The input "agr", the option "Arg" and two options that were measured before. -/
theorem measure_exact_swapped :
    ∃ lexicalDistance lexicalDistance',
      (LexicalDistance.init asciiMethods (str "agr")).measureAll asciiMethods
          [(str "grargh", 5), (str "ag", -1)] = .ok lexicalDistance ∧
      lexicalDistance.measure asciiMethods (str "Arg") 1 =
        .ok (optionDistance asciiMethods (str "agr") (str "Arg") 1, lexicalDistance') :=
  measure_exact rfl _ _ _

/-- Equal texts have no distance that exceeds the threshold, even if it is negative. -/
theorem measure_equal_exceeding :
    ¬∃ lexicalDistance,
      (LexicalDistance.init asciiMethods (str "a")).measure asciiMethods (str "a") (-1) =
        .ok (upTo (-1) (distance (str "a") (str "a")), lexicalDistance) := by
  rintro ⟨lexicalDistance, h⟩
  have hzero : (LexicalDistance.init asciiMethods (str "a")).measure asciiMethods (str "a") (-1) =
      .ok (some 0, LexicalDistance.init asciiMethods (str "a")) := rfl
  rw [hzero, distance_self] at h
  exact absurd (congrArg (fun r => r.map Prod.fst) h) nofun

end GraphqlCore.Suggestion
