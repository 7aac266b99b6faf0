import Mathlib.Data.List.Basic

/-!
# Texts that can be read back

A text tells what it was written for if no other value has a text that begins in the same
way, as long as nothing but a delimiter follows.  Lists of such texts with separators
between them can be read back, too.
-/

namespace GraphqlCore

universe u v w

variable {α : Type u} {β : Type v} {γ : Type w}

/-- Nothing follows, or a delimiter. -/
def Delimited (delimiter : γ → Prop) (text : List γ) : Prop := ∀ c ∈ text.head?, delimiter c

/-- No value with another content has the same text in front of a delimiter. -/
def Readable (delimiter : γ → Prop) (write : α → List γ) (content : α → β) (p : α → Prop)
    (a : α) : Prop :=
  ∀ a', p a' → ∀ rest rest', Delimited delimiter rest → Delimited delimiter rest' →
    write a ++ rest = write a' ++ rest' → content a = content a' ∧ rest = rest'

section Readable

variable {delimiter : γ → Prop} {write : α → List γ} {content : α → β} {p : α → Prop} {a : α}

theorem delimited_nil : Delimited delimiter [] := fun _ h => nomatch h

theorem delimited_cons {c : γ} {text : List γ} : Delimited delimiter (c :: text) ↔ delimiter c := by
  simp [Delimited]

/-- Texts without delimiters are told apart by the delimiters behind them. -/
theorem eq_of_notDelimiter {text text' rest rest' : List γ} (h : ∀ c ∈ text, ¬delimiter c)
    (h' : ∀ c ∈ text', ¬delimiter c) (hrest : Delimited delimiter rest)
    (hrest' : Delimited delimiter rest') (heq : text ++ rest = text' ++ rest') :
    text = text' ∧ rest = rest' := by
  induction text generalizing text' with
  | nil =>
      cases text' with
      | nil => exact ⟨rfl, heq⟩
      | cons c text' =>
          obtain rfl : rest = c :: (text' ++ rest') := heq
          exact absurd (delimited_cons.mp hrest) (h' c List.mem_cons_self)
  | cons c text ih =>
      cases text' with
      | nil =>
          obtain rfl : c :: (text ++ rest) = rest' := heq
          exact absurd (delimited_cons.mp hrest') (h c List.mem_cons_self)
      | cons c' text' =>
          obtain ⟨rfl, htail⟩ := List.cons.inj heq
          obtain ⟨rfl, hrest⟩ := ih (fun d hd => h d (List.mem_cons_of_mem _ hd))
            (fun d hd => h' d (List.mem_cons_of_mem _ hd)) htail
          exact ⟨rfl, hrest⟩

theorem Readable.content_eq (h : Readable delimiter write content p a) {a' : α} (ha' : p a')
    (heq : write a = write a') : content a = content a' :=
  (h a' ha' [] [] delimited_nil delimited_nil (by rw [heq])).1

/-! ## Lists -/

variable {separator rest rest' : List γ} {items items' : List α}

/-- The texts, each with a separator in front of it. -/
def separated (write : α → List γ) (separator : List γ) (items : List α) : List γ :=
  items.flatMap fun a => separator ++ write a

theorem separated_cons (a : α) (items : List α) :
    separated write separator (a :: items) =
      separator ++ (write a ++ separated write separator items) := by
  rw [separated, List.flatMap_cons, List.append_assoc]
  rfl

theorem delimited_separated (hseparator : Delimited delimiter separator)
    (hsome : separator ≠ []) (hrest : Delimited delimiter rest) (items : List α) :
    Delimited delimiter (separated write separator items ++ rest) := by
  cases items with
  | nil => exact hrest
  | cons a items =>
      obtain ⟨c, separator, rfl⟩ := List.exists_cons_of_ne_nil hsome
      exact delimited_cons.mpr (delimited_cons.mp hseparator)

/-- The items are read one after another, up to a text that does not begin with the
separator. -/
theorem separated_unique (hseparator : Delimited delimiter separator) (hsome : separator ≠ [])
    (hrest : Delimited delimiter rest) (hrest' : Delimited delimiter rest')
    (hstop : ¬separator <+: rest) (hstop' : ¬separator <+: rest')
    (hitems : ∀ a ∈ items, Readable delimiter write content p a) (hitems' : ∀ a ∈ items', p a)
    (heq : separated write separator items ++ rest =
      separated write separator items' ++ rest') :
    items.map content = items'.map content ∧ rest = rest' := by
  induction items generalizing items' with
  | nil =>
      cases items' with
      | nil => exact ⟨rfl, heq⟩
      | cons a' items' =>
          refine absurd ?_ hstop
          obtain rfl : rest = _ := heq
          rw [separated_cons, List.append_assoc]
          exact List.prefix_append _ _
  | cons a items ih =>
      cases items' with
      | nil =>
          refine absurd ?_ hstop'
          obtain rfl : _ = rest' := heq
          rw [separated_cons, List.append_assoc]
          exact List.prefix_append _ _
      | cons a' items' =>
          simp only [separated_cons, List.append_assoc, List.append_cancel_left_eq] at heq
          obtain ⟨hcontent, htail⟩ := hitems a List.mem_cons_self a' (hitems' a' List.mem_cons_self)
            _ _ (delimited_separated hseparator hsome hrest items)
            (delimited_separated hseparator hsome hrest' items') heq
          obtain ⟨hcontents, hrests⟩ := ih (fun b hb => hitems b (List.mem_cons_of_mem _ hb))
            (fun b hb => hitems' b (List.mem_cons_of_mem _ hb)) htail
          exact ⟨by rw [List.map_cons, List.map_cons, hcontent, hcontents], hrests⟩

theorem separated_eq_intercalate (a : α) (items : List α) :
    separated write separator (a :: items) =
      separator ++ separator.intercalate ((a :: items).map write) := by
  induction items generalizing a with
  | nil => simp [separated, List.intercalate]
  | cons b items ih =>
      rw [separated_cons, ih, List.map_cons, List.map_cons, List.map_cons,
        List.intercalate_cons_cons]
      simp

/-- Joined texts can be read back if no text of an item is empty or begins with a
delimiter. -/
theorem intercalate_unique (hseparator : Delimited delimiter separator) (hsome : separator ≠ [])
    (hrest : Delimited delimiter rest) (hrest' : Delimited delimiter rest')
    (hstop : ¬separator <+: rest) (hstop' : ¬separator <+: rest')
    (hitems : ∀ a ∈ items, Readable delimiter write content p a) (hitems' : ∀ a ∈ items', p a)
    (hp : ∀ a ∈ items, p a) (hstart : ∀ a, p a → ∃ c text, write a = c :: text ∧ ¬delimiter c)
    (heq : separator.intercalate (items.map write) ++ rest =
      separator.intercalate (items'.map write) ++ rest') :
    items.map content = items'.map content ∧ rest = rest' := by
  have hfirst : ∀ a items, p a → ∀ rest text, Delimited delimiter text →
      separator.intercalate ((a :: items).map write) ++ rest ≠ text := by
    rintro a items ha rest _ htext rfl
    obtain ⟨c, text, hwrite, hc⟩ := hstart a ha
    cases items with
    | nil =>
        rw [List.map_cons, hwrite] at htext
        exact hc (delimited_cons.mp (by simpa [List.intercalate_singleton] using htext))
    | cons b items =>
        rw [List.map_cons, List.map_cons, hwrite, List.intercalate_cons_cons] at htext
        exact hc (delimited_cons.mp (by simpa using htext))
  cases items with
  | nil =>
      cases items' with
      | nil => exact ⟨rfl, heq⟩
      | cons a' items' =>
          exact absurd heq.symm (hfirst a' items' (hitems' a' List.mem_cons_self) _ _ hrest)
  | cons a items =>
      cases items' with
      | nil => exact absurd heq (hfirst a items (hp a List.mem_cons_self) _ _ hrest')
      | cons a' items' =>
          refine separated_unique hseparator hsome hrest hrest' hstop hstop' hitems hitems' ?_
          rw [separated_eq_intercalate, separated_eq_intercalate, List.append_assoc,
            List.append_assoc, heq]

end Readable

end GraphqlCore
