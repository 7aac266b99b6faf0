import Mathlib.Tactic.Common

/-!
# Computations that fail in one way

A computation settles a proposition if it returns a value where the proposition
holds and ends with a given error where it does not.  The rules for sequences
give the proposition that a program settles from those its parts settle.
-/

namespace GraphqlCore

variable {ε α β : Type}

theorem bind_eq_ok {x : Except ε α} {f : α → Except ε β} {b : β} :
    x >>= f = .ok b ↔ ∃ a, x = .ok a ∧ f a = .ok b := by
  cases x with
  | error e => simp [bind, Except.bind]
  | ok a => simp [bind, Except.bind]

theorem map_eq_ok {x : Except ε α} {g : α → β} {b : β} :
    g <$> x = .ok b ↔ ∃ a, x = .ok a ∧ g a = b := by
  cases x with
  | error e => simp [Functor.map, Except.map]
  | ok a => simp [Functor.map, Except.map]

/-- The computation returns a value if `p` holds and otherwise ends with `e`. -/
def Settles (e : ε) (x : Except ε α) (p : Prop) : Prop :=
  match x with
  | .ok _ => p
  | .error e' => e' = e ∧ ¬ p

namespace Settles

variable {e : ε} {x : Except ε α} {f : α → Except ε β} {p q : Prop}

theorem ok {a : α} (hp : p) : Settles e (.ok a : Except ε α) p := hp

theorem error (hp : ¬ p) : Settles e (.error e : Except ε α) p := ⟨rfl, hp⟩

theorem congr (h : Settles e x p) (hpq : p ↔ q) : Settles e x q := by
  rwa [← propext hpq]

theorem bind (hx : Settles e x p) (hf : ∀ a, x = .ok a → Settles e (f a) q) :
    Settles e (x >>= f) (p ∧ q) := by
  cases x with
  | ok a => exact (hf a rfl).congr (and_iff_right hx).symm
  | error e' => exact ⟨hx.1, fun h => hx.2 h.1⟩

theorem map {g : α → β} (hx : Settles e x p) : Settles e (g <$> x) p := by
  cases x with
  | ok a => exact hx
  | error e' => exact hx

theorem bind_ok {g : α → β} (hx : Settles e x p) :
    Settles e (x >>= fun a => Except.ok (g a)) p := by
  cases x with
  | ok a => exact hx
  | error e' => exact hx

theorem exists_ok (h : Settles e x p) (hp : p) : ∃ a, x = .ok a := by
  cases x with
  | ok a => exact ⟨a, rfl⟩
  | error e' => exact absurd hp h.2

theorem of_ok {a : α} (h : Settles e x p) (hx : x = .ok a) : p := by
  rwa [hx] at h

theorem eq_error_iff (h : Settles e x p) : x = .error e ↔ ¬ p := by
  cases x with
  | ok a =>
      have hp : p := h
      simp [hp]
  | error e' => simp [h.1, h.2]

end Settles

/-! ## Computations that return -/

/-- The computation returns a value with the property. -/
def Returns (x : Except ε α) (Q : α → Prop) : Prop := ∃ a, x = .ok a ∧ Q a

namespace Returns

variable {x : Except ε α} {f : α → Except ε β} {Q Q' : α → Prop} {R : β → Prop}

theorem ok {a : α} (h : Q a) : Returns (.ok a : Except ε α) Q := ⟨a, rfl, h⟩

theorem bind (hx : Returns x Q) (hf : ∀ a, Q a → Returns (f a) R) :
    Returns (x >>= f) R := by
  obtain ⟨a, rfl, ha⟩ := hx
  exact hf a ha

theorem mono (hx : Returns x Q) (h : ∀ a, Q a → Q' a) : Returns x Q' := by
  obtain ⟨a, rfl, ha⟩ := hx
  exact ok (h a ha)

/-- The rule for loops that keep an invariant. -/
theorem foldlM {f : β → α → Except ε β} {I : β → Prop} : ∀ {l : List α},
    (∀ b, I b → ∀ a ∈ l, Returns (f b a) I) → ∀ b, I b → Returns (l.foldlM f b) I
  | [], _, _, hb => ok hb
  | a :: rest, hf, b, hb => by
      rw [List.foldlM_cons]
      exact (hf b hb a List.mem_cons_self).bind
        (foldlM fun b hb a ha => hf b hb a (List.mem_cons_of_mem _ ha))

end Returns

end GraphqlCore
