import Mathlib.Tactic.Common

/-!
# Computations that keep their state when they fail

A computation is run from a state and ends in a new state, either with a value or with
an error, which can be handled from there on.  What it ends with is stated by `Ends`,
of which the rules for sequences and handlers are equivalences.
-/

namespace GraphqlCore

/-- A computation over a state, which is also left behind by an error. -/
def Attempt (σ ε α : Type) : Type := σ → Except ε α × σ

namespace Attempt

variable {σ ε α β : Type}

def pure (a : α) : Attempt σ ε α := fun s => (.ok a, s)

def bind (x : Attempt σ ε α) (f : α → Attempt σ ε β) : Attempt σ ε β := fun s =>
  match x s with
  | (.ok a, s') => f a s'
  | (.error e, s') => (.error e, s')

instance : Monad (Attempt σ ε) where
  pure := Attempt.pure
  bind := Attempt.bind

def throw (e : ε) : Attempt σ ε α := fun s => (.error e, s)

def modify (f : σ → σ) : Attempt σ ε Unit := fun s => (.ok (), f s)

/-- A value that is read from the state, which may change. -/
def state (f : σ → α × σ) : Attempt σ ε α := fun s => (.ok (f s).1, (f s).2)

/-- A value, or an error that is mapped to one of the computation. -/
def lift {ε' : Type} (f : ε' → ε) (x : Except ε' α) : Attempt σ ε α := fun s =>
  match x with
  | .ok a => (.ok a, s)
  | .error e => (.error (f e), s)

/-- Continue with the handler where the computation fails. -/
def handle (x : Attempt σ ε α) (h : ε → Attempt σ ε α) : Attempt σ ε α := fun s =>
  match x s with
  | (.ok a, s') => (.ok a, s')
  | (.error e, s') => h e s'

/-- The lists of all elements, one after the other. -/
def flatMap (f : α → Attempt σ ε (List β)) : List α → Attempt σ ε (List β)
  | [] => Pure.pure []
  | a :: rest => do
      let bs ← f a
      let bs' ← flatMap f rest
      return bs ++ bs'

/-! ## Postconditions -/

/-- From the state `s` the computation returns with `Q`, or fails with `E`. -/
def Ends (x : Attempt σ ε α) (s : σ) (Q : α → σ → Prop) (E : ε → σ → Prop) : Prop :=
  match x s with
  | (.ok a, s') => Q a s'
  | (.error e, s') => E e s'

variable {x : Attempt σ ε α} {f : α → Attempt σ ε β} {s : σ}
variable {Q Q' : α → σ → Prop} {R : β → σ → Prop} {E E' : ε → σ → Prop}

@[simp]
theorem ends_pure {a : α} : Ends (Pure.pure a : Attempt σ ε α) s Q E ↔ Q a s := Iff.rfl

@[simp]
theorem ends_bind :
    Ends (x >>= f) s R E ↔ Ends x s (fun a s' => Ends (f a) s' R E) E := by
  change Ends (Attempt.bind x f) s R E ↔ _
  unfold Ends Attempt.bind
  rcases x s with ⟨_ | _, _⟩ <;> exact Iff.rfl

@[simp]
theorem ends_map {g : α → β} :
    Ends (g <$> x) s R E ↔ Ends x s (fun a s' => R (g a) s') E := by
  change Ends (x >>= fun a => Pure.pure (g a)) s R E ↔ _
  simp only [ends_bind, ends_pure]

@[simp]
theorem ends_throw {e : ε} : Ends (throw e : Attempt σ ε α) s Q E ↔ E e s := Iff.rfl

@[simp]
theorem ends_modify {Q : Unit → σ → Prop} {f : σ → σ} :
    Ends (modify f : Attempt σ ε Unit) s Q E ↔ Q () (f s) := Iff.rfl

@[simp]
theorem ends_state {f : σ → α × σ} :
    Ends (state f : Attempt σ ε α) s Q E ↔ Q (f s).1 (f s).2 := Iff.rfl

@[simp]
theorem ends_lift {ε' : Type} {f : ε' → ε} {y : Except ε' α} :
    Ends (lift f y : Attempt σ ε α) s Q E ↔
      (∀ a, y = .ok a → Q a s) ∧ ∀ e, y = .error e → E (f e) s := by
  unfold Ends lift
  cases y <;> simp

@[simp]
theorem ends_handle {h : ε → Attempt σ ε α} :
    Ends (handle x h) s Q E ↔ Ends x s Q (fun e s' => Ends (h e) s' Q E) := by
  unfold Ends handle
  rcases x s with ⟨_ | _, _⟩ <;> exact Iff.rfl

theorem Ends.mono (h : Ends x s Q E) (hQ : ∀ a s', Q a s' → Q' a s')
    (hE : ∀ e s', E e s' → E' e s' := by exact fun _ _ h => h) : Ends x s Q' E' := by
  unfold Ends at h ⊢
  rcases hx : x s with ⟨_ | _, _⟩
  · rw [hx] at h
    exact hE _ _ h
  · rw [hx] at h
    exact hQ _ _ h

/-- The rule for loops that keep an invariant of the state. -/
theorem ends_flatMap {f : α → Attempt σ ε (List β)} {I : σ → Prop} : ∀ {l : List α},
    (∀ a ∈ l, ∀ s, I s → Ends (f a) s (fun _ s' => I s') E) →
    ∀ s, I s → Ends (flatMap f l) s (fun _ s' => I s') E
  | [], _, _, hs => hs
  | a :: rest, h, s, hs => by
      rw [flatMap, ends_bind]
      refine (h a List.mem_cons_self s hs).mono ?_
      intro bs s' hs'
      rw [ends_bind]
      have hrest := ends_flatMap fun a' ha' => h a' (List.mem_cons_of_mem _ ha')
      exact (hrest s' hs').mono fun bs' s'' hs'' => hs''

theorem ends_of_ok {a : α} {s' : σ} (h : x s = (.ok a, s')) :
    Ends x s Q E ↔ Q a s' := by
  rw [Ends, h]

theorem ends_of_error {e : ε} {s' : σ} (h : x s = (.error e, s')) :
    Ends x s Q E ↔ E e s' := by
  rw [Ends, h]

/-! ## Computations that return where another one does -/

/-- Where the first computation returns, the second one returns the same. -/
def Extended (x y : Attempt σ ε α) : Prop :=
  ∀ s a s', x s = (.ok a, s') → y s = (.ok a, s')

theorem Extended.refl (x : Attempt σ ε α) : Extended x x := fun _ _ _ h => h

theorem extended_throw (e : ε) (y : Attempt σ ε α) : Extended (throw e) y :=
  fun _ _ _ h => nomatch (Prod.mk.inj h).1

theorem Extended.bind {x y : Attempt σ ε α} {f g : α → Attempt σ ε β}
    (h : Extended x y) (hf : ∀ a, Extended (f a) (g a)) :
    Extended (x >>= f) (y >>= g) := by
  intro s b s'' hreturns
  change Attempt.bind x f s = _ at hreturns
  change Attempt.bind y g s = _
  unfold Attempt.bind at hreturns ⊢
  cases hx : x s with
  | mk result s' =>
      cases result with
      | error e =>
          rw [hx] at hreturns
          cases hreturns
      | ok a =>
          rw [hx] at hreturns
          rw [h s a s' hx]
          exact hf a s' b s'' hreturns

theorem Extended.map {x y : Attempt σ ε α} (f : α → β) (h : Extended x y) :
    Extended (f <$> x) (f <$> y) :=
  h.bind fun _ => .refl _

theorem Extended.flatMap {f g : α → Attempt σ ε (List β)}
    (h : ∀ a, Extended (f a) (g a)) : ∀ l, Extended (flatMap f l) (flatMap g l)
  | [] => .refl _
  | a :: rest => (h a).bind fun _ => (Extended.flatMap h rest).bind fun _ => .refl _

end Attempt

end GraphqlCore
