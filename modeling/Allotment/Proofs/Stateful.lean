/-!
# Computations in step

A computation with a state ends with a value or a fault, and in some state either way.
Two computations are in step if, started in related states, they come to the same value or
the same fault in states that are related again.  The states may be of different types.

A computation keeps a property of the state if it is in step with itself for the relation of
being equal and having the property.

**Results.**
* `InStep.bind`: being in step is passed on from the parts of a computation to the whole.
* `keeps_of_inStep`: what follows for the state in which a computation ends.
-/

namespace Allotment

namespace Stateful

open EStateM (Result)

variable {ε σ τ α β : Type}

/-- The state in which a computation has ended, with a value or a fault. -/
def endState : Result ε σ α → σ
  | .ok _ s => s
  | .error _ s => s

@[simp] theorem endState_ok (a : α) (s : σ) :
    endState (.ok a s : Result ε σ α) = s := by
  rfl

@[simp] theorem endState_error (e : ε) (s : σ) :
    endState (.error e s : Result ε σ α) = s := by
  rfl

/-- The state in which a computation has come to a value. -/
def reached? : Result ε σ α → Option σ
  | .ok _ s => some s
  | .error _ _ => none

theorem reached?_eq_some_iff {r : Result ε σ α} {s : σ} :
    reached? r = some s ↔ ∃ a, r = .ok a s := by
  cases r with
  | ok a s' => simp [reached?]
  | error e s' => simp [reached?]

/-- What follows a computation is carried out on its value in its state. -/
theorem bind_of_ok
    {x : EStateM ε σ α} {s s' : σ} {a : α}
    (h : x s = .ok a s') (f : α → EStateM ε σ β) :
    (x >>= f) s = f a s' := by
  show (match x s with | .ok a s => f a s | .error e s => .error e s) = f a s'
  rw [h]

/-- What follows a computation is left out after a fault. -/
theorem bind_of_error
    {x : EStateM ε σ α} {s s' : σ} {e : ε}
    (h : x s = .error e s') (f : α → EStateM ε σ β) :
    (x >>= f) s = .error e s' := by
  show (match x s with | .ok a s => f a s | .error e s => .error e s) = .error e s'
  rw [h]

/-- What follows a computation is the same from two states in which the computation is. -/
theorem bind_of_same
    {x : EStateM ε σ α} {s s' : σ} (h : x s = x s') (f : α → EStateM ε σ β) :
    (x >>= f) s = (x >>= f) s' := by
  show (match x s with | .ok a s => f a s | .error e s => .error e s) = _
  rw [h]
  rfl

/-- A value is that of what follows, after a value of the computation before it. -/
theorem ok_of_bind
    {x : EStateM ε σ α} {f : α → EStateM ε σ β} {s s' : σ} {b : β}
    (h : (x >>= f) s = .ok b s') :
    ∃ a s₁, x s = .ok a s₁ ∧ f a s₁ = .ok b s' := by
  cases hx : x s with
  | ok a s₁ => exact ⟨a, s₁, rfl, (bind_of_ok hx f).symm.trans h⟩
  | error e s₁ => cases (bind_of_error hx f).symm.trans h

/-- What follows a computation does not matter to its state if it only reads it. -/
theorem endState_bind
    (x : EStateM ε σ α) {f : α → EStateM ε σ β}
    (hf : ∀ a s, endState (f a s) = s) (s : σ) :
    endState ((x >>= f) s) = endState (x s) := by
  cases h : x s with
  | ok a s' =>
      rw [bind_of_ok h]
      exact hf a s'
  | error e s' =>
      rw [bind_of_error h]
      rfl

/-- Two results with the same value or the same fault, in related states. -/
inductive Matches (R : σ → τ → Prop) : Result ε σ α → Result ε τ α → Prop
  | ok (a : α) {s : σ} {t : τ} (h : R s t) : Matches R (.ok a s) (.ok a t)
  | error (e : ε) {s : σ} {t : τ} (h : R s t) : Matches R (.error e s) (.error e t)

theorem Matches.mono
    {R R' : σ → τ → Prop} {r : Result ε σ α} {q : Result ε τ α}
    (h : Matches R r q) (hsub : ∀ {s t}, R s t → R' s t) :
    Matches R' r q := by
  cases h with
  | ok a hst => exact .ok a (hsub hst)
  | error e hst => exact .error e (hsub hst)

/-- Matching results in the same states are the same. -/
theorem Matches.eq
    {R : σ → σ → Prop} {r q : Result ε σ α}
    (h : Matches R r q) (hR : ∀ {s t}, R s t → s = t) :
    r = q := by
  cases h with
  | ok a hst => rw [hR hst]
  | error e hst => rw [hR hst]

theorem Matches.exists_left
    {R : σ → τ → Prop} {r : Result ε σ α} {a : α} {t : τ}
    (h : Matches R r (.ok a t)) :
    ∃ s, r = .ok a s ∧ R s t := by
  cases h with
  | ok a hst => exact ⟨_, rfl, hst⟩

theorem Matches.exists_right
    {R : σ → τ → Prop} {q : Result ε τ α} {a : α} {s : σ}
    (h : Matches R (.ok a s) q) :
    ∃ t, q = .ok a t ∧ R s t := by
  cases h with
  | ok a hst => exact ⟨_, rfl, hst⟩

/-- From related states the two computations come to results that match. -/
def InStep (R : σ → τ → Prop) (x : EStateM ε σ α) (y : EStateM ε τ α) : Prop :=
  ∀ s t, R s t → Matches R (x s) (y t)

namespace InStep

variable {R : σ → τ → Prop}

theorem pure (a : α) :
    InStep R (Pure.pure a : EStateM ε σ α) (Pure.pure a) := by
  intro s t h
  exact .ok a h

theorem throw (e : ε) :
    InStep R (MonadExcept.throw e : EStateM ε σ α) (MonadExcept.throw e) := by
  intro s t h
  exact .error e h

/-- Two computations are in step if their parts are. -/
theorem bind
    {x : EStateM ε σ α} {y : EStateM ε τ α}
    {f : α → EStateM ε σ β} {g : α → EStateM ε τ β}
    (hx : InStep R x y) (hf : ∀ a, InStep R (f a) (g a)) :
    InStep R (x >>= f) (y >>= g) := by
  intro s t h
  have hr := hx s t h
  generalize hxs : x s = r at hr
  generalize hyt : y t = q at hr
  cases hr with
  | ok a h' =>
      rw [bind_of_ok hxs, bind_of_ok hyt]
      exact hf a _ _ h'
  | error e h' =>
      rw [bind_of_error hxs, bind_of_error hyt]
      exact .error e h'

/-- Computations that look at the state are in step if their continuations are. -/
theorem get_bind
    {f : σ → EStateM ε σ α} {g : τ → EStateM ε τ α}
    (h : ∀ s t, R s t → Matches R (f s s) (g t t)) :
    InStep R (MonadState.get >>= f) (MonadState.get >>= g) := by
  intro s t hst
  exact h s t hst

/-- Changes of the state are in step if they keep the states related. -/
theorem change
    {f : σ → σ} {g : τ → τ}
    (h : ∀ s t, R s t → R (f s) (g t)) :
    InStep R (modify f : EStateM ε σ PUnit) (modify g) := by
  intro s t hst
  exact .ok _ (h s t hst)

end InStep

/-- The states in which computations in step end are related. -/
theorem endState_related
    {R : σ → τ → Prop} {x : EStateM ε σ α} {y : EStateM ε τ α}
    {s : σ} {t : τ}
    (h : InStep R x y) (hst : R s t) :
    R (endState (x s)) (endState (y t)) := by
  have hr := h s t hst
  generalize x s = r at hr
  generalize y t = q at hr
  cases hr with
  | ok a h' => exact h'
  | error e h' => exact h'

/-- A computation that is in step with itself on the states with a property keeps it. -/
theorem keeps_of_inStep
    {P : σ → Prop} {x : EStateM ε σ α} {s : σ}
    (h : InStep (fun a b => a = b ∧ P a) x x) (hs : P s) :
    P (endState (x s)) :=
  (endState_related h ⟨rfl, hs⟩).2

end Stateful

end Allotment
