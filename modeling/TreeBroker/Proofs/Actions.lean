import Mathlib.Order.Defs.Unbundled
import TreeBroker.World

/-!
# Running actions

An action is opened by what it does when it is run: `Action.on` gives the answer
and the state that is left, and the laws below say what each way of building an
action makes of the two. Every later proof about an operation is a chain of
these laws, so that no proof looks inside the monad.

Two things are asked of an action again and again. What did it take for it to
succeed, or to fail? That is read off bind by bind (`on_bind_eq_ok`,
`on_bind_eq_error`). And what may it have done to the state, *whichever way it
ended*? That is `Action.Moves R`: the state that is left is related by `R` to
the state before. A relation that is reflexive and transitive passes through
every way of building an action, so it is enough to look at the few actions that
change something.
-/

namespace TreeBroker.Action

variable {σ τ α β : Type}

/-! ## The laws -/

@[simp] theorem on_pure (a : α) (s : σ) : (pure a : Action σ α).on s = (.ok a, s) := rfl

@[simp] theorem on_throw (e : Error) (s : σ) :
    (throw e : Action σ α).on s = (.error e, s) := rfl

@[simp] theorem on_get (s : σ) : (get : Action σ σ).on s = (.ok s, s) := rfl

@[simp] theorem on_modify (f : σ → σ) (s : σ) :
    (modify f : Action σ Unit).on s = (.ok (), f s) := rfl

@[simp] theorem on_ofExcept (x : Except Error α) (s : σ) :
    (ofExcept x : Action σ α).on s = (x, s) := rfl

@[simp] theorem on_attempt (act : Action σ α) (s : σ) :
    (attempt act).on s = (.ok (act.on s).1, (act.on s).2) := rfl

@[simp] theorem on_zoom (part : σ → τ) (update : τ → σ → σ) (act : Action τ α) (s : σ) :
    (zoom part update act).on s = ((act.on (part s)).1, update (act.on (part s)).2 s) := rfl

/-- **One action after another**: the second is run on what the first leaves,
and an error ends both. -/
theorem on_bind (act : Action σ α) (f : α → Action σ β) (s : σ) :
    (act >>= f).on s =
      match act.on s with
      | (.ok a, t) => (f a).on t
      | (.error e, t) => (.error e, t) := by
  change (ExceptT.bindCont f (act s).1 (act s).2) = match act s with
    | (.ok a, t) => (f a) t
    | (.error e, t) => (.error e, t)
  rcases act s with ⟨x | x, t⟩ <;> rfl

/-- An action after one that succeeds. -/
theorem on_bind_of_ok {act : Action σ α} {a : α} {s t : σ} (h : act.on s = (.ok a, t))
    (f : α → Action σ β) : (act >>= f).on s = (f a).on t := by
  rw [on_bind, h]

/-- An action after one that fails. -/
theorem on_bind_of_error {act : Action σ α} {e : Error} {s t : σ}
    (h : act.on s = (.error e, t)) (f : α → Action σ β) :
    (act >>= f).on s = (.error e, t) := by
  rw [on_bind, h]

/-- **What it takes for two actions to succeed**: both do. -/
theorem on_bind_eq_ok {act : Action σ α} {f : α → Action σ β} {s s' : σ} {b : β} :
    (act >>= f).on s = (.ok b, s') ↔
      ∃ a t, act.on s = (.ok a, t) ∧ (f a).on t = (.ok b, s') := by
  rw [on_bind]
  constructor
  · intro h
    rcases hact : act.on s with ⟨e | a, t⟩
    · rw [hact] at h
      cases h
    · rw [hact] at h
      exact ⟨a, t, rfl, h⟩
  · rintro ⟨a, t, hact, h⟩
    rw [hact]
    exact h

/-- **What it takes for two actions to fail**: one of them does. -/
theorem on_bind_eq_error {act : Action σ α} {f : α → Action σ β} {s s' : σ} {e : Error} :
    (act >>= f).on s = (.error e, s') ↔
      act.on s = (.error e, s') ∨
        ∃ a t, act.on s = (.ok a, t) ∧ (f a).on t = (.error e, s') := by
  rw [on_bind]
  constructor
  · intro h
    rcases hact : act.on s with ⟨e' | a, t⟩
    · rw [hact] at h
      cases h
      exact .inl rfl
    · rw [hact] at h
      exact .inr ⟨a, t, rfl, h⟩
  · rintro (hact | ⟨a, t, hact, h⟩)
    · rw [hact]
    · rw [hact]
      exact h

/-- An action whose answer is its caller's business. -/
theorem state_discard (act : Action σ α) (s : σ) :
    ((do let _ ← act : Action σ Unit).on s).2 = (act.on s).2 := by
  rw [on_bind]
  rcases act.on s with ⟨e | a, t⟩ <;> rfl

/-! ## What an action does to the state -/

/-- **What an action may do to the state**, whether it succeeds or fails. -/
def Moves (R : σ → σ → Prop) (act : Action σ α) : Prop := ∀ s, R s (act.on s).2

namespace Moves

variable {R : σ → σ → Prop} [IsPreorder σ R]

/-- An action that leaves the state alone. -/
theorem of_eq {act : Action σ α} (h : ∀ s, (act.on s).2 = s) : Moves R act := by
  intro s
  rw [h s]
  exact refl_of R s

theorem pure (a : α) : Moves R (Pure.pure a : Action σ α) := of_eq fun _ => rfl

theorem throw (e : Error) : Moves R (MonadExcept.throw e : Action σ α) := of_eq fun _ => rfl

theorem get : Moves R (MonadState.get : Action σ σ) := of_eq fun _ => rfl

theorem ofExcept (x : Except Error α) : Moves R (Action.ofExcept x : Action σ α) :=
  of_eq fun _ => rfl

omit [IsPreorder σ R] in
theorem attempt {act : Action σ α} (h : Moves R act) : Moves R (Action.attempt act) := h

/-- What each of two actions may do, both together may do. -/
theorem bind {act : Action σ α} {f : α → Action σ β} (h : Moves R act)
    (hf : ∀ a, Moves R (f a)) : Moves R (act >>= f) := by
  intro s
  have hs := h s
  rcases hact : act.on s with ⟨e | a, t⟩
  · rw [on_bind_of_error hact f]
    rw [hact] at hs
    exact hs
  · rw [on_bind_of_ok hact f]
    rw [hact] at hs
    exact trans_of R hs (hf a t)

/-- What follows an error is not run. -/
theorem throw_bind (e : Error) (f : α → Action σ β) :
    Moves R (MonadExcept.throw e >>= f : Action σ β) := of_eq fun _ => rfl

theorem forM {γ : Type} {f : γ → Action σ PUnit} (h : ∀ c, Moves R (f c)) (cs : List γ) :
    Moves R (cs.forM f) := by
  induction cs with
  | nil => exact pure _
  | cons c cs ih => exact bind (h c) fun _ => ih

end Moves

end TreeBroker.Action
