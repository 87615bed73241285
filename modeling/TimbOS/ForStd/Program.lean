import Mathlib

/-!
# Programs that may stop

An `EStateM` program keeps its state when it stops with an error. `Runs` is a triple for such
programs: it relates the first state to the last one in either case, and says what holds when
the program returns.

## Key results

- `Runs.pure`, `Runs.throw`, `Runs.bind`, `Runs.ite`: the rules
- `Runs.after`: the states before and after a program
-/

namespace ForStd

universe u

variable {ε σ α β : Type u}

/-- The state that a program leaves behind, whether it returns or stops. -/
def after (x : EStateM ε σ α) (s : σ) : σ :=
  match x.run s with
  | .ok _ s' => s'
  | .error _ s' => s'

/-- From a state with `P` the program moves along `R`, and returns in a state with `Q` if it
    returns. -/
def Runs (P : σ → Prop) (R : σ → σ → Prop) (Q : α → σ → Prop) (x : EStateM ε σ α) : Prop :=
  ∀ s, P s →
    match x.run s with
    | .ok a s' => R s s' ∧ Q a s'
    | .error _ s' => R s s'

section Rules

variable {P : σ → Prop} {R : σ → σ → Prop} {Q : α → σ → Prop} {T : β → σ → Prop}
  {x y : EStateM ε σ α} {f : α → EStateM ε σ β} {s s' : σ} {a : α} {c : Prop}

theorem after_ok (h : x.run s = .ok a s') : after x s = s' := by
  rw [after, h]

theorem after_congr (h : x.run s = y.run s') : after x s = after y s' := by
  rw [after, after, h]

/-- A program that does the same in two states still does when it is continued. -/
theorem run_bind_congr (h : x.run s = x.run s') : (x >>= f).run s = (x >>= f).run s' := by
  show EStateM.bind x f s = EStateM.bind x f s'
  unfold EStateM.bind
  rw [show x s = x s' from h]

theorem run_bind_ok (h : x.run s = .ok a s') : (x >>= f).run s = (f a).run s' := by
  show EStateM.bind x f s = f a s'
  unfold EStateM.bind
  rw [show x s = .ok a s' from h]

/-- A program in two parts that returns. -/
theorem run_bind_eq_ok {b : β} (h : (x >>= f).run s = .ok b s') :
    ∃ a s₁, x.run s = .ok a s₁ ∧ (f a).run s₁ = .ok b s' := by
  change EStateM.bind x f s = .ok b s' at h
  unfold EStateM.bind at h
  cases hx : x s with
  | error e s₁ =>
    rw [hx] at h
    cases h
  | ok a s₁ =>
    rw [hx] at h
    exact ⟨a, s₁, hx, h⟩

theorem Runs.after (h : Runs P R Q x) (hs : P s) : R s (after x s) := by
  have hrun := h s hs
  unfold ForStd.after
  cases hx : x.run s with
  | ok a s' =>
    rw [hx] at hrun
    exact hrun.1
  | error e s' =>
    rw [hx] at hrun
    exact hrun

theorem Runs.ok (h : Runs P R Q x) (hs : P s) (hx : x.run s = .ok a s') : R s s' ∧ Q a s' := by
  have hrun := h s hs
  rw [hx] at hrun
  exact hrun

/-- A program of one step, which may stop. -/
theorem Runs.of_run (h : ∀ s, P s → (∃ a s', x.run s = .ok a s' ∧ R s s' ∧ Q a s') ∨
    ∃ e s', x.run s = .error e s' ∧ R s s') : Runs P R Q x := by
  intro s hs
  rcases h s hs with ⟨a, s', hx, hR, hQ⟩ | ⟨e, s', hx, hR⟩
  · rw [hx]
    exact ⟨hR, hQ⟩
  · rw [hx]
    exact hR

theorem Runs.pure [IsPreorder σ R] (h : ∀ s, P s → Q a s) :
    Runs P R Q (pure a : EStateM ε σ α) := by
  intro s hs
  exact ⟨refl_of R s, h s hs⟩

theorem Runs.throw [IsPreorder σ R] (e : ε) : Runs P R Q (throw e : EStateM ε σ α) := by
  intro s _
  exact refl_of R s

theorem Runs.bind [IsPreorder σ R] (hx : Runs P R Q x) (hf : ∀ a, Runs (Q a) R T (f a)) :
    Runs P R T (x >>= f) := by
  intro s hs
  have hrun := hx s hs
  show match EStateM.bind x f s with
    | .ok a s' => R s s' ∧ T a s'
    | .error _ s' => R s s'
  unfold EStateM.bind
  change match x s with
    | .ok a s' => R s s' ∧ Q a s'
    | .error _ s' => R s s' at hrun
  cases hx : x s with
  | error e s' =>
    rw [hx] at hrun
    exact hrun
  | ok a s' =>
    rw [hx] at hrun
    have hrest := hf a s' hrun.2
    change match f a s' with
      | .ok b s'' => R s' s'' ∧ T b s''
      | .error _ s'' => R s' s'' at hrest
    dsimp only
    cases hfa : f a s' with
    | error e s'' =>
      rw [hfa] at hrest
      exact trans_of R hrun.1 hrest
    | ok b s'' =>
      rw [hfa] at hrest
      exact ⟨trans_of R hrun.1 hrest.1, hrest.2⟩

theorem Runs.ite [Decidable c] (hx : c → Runs P R Q x) (hy : ¬ c → Runs P R Q y) :
    Runs P R Q (if c then x else y) := by
  split
  · exact hx ‹_›
  · exact hy ‹_›

end Rules

end ForStd
