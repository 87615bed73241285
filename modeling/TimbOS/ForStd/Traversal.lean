import TimbOS.ForStd.Walk

/-!
# Depth-first traversals

A machine goes through a graph depth first: it keeps, for each node that it is in, the
children that are left. It does not remember where it has been, and it gets no further at a
node that cannot be opened. Its steps into a node are marked, and the question is whether
there are finitely many of them.

## Key results

- `Steps.marked_eq`: the marked steps of a run
- `Explores`: machines that go through a graph
- `finitelyMarked_iff`: such a machine enters finitely many nodes unless the graph has a loop
  that it comes to
-/

namespace ForStd

/-! ## Steps that count -/

section Steps

variable {S : Type*} (step : S → Option (Bool × S))

/-- The number of marked steps among the first `n`. -/
def marked : Nat → S → Nat
  | 0, _ => 0
  | n + 1, s =>
    match step s with
    | none => 0
    | some (mark, s') => mark.toNat + marked n s'

/-- However long the machine runs, it makes finitely many marked steps. -/
def FinitelyMarked (s : S) : Prop := ∃ N, ∀ n, marked step n s ≤ N

/-- From this state on no step is marked. -/
def Silent (s : S) : Prop := ∀ n, marked step n s = 0

/-- The machine comes from one state to the other with `m` marked steps. -/
inductive Steps : S → Nat → S → Prop
  | refl (s : S) : Steps s 0 s
  | head {s s' s'' : S} {mark : Bool} {m : Nat} (h : step s = some (mark, s'))
      (hs : Steps s' m s'') : Steps s (mark.toNat + m) s''

variable {step} {s s' s'' : S} {m m' : Nat}

theorem marked_succ {mark : Bool} (h : step s = some (mark, s')) (n : Nat) :
    marked step (n + 1) s = mark.toNat + marked step n s' := by
  rw [marked, h]

theorem Steps.one {mark : Bool} (h : step s = some (mark, s')) : Steps step s mark.toNat s' :=
  .head h (.refl s')

theorem Steps.trans (h : Steps step s m s') (h' : Steps step s' m' s'') :
    Steps step s (m + m') s'' := by
  induction h with
  | refl s =>
    rw [Nat.zero_add]
    exact h'
  | head hstep _ ih =>
    rw [Nat.add_assoc]
    exact .head hstep (ih h')

/-- The marked steps of a run, followed by any number of steps. -/
theorem Steps.marked_eq (h : Steps step s m s') :
    ∃ k, ∀ n, marked step (k + n) s = m + marked step n s' := by
  induction h with
  | refl s => exact ⟨0, fun n => by rw [Nat.zero_add, Nat.zero_add]⟩
  | head hstep _ ih =>
    obtain ⟨k, hk⟩ := ih
    refine ⟨k + 1, fun n => ?_⟩
    rw [Nat.add_right_comm, marked_succ hstep, Nat.add_assoc, ← hk n]

theorem marked_le_marked_succ (n : Nat) (s : S) : marked step n s ≤ marked step (n + 1) s := by
  induction n generalizing s with
  | zero => exact Nat.zero_le _
  | succ n ih =>
    rw [marked, marked]
    cases step s with
    | none => exact Nat.le_refl _
    | some p => exact Nat.add_le_add_left (ih p.2) _

theorem marked_mono (s : S) : Monotone fun n => marked step n s :=
  monotone_nat_of_le_succ fun n => marked_le_marked_succ n s

theorem silent_of_stop (hstop : step s = none) : Silent step s := by
  intro n
  cases n with
  | zero => rfl
  | succ n => rw [marked, hstop]

/-- A machine that makes no marked step any more. -/
theorem Steps.finitelyMarked (h : Steps step s m s') (hsilent : Silent step s') :
    FinitelyMarked step s := by
  obtain ⟨k, hk⟩ := h.marked_eq
  refine ⟨m, fun n => ?_⟩
  have hle : marked step n s ≤ marked step (k + n) s :=
    marked_mono s (Nat.le_add_left n k)
  rw [hk, hsilent n] at hle
  exact hle

theorem not_finitelyMarked (h : ∀ N, ∃ m s', N ≤ m ∧ Steps step s m s') :
    ¬ FinitelyMarked step s := by
  rintro ⟨N, hN⟩
  obtain ⟨m, s', hm, hsteps⟩ := h (N + 1)
  obtain ⟨k, hk⟩ := hsteps.marked_eq
  have hle := hN (k + 0)
  rw [hk, marked] at hle
  omega

end Steps

/-! ## Graphs -/

section Graph

variable {V : Type*} (children : V → Option (List V))

/-- A traversal of the node comes back: it can be opened, and so can everything below. -/
inductive Clean : V → Prop
  | intro {n : V} {l : List V} (h : children n = some l) (hl : ∀ d ∈ l, Clean d) : Clean n

/-- A traversal of the list comes to `n`. -/
def Enters (l : List V) (n : V) : Prop :=
  ∃ before behind, l = before ++ n :: behind ∧ ∀ d ∈ before, Clean children d

/-- A traversal of `n` comes to its child `n'`. -/
def Follows (n n' : V) : Prop := ∃ l, children n = some l ∧ Enters children l n'

/-- A traversal of the list comes to a node that leads back to itself. -/
def Loops (l : List V) : Prop :=
  ∃ n₀ n, Enters children l n₀ ∧ Relation.ReflTransGen (Follows children) n₀ n ∧
    Relation.TransGen (Follows children) n n

/-- The machine goes through the graph: its state represents the children that are left, of the
    innermost node first. -/
structure Explores {S : Type*} (step : S → Option (Bool × S))
    (rep : List (List V) → S → Prop) : Prop where
  finish : ∀ {s}, rep [] s → Silent step s
  back : ∀ {rest s}, rep ([] :: rest) s → ∃ s', Steps step s 0 s' ∧ rep rest s'
  enter : ∀ {n l l' rest s}, children n = some l' → rep ((n :: l) :: rest) s →
    ∃ s', Steps step s 1 s' ∧ rep (l' :: l :: rest) s'
  stop : ∀ {n l rest s}, children n = none → rep ((n :: l) :: rest) s →
    ∃ s', Steps step s 0 s' ∧ Silent step s'

end Graph

namespace Explores

variable {V S : Type*} {children : V → Option (List V)} {step : S → Option (Bool × S)}
  {rep : List (List V) → S → Prop} (E : Explores children step rep)
include E

omit E in
/-- The machine goes through nodes that let it. -/
theorem run_list {l : List V} (hl : ∀ n ∈ l, ∀ l' rest s, rep ((n :: l') :: rest) s →
      ∃ m s', Steps step s m s' ∧ rep (l' :: rest) s')
    (l' : List V) (rest : List (List V)) (s : S) (h : rep ((l ++ l') :: rest) s) :
    ∃ m s', Steps step s m s' ∧ rep (l' :: rest) s' := by
  induction l generalizing s with
  | nil => exact ⟨0, s, .refl s, h⟩
  | cons n l ih =>
    obtain ⟨m₁, s₁, hs₁, h₁⟩ := hl n List.mem_cons_self (l ++ l') rest s h
    obtain ⟨m₂, s₂, hs₂, h₂⟩ := ih (fun n hn => hl n (List.mem_cons_of_mem _ hn)) s₁ h₁
    exact ⟨m₁ + m₂, s₂, hs₁.trans hs₂, h₂⟩

theorem run_clean {n : V} (hn : Clean children n) (l : List V) (rest : List (List V)) (s : S)
    (h : rep ((n :: l) :: rest) s) : ∃ m s', Steps step s m s' ∧ rep (l :: rest) s' := by
  induction hn generalizing l rest s with
  | @intro n l' hopen _ ih =>
    obtain ⟨s₁, hs₁, h₁⟩ := E.enter hopen h
    rw [← List.append_nil l'] at h₁
    obtain ⟨m₂, s₂, hs₂, h₂⟩ := run_list ih [] (l :: rest) s₁ h₁
    obtain ⟨s₃, hs₃, h₃⟩ := E.back h₂
    exact ⟨1 + m₂ + 0, s₃, (hs₁.trans hs₂).trans hs₃, h₃⟩

/-- The machine comes to a node that the traversal enters. -/
theorem run_enters {l : List V} {n : V} (hn : Enters children l n) (rest : List (List V)) (s : S)
    (h : rep (l :: rest) s) :
    ∃ behind m s', Steps step s m s' ∧ rep ((n :: behind) :: rest) s' := by
  obtain ⟨before, behind, rfl, hclean⟩ := hn
  obtain ⟨m, s', hs, h'⟩ :=
    run_list (fun n hn => E.run_clean (hclean n hn)) (n :: behind) rest s h
  exact ⟨behind, m, s', hs, h'⟩

/-- From a node that leads to a loop the machine goes down as far as one likes. -/
theorem run_loop (N : Nat) {n₀ n : V} (hreach : Relation.ReflTransGen (Follows children) n₀ n)
    (hloop : Relation.TransGen (Follows children) n n) {l : List V} (hn : Enters children l n₀)
    (rest : List (List V)) (s : S) (h : rep (l :: rest) s) :
    ∃ m s', N ≤ m ∧ Steps step s m s' := by
  induction N generalizing n₀ l rest s with
  | zero => exact ⟨0, s, Nat.zero_le _, .refl s⟩
  | succ N ih =>
    -- the next node on the way to the loop, or around it
    obtain ⟨n₁, ⟨l₁, hopen, hn₁⟩, hreach₁⟩ : ∃ n₁, Follows children n₀ n₁ ∧
        Relation.ReflTransGen (Follows children) n₁ n := by
      rcases hreach.cases_head with rfl | hnext
      · obtain ⟨n₁, hfirst, hback⟩ := Relation.TransGen.head'_iff.mp hloop
        exact ⟨n₁, hfirst, hback⟩
      · exact hnext
    obtain ⟨behind, m₁, s₁, hs₁, h₁⟩ := E.run_enters hn rest s h
    obtain ⟨s₂, hs₂, h₂⟩ := E.enter hopen h₁
    obtain ⟨m₃, s₃, hm₃, hs₃⟩ := ih hreach₁ hn₁ (behind :: rest) s₂ h₂
    exact ⟨m₁ + 1 + m₃, s₃, by omega, (hs₁.trans hs₂).trans hs₃⟩

/-- The machine gets through a node, or makes no marked step any more. -/
def Ends (children : V → Option (List V)) (step : S → Option (Bool × S))
    (rep : List (List V) → S → Prop) (n : V) : Prop :=
  ∀ l rest s, rep ((n :: l) :: rest) s →
    (Clean children n ∧ ∃ m s', Steps step s m s' ∧ rep (l :: rest) s') ∨
      ∃ m s', Steps step s m s' ∧ Silent step s'

omit E in
/-- The same for a list of nodes, as far as the traversal gets. -/
theorem ends_list {l : List V} (hends : ∀ n, Enters children l n → Ends children step rep n)
    (rest : List (List V)) (s : S) (h : rep (l :: rest) s) :
    ((∀ n ∈ l, Clean children n) ∧ ∃ m s', Steps step s m s' ∧ rep ([] :: rest) s') ∨
      ∃ m s', Steps step s m s' ∧ Silent step s' := by
  -- induction on the nodes that are left, with the clean ones before them
  suffices hsplit : ∀ (behind before : List V), l = before ++ behind →
      (∀ n ∈ before, Clean children n) → ∀ s, rep (behind :: rest) s →
        ((∀ n ∈ l, Clean children n) ∧ ∃ m s', Steps step s m s' ∧ rep ([] :: rest) s') ∨
          ∃ m s', Steps step s m s' ∧ Silent step s' from
    hsplit l [] rfl (fun n hn => absurd hn List.not_mem_nil) s h
  intro behind
  induction behind with
  | nil =>
    intro before hl hclean s h
    rw [List.append_nil] at hl
    subst hl
    exact .inl ⟨hclean, 0, s, .refl s, h⟩
  | cons n behind ih =>
    intro before hl hclean s h
    rcases hends n ⟨before, behind, hl, hclean⟩ behind rest s h with
      ⟨hn, m₁, s₁, hs₁, h₁⟩ | hsilent
    · have hclean' : ∀ n' ∈ before ++ [n], Clean children n' := by
        intro n' hn'
        rcases List.mem_append.mp hn' with hmem | hmem
        · exact hclean n' hmem
        · rw [List.mem_singleton.mp hmem]
          exact hn
      rcases ih (before ++ [n]) (by rw [hl, List.append_assoc]; rfl) hclean' s₁ h₁ with
        ⟨hall, m₂, s₂, hs₂, h₂⟩ | ⟨m₂, s₂, hs₂, hsilent⟩
      · exact .inl ⟨hall, m₁ + m₂, s₂, hs₁.trans hs₂, h₂⟩
      · exact .inr ⟨m₁ + m₂, s₂, hs₁.trans hs₂, hsilent⟩
    · exact .inr hsilent

/-- A node ends if all children do that its traversal comes to. -/
theorem ends_of_follows {n : V} (hends : ∀ n', Follows children n n' → Ends children step rep n') :
    Ends children step rep n := by
  intro l rest s h
  cases hopen : children n with
  | none =>
    obtain ⟨s', hs, hsilent⟩ := E.stop hopen h
    exact .inr ⟨0, s', hs, hsilent⟩
  | some l' =>
    obtain ⟨s₁, hs₁, h₁⟩ := E.enter hopen h
    rcases ends_list (fun n' hn' => hends n' ⟨l', hopen, hn'⟩) (l :: rest) s₁ h₁ with
      ⟨hclean, m₂, s₂, hs₂, h₂⟩ | ⟨m₂, s₂, hs₂, hsilent⟩
    · obtain ⟨s₃, hs₃, h₃⟩ := E.back h₂
      exact .inl ⟨.intro hopen hclean, 1 + m₂ + 0, s₃, (hs₁.trans hs₂).trans hs₃, h₃⟩
    · exact .inr ⟨1 + m₂, s₂, hs₁.trans hs₂, hsilent⟩

/-- In a finite graph all nodes end that a traversal without a loop comes to. -/
theorem ends_of_not_loops [Finite V] {l : List V} (hloop : ¬ Loops children l) {n₀ n : V}
    (hn₀ : Enters children l n₀) (hreach : Relation.ReflTransGen (Follows children) n₀ n) :
    Ends children step rep n := by
  refine induction_of_acyclic (P := Ends children step rep) (Set.toFinite _)
    (fun n' hn' hcycle => hloop ⟨n₀, n', hn₀, hreach.trans hn', hcycle⟩) ?_
  intro n' _ hall
  exact E.ends_of_follows hall

/-- The machine enters finitely many nodes exactly if the traversal comes to no loop. -/
theorem finitelyMarked_iff [Finite V] {l : List V} {s : S} (h : rep [l] s) :
    FinitelyMarked step s ↔ ¬ Loops children l := by
  constructor
  · rintro hfin ⟨n₀, n, hn₀, hreach, hloop⟩
    exact not_finitelyMarked (fun N => E.run_loop N hreach hloop hn₀ [] s h) hfin
  · intro hloop
    rcases ends_list (fun n hn => E.ends_of_not_loops hloop hn .refl) [] s h with
      ⟨-, m, s₁, hs₁, h₁⟩ | ⟨m, s₁, hs₁, hsilent⟩
    · obtain ⟨s₂, hs₂, h₂⟩ := E.back h₁
      exact (hs₁.trans hs₂).finitelyMarked (E.finish h₂)
    · exact hs₁.finitelyMarked hsilent

end Explores

end ForStd
