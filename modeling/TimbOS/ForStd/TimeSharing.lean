import Mathlib

/-!
# Time sharing

Many programs share one processor. Each of them sees a processor of its own, which stands still
while others run. Programs have the state `ρ` to themselves, and the state `μ` is common to all.

There is one program at the beginning. When there are tasks, they take turns in the order in which
they were created, and the first program never runs again.

## Key results

- `tasks_execute_of_ne`: only the program that runs changes its state
- `running_turn`: what runs after a turn is what stood still before
-/

namespace ForStd

structure TimeSharing (ρ μ : Type*) where
  first : ρ
  tasks : List ρ
  /-- The task that runs. Before the first turn, no task does. -/
  current : Option Nat
  shared : μ

namespace TimeSharing

variable {ρ μ : Type*} (v : TimeSharing ρ μ)

/-- The program that runs. -/
def running : ρ :=
  match v.current with
  | none => v.first
  | some i => v.tasks.getD i v.first

/-- The program that runs does something. -/
def execute (r : ρ) (m : μ) : TimeSharing ρ μ :=
  match v.current with
  | none => { v with first := r, shared := m }
  | some i => { v with tasks := v.tasks.set i r, shared := m }

/-- A new task, which does not run yet. -/
def create (r : ρ) : TimeSharing ρ μ := { v with tasks := v.tasks ++ [r] }

/-- The task whose turn is next, in a ring of `n` tasks. -/
def successor (n : Nat) : Option Nat → Nat
  | some i => if i + 1 < n then i + 1 else 0
  | none => 0

/-- The next task runs. -/
def turn : TimeSharing ρ μ :=
  if v.tasks = [] then v else { v with current := some (successor v.tasks.length v.current) }

/-- Something else changes what is common. -/
def device (m : μ) : TimeSharing ρ μ := { v with shared := m }

theorem successor_lt {n : Nat} (hn : 0 < n) (it : Option Nat) : successor n it < n := by
  cases it with
  | none => exact hn
  | some i =>
    rw [successor]
    split
    · assumption
    · exact hn

section Task

variable {v} {j : Nat} {r r' : ρ} {m : μ}

@[simp] theorem current_execute : (v.execute r m).current = v.current := by
  unfold execute
  cases v.current <;> rfl

@[simp] theorem shared_execute : (v.execute r m).shared = m := by
  unfold execute
  cases v.current <;> rfl

@[simp] theorem length_tasks_execute : (v.execute r m).tasks.length = v.tasks.length := by
  unfold execute
  cases v.current with
  | none => rfl
  | some i => exact List.length_set

/-- A program whose turn it is not stands still. -/
theorem tasks_execute_of_ne (h : v.current ≠ some j) : (v.execute r m).tasks[j]? = v.tasks[j]? := by
  unfold execute
  cases hc : v.current with
  | none => rfl
  | some i =>
    rw [hc] at h
    exact List.getElem?_set_ne fun heq => h (congrArg some heq)

theorem running_execute (h : ∀ i, v.current = some i → i < v.tasks.length) :
    (v.execute r m).running = r := by
  unfold execute running
  cases hc : v.current with
  | none => rfl
  | some i =>
    have hlt := h i hc
    simp [List.getElem?_set_self hlt]

theorem running_of_current (hc : v.current = some j) (hr : v.tasks[j]? = some r) :
    v.running = r := by
  rw [running, hc]
  simp [hr]

theorem running_create (h : ∀ i, v.current = some i → i < v.tasks.length) :
    (v.create r).running = v.running := by
  unfold create running
  cases hc : v.current with
  | none => rfl
  | some i =>
    have hlt := h i hc
    simp [List.getElem?_append_left hlt]

@[simp] theorem tasks_turn : v.turn.tasks = v.tasks := by
  unfold turn
  split <;> rfl

@[simp] theorem shared_turn : v.turn.shared = v.shared := by
  unfold turn
  split <;> rfl

theorem current_turn (h : v.tasks ≠ []) :
    v.turn.current = some (successor v.tasks.length v.current) := by
  rw [turn, if_neg h]

theorem running_turn (hr : v.tasks[successor v.tasks.length v.current]? = some r) :
    v.turn.running = r := by
  have hne : v.tasks ≠ [] := by
    intro hnil
    simp [hnil] at hr
  apply running_of_current (current_turn hne)
  rw [tasks_turn, hr]

end Task

end TimeSharing

end ForStd
