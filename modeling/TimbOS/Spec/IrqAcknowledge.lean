import TimbOS.Native.Irq
import TimbOS.Spec.TaskFrame

/-!
# Acknowledging interrupts

An interrupt from the second controller has to be acknowledged at both. `irq_handler` looks at
the number in the frame that its handler has returned, and this may be the frame of another
task: one that an interrupt of the other controller has stopped, or one that has just been
created and has the number that its page held before.

## Key results

- `irqHandler_eq`: what is written after the handler
- `acknowledged_iff`: exactly when the right controllers get an End of Interrupt
- `timer_acknowledged_twice`: a timer tick that is acknowledged at the second controller
-/

namespace TimbOS.Native.Irq

open ForStd Scheduler

/-- End of Interrupt for the second controller. -/
def slaveEoi : Nat × Nat := (0xA0, 0x20)

/-- End of Interrupt for the first controller. -/
def masterEoi : Nat × Nat := (0x20, 0x20)

/-- What has to be written to the ports for an interrupt. -/
structure Acknowledged (vector : Nat) (writes : List (Nat × Nat)) : Prop where
  slave : slaveEoi ∈ writes ↔ 40 ≤ vector
  master : writes.count masterEoi = 1

/-- After the handler, `irq_handler` writes what the vector needs, and nothing else matters. -/
def Correct (irqRoutines : Routines) (k : Kernel) (r : Nat) : Prop :=
  ∃ k₁ r₁ k₂ writes, dispatch irqRoutines k r = some (k₁, r₁) ∧
    irqHandler irqRoutines k r = some (k₂, r₁) ∧ k₂.ports = k₁.ports ++ writes ∧
    Acknowledged (intNo k r) writes

section Handler

variable {irqRoutines : Routines} {k k₁ : Kernel} {r r₁ : Nat}

/-- The writes after the handler, which depend on the frame that it has returned. -/
def writesFor (intNo : Nat) : List (Nat × Nat) :=
  if intNo ≥ 40 then [slaveEoi, masterEoi] else [masterEoi]

theorem ports_acknowledge (k : Kernel) (r : Nat) :
    (acknowledge k r).ports = k.ports ++ writesFor (intNo k r) := by
  by_cases h : intNo k r ≥ 40
  · simp [acknowledge, writesFor, outportb, slaveEoi, masterEoi, h]
  · simp [acknowledge, writesFor, outportb, masterEoi, h]

theorem acknowledged_writesFor {vector n : Nat} :
    Acknowledged vector (writesFor n) ↔ (40 ≤ n ↔ 40 ≤ vector) := by
  by_cases h : n ≥ 40
  · have hwrites : writesFor n = [slaveEoi, masterEoi] := if_pos h
    rw [hwrites]
    constructor
    · intro hack
      exact iff_of_true h (hack.slave.mp List.mem_cons_self)
    · intro hiff
      exact ⟨iff_of_true List.mem_cons_self (hiff.mp h), by decide⟩
  · have hwrites : writesFor n = [masterEoi] := if_neg h
    rw [hwrites]
    constructor
    · intro hack
      exact iff_of_false h fun hvector => absurd (hack.slave.mpr hvector) (by decide)
    · intro hiff
      exact ⟨iff_of_false (by decide) fun hvector => h (hiff.mpr hvector), by decide⟩

theorem irqHandler_eq (h : dispatch irqRoutines k r = some (k₁, r₁)) :
    irqHandler irqRoutines k r = some (acknowledge k₁ r₁, r₁) := by
  rw [irqHandler, h]
  rfl

theorem correct_iff (h : dispatch irqRoutines k r = some (k₁, r₁)) :
    Correct irqRoutines k r ↔ (40 ≤ intNo k₁ r₁ ↔ 40 ≤ intNo k r) := by
  rw [← acknowledged_writesFor]
  constructor
  · intro ⟨k₂, r₂, k₃, writes, hdispatch, hrun, hports, hack⟩
    rw [h] at hdispatch
    cases hdispatch
    rw [irqHandler_eq h] at hrun
    cases hrun
    rw [ports_acknowledge, List.append_cancel_left_eq] at hports
    rw [hports]
    exact hack
  · intro hack
    exact ⟨k₁, r₁, _, _, h, irqHandler_eq h, ports_acknowledge k₁ r₁, hack⟩

variable (irqRoutines) in
/-- For the vectors of the controllers there is a place in the array. -/
theorem dispatch_eq (hlo : 32 ≤ intNo k r) (hhi : intNo k r ≤ 47) :
    dispatch irqRoutines k r = some
      ((irqRoutines ⟨intNo k r - 32, by omega⟩).elim (k, r) fun handler => handler k r) := by
  have hindex : sub32 (intNo k r) 32 = intNo k r - 32 := sub32_eq hlo (by omega)
  simp only [dispatch, hindex]
  rw [dif_pos (by omega)]
  cases irqRoutines ⟨intNo k r - 32, by omega⟩ with
  | none => rfl
  | some handler => rfl

end Handler

/-- The right controllers are acknowledged exactly if the frame that the handler returns has a
    number of the same controller as the frame that it got. -/
theorem acknowledged_iff (irqRoutines : Routines) (k : Kernel) (r : Nat)
    (hlo : 32 ≤ intNo k r) (hhi : intNo k r ≤ 47) :
    Correct irqRoutines k r ↔
      ∀ handler, irqRoutines ⟨intNo k r - 32, by omega⟩ = some handler →
        (40 ≤ intNo (handler k r).1 (handler k r).2 ↔ 40 ≤ intNo k r) := by
  have hdispatch := dispatch_eq irqRoutines hlo hhi
  cases hroutine : irqRoutines ⟨intNo k r - 32, by omega⟩ with
  | none =>
    rw [hroutine] at hdispatch
    rw [correct_iff hdispatch]
    simp
  | some handler =>
    rw [hroutine] at hdispatch
    rw [correct_iff hdispatch]
    simp

/-! ## The timer -/

/-- The frame of a new task has the number that its page held before. -/
theorem intNo_newTask (s : Scheduler.State) (ports : List (Nat × Nat))
    (userStack entry page : Nat) :
    intNo ⟨newTask s userStack entry page, ports⟩ (initialFrame page) =
      s.mem.load32 (initialFrame page + CpuState.intNo) :=
  newTask_inherits s userStack entry page (by decide)

/-- All memory holds `0xff`, but for the number of the frame at `0x2000`, which is the one of
    the timer. One task has been created, in the page at `0x5000`. -/
def tickKernel : Kernel where
  scheduler := newTask (noTasks (Mem.store32 (fun _ => 0xFF) 0x2030 32)) 0x8000 0x100000 0x5000
  ports := []

theorem acknowledged_iff_tick :
    Correct (fun _ => some syscallHandler) tickKernel 0x2000 ↔
      ∀ handler, some syscallHandler = some handler →
        (40 ≤ intNo (handler tickKernel 0x2000).1 (handler tickKernel 0x2000).2 ↔
          40 ≤ intNo tickKernel 0x2000) :=
  acknowledged_iff (fun _ => some syscallHandler) tickKernel 0x2000 (by decide) (by decide)

/-- The tick resumes the new task, and is acknowledged at the second controller too. -/
theorem timer_acknowledged_twice :
    intNo tickKernel 0x2000 = 32 ∧ ¬ Correct (fun _ => some schedulerNext) tickKernel 0x2000 := by
  have hvector : intNo tickKernel 0x2000 = 32 := by decide
  refine ⟨hvector, ?_⟩
  -- the scheduler goes on with the only task there is
  have hdispatch : dispatch (fun _ => some schedulerNext) tickKernel 0x2000 =
      some ((schedulerNext tickKernel 0x2000).1, initialFrame 0x5000) :=
    dispatch_eq _ (by omega) (by omega)
  have hnumber : intNo (schedulerNext tickKernel 0x2000).1 (initialFrame 0x5000) =
      intNo tickKernel (initialFrame 0x5000) := rfl
  rw [correct_iff hdispatch, hvector, hnumber, tickKernel, intNo_newTask]
  decide

end TimbOS.Native.Irq
