import TimbOS.Native.Scheduler

/-!
# Interrupt requests

`irq.cpp`: the table of handlers and the function that all interrupt stubs call. A handler
gets the address of the frame that the stub has pushed, and returns the address of the frame
to go on with. It can change everything that the kernel has in memory.
-/

namespace TimbOS.Native.Irq

open Scheduler

/-- What handlers work on, and the bytes written to I/O ports so far, with their ports. -/
structure Kernel where
  scheduler : Scheduler.State
  ports : List (Nat × Nat)

/-- `handler_proc` -/
abbrev HandlerProc := Kernel → Nat → Kernel × Nat

/-- `outportb( port, value )` -/
def outportb (k : Kernel) (port value : Nat) : Kernel :=
  { k with ports := k.ports ++ [(port, value)] }

/-- `r->int_no` -/
def intNo (k : Kernel) (r : Nat) : Nat := k.scheduler.mem.load32 (r + CpuState.intNo)

/-- `irq_routines`, where `none` is a null pointer. -/
abbrev Routines := Fin 16 → Option HandlerProc

/-- The first part of `irq_handler( r )`: find the handler and run it. `none` is an access
    outside the array. -/
def dispatch (irqRoutines : Routines) (k : Kernel) (r : Nat) : Option (Kernel × Nat) :=
  if h : sub32 (intNo k r) 32 < 16 then
    match irqRoutines ⟨sub32 (intNo k r) 32, h⟩ with
    | some handler => some (handler k r)
    | none => some (k, r)
  else
    none

/-- The second part, with the frame that the handler has returned in `r`. -/
def acknowledge (k : Kernel) (r : Nat) : Kernel :=
  let k := if intNo k r ≥ 40 then outportb k 0xA0 0x20 else k
  outportb k 0x20 0x20

/-- `irq_handler( r )` -/
def irqHandler (irqRoutines : Routines) (k : Kernel) (r : Nat) : Option (Kernel × Nat) := do
  -- `r = handler(r);`
  let (k, r) ← dispatch irqRoutines k r
  return (acknowledge k r, r)

/-! ## Handlers -/

/-- `scheduler::next`, which `scheduler::init` installs for the timer. -/
def schedulerNext : HandlerProc := fun k regs =>
  let (frame, s) := next k.scheduler regs
  ({ k with scheduler := s }, frame)

/-- `syscall_handler( s )`, which `syscall::init` installs. `syscall::ID::Yield` is 0. -/
def syscallHandler : HandlerProc := fun k s =>
  if k.scheduler.mem.load32 (s + CpuState.eax) = 0 then schedulerNext k s else (k, s)

end TimbOS.Native.Irq
