import TimbOS.Native.Idt
import TimbOS.Native.Scheduler

/-!
# Interrupt stubs

The assembly of `isr_.s` and `irq_.s`. Every vector has a stub of its own, which pushes the number
of the vector and goes on with code that all stubs share: it saves the registers, so that they make
up a `cpu_state` with what the processor has pushed, and calls a function of the kernel with the
address of it.
-/

namespace TimbOS.Native.InterruptStubs

open ForStd.I386

/-- The function that a stub calls. -/
inductive Handler where
  | faultHandler
  | irqHandler
  deriving DecidableEq, Repr

/-- The code up to the call, and behind it up to `iret`. -/
structure Stub where
  before : List Instr
  handler : Handler
  after : List Instr
  deriving DecidableEq, Repr

/-! ## `isr_.s` -/

/-- The exceptions with `isr_stub_e`, for which the processor pushes an error code. -/
def withErrorCode (n : Nat) : Bool := n == 8 || (10 ≤ n && n ≤ 14)

/-- `isr_stub` and `isr_stub_e`, without the jump. -/
def isrStub (n : Nat) : List Instr :=
  if withErrorCode n then [.cli, .pushByte n] else [.cli, .pushByte 0, .pushByte n]

/-- `isr_common_stub` up to the call, where `faultHandler` is the address of `fault_handler`. -/
def isrCommonBefore (faultHandler : Word) : List Instr :=
  [.pushad, .pushSeg .ds, .pushSeg .es, .pushSeg .fs, .pushSeg .gs,
    .movAx 0x10, .movSeg .ds, .movSeg .es, .movSeg .fs, .movSeg .gs,
    .mov .eax .esp, .push .eax, .movLabel .eax faultHandler]

def isrCommonAfter : List Instr :=
  [.pop .eax, .popSeg .gs, .popSeg .fs, .popSeg .es, .popSeg .ds, .popad, .addEsp 8]

/-! ## `irq_.s` -/

/-- `irq_stub`, without the jump. -/
def irqStub (n : Nat) : List Instr := [.cli, .pushByte 0, .pushByte (n + 32)]

/-- `irq_common_stub` up to the call. -/
def irqCommonBefore : List Instr :=
  [.pushad, .pushSeg .ds, .pushSeg .es, .pushSeg .fs, .pushSeg .gs,
    .movAx 0x10, .movSeg .ds, .movSeg .es, .movSeg .fs, .movSeg .gs,
    -- `esp = irq_handler( esp );`
    .push .esp]

def irqCommonAfter : List Instr :=
  [.mov .esp .eax, .popSeg .gs, .popSeg .fs, .popSeg .es, .popSeg .ds, .popad, .addEsp 8]

/-! ## The code in memory -/

/-- The symbols of the kernel: no two stubs begin at one address. -/
structure Symbols where
  stubs : Idt.Stubs
  faultHandler : Word
  isr_injective : Function.Injective stubs.isr
  irq_injective : Function.Injective stubs.irq
  isr_ne_irq : ∀ i j, stubs.isr i ≠ stubs.irq j

/-- The stub that begins at an address. -/
def Symbols.codeAt (symbols : Symbols) (address : Word) : Option Stub :=
  match (List.finRange 32).find? (fun i => symbols.stubs.isr i == address) with
  | some i =>
    some ⟨isrStub i ++ isrCommonBefore symbols.faultHandler, .faultHandler, isrCommonAfter⟩
  | none =>
    match (List.finRange 16).find? (fun i => symbols.stubs.irq i == address) with
    | some i => some ⟨irqStub i ++ irqCommonBefore, .irqHandler, irqCommonAfter⟩
    | none => none

end TimbOS.Native.InterruptStubs
