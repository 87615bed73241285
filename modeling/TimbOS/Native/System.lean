import TimbOS.Native.Gdt
import TimbOS.Native.InterruptStubs
import TimbOS.Native.Irq
import TimbOS.Native.Paging

/-!
# The running system

The processor and the kernel together: an interrupt goes through its gate to its stub, the stub
calls `fault_handler` of `isr.cpp` or `irq_handler`, and goes on with the frame that this leaves or
returns. In between, the program that is running does what it wants.

The memory of the kernel is what it sees at its virtual addresses. The page tables are looked at
where they lie in physical memory. What compiled functions do to the registers and the stack, and
what a page holds that the page fault handler makes visible, are inputs.
-/

namespace TimbOS.Native

open ForStd ForStd.I386 InterruptStubs Scheduler

/-! ## `isr.cpp` -/

namespace Isr

/-- `exception_messages` -/
def exceptionMessages : List String :=
  ["Division By Zero", "Debug", "Non Maskable Interrupt", "Breakpoint", "Into Detected Overflow",
    "Out of Bounds", "Invalid Opcode", "No Coprocessor", "Double Fault",
    "Coprocessor Segment Overrun", "Bad TSS", "Segment Not Present", "Stack Fault",
    "General Protection Fault", "Page Fault", "Unknown Interrupt", "Coprocessor Fault",
    "Alignment Check", "Machine Check"] ++ List.replicate 13 "Reserved"

/-- What `fault_handler` prints before it stops the system: the exception with its number and
    error code, except for page faults, and the registers. -/
structure Report where
  exception : Option (Nat × Nat × String)
  eax : Nat
  ebx : Nat
  ecx : Nat
  edx : Nat
  esp : Nat
  ebp : Nat
  esi : Nat
  edi : Nat
  gs : Nat
  fs : Nat
  es : Nat
  ds : Nat
  eip : Nat
  cs : Nat
  eflags : Nat
  ss : Nat
  deriving DecidableEq, Repr

/-- The register dump of the frame at `r`. -/
def report (m : Mem) (r : Nat) (exception : Option (Nat × Nat × String)) : Report where
  exception := exception
  eax := m.load32 (r + CpuState.eax)
  ebx := m.load32 (r + CpuState.ebx)
  ecx := m.load32 (r + CpuState.ecx)
  edx := m.load32 (r + CpuState.edx)
  esp := m.load32 (r + CpuState.esp)
  ebp := m.load32 (r + CpuState.ebp)
  esi := m.load32 (r + CpuState.esi)
  edi := m.load32 (r + CpuState.edi)
  gs := m.load32 (r + CpuState.gs)
  fs := m.load32 (r + CpuState.fs)
  es := m.load32 (r + CpuState.es)
  ds := m.load32 (r + CpuState.ds)
  eip := m.load32 (r + CpuState.eip)
  cs := m.load32 (r + CpuState.cs)
  eflags := m.load32 (r + CpuState.eflags)
  ss := m.load32 (r + CpuState.ss)

/-- What `fault_handler` comes to. -/
inductive Outcome where
  /-- It returns, and a page has been mapped if the flag is set. -/
  | returns (mapped : Bool) (paging : Paging.Kernel)
  /-- The endless loop. -/
  | halted (report : Report)
  /-- `paging_handle_fault` does not return. -/
  | stuck

/-- `fault_handler( r )`, where `cr2` is what `read_cr2()` returns. -/
def faultHandler (m : Mem) (paging : Paging.Kernel) (entries r cr2 : Nat) : Outcome :=
  let intNo := m.load32 (r + CpuState.intNo)
  let errCode := m.load32 (r + CpuState.errCode)
  if intNo < 32 then
    if intNo = 14 then
      match Paging.pagingHandleFault paging entries errCode cr2 with
      | none => .stuck
      | some (true, paging) => .returns true paging
      | some (false, _) => .halted (report m r none)
    else
      .halted (report m r (some (intNo, errCode, exceptionMessages.getD intNo "")))
  else
    .returns false paging

end Isr

/-! ## Installing handlers -/

namespace Irq

/-- `install_handler( irq, handler )` -/
def installHandler (routines : Routines) (irq : Fin 16) (handler : HandlerProc) : Routines :=
  Function.update routines irq (some handler)

/-- The handlers that `kmain` installs, where those of the keyboard and of the floppy drive are
    parameters. -/
def kernelRoutines (keyboardHandler floppyIrq : HandlerProc) : Routines :=
  let routines : Routines := fun _ => none
  -- `keyboard::init()`
  let routines := installHandler routines 1 keyboardHandler
  -- `scheduler::init()`
  let routines := installHandler routines 0 schedulerNext
  -- `syscall::init()`
  let routines := installHandler routines 3 syscallHandler
  -- `floppy_init()`
  installHandler routines 6 floppyIrq

/-- The memory that the handlers see. -/
def Kernel.withMem (k : Kernel) (m : Mem) : Kernel :=
  { k with scheduler := { k.scheduler with mem := m } }

@[simp] theorem Kernel.mem_withMem (k : Kernel) (m : Mem) : (k.withMem m).scheduler.mem = m := rfl

@[simp] theorem Kernel.taskList_withMem (k : Kernel) (m : Mem) :
    (k.withMem m).scheduler.taskList = k.scheduler.taskList := rfl

@[simp] theorem Kernel.current_withMem (k : Kernel) (m : Mem) :
    (k.withMem m).scheduler.current = k.scheduler.current := rfl

@[simp] theorem Kernel.esp0_withMem (k : Kernel) (m : Mem) :
    (k.withMem m).scheduler.esp0 = k.scheduler.esp0 := rfl

end Irq

/-! ## The machine -/

/-- What does not change while the system runs. -/
structure Environment where
  symbols : Symbols
  /-- The address of `tss`. -/
  tss : Nat
  /-- The physical address of `KernelPageDirectory`. -/
  entries : Nat
  /-- `irq_routines` -/
  routines : Irq.Routines

/-- Processor, kernel and page tables. -/
structure System where
  regs : Regs
  kernel : Irq.Kernel
  paging : Paging.Kernel

/-- An interrupt, with what the code of the model leaves open. -/
structure Interrupt where
  vector : UInt8
  errorCode : Option Word
  /-- The `cr2` register. -/
  cr2 : Nat
  leftovers : Leftovers
  /-- What `eax` holds after a function without result. -/
  eax : Word
  /-- Memory that the page fault handler makes visible. -/
  page : Mem

/-- Why the system does not go on. -/
inductive Stop where
  /-- The vector has no stub. -/
  | noStub
  | halted (report : Isr.Report)
  /-- `paging_handle_fault` does not return. -/
  | stuck
  /-- `irq_handler` reads outside its array. -/
  | outsideArray
  deriving DecidableEq, Repr

namespace System

/-- The levels of the segments. -/
def dpl (env : Environment) : Selector → Nat := Gdt.dpl (Gdt.init env.tss)

/-- The memory. -/
def mem (s : System) : Mem := s.kernel.scheduler.mem

/-- The stack for interrupts, from the task state segment. -/
def tss (s : System) : Tss :=
  Gdt.stackOf (Gdt.updateTssEsp0 Gdt.initialTss (.ofNat 32 s.kernel.scheduler.esp0))

/-- A page that has been mapped shows what it holds, and its entry shows up among the page
    tables. -/
def showPage (m page : Mem) (cr2 : Nat) : Mem :=
  fun a => if a / 4096 = cr2 / 4096 ∨ 0xFFC00000 ≤ a then page a else m a

/-- The processor at the call in the stub of an interrupt. -/
def atCall (env : Environment) (s : System) (i : Interrupt) (stub : Stub) : Processor :=
  let gate := (Idt.init env.symbols.stubs i.vector).gate
  Processor.run stub.before
    (Processor.enter ⟨s.regs, s.mem⟩ gate (dpl env (.ofNat 16 gate.selector)) s.tss
      (i.errorCode.map BitVec.toNat))

/-- The system goes on from the rest of the stub. -/
def resume (env : Environment) (s : System) (stub : Stub) (c : Processor) : System :=
  let c := (c.run stub.after).iret (dpl env)
  { s with regs := c.regs, kernel := s.kernel.withMem c.mem }

/-- An interrupt, from its gate to the end of its stub. -/
def interrupt (env : Environment) (s : System) (i : Interrupt) : Except Stop System :=
  match env.symbols.codeAt (.ofNat 32 (Idt.init env.symbols.stubs i.vector).gate.offset) with
  | none => .error .noStub
  | some stub =>
    let c := atCall env s i stub
    -- both functions get the address of the frame
    match stub.handler with
    | .irqHandler =>
      match Irq.irqHandler env.routines (s.kernel.withMem c.mem) c.top with
      | none => .error .outsideArray
      | some (k, r) =>
        .ok (resume env { s with kernel := k } stub
          (c.afterCall k.scheduler.mem (.ofNat 32 r) i.leftovers))
    | .faultHandler =>
      match Isr.faultHandler c.mem s.paging env.entries c.top i.cr2 with
      | .halted report => .error (.halted report)
      | .stuck => .error .stuck
      | .returns mapped paging =>
        let m := if mapped then showPage c.mem i.page i.cr2 else c.mem
        .ok (resume env { s with paging := paging } stub (c.afterCall m i.eax i.leftovers))

/-- The instruction `int n`. A program can only use the gates of its own ring and of outer ones;
    otherwise, and if there is no gate, the processor raises the exception 13 instead. -/
def softwareInterrupt (env : Environment) (s : System) (i : Interrupt) : Except Stop System :=
  let gate := (Idt.init env.symbols.stubs i.vector).gate
  if gate.type ≠ interruptGate ∨ gate.dpl < s.regs.cpl then
    interrupt env s { i with vector := 13, errorCode := some (.ofNat 32 (i.vector.toNat * 8 + 2)) }
  else
    interrupt env s { i with errorCode := none }

end System

end TimbOS.Native
