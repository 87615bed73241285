import TimbOS.Spec.Interrupts

/-!
# Exceptions

An exception either stops the system with a dump of the registers, or it is a page fault that the
kernel repairs, and then the program goes on as if nothing had happened.

## Key results

- `exception_halts`: what the register dump shows
- `softwareInterrupt_stops`: tasks cannot make system calls
- `pageFault_transparent`, `pageFault_stops`: the two ends of a page fault
-/

namespace TimbOS.Native.System

open ForStd ForStd.I386 ForStd.Mem InterruptStubs Scheduler

section Exception

variable {env : Environment} {s : System} {i : Interrupt}

theorem interrupt_of_halted {stub : Stub} {report : Isr.Report}
    (hcode : env.symbols.codeAt
      (.ofNat 32 (Idt.init env.symbols.stubs i.vector).gate.offset) = some stub)
    (hstub : stub.handler = .faultHandler)
    (hrun : Isr.faultHandler (atCall env s i stub).mem s.paging env.entries
      (atCall env s i stub).top i.cr2 = .halted report) :
    interrupt env s i = .error (.halted report) := by
  rw [interrupt, hcode]
  dsimp only
  rw [hrun, hstub]

theorem interrupt_of_returns {stub : Stub} {paging : Paging.Kernel}
    (hcode : env.symbols.codeAt
      (.ofNat 32 (Idt.init env.symbols.stubs i.vector).gate.offset) = some stub)
    (hstub : stub.handler = .faultHandler)
    (hrun : Isr.faultHandler (atCall env s i stub).mem s.paging env.entries
      (atCall env s i stub).top i.cr2 = .returns true paging) :
    interrupt env s i = .ok (resume env { s with paging := paging } stub
      ((atCall env s i stub).afterCall (showPage (atCall env s i stub).mem i.page i.cr2) i.eax
        i.leftovers)) := by
  rw [interrupt, hcode]
  dsimp only
  rw [hrun, hstub]
  rfl

/-- The error code that a frame has. -/
def errorWord (i : Interrupt) : Nat := (i.errorCode.map BitVec.toNat).getD 0

theorem errorWord_lt (i : Interrupt) : errorWord i < 2 ^ 32 := by
  rw [errorWord]
  cases i.errorCode with
  | none => decide
  | some code => exact code.isLt

section Frame

variable {c : Processor} {esp vector errCode : Nat}

/-- The word of one field. -/
theorem load_field
    (hframe : Frame c s.mem (frameOf s) (contextWords s.regs esp errCode vector).reverse)
    {j w : Nat} (hw : (contextWords s.regs esp errCode vector)[j]? = some w) (hlt : w < 2 ^ 32) :
    c.mem.load32 (frameOf s + 4 * j) = w := by
  rw [hframe.load j w (by rw [List.reverse_reverse]; exact hw), Nat.mod_eq_of_lt hlt]

/-- What the register dump shows: the registers of the program that was interrupted, except for
    `esp`. In place of the stack segment of the kernel it shows a word of the kernel's stack. -/
def dump (s : System) (exception : Option (Nat × Nat × String)) : Isr.Report where
  exception := exception
  eax := s.regs.eax.toNat
  ebx := s.regs.ebx.toNat
  ecx := s.regs.ecx.toNat
  edx := s.regs.edx.toNat
  esp := frameOf s + CpuState.intNo
  ebp := s.regs.ebp.toNat
  esi := s.regs.esi.toNat
  edi := s.regs.edi.toNat
  gs := s.regs.gs.toNat
  fs := s.regs.fs.toNat
  es := s.regs.es.toNat
  ds := s.regs.ds.toNat
  eip := s.regs.eip.toNat
  cs := s.regs.cs.toNat
  eflags := s.regs.eflags.toNat
  ss := if 0 < s.regs.cpl then s.regs.ss.toNat else s.mem.load32 (s.regs.esp.toNat + 4)

theorem load_ss
    (hframe : Frame c s.mem (frameOf s) (contextWords s.regs esp errCode vector).reverse)
    (hroom : frameSize s.regs + 4 ≤ (kernelStart s).regs.esp.toNat)
    (htop : s.regs.cpl = 0 → s.regs.esp.toNat + 8 ≤ 2 ^ 32) :
    c.mem.load32 (frameOf s + CpuState.ss) =
      if 0 < s.regs.cpl then s.regs.ss.toNat else s.mem.load32 (s.regs.esp.toNat + 4) := by
  by_cases hring : 0 < s.regs.cpl
  · have hword : (contextWords s.regs esp errCode vector)[18]? = some s.regs.ss.toNat := by
      rw [contextWords, if_pos hring]
      rfl
    rw [if_pos hring]
    exact load_field (j := 18) hframe hword (selector_lt _)
  · -- the frame has no such field
    have hadd := frameOf_add hroom
    have hlen := length_contextWords s.regs esp errCode vector
    have hsize : frameSize s.regs = CpuState.useresp := if_neg hring
    have hstart : kernelStart s = ⟨s.regs, s.mem⟩ := if_neg hring
    have hmax := htop (by omega)
    rw [hsize, hstart] at hadd
    rw [if_neg hring]
    dsimp only at hadd
    simp only [CpuState.useresp] at hadd hsize
    have haddr : frameOf s + CpuState.ss = s.regs.esp.toNat + 4 := by
      simp only [CpuState.ss]
      omega
    rw [haddr]
    apply load32_congr (by omega)
    intro a hle hlt
    apply hframe.outside
    rw [List.length_reverse]
    omega

theorem report_frame (exception : Option (Nat × Nat × String))
    (hframe : Frame c s.mem (frameOf s)
      (contextWords s.regs (frameOf s + CpuState.intNo) errCode vector).reverse)
    (hroom : frameSize s.regs + 4 ≤ (kernelStart s).regs.esp.toNat)
    (htop : s.regs.cpl = 0 → s.regs.esp.toNat + 8 ≤ 2 ^ 32) :
    Isr.report c.mem (frameOf s) exception = dump s exception := by
  have hsp : frameOf s + CpuState.intNo < 2 ^ 32 := by
    have hlt := (kernelStart s).regs.esp.isLt
    have hadd := frameOf_add hroom
    have hsize : 68 ≤ frameSize s.regs := by
      rw [frameSize]
      split <;> decide
    simp only [CpuState.intNo]
    omega
  have hfield := fun {j w : Nat} => load_field (j := j) (w := w) hframe
  have hss := load_ss hframe hroom htop
  rw [Isr.report, dump, Isr.Report.mk.injEq]
  exact ⟨rfl, hfield (j := 11) rfl (BitVec.isLt _), hfield (j := 8) rfl (BitVec.isLt _),
    hfield (j := 10) rfl (BitVec.isLt _), hfield (j := 9) rfl (BitVec.isLt _),
    hfield (j := 7) rfl hsp, hfield (j := 6) rfl (BitVec.isLt _),
    hfield (j := 5) rfl (BitVec.isLt _), hfield (j := 4) rfl (BitVec.isLt _),
    hfield (j := 0) rfl (selector_lt _), hfield (j := 1) rfl (selector_lt _),
    hfield (j := 2) rfl (selector_lt _), hfield (j := 3) rfl (selector_lt _),
    hfield (j := 14) rfl (BitVec.isLt _), hfield (j := 15) rfl (selector_lt _),
    hfield (j := 16) rfl (BitVec.isLt _), hss⟩

/-- `fault_handler` sees the number of the exception and its error code. -/
theorem faultHandler_frame
    (hframe : Frame c s.mem (frameOf s) (contextWords s.regs esp errCode vector).reverse)
    (hv : vector < 2 ^ 32) (herr : errCode < 2 ^ 32) :
    c.mem.load32 (frameOf s + CpuState.intNo) = vector ∧
      c.mem.load32 (frameOf s + CpuState.errCode) = errCode :=
  ⟨load_field (j := 12) hframe rfl hv, load_field (j := 13) hframe rfl herr⟩

end Frame

/-! ## Exceptions that stop the system -/

theorem handler_stubOf (symbols : Symbols) {vector : Nat} (hv : vector < 32) :
    (stubOf symbols vector).handler = .faultHandler := by
  rw [stubOf, if_pos hv]

theorem codeAt_vector (env : Environment) (hv : i.vector.toNat < 48) :
    env.symbols.codeAt (.ofNat 32 (Idt.init env.symbols.stubs i.vector).gate.offset) =
      some (stubOf env.symbols i.vector.toNat) := by
  obtain ⟨stub, hgate, hcode⟩ := gate_vector env hv
  rw [hgate, Idt.kernelGate]
  dsimp only
  rw [BitVec.ofNat_toNat, BitVec.setWidth_eq, hcode]

/-- The error code is there exactly if the stub counts on it. -/
def Fits (i : Interrupt) : Prop := i.errorCode.isSome = withErrorCode i.vector.toNat

theorem Fits.stub (h : Fits i) (hv : i.vector.toNat < 32) :
    i.errorCode.isSome = (decide (i.vector.toNat < 32) && withErrorCode i.vector.toNat) := by
  rw [decide_eq_true hv, Bool.true_and]
  exact h

/-- An exception other than a page fault stops the system. The dump has the number and the name
    of the exception, its error code, and the registers of the program that caused it, except for
    its stack pointer. -/
theorem exception_halts (env : Environment) (hv : i.vector.toNat < 32)
    (hne : i.vector.toNat ≠ 14) (hfits : Fits i)
    (hroom : frameSize s.regs + 4 ≤ (kernelStart s).regs.esp.toNat)
    (htop : s.regs.cpl = 0 → s.regs.esp.toNat + 8 ≤ 2 ^ 32) :
    interrupt env s i = .error (.halted (dump s (some (i.vector.toNat, errorWord i,
      Isr.exceptionMessages.getD i.vector.toNat "")))) := by
  obtain ⟨hframe, -, -⟩ := frame_atCall env (by omega) (hfits.stub hv) hroom
  obtain ⟨hno, hcode⟩ := faultHandler_frame hframe (by omega) (errorWord_lt i)
  apply interrupt_of_halted (codeAt_vector env (by omega)) (handler_stubOf env.symbols hv)
  rw [hframe.top, Isr.faultHandler, hno, hcode, if_pos hv, if_neg hne,
    report_frame _ hframe hroom htop]
  rfl

/-- A division by zero in ring 0. -/
theorem exception_halts_small :
    interrupt (smallEnvironment fun _ => none) smallSystem (smallInterrupt 0 none 0) =
      .error (.halted (dump smallSystem (some (0, 0, "Division By Zero")))) :=
  exception_halts (smallEnvironment fun _ => none) (by decide) (by decide) rfl room_small
    fun _ => by decide

/-- No gate can be used from outside ring 0. -/
theorem gate_not_allowed (env : Environment) (hring : 0 < s.regs.cpl) :
    (Idt.init env.symbols.stubs i.vector).gate.type ≠ interruptGate ∨
      (Idt.init env.symbols.stubs i.vector).gate.dpl < s.regs.cpl := by
  rw [Idt.gates_init, Idt.intended]
  split
  · exact .inr hring
  · split
    · exact .inr hring
    · exact .inl (by decide)

/-- A task that executes `int` stops the system, whatever vector it asks for, and so does a system
    call: the processor raises a general protection fault, with the vector in its error code. -/
theorem softwareInterrupt_stops (env : Environment) (hring : 0 < s.regs.cpl)
    (hroom : frameSize s.regs + 4 ≤ (kernelStart s).regs.esp.toNat) :
    softwareInterrupt env s i = .error (.halted (dump s (some (13, i.vector.toNat * 8 + 2,
      "General Protection Fault")))) := by
  have hvector := i.vector.toNat_lt
  have hcode : (BitVec.ofNat 32 (i.vector.toNat * 8 + 2)).toNat = i.vector.toNat * 8 + 2 := by
    rw [BitVec.toNat_ofNat, Nat.mod_eq_of_lt (by omega)]
  have hhalts := exception_halts (s := s) (i := { i with
    vector := 13, errorCode := some (.ofNat 32 (i.vector.toNat * 8 + 2)) }) env
    (show (13 : UInt8).toNat < 32 by decide) (show (13 : UInt8).toNat ≠ 14 by decide) rfl hroom
    fun hcpl => by omega
  rw [softwareInterrupt, if_pos (gate_not_allowed env hring), hhalts]
  show Except.error (Stop.halted (dump s (some (13, (BitVec.ofNat 32 _).toNat, _)))) = _
  rw [hcode]
  rfl

/-- Registers of a task with the kernel stack at `0xC0108000`. -/
def taskRegs : Regs :=
  { gs := 0x23, fs := 0x23, es := 0x23, ds := 0x23, edi := 1, esi := 2, ebp := 3, ebx := 4,
    edx := 5, ecx := 6, eax := 0, eip := 0xC0103000, cs := 0x1B, eflags := 0x202,
    esp := 0xC0208000, ss := 0x23 }

def taskSystem : System :=
  { smallSystem with
    regs := taskRegs
    kernel := ⟨{ noTasks fun _ => 0 with esp0 := 0xC0108000 }, []⟩ }

/-- `syscall::execute( ID::Yield )` in a task. -/
theorem softwareInterrupt_stops_small :
    softwareInterrupt (smallEnvironment fun _ => none) taskSystem (smallInterrupt 0x23 none 0) =
      .error (.halted (dump taskSystem (some (13, 0x23 * 8 + 2, "General Protection Fault")))) :=
  softwareInterrupt_stops (smallEnvironment fun _ => none) (by decide) (by
    have hring : 0 < taskSystem.regs.cpl := by decide
    rw [kernelStart, if_pos hring]
    decide)

/-! ## Page faults -/

section PageFault

variable {paging : Paging.Kernel}

/-- A page fault that the kernel repairs is invisible but for the new page: the program runs the
    instruction again with all its registers, and its memory outside the page has not changed. -/
theorem pageFault_transparent (env : Environment) (hv : i.vector.toNat = 14) (hfits : Fits i)
    (hsegs : SegmentsStay (dpl env) s.regs)
    (hroom : frameSize s.regs + 4 ≤ (kernelStart s).regs.esp.toNat)
    (hfault : Paging.pagingHandleFault s.paging env.entries (errorWord i) i.cr2 =
      some (true, paging))
    (hpage : ∀ a, frameOf s ≤ a → a < frameOf s + frameSize s.regs →
      a / 4096 ≠ i.cr2 / 4096 ∧ a < 0xFFC00000) :
    ∃ m, interrupt env s i = .ok { s with kernel := s.kernel.withMem m, paging := paging } ∧
      ∀ a, a / 4096 ≠ i.cr2 / 4096 → a < 0xFFC00000 →
        (kernelStart s).regs.esp.toNat ≤ a ∨ a + i.leftovers.depth < frameOf s ∧ a < frameOf s - 4 →
        m a = s.mem a := by
  have hlt := (kernelStart s).regs.esp.isLt
  have hadd := frameOf_add hroom
  have hv32 : i.vector.toNat < 32 := by omega
  have hv48 : i.vector.toNat < 48 := by omega
  have hstub := hfits.stub hv32
  have hcontext : HasContext (savedKernel env s i).scheduler.mem (frameOf s) s.regs :=
    hasContext_savedKernel hv48 hstub hroom
  have hsaved : ∀ a, a < frameOf s - 4 ∨ (kernelStart s).regs.esp.toNat ≤ a →
      (savedKernel env s i).scheduler.mem a = s.mem a := fun a => mem_savedKernel hv48 hstub hroom
  obtain ⟨hframe, hcpl, hss⟩ := frame_atCall env hv48 hstub hroom
  obtain ⟨hno, hcode⟩ := faultHandler_frame hframe (by omega) (errorWord_lt i)
  have hhandler := handler_stubOf env.symbols hv32
  have hreturns : Isr.faultHandler (atCall env s i (stubOf env.symbols i.vector.toNat)).mem s.paging
      env.entries (atCall env s i (stubOf env.symbols i.vector.toNat)).top i.cr2 =
      .returns true paging := by
    rw [errorWord] at hfault
    rw [hframe.top, Isr.faultHandler, hno, hcode, if_pos hv32, if_pos hv, hfault]
  have hrun := interrupt_of_returns (codeAt_vector env hv48) hhandler hreturns
  rw [savedKernel] at hcontext hsaved
  dsimp only [Irq.Kernel.mem_withMem] at hcontext hsaved
  -- what matters of the processor at the call
  clear hreturns hno hcode
  generalize atCall env s i (stubOf env.symbols i.vector.toNat) = c at *
  rw [show stubOf env.symbols i.vector.toNat = ⟨_, _, _⟩ from if_pos hv32] at hrun
  have hesp : c.regs.esp.toNat + 4 = frameOf s := hframe.esp
  have hmem : (c.afterCall (showPage c.mem i.page i.cr2) i.eax i.leftovers).mem =
      scribbled (showPage c.mem i.page i.cr2) i.leftovers (frameOf s) := by
    rw [← hesp]
    rfl
  have hresume := resume_isr env { s with paging := paging }
    (isrStub i.vector.toNat ++ isrCommonBefore env.symbols.faultHandler)
    (c := c.afterCall (showPage c.mem i.page i.cr2) i.eax i.leftovers) hcpl
  have hregs : (c.afterCall (showPage c.mem i.page i.cr2) i.eax i.leftovers).regs.esp.toNat + 4 =
      frameOf s := hesp
  have hseg : (c.afterCall (showPage c.mem i.page i.cr2) i.eax i.leftovers).regs.ss =
      (kernelStart s).regs.ss := hss
  have hshow : ∀ a, a / 4096 ≠ i.cr2 / 4096 → a < 0xFFC00000 →
      showPage c.mem i.page i.cr2 a = c.mem a := fun a hne hlt =>
    if_neg (not_or.mpr ⟨hne, Nat.not_le.mpr hlt⟩)
  rw [hmem, hregs, hseg] at hresume
  have hregisters : restored (dpl env)
      (scribbled (showPage c.mem i.page i.cr2) i.leftovers (frameOf s)) (frameOf s)
      (kernelStart s).regs.ss = s.regs := by
    apply restored_frame hsegs hroom
    apply hcontext.congr (by omega)
    intro a hle ha
    rw [scribbled_of_le _ _ hle]
    exact hshow a (hpage a hle ha).1 (hpage a hle ha).2
  rw [hresume, hregisters] at hrun
  refine ⟨_, hrun, ?_⟩
  intro a hne hlow ha
  rw [← hsaved a (by omega), ← hshow a hne hlow]
  rcases ha with ha | ha
  · exact scribbled_of_le _ _ (by omega)
  · exact scribbled_of_far _ _ ha.1

theorem demandKernel_handles : ∃ paging,
    Paging.pagingHandleFault (Paging.demandKernel fun _ => 0) 0x1000 2 0x5000 =
      some (true, paging) := by
  have hd : Paging.Demand (Paging.demandKernel fun _ => 0) 0x1000 2 0x5000 :=
    ⟨by decide, by decide, by decide, by decide, by decide⟩
  have habsent := Paging.absent_of_fault hd.present hd.small Paging.demandKernel_absent
  rcases Physical.next_or_full (Paging.demandKernel fun _ => 0).physical
    Physical.PoolId.hiMemPool.chain with ⟨p, idx, hnext⟩ | ⟨-, halloc⟩
  · exact ⟨_, Paging.handle_demand (by decide) Paging.demandMemory_recursive habsent hd
      (Physical.allocFrom_of_next hnext)⟩
  · exact ⟨_, Paging.handle_demand (by decide) Paging.demandMemory_recursive habsent hd halloc⟩

/-- A write to the page that is mapped on demand. -/
theorem pageFault_transparent_small : ∃ paging m,
    interrupt (smallEnvironment fun _ => none) smallSystem (smallInterrupt 14 (some 2) 0x5000) =
      .ok { smallSystem with kernel := smallSystem.kernel.withMem m, paging := paging } ∧
      ∀ a, a / 4096 ≠ 0x5000 / 4096 → a < 0xFFC00000 →
        (kernelStart smallSystem).regs.esp.toNat ≤ a ∨
          a + 100 < frameOf smallSystem ∧ a < frameOf smallSystem - 4 →
        m a = smallSystem.mem a := by
  obtain ⟨paging, hfault⟩ := demandKernel_handles
  have hframe : frameOf smallSystem = 0xC0108000 - 68 := by
    rw [frameOf, kernelStart_small]
    decide
  have hsize : frameSize smallSystem.regs = 68 := by decide
  exact ⟨paging, pageFault_transparent (smallEnvironment fun _ => none) (by decide) rfl
    (segmentsStay_of_cpl (by decide)) room_small hfault fun a hle ha => by
      rw [hframe] at hle ha
      rw [hsize] at ha
      exact ⟨by show a / 4096 ≠ 0x5000 / 4096; omega, by omega⟩⟩

end PageFault

end Exception

end TimbOS.Native.System
