import TimbOS.Spec.InterruptFrame
import TimbOS.Spec.IrqAcknowledge
import TimbOS.Spec.PageFault
import TimbOS.Spec.TaskFrame

/-!
# Interrupt requests from end to end

The processor enters the kernel through a gate, the stub builds a frame and calls `irq_handler`, and
what that returns is loaded into the registers.

## Key results

- `restored_frame`: a frame that is still there gives the registers back
- `interrupt_irq`: an interrupt request is a call of the handler of its line
- `irq_transparent`: a handler that returns its frame is not noticed
-/

namespace TimbOS.Native.System

open ForStd ForStd.I386 ForStd.Mem InterruptStubs Scheduler

/-- The memory after a call, where the stack below the frame has been used. -/
def scribbled (m : Mem) (l : Leftovers) (frame : Nat) : Mem :=
  fun a => if a < frame ∧ frame ≤ a + l.depth then l.stack a else m a

theorem scribbled_of_le (m : Mem) (l : Leftovers) {frame a : Nat} (h : frame ≤ a) :
    scribbled m l frame a = m a :=
  if_neg fun hlt => absurd hlt.1 (Nat.not_lt.mpr h)

theorem scribbled_of_far (m : Mem) (l : Leftovers) {frame a : Nat} (h : a + l.depth < frame) :
    scribbled m l frame a = m a :=
  if_neg fun hle => absurd hle.2 (Nat.not_le.mpr h)

/-! ## Frames -/

section Context

variable {m m' : Mem} {base : Nat} {r : Regs}

/-- A frame depends on its own bytes only. -/
theorem HasContext.congr (h : HasContext m base r) (hbase : base + frameSize r ≤ 2 ^ 32)
    (hsame : ∀ a, base ≤ a → a < base + frameSize r → m' a = m a) : HasContext m' base r := by
  obtain ⟨esp, errCode, intNo, hwords⟩ := h
  refine ⟨esp, errCode, intNo, ?_⟩
  rw [← hwords]
  apply List.ext_getElem?
  intro j
  rw [List.getElem?_take, List.getElem?_take, CpuState.words, CpuState.words, fields_eq,
    List.map_map, List.map_map, List.getElem?_map, List.getElem?_map]
  by_cases hj : j < frameSize r / 4
  · have hsize : frameSize r = 76 ∨ frameSize r = 68 := by
      rw [frameSize]
      split
      · exact .inl rfl
      · exact .inr rfl
    rw [if_pos hj, if_pos hj, List.getElem?_range (by omega), Option.map_some, Option.map_some,
      Function.comp_apply, Function.comp_apply, load32_congr (by omega)]
    intro a hle hlt
    exact hsame a (by omega) (by omega)
  · rw [if_neg hj, if_neg hj]

/-- Selectors are shorter than words. -/
theorem selector_lt (s : Selector) : s.toNat < 2 ^ 32 := Nat.lt_trans s.isLt (by decide)

theorem contextWords_lt {esp errCode intNo : Nat} (hesp : esp < 2 ^ 32) (herr : errCode < 2 ^ 32)
    (hno : intNo < 2 ^ 32) : ∀ w ∈ contextWords r esp errCode intNo, w < 2 ^ 32 := by
  have hstack : ∀ w ∈ (if 0 < r.cpl then [r.esp.toNat, r.ss.toNat] else []), w < 2 ^ 32 := by
    split
    · exact List.forall_mem_cons.mpr ⟨r.esp.isLt, List.forall_mem_singleton.mpr (selector_lt r.ss)⟩
    · exact List.forall_mem_nil _
  rw [contextWords, List.forall_mem_append]
  refine ⟨?_, hstack⟩
  simp only [List.forall_mem_cons, selector_lt, BitVec.isLt, hesp, herr, hno, true_and,
    List.not_mem_nil, IsEmpty.forall_iff, implies_true]

theorem hasContext_frame {s : Processor} {esp errCode intNo : Nat} (hesp : esp < 2 ^ 32)
    (herr : errCode < 2 ^ 32) (hno : intNo < 2 ^ 32)
    (h : Frame s m base (contextWords r esp errCode intNo).reverse) : HasContext s.mem base r := by
  have hlen := length_contextWords r esp errCode intNo
  have hsize : frameSize r ≤ 76 := by
    rw [frameSize]
    split <;> decide
  have htake := h.take_words (by rw [List.length_reverse]; omega) fun w hw =>
    contextWords_lt hesp herr hno w (List.mem_reverse.mp hw)
  rw [List.length_reverse, List.reverse_reverse] at htake
  refine ⟨esp, errCode, intNo, ?_⟩
  rw [← htake]
  congr 1
  omega

end Context

/-! ## What an interrupt does -/

theorem restored_mod (dpl : Selector → Nat) (m : Mem) (r : Nat) (ss : Selector) :
    restored dpl m (BitVec.ofNat 32 r).toNat ss = restored dpl m r ss := by
  apply restored_congr
  · apply List.map_congr_left
    intro f _
    apply load32_of_mod_eq
    rw [BitVec.toNat_ofNat]
    omega
  · rw [BitVec.toNat_ofNat, Nat.mod_mod]

theorem resume_irq (env : Environment) (s : System) (before : List Instr) {c : Processor}
    (hcpl : c.regs.cpl = 0) : resume env s ⟨before, .irqHandler, irqCommonAfter⟩ c =
      { s with
        regs := restored (dpl env) c.mem c.regs.eax.toNat c.regs.ss
        kernel := s.kernel.withMem c.mem } := by
  have hrun : c.run irqCommonAfter = Processor.run popCode (c.exec (.mov .esp .eax)) :=
    Processor.run_cons (.mov .esp .eax) popCode c
  have hiret := iret_popCode (dpl env) (c.exec (.mov .esp .eax)) hcpl
  rw [← hrun] at hiret
  rw [resume, hiret]
  rfl

theorem resume_isr (env : Environment) (s : System) (before : List Instr) {c : Processor}
    (hcpl : c.regs.cpl = 0) : resume env s ⟨before, .faultHandler, isrCommonAfter⟩ c =
      { s with
        regs := restored (dpl env) c.mem (c.regs.esp.toNat + 4) c.regs.ss
        kernel := s.kernel.withMem c.mem } := by
  have hrun : c.run isrCommonAfter = Processor.run popCode (c.exec (.pop .eax)) :=
    Processor.run_cons (.pop .eax) popCode c
  have hiret := iret_popCode (dpl env) (c.exec (.pop .eax)) hcpl
  have hesp : (c.exec (.pop .eax)).regs.esp = .ofNat 32 (c.regs.esp.toNat + 4) :=
    ofNat_add c.regs.esp 4
  rw [← hrun, hesp, restored_mod] at hiret
  rw [resume, hiret]
  rfl

/-- What the handler of a line makes of a frame. -/
def handled (env : Environment) (k : Irq.Kernel) (r : Nat) (line : Fin 16) : Irq.Kernel × Nat :=
  (env.routines line).elim (k, r) fun handler => handler k r

section Irq

variable (env : Environment) {s : System} {i : Interrupt} {line : Fin 16}

/-- The kernel when an interrupt has been saved. -/
def savedKernel (s : System) (i : Interrupt) : Irq.Kernel :=
  s.kernel.withMem (atCall env s i (stubOf env.symbols i.vector.toNat)).mem

theorem scheduler_acknowledge (k : Irq.Kernel) (r : Nat) :
    (Irq.acknowledge k r).scheduler = k.scheduler := by
  rw [Irq.acknowledge]
  split <;> rfl

/-- An interrupt request has no error code. -/
theorem noErrorCode (hv : i.vector.toNat = 32 + line.val) (herr : i.errorCode = none) :
    i.errorCode.isSome = (decide (i.vector.toNat < 32) && withErrorCode i.vector.toNat) := by
  rw [herr, decide_eq_false (by omega)]
  rfl

/-- The handler is the one of the line. -/
theorem dispatch_line (hv : i.vector.toNat = 32 + line.val) (herr : i.errorCode = none)
    (hroom : frameSize s.regs + 4 ≤ (kernelStart s).regs.esp.toNat) :
    Irq.dispatch env.routines (savedKernel env s i) (frameOf s) =
      some (handled env (savedKernel env s i) (frameOf s) line) := by
  have hline := line.isLt
  obtain ⟨hframe, -, -⟩ := frame_atCall env (by omega) (noErrorCode hv herr) hroom
  have hno : Irq.intNo (savedKernel env s i) (frameOf s) = 32 + line.val := by
    have hload := hframe.load 12 i.vector.toNat (by rw [List.reverse_reverse]; rfl)
    show (atCall env s i _).mem.load32 (frameOf s + 4 * 12) = _
    rw [hload, hv, Nat.mod_eq_of_lt (by omega)]
  have hindex : (⟨Irq.intNo (savedKernel env s i) (frameOf s) - 32, by omega⟩ : Fin 16) = line := by
    apply Fin.ext
    dsimp only
    omega
  rw [Irq.dispatch_eq _ (by omega) (by omega), hindex]
  rfl

theorem interrupt_of_irq {stub : Stub} {k : Irq.Kernel} {r : Nat}
    (hcode : env.symbols.codeAt
      (.ofNat 32 (Idt.init env.symbols.stubs i.vector).gate.offset) = some stub)
    (hstub : stub.handler = .irqHandler)
    (hrun : Irq.irqHandler env.routines (s.kernel.withMem (atCall env s i stub).mem)
      (atCall env s i stub).top = some (k, r)) :
    interrupt env s i = .ok (resume env { s with kernel := k } stub
      ((atCall env s i stub).afterCall k.scheduler.mem (.ofNat 32 r) i.leftovers)) := by
  rw [interrupt, hcode]
  dsimp only
  rw [hrun, hstub]

/-- An interrupt request: its handler runs with the address of the frame, the controllers are
    acknowledged, and the processor goes on with the registers in the frame that the handler has
    returned. -/
theorem interrupt_irq (hv : i.vector.toNat = 32 + line.val) (herr : i.errorCode = none)
    (hroom : frameSize s.regs + 4 ≤ (kernelStart s).regs.esp.toNat) :
    interrupt env s i =
      let (k, r) := handled env (savedKernel env s i) (frameOf s) line
      let m := scribbled k.scheduler.mem i.leftovers (frameOf s)
      .ok { s with
        regs := restored (dpl env) m r (kernelStart s).regs.ss
        kernel := (Irq.acknowledge k r).withMem m } := by
  have hline := line.isLt
  have hvec : i.vector.toNat < 48 := by omega
  obtain ⟨stub, hgate, hcode⟩ := gate_vector env hvec
  have hstub : stubOf env.symbols i.vector.toNat =
      ⟨irqStub (i.vector.toNat - 32) ++ irqCommonBefore, .irqHandler, irqCommonAfter⟩ :=
    if_neg (by omega)
  have hhandler : Irq.irqHandler env.routines (savedKernel env s i) (frameOf s) =
      some (Irq.acknowledge (handled env (savedKernel env s i) (frameOf s) line).1
          (handled env (savedKernel env s i) (frameOf s) line).2,
        (handled env (savedKernel env s i) (frameOf s) line).2) :=
    Irq.irqHandler_eq (dispatch_line env hv herr hroom)
  obtain ⟨hframe, hcpl, hss⟩ := frame_atCall env hvec (noErrorCode hv herr) hroom
  have hoffset : BitVec.ofNat 32 (Idt.kernelGate stub).offset = stub := by
    rw [Idt.kernelGate, BitVec.ofNat_toNat, BitVec.setWidth_eq]
  have hirq : (stubOf env.symbols i.vector.toNat).handler = .irqHandler := by rw [hstub]
  have hrun := interrupt_of_irq env (by rw [hgate, hoffset]; exact hcode) hirq
    (by rw [hframe.top]; exact hhandler)
  rw [hrun, savedKernel]
  -- what matters of the processor at the call
  generalize atCall env s i (stubOf env.symbols i.vector.toNat) = c at hframe hcpl hss ⊢
  generalize handled env (s.kernel.withMem c.mem) (frameOf s) line = result
  rw [scheduler_acknowledge, hstub]
  have hresume := resume_irq env { s with kernel := Irq.acknowledge result.1 result.2 }
    (irqStub (i.vector.toNat - 32) ++ irqCommonBefore)
    (c := c.afterCall result.1.scheduler.mem (.ofNat 32 result.2) i.leftovers) hcpl
  have hmem : (c.afterCall result.1.scheduler.mem (.ofNat 32 result.2) i.leftovers).mem =
      scribbled result.1.scheduler.mem i.leftovers (frameOf s) := by
    rw [← hframe.esp]
    rfl
  have hregs : (c.afterCall result.1.scheduler.mem (.ofNat 32 result.2) i.leftovers).regs.eax =
      .ofNat 32 result.2 := rfl
  rw [hmem, hregs, restored_mod] at hresume
  rw [hresume, ← hss]
  rfl

end Irq

/-! ## Interrupts that leave no trace -/

section Transparent

variable {env : Environment} {s : System} {i : Interrupt}

/-- The frame lies below what was on the stack before. -/
theorem frameOf_add (hroom : frameSize s.regs + 4 ≤ (kernelStart s).regs.esp.toNat) :
    frameOf s + frameSize s.regs = (kernelStart s).regs.esp.toNat := by
  rw [frameOf]
  omega

/-- Outside the kernel stack, and on it above its pointer, an interrupt saves nothing. -/
theorem mem_savedKernel (hv : i.vector.toNat < 48)
    (herr : i.errorCode.isSome = (decide (i.vector.toNat < 32) && withErrorCode i.vector.toNat))
    (hroom : frameSize s.regs + 4 ≤ (kernelStart s).regs.esp.toNat) {a : Nat}
    (ha : a < frameOf s - 4 ∨ (kernelStart s).regs.esp.toNat ≤ a) :
    (savedKernel env s i).scheduler.mem a = s.mem a := by
  obtain ⟨hframe, -, -⟩ := frame_atCall env hv herr hroom
  have hlen := length_contextWords s.regs (frameOf s + CpuState.intNo)
    ((i.errorCode.map BitVec.toNat).getD 0) i.vector.toNat
  have htop := frameOf_add hroom
  apply hframe.outside
  rw [List.length_reverse]
  omega

/-- The frame of an interrupt has the registers of the interrupted program. -/
theorem hasContext_savedKernel (hv : i.vector.toNat < 48)
    (herr : i.errorCode.isSome = (decide (i.vector.toNat < 32) && withErrorCode i.vector.toNat))
    (hroom : frameSize s.regs + 4 ≤ (kernelStart s).regs.esp.toNat) :
    HasContext (savedKernel env s i).scheduler.mem (frameOf s) s.regs := by
  obtain ⟨hframe, -, -⟩ := frame_atCall env hv herr hroom
  have hlt := (kernelStart s).regs.esp.isLt
  have htop := frameOf_add hroom
  have hsize : 68 ≤ frameSize s.regs := by
    rw [frameSize]
    split <;> decide
  have hcode : (i.errorCode.map BitVec.toNat).getD 0 < 2 ^ 32 := by
    cases i.errorCode with
    | none => decide
    | some code => exact code.isLt
  exact hasContext_frame (by simp only [CpuState.intNo]; omega) hcode (by omega) hframe

/-- A frame that is still there when a stub returns to it gives back the registers of the program
    that was interrupted last. -/
theorem restored_frame {m : Mem} (hsegs : SegmentsStay (dpl env) s.regs)
    (hroom : frameSize s.regs + 4 ≤ (kernelStart s).regs.esp.toNat)
    (hm : HasContext m (frameOf s) s.regs) :
    restored (dpl env) m (frameOf s) (kernelStart s).regs.ss = s.regs := by
  apply restored_of_context hm hsegs
  intro hcpl
  have htop := frameOf_add hroom
  have hsize : frameSize s.regs = CpuState.useresp := if_neg (by omega)
  have hstart : kernelStart s = ⟨s.regs, s.mem⟩ := if_neg (by omega)
  rw [hsize, hstart] at htop
  rw [hstart]
  exact ⟨rfl, htop⟩

/-- An interrupt request whose handler gives the frame back unchanged is invisible: the program goes
    on with all its registers, and of the memory only what the handler writes and the stack below
    the frame are different. -/
theorem irq_transparent {line : Fin 16} {k : Irq.Kernel} (hv : i.vector.toNat = 32 + line.val)
    (herr : i.errorCode = none) (hsegs : SegmentsStay (dpl env) s.regs)
    (hroom : frameSize s.regs + 4 ≤ (kernelStart s).regs.esp.toNat)
    (hhandler : handled env (savedKernel env s i) (frameOf s) line = (k, frameOf s))
    (hframe : ∀ a, frameOf s ≤ a → a < frameOf s + frameSize s.regs →
      k.scheduler.mem a = (savedKernel env s i).scheduler.mem a) :
    ∃ s', interrupt env s i = .ok s' ∧ s'.regs = s.regs ∧
      ∀ a, frameOf s ≤ a ∨ a + i.leftovers.depth < frameOf s → s'.mem a = k.scheduler.mem a := by
  have hline := line.isLt
  have hlt := (kernelStart s).regs.esp.isLt
  have htop := frameOf_add hroom
  have hcontext : HasContext (savedKernel env s i).scheduler.mem (frameOf s) s.regs :=
    hasContext_savedKernel (by omega) (noErrorCode hv herr) hroom
  have hrun := interrupt_irq env hv herr hroom
  rw [hhandler] at hrun
  refine ⟨_, hrun, ?_, ?_⟩
  · -- the frame is neither below itself nor changed by the handler
    apply restored_frame hsegs hroom
    apply hcontext.congr (by omega)
    intro a hle ha
    rw [scribbled_of_le _ _ hle]
    exact hframe a hle ha
  · intro a ha
    rcases ha with ha | ha
    · exact scribbled_of_le _ _ ha
    · exact scribbled_of_far _ _ ha

end Transparent

/-! ## A small system -/

theorem stub_injective {n base : Nat} (hn : base + 16 * n ≤ 2 ^ 32) :
    Function.Injective fun i : Fin n => BitVec.ofNat 32 (base + 16 * i.val) := by
  intro i j h
  have hi := i.isLt
  have hj := j.isLt
  have hnat := congrArg BitVec.toNat h
  rw [BitVec.toNat_ofNat, BitVec.toNat_ofNat] at hnat
  apply Fin.ext
  omega

/-- Stubs of 16 bytes, one after the other. -/
def smallSymbols : Symbols where
  stubs :=
    { isr := fun i => .ofNat 32 (0xC0100000 + 16 * i.val)
      irq := fun i => .ofNat 32 (0xC0101000 + 16 * i.val) }
  faultHandler := 0xC0102000
  isr_injective := stub_injective (by decide)
  irq_injective := stub_injective (by decide)
  isr_ne_irq := by
    intro i j h
    have hi := i.isLt
    have hj := j.isLt
    have hnat := congrArg BitVec.toNat h
    rw [BitVec.toNat_ofNat, BitVec.toNat_ofNat] at hnat
    omega

def smallEnvironment (routines : Irq.Routines) : Environment :=
  ⟨smallSymbols, 0xC0110000, 0x1000, routines⟩

/-- Registers in ring 0, with the stack at `0xC0108000`. -/
def smallRegs : Regs :=
  { gs := 0x10, fs := 0x10, es := 0x10, ds := 0x10, edi := 1, esi := 2, ebp := 3, ebx := 4,
    edx := 5, ecx := 6, eax := 7, eip := 0xC0103000, cs := 0x08, eflags := 0x202,
    esp := 0xC0108000, ss := 0x10 }

def smallSystem : System :=
  ⟨smallRegs, ⟨noTasks fun _ => 0, []⟩, Paging.demandKernel fun _ => 0⟩

/-- An interrupt whose handler uses 100 bytes of stack. -/
def smallInterrupt (vector : UInt8) (errorCode : Option Word) (cr2 : Nat) : Interrupt :=
  ⟨vector, errorCode, cr2, ⟨0, 0, 0, 100, fun _ => 0⟩, 0, fun _ => 0⟩

/-- In ring 0, all segments can be used. -/
theorem segmentsStay_of_cpl {dpl : Selector → Nat} {r : Regs} (h : r.cpl = 0) :
    SegmentsStay dpl r := by
  intro x
  rw [h]
  exact if_neg fun hlt => Nat.not_lt_zero _ hlt.2

theorem kernelStart_small : kernelStart smallSystem = ⟨smallRegs, smallSystem.mem⟩ :=
  if_neg (by decide)

theorem room_small :
    frameSize smallSystem.regs + 4 ≤ (kernelStart smallSystem).regs.esp.toNat := by
  rw [kernelStart_small]
  decide

/-- A key is pressed before there is a handler. -/
theorem irq_transparent_small : ∃ s',
    interrupt (smallEnvironment fun _ => none) smallSystem (smallInterrupt 33 none 0) = .ok s' ∧
      s'.regs = smallRegs ∧ ∀ a, frameOf smallSystem ≤ a ∨ a + 100 < frameOf smallSystem →
        s'.mem a = (savedKernel (smallEnvironment fun _ => none) smallSystem
          (smallInterrupt 33 none 0)).scheduler.mem a :=
  @irq_transparent _ _ _ 1 _ (by decide) rfl (segmentsStay_of_cpl (by decide)) room_small
    (by rw [handled]; rfl) fun _ _ _ => rfl

end TimbOS.Native.System
