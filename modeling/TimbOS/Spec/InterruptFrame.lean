import TimbOS.Native.System
import TimbOS.Spec.Descriptors

/-!
# Frames of interrupts

A stub builds the `cpu_state` of what it interrupts out of pieces: the processor pushes the last
fields, the stub the numbers and the registers. The code behind the call takes it apart again.

## Key results

- `frame_atCall`: the frame of an interrupt, field by field
- `iret_popCode`: the registers that come out of a frame
- `restored_of_context`: a frame that has not been changed gives the same registers back
-/

namespace TimbOS.Native.System

open ForStd ForStd.I386 ForStd.Mem InterruptStubs Scheduler

/-! ## Stubs -/

section Code

variable (symbols : Symbols)

/-- The first element that satisfies an equation which only one element satisfies. -/
theorem find_finRange {n : Nat} {f : Fin n → Word} (hf : Function.Injective f) (i : Fin n) :
    (List.finRange n).find? (fun j => f j == f i) = some i := by
  have hsome : ((List.finRange n).find? fun j => f j == f i).isSome := by
    rw [List.find?_isSome]
    exact ⟨i, List.mem_finRange i, by simp⟩
  obtain ⟨j, hj⟩ := Option.isSome_iff_exists.mp hsome
  have heq := List.find?_some hj
  rw [hj, hf (eq_of_beq heq)]

theorem codeAt_isr (i : Fin 32) : symbols.codeAt (symbols.stubs.isr i) =
    some ⟨isrStub i ++ isrCommonBefore symbols.faultHandler, .faultHandler, isrCommonAfter⟩ := by
  rw [Symbols.codeAt, find_finRange symbols.isr_injective]

theorem codeAt_irq (i : Fin 16) : symbols.codeAt (symbols.stubs.irq i) =
    some ⟨irqStub i ++ irqCommonBefore, .irqHandler, irqCommonAfter⟩ := by
  have hnone : (List.finRange 32).find? (fun j => symbols.stubs.isr j == symbols.stubs.irq i) =
      none := by
    rw [List.find?_eq_none]
    intro j _ heq
    exact symbols.isr_ne_irq j i (eq_of_beq heq)
  rw [Symbols.codeAt, hnone, find_finRange symbols.irq_injective]

end Code

/-! ## Saving registers -/

/-- The registers that a stub pushes, in its order. -/
def registerWords (r : Regs) : List Nat :=
  [r.eax.toNat, r.ecx.toNat, r.edx.toNat, r.ebx.toNat, r.esp.toNat, r.ebp.toNat, r.esi.toNat,
    r.edi.toNat, r.ds.toNat, r.es.toNat, r.fs.toNat, r.gs.toNat]

/-- The processor at the call, as far as its stack is concerned. -/
structure Saved (c s : Processor) (words : List Nat) : Prop where
  mem : s.mem = ((c.pushAll words).pushWord (c.pushAll words).regs.esp.toNat).mem
  esp : s.regs.esp = (c.pushAll words).regs.esp - 4
  cs : s.regs.cs = c.regs.cs
  ss : s.regs.ss = c.regs.ss

/-- The first part of the code that both stubs have in common. -/
def pushCode : List Instr := [.pushad, .pushSeg .ds, .pushSeg .es, .pushSeg .fs, .pushSeg .gs]

/-- Pushing changes the stack pointer and the memory. -/
theorem regs_pushAll (c : Processor) (ws : List Nat) :
    (c.pushAll ws).regs = { c.regs with esp := (c.pushAll ws).regs.esp } := by
  induction ws generalizing c with
  | nil => rfl
  | cons w ws ih => exact ih (c.pushWord w)

theorem run_pushCode (c : Processor) : c.run pushCode = c.pushAll (registerWords c.regs) := by
  have hpushad : c.exec .pushad = c.pushAll [c.regs.eax.toNat, c.regs.ecx.toNat,
      c.regs.edx.toNat, c.regs.ebx.toNat, c.regs.esp.toNat, c.regs.ebp.toNat, c.regs.esi.toNat,
      c.regs.edi.toNat] := rfl
  have hsegs : ∀ s : Processor,
      s.run [.pushSeg .ds, .pushSeg .es, .pushSeg .fs, .pushSeg .gs] =
        s.pushAll [s.regs.ds.toNat, s.regs.es.toNat, s.regs.fs.toNat, s.regs.gs.toNat] :=
    fun _ => rfl
  rw [pushCode, Processor.run_cons, hpushad, hsegs, regs_pushAll, ← Processor.pushAll_append]
  rfl

/-- Interrupts off and the words of the stub. -/
theorem run_stubCode (c : Processor) (bytes : List Nat) :
    c.run (.cli :: bytes.map .pushByte) =
      (c.exec .cli).pushAll bytes := by
  rw [Processor.run_cons]
  generalize c.exec .cli = s
  induction bytes generalizing s with
  | nil => rfl
  | cons b bytes ih => exact ih (s.pushWord b)

/-- What is on the stack depends on the stack pointer and on what was there before. -/
theorem pushAll_congr {c c' : Processor} (hesp : c.regs.esp = c'.regs.esp)
    (hmem : c.mem = c'.mem) (ws : List Nat) :
    (c.pushAll ws).regs.esp = (c'.pushAll ws).regs.esp ∧
      (c.pushAll ws).mem = (c'.pushAll ws).mem := by
  induction ws generalizing c c' with
  | nil => exact ⟨hesp, hmem⟩
  | cons w ws ih =>
    apply @ih (c.pushWord w) (c'.pushWord w)
    · simp only [Processor.pushWord, hesp]
    · simp only [Processor.pushWord, hesp, hmem]

/-- All stubs save the registers behind some words of their own. -/
theorem saved_of_run {c s : Processor} (bytes : List Nat) (load : List Instr)
    (hload : ∀ c : Processor, (c.run load).mem = (c.pushWord c.regs.esp.toNat).mem ∧
      (c.run load).regs.esp = c.regs.esp - 4 ∧ (c.run load).regs.cs = c.regs.cs ∧
      (c.run load).regs.ss = c.regs.ss)
    (hs : s = c.run (.cli :: bytes.map .pushByte ++ pushCode ++ load)) :
    Saved c s (bytes ++ registerWords (c.pushAll bytes).regs) := by
  have hcli : (c.exec .cli).regs.esp = c.regs.esp ∧ (c.exec .cli).mem = c.mem := ⟨rfl, rfl⟩
  have hwords : registerWords ((c.exec .cli).pushAll bytes).regs =
      registerWords (c.pushAll bytes).regs := by
    rw [regs_pushAll (c.exec .cli), regs_pushAll c, (pushAll_congr hcli.1 hcli.2 bytes).1]
    rfl
  have hrun : s = (((c.exec .cli).pushAll
      (bytes ++ registerWords (c.pushAll bytes).regs)).run load) := by
    rw [hs, Processor.run_append, Processor.run_append, run_stubCode, run_pushCode, hwords,
      Processor.pushAll_append]
  obtain ⟨hesp, hmem⟩ := pushAll_congr hcli.1 hcli.2
    (bytes ++ registerWords (c.pushAll bytes).regs)
  have hregs := regs_pushAll (c.exec .cli) (bytes ++ registerWords (c.pushAll bytes).regs)
  obtain ⟨hloadMem, hloadEsp, hloadCs, hloadSs⟩ := hload ((c.exec .cli).pushAll
    (bytes ++ registerWords (c.pushAll bytes).regs))
  rw [← hrun] at hloadMem hloadEsp hloadCs hloadSs
  constructor
  · rw [hloadMem, Processor.pushWord, Processor.pushWord, hesp, hmem]
  · rw [hloadEsp, hesp]
  · rw [hloadCs, hregs]
    rfl
  · rw [hloadSs, hregs]
    rfl

theorem saved_irq (c : Processor) (n : Nat) :
    Saved c (c.run (irqStub n ++ irqCommonBefore))
      ([0, n + 32] ++ registerWords (c.pushAll [0, n + 32]).regs) :=
  saved_of_run [0, n + 32]
    [.movAx 0x10, .movSeg .ds, .movSeg .es, .movSeg .fs, .movSeg .gs, .push .esp]
    (fun _ => ⟨rfl, rfl, rfl, rfl⟩) rfl

theorem saved_isr (c : Processor) (bytes : List Nat) (faultHandler : Word) :
    Saved c (c.run (.cli :: bytes.map .pushByte ++ isrCommonBefore faultHandler))
      (bytes ++ registerWords (c.pushAll bytes).regs) :=
  saved_of_run bytes
    [.movAx 0x10, .movSeg .ds, .movSeg .es, .movSeg .fs, .movSeg .gs, .mov .eax .esp, .push .eax,
      .movLabel .eax faultHandler]
    (fun _ => ⟨rfl, rfl, rfl, rfl⟩) (by rw [List.append_assoc]; rfl)

/-! ## Restoring registers -/

/-- The registers that a stub restores from the frame at `r`, in ring 0 with the stack segment
    `ss`. -/
def restored (dpl : Selector → Nat) (m : Mem) (r : Nat) (ss : Selector) : Regs :=
  let seg (f : Nat) : Selector := .ofNat 16 (m.load32 (r + f))
  let word (f : Nat) : Word := .ofNat 32 (m.load32 (r + f))
  let cs := seg CpuState.cs
  let regs : Regs :=
    { gs := seg CpuState.gs
      fs := seg CpuState.fs
      es := seg CpuState.es
      ds := seg CpuState.ds
      edi := word CpuState.edi
      esi := word CpuState.esi
      ebp := word CpuState.ebp
      ebx := word CpuState.ebx
      edx := word CpuState.edx
      ecx := word CpuState.ecx
      eax := word CpuState.eax
      eip := word CpuState.eip
      cs := cs
      eflags := word CpuState.eflags
      esp := .ofNat 32 (r + CpuState.useresp)
      ss := ss }
  if 0 < rpl cs then
    { regs with
      esp := word CpuState.useresp
      ss := seg CpuState.ss
      ds := Processor.outward dpl (rpl cs) regs.ds
      es := Processor.outward dpl (rpl cs) regs.es
      fs := Processor.outward dpl (rpl cs) regs.fs
      gs := Processor.outward dpl (rpl cs) regs.gs }
  else
    regs

/-- The code that both stubs have in common behind the call, with the frame at the stack
    pointer. -/
def popCode : List Instr :=
  [.popSeg .gs, .popSeg .fs, .popSeg .es, .popSeg .ds, .popad, .addEsp 8]

/-- Words above an address that is kept in a register. -/
theorem load32_add (m : Mem) (x : Word) (j k : Nat) :
    m.load32 ((x + BitVec.ofNat 32 j).toNat + k) = m.load32 (x.toNat + (j + k)) := by
  apply load32_of_mod_eq
  rw [BitVec.toNat_add, BitVec.toNat_ofNat]
  omega

theorem load32_top (m : Mem) (x : Word) (j : Nat) :
    m.load32 (x + BitVec.ofNat 32 j).toNat = m.load32 (x.toNat + j) :=
  load32_add m x j 0

theorem ofNat_add (x : Word) (k : Nat) : x + BitVec.ofNat 32 k = .ofNat 32 (x.toNat + k) := by
  apply BitVec.eq_of_toNat_eq
  rw [BitVec.toNat_add, BitVec.toNat_ofNat, BitVec.toNat_ofNat, Nat.add_mod_mod]

/-- The registers after `popCode`. -/
theorem run_popCode (c : Processor) :
    c.run popCode =
      { c with
        regs := { c.regs with
          gs := .ofNat 16 (c.mem.load32 (c.regs.esp.toNat + CpuState.gs))
          fs := .ofNat 16 (c.mem.load32 (c.regs.esp.toNat + CpuState.fs))
          es := .ofNat 16 (c.mem.load32 (c.regs.esp.toNat + CpuState.es))
          ds := .ofNat 16 (c.mem.load32 (c.regs.esp.toNat + CpuState.ds))
          edi := .ofNat 32 (c.mem.load32 (c.regs.esp.toNat + CpuState.edi))
          esi := .ofNat 32 (c.mem.load32 (c.regs.esp.toNat + CpuState.esi))
          ebp := .ofNat 32 (c.mem.load32 (c.regs.esp.toNat + CpuState.ebp))
          ebx := .ofNat 32 (c.mem.load32 (c.regs.esp.toNat + CpuState.ebx))
          edx := .ofNat 32 (c.mem.load32 (c.regs.esp.toNat + CpuState.edx))
          ecx := .ofNat 32 (c.mem.load32 (c.regs.esp.toNat + CpuState.ecx))
          eax := .ofNat 32 (c.mem.load32 (c.regs.esp.toNat + CpuState.eax))
          esp := c.regs.esp + BitVec.ofNat 32 CpuState.eip } } := by
  -- four pops, `popa`, and the two words of vector and error code
  have hrun : c.run popCode =
      { c with
        regs := { c.regs with
          gs := .ofNat 16 (c.mem.load32 c.regs.esp.toNat)
          fs := .ofNat 16 (c.mem.load32 (c.regs.esp + 4).toNat)
          es := .ofNat 16 (c.mem.load32 (c.regs.esp + 4 + 4).toNat)
          ds := .ofNat 16 (c.mem.load32 (c.regs.esp + 4 + 4 + 4).toNat)
          edi := .ofNat 32 (c.mem.load32 ((c.regs.esp + 4 + 4 + 4 + 4).toNat + 4 * 0))
          esi := .ofNat 32 (c.mem.load32 ((c.regs.esp + 4 + 4 + 4 + 4).toNat + 4 * 1))
          ebp := .ofNat 32 (c.mem.load32 ((c.regs.esp + 4 + 4 + 4 + 4).toNat + 4 * 2))
          ebx := .ofNat 32 (c.mem.load32 ((c.regs.esp + 4 + 4 + 4 + 4).toNat + 4 * 4))
          edx := .ofNat 32 (c.mem.load32 ((c.regs.esp + 4 + 4 + 4 + 4).toNat + 4 * 5))
          ecx := .ofNat 32 (c.mem.load32 ((c.regs.esp + 4 + 4 + 4 + 4).toNat + 4 * 6))
          eax := .ofNat 32 (c.mem.load32 ((c.regs.esp + 4 + 4 + 4 + 4).toNat + 4 * 7))
          esp := c.regs.esp + 4 + 4 + 4 + 4 + 32 + 8 } } := rfl
  -- the steps of the stack pointer add up
  have h8 : c.regs.esp + 4 + 4 = c.regs.esp + BitVec.ofNat 32 8 := BitVec.add_assoc _ _ _
  have h12 : c.regs.esp + BitVec.ofNat 32 8 + 4 = c.regs.esp + BitVec.ofNat 32 12 :=
    BitVec.add_assoc _ _ _
  have h16 : c.regs.esp + BitVec.ofNat 32 12 + 4 = c.regs.esp + BitVec.ofNat 32 16 :=
    BitVec.add_assoc _ _ _
  have h56 : c.regs.esp + BitVec.ofNat 32 16 + 32 + 8 = c.regs.esp + BitVec.ofNat 32 56 := by
    rw [BitVec.add_assoc, BitVec.add_assoc]
    rfl
  rw [hrun, h8, h12, h16, h56]
  simp only [load32_add]
  rw [show c.mem.load32 (c.regs.esp + 4).toNat = _ from load32_top c.mem c.regs.esp 4,
    load32_top c.mem c.regs.esp 8, load32_top c.mem c.regs.esp 12]
  rfl

/-- What `iret` takes from the frame behind that. -/
theorem iret_popCode (dpl : Selector → Nat) (c : Processor) (hcpl : c.regs.cpl = 0) :
    (c.run popCode).iret dpl =
      ⟨restored dpl c.mem c.regs.esp.toNat c.regs.ss, c.mem⟩ := by
  rw [run_popCode]
  have hword : ∀ k, c.mem.load32 ((c.regs.esp + BitVec.ofNat 32 CpuState.eip).toNat + k) =
      c.mem.load32 (c.regs.esp.toNat + (CpuState.eip + k)) := load32_add c.mem c.regs.esp _
  have hesp : c.regs.esp + BitVec.ofNat 32 CpuState.eip + 12 =
      .ofNat 32 (c.regs.esp.toNat + CpuState.useresp) := by
    rw [BitVec.add_assoc]
    exact ofNat_add c.regs.esp CpuState.useresp
  simp only [Processor.iret, restored, hword, hesp]
  by_cases hring : 0 < rpl (.ofNat 16 (c.mem.load32 (c.regs.esp.toNat + (CpuState.eip + 4 * 1))))
  · rw [if_pos (by exact hcpl ▸ hring), if_pos (by exact hring)]
    rfl
  · rw [if_neg (by exact hcpl ▸ hring), if_neg (by exact hring)]
    rfl

/-! ## Frames -/

/-- The processor `s` has pushed some words down to `base`, and then the address of them. -/
structure Frame (s : Processor) (m : Mem) (base : Nat) (words : List Nat) : Prop where
  esp : s.regs.esp.toNat + 4 = base
  top : s.top = base
  load : ∀ i w, words.reverse[i]? = some w → s.mem.load32 (base + 4 * i) = w % 2 ^ 32
  outside : ∀ a, a < base - 4 ∨ base + 4 * words.length ≤ a → s.mem a = m a

theorem frame_of_saved {start c s : Processor} {ws ws' : List Nat} {base : Nat}
    (hmem : c.mem = (start.pushAll ws).mem) (hesp : c.regs.esp = (start.pushAll ws).regs.esp)
    (hs : Saved c s ws') (hbase : start.regs.esp.toNat = base + 4 * (ws ++ ws').length)
    (hroom : 4 ≤ base) : Frame s start.mem base (ws ++ ws') := by
  have hlt := start.regs.esp.isLt
  -- everything that was pushed before the address of the frame
  obtain ⟨hespAll, hmemAll⟩ := pushAll_congr hesp hmem ws'
  rw [← Processor.pushAll_append] at hespAll hmemAll
  have hall := pushAll_eq hbase
  have hespBase : (c.pushAll ws').regs.esp = .ofNat 32 base := by rw [hespAll, hall]
  have hbaseNat : (BitVec.ofNat 32 base).toNat = base := by
    rw [BitVec.toNat_ofNat, Nat.mod_eq_of_lt (by omega)]
  have hsub : (BitVec.ofNat 32 base - 4).toNat = base - 4 := by
    have h4 : (4 : Word).toNat = 4 := rfl
    rw [BitVec.toNat_sub_of_le (by rw [BitVec.le_def, hbaseNat, h4]; exact hroom), hbaseNat, h4]
  have hmemS : s.mem = ((start.pushAll (ws ++ ws')).mem).store32 (base - 4) base := by
    rw [hs.mem, Processor.pushWord, hespBase, hmemAll, hsub, hbaseNat]
  have hespS : s.regs.esp.toNat = base - 4 := by rw [hs.esp, hespBase, hsub]
  constructor
  · omega
  · rw [Processor.top, hespS, hmemS, load32_store32_same, Nat.mod_eq_of_lt (by omega)]
  · intro i w hw
    have hi : i < (ws ++ ws').reverse.length := (List.getElem?_eq_some_iff.mp hw).1
    rw [List.length_reverse] at hi
    rw [hmemS, load32_store32_sep _ _ (by omega)]
    exact load32_pushAll hbase hw
  · intro a ha
    rw [hmemS, store32_apply _ _ (by omega) (by omega)]
    exact mem_pushAll_of_outside hbase (by omega)

theorem fields_eq : CpuState.fields = (List.range 19).map (4 * ·) := rfl

/-- The first fields of a frame. -/
theorem Frame.take_words {s : Processor} {m : Mem} {base : Nat} {words : List Nat}
    (h : Frame s m base words) (hlen : words.length ≤ 19) (hlt : ∀ w ∈ words, w < 2 ^ 32) :
    (CpuState.words s.mem base).take words.length = words.reverse := by
  apply List.ext_getElem?
  intro i
  rw [CpuState.words, fields_eq, List.map_map, List.getElem?_take]
  by_cases hi : i < words.length
  · have hget : words.reverse[i]? = some (words.reverse.get ⟨i, by
        rw [List.length_reverse]; exact hi⟩) := List.getElem?_eq_getElem _
    rw [if_pos hi, List.getElem?_map, List.getElem?_range (by omega), hget, Option.map_some,
      Function.comp_apply, h.load i _ hget, Nat.mod_eq_of_lt]
    exact hlt _ (List.mem_reverse.mp (List.get_mem _ _))
  · rw [if_neg hi, List.getElem?_eq_none (by rw [List.length_reverse]; omega)]

/-! ## Entering the kernel -/

/-- The stack that the processor pushes to. -/
def kernelStart (s : System) : Processor :=
  if 0 < s.regs.cpl then ⟨{ s.regs with esp := s.tss.esp0, ss := s.tss.ss0 }, s.mem⟩
  else ⟨s.regs, s.mem⟩

/-- What the processor pushes. -/
def hardwareWords (r : Regs) (errorCode : Option Nat) : List Nat :=
  (if 0 < r.cpl then [r.ss.toNat, r.esp.toNat] else []) ++
    ([r.eflags.toNat, r.cs.toNat, r.eip.toNat] ++ errorCode.toList)

theorem dpl_kernel (env : Environment) : dpl env 0x08 = 0 := by
  have hentry : Gdt.init env.tss 1 = .make 0 0xFFFFF
      (Gdt.accessPresent ||| Gdt.accessCodeSeg ||| Gdt.accessRing0)
      (Gdt.flagGranularity4k ||| Gdt.flag32bit) := by
    simp [Gdt.init, Gdt.setEntry]
  show (Gdt.init env.tss 1).segment.dpl = 0
  rw [hentry]
  decide

/-- The processor behind a gate of the kernel. -/
theorem enter_kernelGate (env : Environment) (s : System) (stub : Word) (errorCode : Option Nat) :
    let c := Processor.enter ⟨s.regs, s.mem⟩ (Idt.kernelGate stub) (dpl env 0x08) s.tss errorCode
    c.mem = ((kernelStart s).pushAll (hardwareWords s.regs errorCode)).mem ∧
      c.regs.esp = ((kernelStart s).pushAll (hardwareWords s.regs errorCode)).regs.esp ∧
      c.regs.cpl = 0 ∧ c.regs.ss = (kernelStart s).regs.ss ∧
      ∀ esp,
        registerWords { c.regs with esp := esp } = registerWords { s.regs with esp := esp } := by
  intro c
  have hswitch : Processor.switchStack ⟨s.regs, s.mem⟩ (dpl env 0x08) s.tss =
      (kernelStart s).pushAll (if 0 < s.regs.cpl then [s.regs.ss.toNat, s.regs.esp.toNat]
        else []) := by
    rw [Processor.switchStack, dpl_kernel, kernelStart]
    by_cases hring : 0 < s.regs.cpl
    · rw [if_pos hring, if_pos hring, if_pos hring]
    · rw [if_neg hring, if_neg hring, if_neg hring]
      rfl
  have hstack : (Processor.switchStack ⟨s.regs, s.mem⟩ (dpl env 0x08) s.tss).pushAll
      ([s.regs.eflags.toNat, s.regs.cs.toNat, s.regs.eip.toNat] ++ errorCode.toList) =
      (kernelStart s).pushAll (hardwareWords s.regs errorCode) := by
    rw [hswitch, ← Processor.pushAll_append]
    rfl
  have hc : c = { ((kernelStart s).pushAll (hardwareWords s.regs errorCode)) with
      regs := { ((kernelStart s).pushAll (hardwareWords s.regs errorCode)).regs with
        eip := .ofNat 32 (Idt.kernelGate stub).offset
        cs := .ofNat 16 ((Idt.kernelGate stub).selector / 4 * 4 + dpl env 0x08)
        eflags := s.regs.eflags &&& ~~~Processor.gateFlags } } := by
    rw [← hstack]
    rfl
  refine ⟨by rw [hc], by rw [hc], ?_, ?_, ?_⟩
  · rw [hc, dpl_kernel]
    show rpl (.ofNat 16 (0x08 / 4 * 4 + 0)) = 0
    decide
  · rw [hc, regs_pushAll]
  · intro esp
    -- only the stack registers are different there
    have hstart : registerWords { (kernelStart s).regs with esp := esp } =
        registerWords { s.regs with esp := esp } := by
      rw [kernelStart]
      split <;> rfl
    rw [← hstart, hc, regs_pushAll]
    rfl

/-! ## The frame of an interrupt -/

/-- The stub of a vector. -/
def stubOf (symbols : Symbols) (vector : Nat) : Stub :=
  if vector < 32 then
    ⟨isrStub vector ++ isrCommonBefore symbols.faultHandler, .faultHandler, isrCommonAfter⟩
  else
    ⟨irqStub (vector - 32) ++ irqCommonBefore, .irqHandler, irqCommonAfter⟩

/-- What a stub pushes before the registers. -/
def stubWords (vector : Nat) : List Nat :=
  if vector < 32 ∧ withErrorCode vector then [vector] else [0, vector]

/-- The fields of the frame that belongs to the registers `r`. An interrupt of the kernel itself
    does not push `useresp` and `ss`. -/
def contextWords (r : Regs) (esp errCode intNo : Nat) : List Nat :=
  [r.gs.toNat, r.fs.toNat, r.es.toNat, r.ds.toNat, r.edi.toNat, r.esi.toNat, r.ebp.toNat, esp,
    r.ebx.toNat, r.edx.toNat, r.ecx.toNat, r.eax.toNat, intNo, errCode, r.eip.toNat, r.cs.toNat,
    r.eflags.toNat] ++ (if 0 < r.cpl then [r.esp.toNat, r.ss.toNat] else [])

/-- The number of bytes of a frame. -/
def frameSize (r : Regs) : Nat := if 0 < r.cpl then CpuState.size else CpuState.useresp

/-- The address of the frame of an interrupt. -/
def frameOf (s : System) : Nat := (kernelStart s).regs.esp.toNat - frameSize s.regs

section Vector

variable (env : Environment) {s : System} {i : Interrupt}

theorem gate_vector (hv : i.vector.toNat < 48) : ∃ stub,
    (Idt.init env.symbols.stubs i.vector).gate = Idt.kernelGate stub ∧
      env.symbols.codeAt stub = some (stubOf env.symbols i.vector.toNat) := by
  rw [Idt.gates_init, Idt.intended]
  by_cases h : i.vector.toNat < 32
  · rw [dif_pos h, stubOf, if_pos h]
    exact ⟨_, rfl, codeAt_isr env.symbols ⟨i.vector.toNat, h⟩⟩
  · have h16 : i.vector.toNat - 32 < 16 := by omega
    rw [dif_neg h, dif_pos h16, stubOf, if_neg h]
    exact ⟨_, rfl, codeAt_irq env.symbols ⟨i.vector.toNat - 32, h16⟩⟩

/-- A stub saves the registers behind the words that it pushes. -/
theorem saved_stub (symbols : Symbols) (c : Processor) {vector : Nat} (hv : vector < 48) :
    Saved c (c.run (stubOf symbols vector).before)
      (stubWords vector ++ registerWords (c.pushAll (stubWords vector)).regs) := by
  by_cases h : vector < 32
  · rw [stubOf, if_pos h]
    by_cases he : withErrorCode vector
    · rw [stubWords, if_pos ⟨h, he⟩, isrStub, if_pos he]
      exact saved_isr c [vector] symbols.faultHandler
    · rw [stubWords, if_neg (by simp [he]), isrStub, if_neg he]
      exact saved_isr c [0, vector] symbols.faultHandler
  · have hirq := saved_irq c (vector - 32)
    rw [Nat.sub_add_cancel (by omega)] at hirq
    rw [stubOf, if_neg h, stubWords, if_neg (by simp [h])]
    exact hirq

/-- The error code, or the word that the stub pushes for it. -/
theorem hardwareWords_stubWords (r : Regs) {vector : Nat} {errorCode : Option Word}
    (h : errorCode.isSome = (decide (vector < 32) && withErrorCode vector)) :
    hardwareWords r (errorCode.map BitVec.toNat) ++ stubWords vector =
      hardwareWords r none ++ [(errorCode.map BitVec.toNat).getD 0, vector] := by
  cases errorCode with
  | none =>
    have hstub : ¬ (vector < 32 ∧ withErrorCode vector = true) := by
      rw [← decide_eq_true_iff (p := vector < 32), ← Bool.and_eq_true, ← h]
      exact Bool.false_ne_true
    rw [stubWords, if_neg hstub]
    rfl
  | some code =>
    have hstub : vector < 32 ∧ withErrorCode vector = true := by
      rw [← decide_eq_true_iff (p := vector < 32), ← Bool.and_eq_true, ← h]
      rfl
    rw [stubWords, if_pos hstub]
    simp [hardwareWords]

/-- The words of a frame in the order in which they are pushed. -/
theorem reverse_contextWords (r : Regs) (esp : Word) (errCode intNo : Nat) :
    (contextWords r esp.toNat errCode intNo).reverse =
      hardwareWords r none ++ [errCode, intNo] ++ registerWords { r with esp := esp } := by
  rw [contextWords, hardwareWords]
  by_cases h : 0 < r.cpl
  · rw [if_pos h, if_pos h]
    rfl
  · rw [if_neg h, if_neg h]
    rfl

theorem length_contextWords (r : Regs) (esp errCode intNo : Nat) :
    4 * (contextWords r esp errCode intNo).length = frameSize r := by
  rw [contextWords, frameSize]
  split <;> rfl

theorem length_hardwareWords (r : Regs) :
    4 * (hardwareWords r none).length + 56 = frameSize r := by
  rw [hardwareWords, frameSize]
  split <;> rfl

/-- What the processor and the stub push before the registers. -/
def headWords (s : System) (i : Interrupt) : List Nat :=
  hardwareWords s.regs (i.errorCode.map BitVec.toNat) ++ stubWords i.vector.toNat

/-- The words on the stack at the call, whether the processor has pushed an error code or not. -/
theorem words_atCall (hv : i.vector.toNat < 48) {base : Nat}
    (hbase : (kernelStart s).regs.esp.toNat = base + CpuState.intNo + 4 * (headWords s i).length)
    (hroom : 4 ≤ base) :
    let c := atCall env s i (stubOf env.symbols i.vector.toNat)
    Frame c s.mem base
        (headWords s i ++ registerWords { s.regs with esp := .ofNat 32 (base + CpuState.intNo) }) ∧
      c.regs.cpl = 0 ∧ c.regs.ss = (kernelStart s).regs.ss := by
  intro c
  obtain ⟨stub, hgate, -⟩ := gate_vector env hv
  obtain ⟨hmem, hesp, hcpl, hss, hregs⟩ :=
    enter_kernelGate env s stub (i.errorCode.map BitVec.toNat)
  have hsaved := saved_stub env.symbols (Processor.enter ⟨s.regs, s.mem⟩ (Idt.kernelGate stub)
    (dpl env 0x08) s.tss (i.errorCode.map BitVec.toNat)) hv
  have hc : c = Processor.run (stubOf env.symbols i.vector.toNat).before (Processor.enter
      ⟨s.regs, s.mem⟩ (Idt.kernelGate stub) (dpl env 0x08) s.tss
      (i.errorCode.map BitVec.toNat)) := by
    show atCall _ _ _ _ = _
    rw [atCall, hgate]
    rfl
  rw [← hc] at hsaved
  generalize Processor.enter ⟨s.regs, s.mem⟩ (Idt.kernelGate stub) (dpl env 0x08) s.tss
    (i.errorCode.map BitVec.toNat) = c₁ at hmem hesp hcpl hss hregs hsaved
  -- the stack pointer that is saved with the registers
  have hsp : (c₁.pushAll (stubWords i.vector.toNat)).regs.esp =
      .ofNat 32 (base + CpuState.intNo) := by
    rw [(pushAll_congr hesp hmem _).1, ← Processor.pushAll_append, ← headWords, pushAll_eq hbase]
  have hregisters : registerWords (c₁.pushAll (stubWords i.vector.toNat)).regs =
      registerWords { s.regs with esp := .ofNat 32 (base + CpuState.intNo) } := by
    rw [regs_pushAll, hsp, hregs]
  rw [hregisters] at hsaved
  refine ⟨?_, ?_, hsaved.ss.trans hss⟩
  · have hmemStart : s.mem = (kernelStart s).mem := by
      rw [kernelStart]
      split <;> rfl
    rw [hmemStart, headWords, List.append_assoc]
    apply frame_of_saved hmem hesp hsaved _ hroom
    have hlen : (headWords s i ++ registerWords { s.regs with
        esp := .ofNat 32 (base + CpuState.intNo) }).length = (headWords s i).length + 12 := by
      rw [List.length_append]
      rfl
    rw [← List.append_assoc, ← headWords, hlen, hbase, CpuState.intNo]
    omega
  · rw [Regs.cpl, hsaved.cs]
    exact hcpl

/-- The fields of the frame of an interrupt, if the processor pushes an error code exactly when the
    stub does not push a word for it. -/
theorem frame_atCall (hv : i.vector.toNat < 48)
    (herr : i.errorCode.isSome = (decide (i.vector.toNat < 32) && withErrorCode i.vector.toNat))
    (hroom : frameSize s.regs + 4 ≤ (kernelStart s).regs.esp.toNat) :
    let c := atCall env s i (stubOf env.symbols i.vector.toNat)
    Frame c s.mem (frameOf s) (contextWords s.regs (frameOf s + CpuState.intNo)
        ((i.errorCode.map BitVec.toNat).getD 0) i.vector.toNat).reverse ∧
      c.regs.cpl = 0 ∧ c.regs.ss = (kernelStart s).regs.ss := by
  -- the processor or the stub pushes a word for the error code
  have hwords : headWords s i = hardwareWords s.regs none ++
      [(i.errorCode.map BitVec.toNat).getD 0, i.vector.toNat] :=
    hardwareWords_stubWords s.regs herr
  have hlen := length_hardwareWords s.regs
  have hspNat : (BitVec.ofNat 32 (frameOf s + CpuState.intNo)).toNat =
      frameOf s + CpuState.intNo := by
    have hlt := (kernelStart s).regs.esp.isLt
    rw [BitVec.toNat_ofNat, Nat.mod_eq_of_lt]
    rw [frameOf, CpuState.intNo]
    omega
  have hreverse := reverse_contextWords s.regs (.ofNat 32 (frameOf s + CpuState.intNo))
    ((i.errorCode.map BitVec.toNat).getD 0) i.vector.toNat
  rw [hspNat, ← hwords] at hreverse
  rw [hreverse]
  apply words_atCall env hv
  · rw [hwords, List.length_append, frameOf]
    simp only [List.length_cons, List.length_nil, CpuState.intNo]
    omega
  · rw [frameOf]
    omega

end Vector

/-! ## Back to the interrupted program -/

/-- Segment registers that a return to the ring of `r` leaves alone. -/
def SegmentsStay (dpl : Selector → Nat) (r : Regs) : Prop :=
  ∀ x : Sreg, Processor.outward dpl r.cpl (r.getSeg x) = r.getSeg x

/-- The frame at `base` has the fields that belong to the registers `r`. -/
def HasContext (m : Mem) (base : Nat) (r : Regs) : Prop :=
  ∃ esp errCode intNo, (CpuState.words m base).take (frameSize r / 4) =
    contextWords r esp errCode intNo

theorem restored_congr {dpl : Selector → Nat} {m m' : Mem} {base base' : Nat} {ss : Selector}
    (hwords : CpuState.words m base = CpuState.words m' base')
    (hbase : base % 2 ^ 32 = base' % 2 ^ 32) :
    restored dpl m base ss = restored dpl m' base' ss := by
  have hfield : ∀ f ∈ CpuState.fields, m.load32 (base + f) = m'.load32 (base' + f) :=
    List.map_inj_left.mp hwords
  have hesp : (BitVec.ofNat 32 (base + CpuState.useresp)) =
      BitVec.ofNat 32 (base' + CpuState.useresp) := by
    apply BitVec.eq_of_toNat_eq
    rw [BitVec.toNat_ofNat, BitVec.toNat_ofNat]
    omega
  simp only [CpuState.fields, List.forall_mem_cons, List.not_mem_nil, IsEmpty.forall_iff,
    implies_true, and_true] at hfield
  obtain ⟨hgs, hfs, hes, hds, hedi, hesi, hebp, -, hebx, hedx, hecx, heax, -, -, heip, hcs,
    heflags, huseresp, hss⟩ := hfield
  simp only [restored, hgs, hfs, hes, hds, hedi, hesi, hebp, hebx, hedx, hecx, heax, heip, hcs,
    heflags, huseresp, hss, hesp]

/-- A frame that has not been changed gives the registers back. -/
theorem restored_of_context {dpl : Selector → Nat} {m : Mem} {base : Nat} {r : Regs}
    {ss : Selector} (h : HasContext m base r) (hsegs : SegmentsStay dpl r)
    (hkernel : r.cpl = 0 → ss = r.ss ∧ base + CpuState.useresp = r.esp.toNat) :
    restored dpl m base ss = r := by
  obtain ⟨esp, errCode, intNo, hwords⟩ := h
  have hds := hsegs .ds
  have hes := hsegs .es
  have hfs := hsegs .fs
  have hgs := hsegs .gs
  simp only [Regs.getSeg] at hds hes hfs hgs
  -- an interrupt from ring 3 pushes `esp` and `ss` too, and `iret` loads them again
  by_cases hring : 0 < r.cpl
  · rw [frameSize, if_pos hring, contextWords, if_pos hring] at hwords
    simp only [CpuState.words, CpuState.fields, CpuState.size, List.map_cons, List.map_nil,
      List.take_succ_cons, List.take_zero, List.cons_append, List.nil_append, List.cons.injEq,
      Nat.reduceDiv, and_true] at hwords
    obtain ⟨h₁, h₂, h₃, h₄, h₅, h₆, h₇, -, h₉, h₁₀, h₁₁, h₁₂, -, -, h₁₅, h₁₆, h₁₇, h₁₈, h₁₉⟩ :=
      hwords
    simp only [restored, h₁, h₂, h₃, h₄, h₅, h₆, h₇, h₉, h₁₀, h₁₁, h₁₂, h₁₅, h₁₆, h₁₇, h₁₈, h₁₉,
      BitVec.ofNat_toNat, BitVec.setWidth_eq]
    simp only [Regs.cpl] at hds hes hfs hgs
    rw [if_pos (show 0 < rpl r.cs from hring), hds, hes, hfs, hgs]
  · rw [frameSize, if_neg hring, contextWords, if_neg hring] at hwords
    simp only [CpuState.words, CpuState.fields, CpuState.useresp, List.map_cons, List.map_nil,
      List.take_succ_cons, List.take_zero, List.cons.injEq, Nat.reduceDiv, List.append_nil,
      and_true] at hwords
    obtain ⟨h₁, h₂, h₃, h₄, h₅, h₆, h₇, -, h₉, h₁₀, h₁₁, h₁₂, -, -, h₁₅, h₁₆, h₁₇⟩ := hwords
    obtain ⟨hss, hesp⟩ := hkernel (by omega)
    simp only [restored, h₁, h₂, h₃, h₄, h₅, h₆, h₇, h₉, h₁₀, h₁₁, h₁₂, h₁₅, h₁₆, h₁₇, hss, hesp,
      BitVec.ofNat_toNat, BitVec.setWidth_eq]
    rw [if_neg (show ¬ 0 < rpl r.cs from hring)]

end TimbOS.Native.System
