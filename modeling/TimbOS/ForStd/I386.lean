import TimbOS.ForStd.BitField
import TimbOS.ForStd.Memory

/-!
# Interrupts of a 32-bit x86 processor

A processor in protected mode, whose segments all begin at address 0: its registers, the
descriptors of segments and gates, how an interrupt enters a ring and how `iret` leaves it.
Between the two, a handler runs instructions that save and restore registers on the stack, and
calls a compiled function by the cdecl convention.

Values of registers are bit vectors, so that a word that was pushed is the same after it has
been popped. The arithmetic flags are not followed.

## Key results

- `pushAll_eq`, `load32_pushAll`: what is on the stack after some words were pushed
- `mem_pushAll_of_outside`: pushing changes nothing else
- `Segment.ofWords`, `Gate.ofWords`: how the processor reads its tables
-/

namespace ForStd.I386

open Mem

/-- What a general register holds. -/
abbrev Word := BitVec 32

/-- What a segment register holds. -/
abbrev Selector := BitVec 16

structure Regs where
  gs : Selector
  fs : Selector
  es : Selector
  ds : Selector
  edi : Word
  esi : Word
  ebp : Word
  ebx : Word
  edx : Word
  ecx : Word
  eax : Word
  eip : Word
  cs : Selector
  eflags : Word
  esp : Word
  ss : Selector
  deriving DecidableEq, Repr

/-- A general register, by its name. -/
inductive Reg where
  | eax | ecx | edx | ebx | esp | ebp | esi | edi
  deriving DecidableEq, Repr

/-- A segment register that instructions can load. -/
inductive Sreg where
  | ds | es | fs | gs
  deriving DecidableEq, Repr

/-- The privilege level in the low bits of a selector. -/
def rpl (s : Selector) : Nat := s.toNat % 4

namespace Regs

/-- The ring that the processor is in. -/
def cpl (r : Regs) : Nat := rpl r.cs

def get (r : Regs) : Reg → Word
  | .eax => r.eax
  | .ecx => r.ecx
  | .edx => r.edx
  | .ebx => r.ebx
  | .esp => r.esp
  | .ebp => r.ebp
  | .esi => r.esi
  | .edi => r.edi

def set (r : Regs) (x : Reg) (v : Word) : Regs :=
  match x with
  | .eax => { r with eax := v }
  | .ecx => { r with ecx := v }
  | .edx => { r with edx := v }
  | .ebx => { r with ebx := v }
  | .esp => { r with esp := v }
  | .ebp => { r with ebp := v }
  | .esi => { r with esi := v }
  | .edi => { r with edi := v }

def getSeg (r : Regs) : Sreg → Selector
  | .ds => r.ds
  | .es => r.es
  | .fs => r.fs
  | .gs => r.gs

def setSeg (r : Regs) (x : Sreg) (v : Selector) : Regs :=
  match x with
  | .ds => { r with ds := v }
  | .es => { r with es := v }
  | .fs => { r with fs := v }
  | .gs => { r with gs := v }

end Regs

/-- Registers and memory. -/
structure Processor where
  regs : Regs
  mem : Mem

/-! ## Descriptors

A descriptor is eight bytes: two words. -/

structure Segment where
  base : Nat
  limit : Nat
  /-- The type, with the bit that tells memory from system segments. -/
  type : Nat
  dpl : Nat
  present : Bool
  /-- Available, long mode, 32 bits, and the limit in units of 4 KiB. -/
  flags : Nat
  deriving DecidableEq, Repr

def Segment.ofWords (low high : Nat) : Segment where
  base := field low 16 16 + 2 ^ 16 * field high 0 8 + 2 ^ 24 * field high 24 8
  limit := field low 0 16 + 2 ^ 16 * field high 16 4
  type := field high 8 5
  dpl := field high 13 2
  present := field high 15 1 == 1
  flags := field high 20 4

/-- The bytes of a descriptor that belong together. -/
theorem Segment.ofWords_bytes {limitLow baseLow baseMiddle access granularity baseHigh : Nat}
    (hlimit : limitLow < 2 ^ 16) (hlow : baseLow < 2 ^ 16) (hmiddle : baseMiddle < 2 ^ 8)
    (haccess : access < 2 ^ 8) (hgranularity : granularity < 2 ^ 8) (hhigh : baseHigh < 2 ^ 8) :
    Segment.ofWords (limitLow + 2 ^ 16 * baseLow)
        (baseMiddle + 2 ^ 8 * access + 2 ^ 16 * granularity + 2 ^ 24 * baseHigh) =
      { base := baseLow + 2 ^ 16 * baseMiddle + 2 ^ 24 * baseHigh
        limit := limitLow + 2 ^ 16 * (granularity % 2 ^ 4)
        type := access % 2 ^ 5
        dpl := access / 2 ^ 5 % 2 ^ 2
        present := access / 2 ^ 7 == 1
        flags := granularity / 2 ^ 4 } := by
  simp only [Segment.ofWords, field, Segment.mk.injEq]
  refine ⟨by omega, by omega, by omega, by omega, ?_, by omega⟩
  congr 1
  omega

structure Gate where
  offset : Nat
  selector : Nat
  type : Nat
  dpl : Nat
  present : Bool
  deriving DecidableEq, Repr

def Gate.ofWords (low high : Nat) : Gate where
  offset := field low 0 16 + 2 ^ 16 * field high 16 16
  selector := field low 16 16
  type := field high 8 5
  dpl := field high 13 2
  present := field high 15 1 == 1

theorem Gate.ofWords_bytes {baseLo sel always0 flags baseHi : Nat} (hlo : baseLo < 2 ^ 16)
    (hsel : sel < 2 ^ 16) (halways : always0 < 2 ^ 8) (hflags : flags < 2 ^ 8)
    (hhi : baseHi < 2 ^ 16) :
    Gate.ofWords (baseLo + 2 ^ 16 * sel) (always0 + 2 ^ 8 * flags + 2 ^ 16 * baseHi) =
      { offset := baseLo + 2 ^ 16 * baseHi
        selector := sel
        type := flags % 2 ^ 5
        dpl := flags / 2 ^ 5 % 2 ^ 2
        present := flags / 2 ^ 7 == 1 } := by
  simp only [Gate.ofWords, field, Gate.mk.injEq]
  refine ⟨by omega, by omega, by omega, by omega, ?_⟩
  congr 1
  omega

/-- A gate that clears the interrupt flag, for 32-bit code. -/
def interruptGate : Nat := 0xE

/-- The words of the task state segment that an interrupt reads. -/
structure Tss where
  ss0 : Selector
  esp0 : Word
  deriving DecidableEq, Repr

/-! ## The stack -/

namespace Processor

def pushWord (c : Processor) (v : Nat) : Processor :=
  ⟨{ c.regs with esp := c.regs.esp - 4 }, c.mem.store32 (c.regs.esp - 4).toNat v⟩

/-- Push some words, the first one first. -/
def pushAll (c : Processor) (words : List Nat) : Processor := words.foldl pushWord c

/-- The word at the stack pointer. -/
def top (c : Processor) : Nat := c.mem.load32 c.regs.esp.toNat

theorem pushAll_append (c : Processor) (ws ws' : List Nat) :
    c.pushAll (ws ++ ws') = (c.pushAll ws).pushAll ws' :=
  List.foldl_append

end Processor

/-- The words that are pushed, at their offsets from the last one. -/
def pushed : List Nat → List (Nat × Nat)
  | [] => []
  | w :: ws => (4 * ws.length, w) :: pushed ws

section Stack

variable {c : Processor} {ws : List Nat} {base : Nat}

theorem lastField_pushed (ws : List Nat) (i : Nat) :
    lastField (pushed ws) (4 * i) = ws.reverse[i]? := by
  induction ws with
  | nil => rfl
  | cons w ws ih =>
    rw [pushed, lastField, ih, List.reverse_cons]
    rcases Nat.lt_trichotomy i ws.length with hi | hi | hi
    · -- one of the words that were pushed later
      rw [List.getElem?_append_left (by rw [List.length_reverse]; exact hi),
        if_neg (by dsimp only; omega), Option.or_none]
    · subst hi
      rw [List.getElem?_eq_none (by rw [List.length_reverse]), if_pos rfl, Option.none_or,
        List.getElem?_append_right (by rw [List.length_reverse]), List.length_reverse,
        Nat.sub_self]
      rfl
    · rw [List.getElem?_eq_none (by rw [List.length_reverse]; omega),
        if_neg (by dsimp only; omega), Option.none_or, List.getElem?_eq_none]
      rw [List.length_append, List.length_reverse]
      exact hi

theorem wordOffset_pushed (hlen : 4 * ws.length < 2 ^ 32) : ∀ f ∈ pushed ws, WordOffset f.1 := by
  induction ws with
  | nil => simp [pushed]
  | cons w ws ih =>
    rw [List.length_cons] at hlen
    rw [pushed, List.forall_mem_cons]
    refine ⟨?_, ih (by omega)⟩
    show 4 * ws.length % 4 = 0 ∧ 4 * ws.length < 2 ^ 32
    omega

/-- Pushing words down to `base`. -/
theorem pushAll_eq (h : c.regs.esp.toNat = base + 4 * ws.length) :
    c.pushAll ws =
      ⟨{ c.regs with esp := .ofNat 32 base }, c.mem.storeFields base (pushed ws)⟩ := by
  induction ws generalizing c with
  | nil =>
    have hesp : c.regs.esp = .ofNat 32 base := by
      rw [List.length_nil, Nat.mul_zero, Nat.add_zero] at h
      rw [← h, BitVec.ofNat_toNat, BitVec.setWidth_eq]
    rw [← hesp]
    rfl
  | cons w ws ih =>
    rw [List.length_cons] at h
    -- the stack pointer does not wrap around
    have hesp : (c.regs.esp - 4).toNat = base + 4 * ws.length := by
      have h4 : (4 : Word).toNat = 4 := rfl
      rw [BitVec.toNat_sub_of_le (by rw [BitVec.le_def, h4]; omega), h4]
      omega
    have hrest := ih (c := c.pushWord w) hesp
    show (c.pushWord w).pushAll ws = _
    rw [hrest, Processor.pushWord, hesp]
    rfl

/-- The words on the stack, from the last one that was pushed upwards. -/
theorem load32_pushAll (h : c.regs.esp.toNat = base + 4 * ws.length) {i w : Nat}
    (hw : ws.reverse[i]? = some w) : (c.pushAll ws).mem.load32 (base + 4 * i) = w % 2 ^ 32 := by
  have hlt := c.regs.esp.isLt
  have hi : i < ws.reverse.length := (List.getElem?_eq_some_iff.mp hw).1
  rw [List.length_reverse] at hi
  have hoffset : WordOffset (4 * i) := by
    unfold WordOffset
    omega
  rw [pushAll_eq h, load32_storeFields _ (wordOffset_pushed (by omega)) hoffset,
    lastField_pushed, hw]
  rfl

theorem offset_pushed : ∀ f ∈ pushed ws, f.1 + 4 ≤ 4 * ws.length := by
  induction ws with
  | nil => simp [pushed]
  | cons w ws ih =>
    rw [pushed, List.forall_mem_cons, List.length_cons]
    refine ⟨Nat.le_refl _, fun f hf => ?_⟩
    have hle := ih f hf
    omega

/-- Bytes that are not on the stack. -/
theorem mem_pushAll_of_outside (h : c.regs.esp.toNat = base + 4 * ws.length) {a : Nat}
    (ha : a < base ∨ base + 4 * ws.length ≤ a) : (c.pushAll ws).mem a = c.mem a := by
  have hlt := c.regs.esp.isLt
  rw [pushAll_eq h]
  exact storeFields_apply _ offset_pushed (by omega) ha

end Stack

/-! ## Instructions -/

inductive Instr where
  | cli
  /-- `push byte n` -/
  | pushByte (n : Nat)
  | push (r : Reg)
  | pushSeg (s : Sreg)
  | pop (r : Reg)
  | popSeg (s : Sreg)
  | pushad
  | popad
  | mov (dst src : Reg)
  /-- `mov dst, label` -/
  | movLabel (dst : Reg) (label : Word)
  /-- `mov ax, n` -/
  | movAx (n : Selector)
  /-- `mov s, ax` -/
  | movSeg (s : Sreg)
  /-- `add esp, n` -/
  | addEsp (n : Word)
  deriving DecidableEq, Repr

/-- The interrupt flag. -/
def interruptFlag : Word := 0x200

namespace Processor

def exec (c : Processor) : Instr → Processor
  | .cli => { c with regs := { c.regs with eflags := c.regs.eflags &&& ~~~interruptFlag } }
  | .pushByte n => c.pushWord n
  | .push r => c.pushWord (c.regs.get r).toNat
  | .pushSeg s => c.pushWord (c.regs.getSeg s).toNat
  | .pop r => { c with regs := { c.regs with esp := c.regs.esp + 4 }.set r (.ofNat 32 c.top) }
  | .popSeg s => { c with regs := { c.regs with esp := c.regs.esp + 4 }.setSeg s (.ofNat 16 c.top) }
  | .pushad =>
    -- `esp` as it was before
    c.pushAll ([Reg.eax, .ecx, .edx, .ebx, .esp, .ebp, .esi, .edi].map fun r =>
      (c.regs.get r).toNat)
  | .popad =>
    let word (i : Nat) : Word := .ofNat 32 (c.mem.load32 (c.regs.esp.toNat + 4 * i))
    -- the word that `pushad` pushed for `esp` is thrown away
    { c with
      regs := { c.regs with
        edi := word 0
        esi := word 1
        ebp := word 2
        ebx := word 4
        edx := word 5
        ecx := word 6
        eax := word 7
        esp := c.regs.esp + 32 } }
  | .mov dst src => { c with regs := c.regs.set dst (c.regs.get src) }
  | .movLabel dst label => { c with regs := c.regs.set dst label }
  | .movAx n =>
    { c with regs := { c.regs with eax := c.regs.eax.extractLsb' 16 16 ++ n } }
  | .movSeg s => { c with regs := c.regs.setSeg s (c.regs.eax.setWidth 16) }
  | .addEsp n => { c with regs := { c.regs with esp := c.regs.esp + n } }

def run (code : List Instr) (c : Processor) : Processor := code.foldl exec c

theorem run_cons (i : Instr) (code : List Instr) (c : Processor) :
    run (i :: code) c = run code (c.exec i) := rfl

theorem run_append (code code' : List Instr) (c : Processor) :
    run (code ++ code') c = run code' (run code c) :=
  List.foldl_append

/-! ## Interrupts -/

/-- The flags that an interrupt gate clears: trace, interrupt, nested task, resume and
    virtual mode. -/
def gateFlags : Word := 0x34300

/-- The stack that an interrupt uses. It changes if the code behind the gate belongs to an inner
    ring; the words on it then begin with the old stack. -/
def switchStack (c : Processor) (codeDpl : Nat) (tss : Tss) : Processor :=
  if codeDpl < c.regs.cpl then
    pushAll { c with regs := { c.regs with esp := tss.esp0, ss := tss.ss0 } }
      [c.regs.ss.toNat, c.regs.esp.toNat]
  else
    c

/-- The processor goes through an interrupt gate to code of a segment with level `codeDpl`.
    Some exceptions push an error code. -/
def enter (c : Processor) (gate : Gate) (codeDpl : Nat) (tss : Tss) (errorCode : Option Nat) :
    Processor :=
  let s := (c.switchStack codeDpl tss).pushAll
    ([c.regs.eflags.toNat, c.regs.cs.toNat, c.regs.eip.toNat] ++ errorCode.toList)
  { s with
    regs := { s.regs with
      eip := .ofNat 32 gate.offset
      -- the low bits are the new level
      cs := .ofNat 16 (gate.selector / 4 * 4 + codeDpl)
      eflags := c.regs.eflags &&& ~~~gateFlags } }

/-- A data segment register on the way to an outer ring: selectors of inner segments are
    cleared. -/
def outward (dpl : Selector → Nat) (cpl : Nat) (s : Selector) : Selector :=
  if 4 ≤ s.toNat ∧ dpl s < cpl then 0 else s

/-- `iret`, where `dpl` gives the levels of segments. -/
def iret (dpl : Selector → Nat) (c : Processor) : Processor :=
  let word (i : Nat) : Nat := c.mem.load32 (c.regs.esp.toNat + 4 * i)
  let cs : Selector := .ofNat 16 (word 1)
  let regs := { c.regs with eip := .ofNat 32 (word 0), cs := cs, eflags := .ofNat 32 (word 2) }
  if c.regs.cpl < rpl cs then
    -- back to the stack of the outer ring
    { c with
      regs := { regs with
        esp := .ofNat 32 (word 3)
        ss := .ofNat 16 (word 4)
        ds := outward dpl (rpl cs) regs.ds
        es := outward dpl (rpl cs) regs.es
        fs := outward dpl (rpl cs) regs.fs
        gs := outward dpl (rpl cs) regs.gs } }
  else
    { c with regs := { regs with esp := c.regs.esp + 12 } }

end Processor

/-! ## Calls -/

/-- What a compiled function may leave in the registers that it need not keep, and on the
    stack. -/
structure Leftovers where
  ecx : Word
  edx : Word
  eflags : Word
  /-- The number of bytes of stack that it has used, with its argument. -/
  depth : Nat
  stack : Mem

namespace Processor

/-- After a call of a function of one argument, which is at the top of the stack. The function
    returns `result` and has made the memory `m`. -/
def afterCall (c : Processor) (m : Mem) (result : Word) (l : Leftovers) : Processor where
  regs := { c.regs with eax := result, ecx := l.ecx, edx := l.edx, eflags := l.eflags }
  mem := fun a =>
    if a < c.regs.esp.toNat + 4 ∧ c.regs.esp.toNat + 4 ≤ a + l.depth then l.stack a else m a

end Processor

end ForStd.I386
