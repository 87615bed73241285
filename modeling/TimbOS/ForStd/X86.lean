import TimbOS.ForStd.Memory

/-!
# Instructions of a 32-bit x86 processor

The registers, the stack and the atomic instructions that small assembly routines consist of,
and calls by the cdecl convention: arguments are pushed from the last to the first, then the
return address, and the caller takes the arguments back.

## Key results

- `load32_pushAll`: the words on the stack
- `load8_pushAll`: pushing changes nothing but the stack below the old stack pointer
-/

namespace ForStd.X86

open Mem

/-- The general registers, but for `esi`. -/
inductive Reg where
  | eax | ebx | ecx | edx | ebp | edi | esp
  deriving DecidableEq, Repr

/-- Registers and memory. Flags are left out. -/
structure Cpu where
  reg : Reg → Nat
  mem : Mem

inductive Instr where
  | push (r : Reg)
  | pop (r : Reg)
  | mov (dst src : Reg)
  /-- `mov dst, [base+disp]` -/
  | load (dst base : Reg) (disp : Nat)
  /-- `xor r, r` -/
  | zero (r : Reg)
  | inc (r : Reg)
  | dec (r : Reg)
  /-- `xchg r, [base]` -/
  | xchg (r base : Reg)
  /-- `lock cmpxchg [base], src` -/
  | cmpxchg (base src : Reg)
  /-- `lock cmpxchg8b [base]` -/
  | cmpxchg8b (base : Reg)
  /-- `lock xadd [base], src` -/
  | xadd (base src : Reg)
  | ret
  deriving DecidableEq, Repr

namespace Cpu

def set (c : Cpu) (r : Reg) (v : Nat) : Cpu :=
  { c with reg := fun q => if q = r then v % 2 ^ 32 else c.reg q }

def store (c : Cpu) (a v : Nat) : Cpu := { c with mem := c.mem.store32 a v }

@[simp] theorem reg_set_same (c : Cpu) (r : Reg) (v : Nat) : (c.set r v).reg r = v % 2 ^ 32 :=
  if_pos rfl

theorem reg_set (c : Cpu) (q r : Reg) (v : Nat) :
    (c.set r v).reg q = if q = r then v % 2 ^ 32 else c.reg q := rfl

theorem reg_set_ne (c : Cpu) {q r : Reg} (v : Nat) (h : q ≠ r) : (c.set r v).reg q = c.reg q :=
  if_neg h

@[simp] theorem mem_set (c : Cpu) (r : Reg) (v : Nat) : (c.set r v).mem = c.mem := rfl

@[simp] theorem reg_store (c : Cpu) (a v : Nat) : (c.store a v).reg = c.reg := rfl

@[simp] theorem mem_store (c : Cpu) (a v : Nat) : (c.store a v).mem = c.mem.store32 a v := rfl

/-- Push a word. -/
def pushWord (c : Cpu) (v : Nat) : Cpu :=
  let c := c.set .esp (c.reg .esp + 2 ^ 32 - 4)
  c.store (c.reg .esp) v

def exec (c : Cpu) : Instr → Cpu
  | .push r => c.pushWord (c.reg r)
  | .pop r => (c.set r (c.mem.load32 (c.reg .esp))).set .esp (c.reg .esp + 4)
  | .mov dst src => c.set dst (c.reg src)
  | .load dst base disp => c.set dst (c.mem.load32 (c.reg base + disp))
  | .zero r => c.set r 0
  | .inc r => c.set r (c.reg r + 1)
  | .dec r => c.set r (c.reg r + 2 ^ 32 - 1)
  | .xchg r base => (c.set r (c.mem.load32 (c.reg base))).store (c.reg base) (c.reg r)
  | .cmpxchg base src =>
    if c.mem.load32 (c.reg base) = c.reg .eax then
      c.store (c.reg base) (c.reg src)
    else
      c.set .eax (c.mem.load32 (c.reg base))
  | .cmpxchg8b base =>
    if c.mem.load32 (c.reg base) = c.reg .eax ∧ c.mem.load32 (c.reg base + 4) = c.reg .edx then
      (c.store (c.reg base) (c.reg .ebx)).store (c.reg base + 4) (c.reg .ecx)
    else
      (c.set .eax (c.mem.load32 (c.reg base))).set .edx (c.mem.load32 (c.reg base + 4))
  | .xadd base src =>
    (c.set src (c.mem.load32 (c.reg base))).store (c.reg base)
      (c.mem.load32 (c.reg base) + c.reg src)
  | .ret => c.set .esp (c.reg .esp + 4)

def run (code : List Instr) (c : Cpu) : Cpu := code.foldl exec c

theorem run_cons (i : Instr) (code : List Instr) (c : Cpu) :
    run (i :: code) c = run code (c.exec i) := rfl

theorem run_append (code code' : List Instr) (c : Cpu) :
    run (code ++ code') c = run code' (run code c) :=
  List.foldl_append

/-- Push some words, the first one last. -/
def pushAll (c : Cpu) (words : List Nat) : Cpu := words.foldr (fun v c => c.pushWord v) c

/-- Call a routine that ends with `ret`. -/
def call (c : Cpu) (code : List Instr) (args : List Nat) (returnAddress : Nat) : Cpu :=
  let c := run code (c.pushAll (returnAddress :: args))
  c.set .esp (c.reg .esp + 4 * args.length)

end Cpu

/-! ## The stack -/

/-- The stack pointer after `n` bytes have been pushed. -/
def down (sp n : Nat) : Nat := (sp + 2 ^ 32 - n) % 2 ^ 32

/-- The address is one of the `n` bytes below `sp`. -/
def Below (sp n a : Nat) : Prop := (sp + 2 ^ 32 - 1 - a % 2 ^ 32) % 2 ^ 32 < n

instance (sp n a : Nat) : Decidable (Below sp n a) := inferInstanceAs (Decidable (_ < _))

section Stack

variable {c : Cpu} {words : List Nat}

theorem mem_pushWord (c : Cpu) (v : Nat) :
    (c.pushWord v).mem = c.mem.store32 ((c.reg .esp + 2 ^ 32 - 4) % 2 ^ 32) v := by
  simp [Cpu.pushWord]

theorem reg_pushWord_ne (c : Cpu) (v : Nat) {r : Reg} (h : r ≠ .esp) :
    (c.pushWord v).reg r = c.reg r :=
  Cpu.reg_set_ne c _ h

theorem esp_pushWord (c : Cpu) (v : Nat) :
    (c.pushWord v).reg .esp = (c.reg .esp + 2 ^ 32 - 4) % 2 ^ 32 := by
  rw [Cpu.pushWord, Cpu.reg_store, Cpu.reg_set_same]

theorem reg_pushAll_ne (c : Cpu) (words : List Nat) {r : Reg} (h : r ≠ .esp) :
    (c.pushAll words).reg r = c.reg r := by
  induction words with
  | nil => rfl
  | cons v words ih => exact (reg_pushWord_ne (c.pushAll words) v h).trans ih

/-- The stack pointer moves by a word for each push. -/
theorem esp_pushAll (hesp : c.reg .esp < 2 ^ 32) (hlen : 4 * words.length < 2 ^ 32) :
    (c.pushAll words).reg .esp = down (c.reg .esp) (4 * words.length) := by
  induction words with
  | nil =>
    simp only [Cpu.pushAll, List.foldr_nil, down, List.length_nil]
    omega
  | cons v words ih =>
    have hpush := esp_pushWord (c.pushAll words) v
    rw [List.length_cons] at hlen ⊢
    rw [ih (by omega)] at hpush
    refine hpush.trans ?_
    simp only [down]
    omega

/-- Pushing changes only what is below the stack pointer. -/
theorem load8_pushAll (hesp : c.reg .esp < 2 ^ 32) (hlen : 4 * words.length < 2 ^ 32) {a : Nat}
    (ha : ¬ Below (c.reg .esp) (4 * words.length) a) :
    (c.pushAll words).mem.load8 a = c.mem.load8 a := by
  induction words with
  | nil => rfl
  | cons v words ih =>
    rw [List.length_cons] at hlen ha
    have hbefore := ih (by omega) (by unfold Below at ha ⊢; omega)
    have hsp : (c.pushAll words).reg .esp = down (c.reg .esp) (4 * words.length) :=
      esp_pushAll hesp (by omega)
    refine Eq.trans ?_ hbefore
    show ((c.pushAll words).pushWord v).mem.load8 a = _
    rw [mem_pushWord, hsp]
    unfold Below at ha
    simp only [store32, down]
    rw [load8_store8_ne _ _ (by omega), load8_store8_ne _ _ (by omega),
      load8_store8_ne _ _ (by omega), load8_store8_ne _ _ (by omega)]

/-- A word outside the stack is still there. -/
theorem load32_pushAll_of_not_below (hesp : c.reg .esp < 2 ^ 32)
    (hlen : 4 * words.length < 2 ^ 32) {a : Nat}
    (ha : ∀ k < 4, ¬ Below (c.reg .esp) (4 * words.length) (a + k)) :
    (c.pushAll words).mem.load32 a = c.mem.load32 a := by
  have h0 := load8_pushAll hesp hlen (ha 0 (by omega))
  rw [Nat.add_zero] at h0
  simp only [load32]
  rw [h0, load8_pushAll hesp hlen (ha 1 (by omega)), load8_pushAll hesp hlen (ha 2 (by omega)),
    load8_pushAll hesp hlen (ha 3 (by omega))]

/-- The words on the stack, from the stack pointer upwards. -/
theorem load32_pushAll (hesp : c.reg .esp < 2 ^ 32) (hlen : 4 * words.length < 2 ^ 32) {i : Nat}
    (hi : i < words.length) {a : Nat}
    (ha : a % 2 ^ 32 = (down (c.reg .esp) (4 * words.length) + 4 * i) % 2 ^ 32) :
    (c.pushAll words).mem.load32 a = words[i] % 2 ^ 32 := by
  induction words generalizing i with
  | nil => exact absurd hi (Nat.not_lt_zero i)
  | cons v words ih =>
    rw [List.length_cons] at hlen hi ha
    have hsp : (c.pushAll words).reg .esp = down (c.reg .esp) (4 * words.length) :=
      esp_pushAll hesp (by omega)
    show ((c.pushAll words).pushWord v).mem.load32 a = _
    rw [mem_pushWord, hsp]
    unfold down at ha ⊢
    cases i with
    | zero =>
      have haddr : a % 2 ^ 32 =
          ((c.reg .esp + 2 ^ 32 - 4 * words.length) % 2 ^ 32 + 2 ^ 32 - 4) % 2 ^ 32 % 2 ^ 32 := by
        omega
      rw [load32_of_mod_eq _ haddr, load32_store32_same]
      rfl
    | succ i =>
      rw [load32_store32_apart]
      · exact ih (by omega) (by omega) (by unfold down; omega)
      · unfold Apart
        omega

end Stack

end ForStd.X86
