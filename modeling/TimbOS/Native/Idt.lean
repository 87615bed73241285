import TimbOS.ForStd.I386

/-!
# The interrupt descriptor table

`idt.cpp` keeps the table. `isr.cpp` puts the gates of the exceptions into it and `irq.cpp` those of
the interrupt requests. The addresses of the assembly stubs come from the linker.
-/

namespace TimbOS.Native.Idt

open ForStd.I386

/-- `struct idt_entry` -/
structure IdtEntry where
  baseLo : UInt16
  sel : UInt16
  always0 : UInt8
  flags : UInt8
  baseHi : UInt16
  deriving DecidableEq, Repr

/-- `s_idt`, whose index is an `unsigned char`. -/
abbrev Table := UInt8 → IdtEntry

/-- The table after `idt::init`. -/
def zeros : Table := fun _ => ⟨0, 0, 0, 0, 0⟩

/-- The fields that `set_gate` sets. -/
def IdtEntry.make (base : Nat) (sel : UInt16) (flags : UInt8) : IdtEntry where
  baseLo := .ofNat (base &&& 0xFFFF)
  baseHi := .ofNat ((base >>> 16) &&& 0xFFFF)
  sel := sel
  always0 := 0
  flags := flags

/-- `set_gate( num, base, sel, flags )` -/
def setGate (table : Table) (num : UInt8) (base : Nat) (sel : UInt16) (flags : UInt8) : Table :=
  Function.update table num (.make base sel flags)

/-- The addresses of `isr0` to `isr31` and `irq0` to `irq15`. -/
structure Stubs where
  isr : Fin 32 → Word
  irq : Fin 16 → Word

/-- The calls of `set_gate` in `isr::init()`. -/
def isrInit (stubs : Stubs) (table : Table) : Table :=
  (List.finRange 32).foldl
    (fun table (i : Fin 32) => setGate table (.ofNat i.val) (stubs.isr i).toNat 0x08 0x8E) table

/-- The calls of `set_gate` in `irq::init()`. -/
def irqInit (stubs : Stubs) (table : Table) : Table :=
  (List.finRange 16).foldl
    (fun table (i : Fin 16) => setGate table (.ofNat (32 + i.val)) (stubs.irq i).toNat 0x08 0x8E)
    table

/-- The table that the kernel works with. -/
def init (stubs : Stubs) : Table := irqInit stubs (isrInit stubs zeros)

/-! ## What the processor reads -/

/-- The two words of an entry, which is packed. -/
def IdtEntry.words (e : IdtEntry) : Nat × Nat :=
  (e.baseLo.toNat + 2 ^ 16 * e.sel.toNat,
    e.always0.toNat + 2 ^ 8 * e.flags.toNat + 2 ^ 16 * e.baseHi.toNat)

def IdtEntry.gate (e : IdtEntry) : Gate := .ofWords e.words.1 e.words.2

end TimbOS.Native.Idt
