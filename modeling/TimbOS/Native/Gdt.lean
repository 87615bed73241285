import TimbOS.ForStd.I386

/-!
# The global descriptor table

`gdt.cpp` fills the table of segments, and keeps the task state segment, of which the processor
reads the stack for interrupts. `gdt_flush` of `gdt_.s` loads the segment registers.
-/

namespace TimbOS.Native.Gdt

open ForStd.I386

/-! `GDT_ACCESS_…` -/

def accessPresent : UInt8 := 0x80
def accessRing0 : UInt8 := 0x00
def accessRing3 : UInt8 := 0x60
def accessCodeSeg : UInt8 := 0x1A
def accessDataSeg : UInt8 := 0x12
def accessTss : UInt8 := 0x09

/-! `GDT_FLAG_…` -/

def flagGranularity4k : UInt8 := 0x8
def flag32bit : UInt8 := 0x4

/-- `struct gdt_entry` -/
structure GdtEntry where
  limitLow : UInt16
  baseLow : UInt16
  baseMiddle : UInt8
  access : UInt8
  granularity : UInt8
  baseHigh : UInt8
  deriving DecidableEq, Repr

/-- `global_descriptor_table` -/
abbrev Table := Fin 6 → GdtEntry

/-- The table before `init`. -/
def zeros : Table := fun _ => ⟨0, 0, 0, 0, 0, 0⟩

/-- The fields that `gdt_set_entry` sets. -/
def GdtEntry.make (base limit : Nat) (access flags : UInt8) : GdtEntry where
  baseLow := .ofNat (base &&& 0xFFFF)
  baseMiddle := .ofNat ((base >>> 16) &&& 0xFF)
  baseHigh := .ofNat ((base >>> 24) &&& 0xFF)
  limitLow := .ofNat (limit &&& 0xFFFF)
  granularity := .ofNat ((limit >>> 16) &&& 0x0F) ||| ((flags &&& 0xF) <<< 4)
  access := access

/-- `gdt_set_entry( num, base, limit, access, flags )` -/
def setEntry (table : Table) (num : Fin 6) (base limit : Nat) (access flags : UInt8) : Table :=
  Function.update table num (.make base limit access flags)

/-- `tss`, of which the second word is `esp0` and the third one `ss0`. -/
abbrev TaskState := Fin 32 → BitVec 32

/-- `tss` at the start of the kernel. -/
def initialTss : TaskState := fun i => if i = 2 then 0x10 else 0

/-- `update_tss_esp0( esp0 )` -/
def updateTssEsp0 (tss : TaskState) (esp0 : BitVec 32) : TaskState := Function.update tss 1 esp0

/-- The table that `init()` leaves, where `tss` is the address of the task state segment. -/
def init (tss : Nat) : Table :=
  let table := setEntry zeros 0 0 0x00000 0 0
  let table := setEntry table 1 0 0xFFFFF (accessPresent ||| accessCodeSeg ||| accessRing0)
    (flagGranularity4k ||| flag32bit)
  let table := setEntry table 2 0 0xFFFFF (accessPresent ||| accessDataSeg ||| accessRing0)
    (flagGranularity4k ||| flag32bit)
  let table := setEntry table 3 0 0xFFFFF (accessPresent ||| accessCodeSeg ||| accessRing3)
    (flagGranularity4k ||| flag32bit)
  let table := setEntry table 4 0 0xFFFFF (accessPresent ||| accessDataSeg ||| accessRing3)
    (flagGranularity4k ||| flag32bit)
  -- `sizeof(tss) - 1`
  setEntry table 5 tss (32 * 4 - 1) (accessPresent ||| accessTss ||| accessRing3) 0

/-! ## What the processor reads -/

/-- The two words of an entry, which is packed. -/
def GdtEntry.words (e : GdtEntry) : Nat × Nat :=
  (e.limitLow.toNat + 2 ^ 16 * e.baseLow.toNat,
    e.baseMiddle.toNat + 2 ^ 8 * e.access.toNat + 2 ^ 16 * e.granularity.toNat +
      2 ^ 24 * e.baseHigh.toNat)

def GdtEntry.segment (e : GdtEntry) : Segment := .ofWords e.words.1 e.words.2

/-- The segment that a selector names. The limit of the table is the end of its last entry. -/
def segment (table : Table) (s : Selector) : Option Segment :=
  if h : s.toNat / 8 < 6 then some (table ⟨s.toNat / 8, h⟩).segment else none

/-- The privilege level of the segment that a selector names. -/
def dpl (table : Table) (s : Selector) : Nat := ((segment table s).map Segment.dpl).getD 0

/-- What an interrupt reads of `tss`. -/
def stackOf (tss : TaskState) : Tss := ⟨(tss 2).setWidth 16, tss 1⟩

end TimbOS.Native.Gdt
