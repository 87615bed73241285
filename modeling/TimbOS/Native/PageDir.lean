import TimbOS.ForStd.Paging
import TimbOS.Native.Mmdef

/-!
# The page directory

`pagedir.h` and `pagedir.cpp`. Entries are words of physical memory and their bit fields
begin at bit 0. The kernel has one directory, `KernelPageDirectory`; its entries are read and
written where they lie in physical memory. The page tables are read through the virtual
addresses from `0xFFC00000` on, which the processor translates.
-/

namespace TimbOS.Native

open ForStd

/-! `struct page_dir_entry_t` -/

namespace PageDirEntry

def present (entry : Nat) : Nat := field entry 0 1
def enable4m (entry : Nat) : Nat := field entry 7 1
def pageFrameAddr (entry : Nat) : Nat := field entry 22 10

def setPresent (entry v : Nat) : Nat := setField entry 0 1 v
def setWritable (entry v : Nat) : Nat := setField entry 1 1 v
def setUser (entry v : Nat) : Nat := setField entry 2 1 v
def setEnable4m (entry v : Nat) : Nat := setField entry 7 1 v
def setPageFrameAddr (entry v : Nat) : Nat := setField entry 22 10 v
def setPageTableAddr (entry v : Nat) : Nat := setField entry 12 20 v

end PageDirEntry

/-! `struct page_table_entry_t` -/

namespace PageTableEntry

def present (entry : Nat) : Nat := field entry 0 1
def reservedFlag (entry : Nat) : Nat := field entry 9 1
def pageAddr (entry : Nat) : Nat := field entry 12 20

def setPresent (entry v : Nat) : Nat := setField entry 0 1 v
def setWritable (entry v : Nat) : Nat := setField entry 1 1 v
def setUser (entry v : Nat) : Nat := setField entry 2 1 v
def setReservedFlag (entry v : Nat) : Nat := setField entry 9 1 v
def setPageAddr (entry v : Nat) : Nat := setField entry 12 20 v

end PageTableEntry

/-- The kernel touches an address that is not mapped. -/
structure PageFault where
  address : Nat
  deriving DecidableEq, Repr

namespace PageDirectory

/-- A read at the virtual address `p`, where `entries` is in the `cr3` register. -/
def vload (m : Mem) (entries p : Nat) : Except PageFault Nat :=
  match Paging.vload32 m entries p with
  | some v => .ok v
  | none => .error ⟨p⟩

/-- `entries[idx]` -/
def entry (m : Mem) (entries idx : Nat) : Nat := m.load32 (entries + 4 * idx)

/-- Change `entries[idx]`. -/
def modifyEntry (m : Mem) (entries idx : Nat) (f : Nat → Nat) : Mem :=
  m.store32 (entries + 4 * idx) (f (entry m entries idx))

/-- `virtual_to_physical( addr )` -/
def virtualToPhysical (m : Mem) (entries addr : Nat) : Except PageFault Nat := do
  let pdindex := addr >>> 22
  let ptindex := (addr >>> 12) &&& 0x03FF
  let pde := entry m entries pdindex
  if PageDirEntry.present pde ≠ 0 then
    if PageDirEntry.enable4m pde ≠ 0 then
      -- a large page has no table
      return (PageDirEntry.pageFrameAddr pde <<< 22) ||| (ptindex <<< 12) ||| (addr &&& 0xFFF)
    else
      -- the table, seen through the recursive slot
      let pt := 0xFFC00000 ||| (pdindex <<< 12)
      let pte ← vload m entries (pt + 4 * ptindex)
      if PageTableEntry.present pte ≠ 0 then
        return (PageTableEntry.pageAddr pte <<< 12) + (addr &&& 0xFFF)
      else
        return 0
  else
    return 0

/-- The inner loop of `physical_to_virtual`, with `n` entries of table `i` to go. -/
def scanTable (m : Mem) (entries addr i : Nat) : Nat → Nat → Except PageFault (Option Nat)
  | 0, _ => .ok none
  | n + 1, j => do
    let pte ← vload m entries ((0xFFC00000 ||| (i <<< 12)) + 4 * j)
    if PageTableEntry.present pte ≠ 0 ∧ PageTableEntry.pageAddr pte = addr >>> 12 then
      return some ((i <<< 22) ||| (j <<< 12) ||| (addr &&& 0xFFF))
    else
      scanTable m entries addr i n (j + 1)

/-- The outer loop, with `n` entries of the directory to go. -/
def scanDirectory (m : Mem) (entries addr : Nat) : Nat → Nat → Except PageFault (Option Nat)
  | 0, _ => .ok none
  | n + 1, i => do
    let pde := entry m entries i
    if PageDirEntry.present pde ≠ 0 then
      if PageDirEntry.enable4m pde ≠ 0 then
        if PageDirEntry.pageFrameAddr pde = addr >>> 22 then
          return some ((i <<< 22) ||| (addr &&& 0x3FFFFF))
        else
          scanDirectory m entries addr n (i + 1)
      else
        -- the inner loop returns from the function when it finds something
        match ← scanTable m entries addr i 1024 0 with
        | some v => return some v
        | none => scanDirectory m entries addr n (i + 1)
    else
      scanDirectory m entries addr n (i + 1)

/-- `physical_to_virtual( addr )` -/
def physicalToVirtual (m : Mem) (entries addr : Nat) : Except PageFault Nat := do
  let v ← scanDirectory m entries addr 1024 0
  return v.getD 0

/-- `init()`, where `KernelPageDirectory` is at `entries`, and `this` at the virtual address
    `self`. -/
def init (m : Mem) (entries self : Nat) : Except PageFault Mem := do
  let physicalAddress ← virtualToPhysical m entries self
  return modifyEntry m entries 0x3FF fun e =>
    -- a table that is the directory itself
    let e := PageDirEntry.setPresent e 1
    let e := PageDirEntry.setWritable e 1
    let e := PageDirEntry.setEnable4m e 0
    let e := PageDirEntry.setUser e 1
    PageDirEntry.setPageTableAddr e (physicalAddress >>> 12)

end PageDirectory

end TimbOS.Native
