import TimbOS.Native.Mm
import TimbOS.Native.PageDir
import TimbOS.Native.Physical

/-!
# Paging

The parts of `paging.cpp` that change page tables: the linear mapping of the kernel, `map_page`
and the page fault handler. `entries` is the physical address of `KernelPageDirectory`, which is
also in the `cr3` register.
-/

namespace TimbOS.Native.Paging

open ForStd

/-- `LARGE_PAGE_SIZE` -/
abbrev largePageSize : Nat := 0x400000

/-- `LARGE_PAGE_SHIFT` -/
abbrev largePageShift : Nat := 22

/-- `PAGE_SHIFT` -/
abbrev pageShift : Nat := 12

/-! ## The linear mapping -/

/-- The body of the loop of `init`. -/
def mapLargePage (m : Mem) (entries virtualBase p : Nat) : Mem :=
  -- `KernelPageDirectory[virt >> LARGE_PAGE_SHIFT]`
  let virt := add32 virtualBase p
  PageDirectory.modifyEntry m entries (virt >>> largePageShift) fun e =>
    let e := PageDirEntry.setEnable4m e 1
    let e := PageDirEntry.setWritable e 1
    let e := PageDirEntry.setPresent e 1
    let e := PageDirEntry.setUser e 1
    PageDirEntry.setPageFrameAddr e (p >>> largePageShift)

/-- The loop of `init`. `none` means that it did not end within `fuel` rounds. -/
def initLoop (entries linearMappingEnd virtualBase : Nat) : Nat → Nat → Mem → Option Mem
  | 0, _, _ => none
  | fuel + 1, p, m =>
    if p < linearMappingEnd then
      initLoop entries linearMappingEnd virtualBase fuel (add32 p largePageSize)
        (mapLargePage m entries virtualBase p)
    else
      some m

/-- `init( linear_mapping_end, virtual_base )`, where `KernelPageDirectory` has the virtual
    address `self`. -/
def init (fuel : Nat) (m : Mem) (entries self linearMappingEnd virtualBase : Nat) :
    Except PageFault (Option Mem) := do
  let m ← PageDirectory.init m entries self
  return initLoop entries linearMappingEnd virtualBase fuel 0 m

/-- `init_unmap_0()` -/
def initUnmap0 (m : Mem) (entries : Nat) : Mem :=
  PageDirectory.modifyEntry m entries 0x000 fun e => PageDirEntry.setPresent e 0

/-! ## Mapping a page -/

/-- `map_page( physical_addr, virtual_addr, flags )`. `none` is a page fault inside the kernel. -/
def mapPage (m : Mem) (entries physicalAddr virtualAddr flags : Nat) : Option Mem :=
  if physicalAddr &&& 0xFFF ≠ 0 then
    some m
  else if virtualAddr &&& 0xFFF ≠ 0 then
    some m
  else
    let pdindex := virtualAddr >>> 22
    let ptindex := (virtualAddr >>> 12) &&& 0x03FF
    -- the source says that the PD entry must be checked here, but does not check it
    let pt := 0xFFC00000 + 4 * (0x400 * pdindex)
    Paging.vstore32 m entries (pt + 4 * ptindex) (physicalAddr ||| (flags &&& 0xFFF) ||| 0x01)

/-! ## Page faults -/

/-- The memory with the page tables, and the page frames. The bitmaps of the pools do not
    overlap with page tables, so that they have a memory of their own. -/
structure Kernel where
  mem : Mem
  physical : Physical.State

/-- A change of `*p`, where `p` is the virtual address of a page table entry. `none` is a page
    fault inside the kernel. -/
def modifyPte (m : Mem) (entries p : Nat) (f : Nat → Nat) : Option Mem := do
  let pte ← Paging.vload32 m entries p
  Paging.vstore32 m entries p (f pte)

/-- `mm::alloc_pages_himem( count, align )` -/
def allocPagesHimem (s : Physical.State) (count align : Nat) : Option (Nat × Physical.State) :=
  s.allocHimem count align

/-- `paging_handle_fault( r, virtual_address )`, where `errCode` is `r->err_code`. `none` is a
    call that does not return. -/
def pagingHandleFault (k : Kernel) (entries errCode virtualAddress : Nat) :
    Option (Bool × Kernel) :=
  let protectionViolation := errCode &&& 0x1
  let reservedViolation := errCode &&& 0x8
  if reservedViolation ≠ 0 then
    some (false, k)
  else if protectionViolation ≠ 0 then
    some (false, k)
  else
    let pdIndex := virtualAddress >>> 22
    let ptIndex := (virtualAddress >>> 12) &&& 0x3FF
    -- the page is not present, or its table
    let pde := PageDirectory.entry k.mem entries pdIndex
    if PageDirEntry.present pde ≠ 0 then
      if PageDirEntry.enable4m pde = 0 then do
        -- the table entry, seen through the recursive slot
        let pte := 0xFFC00000 ||| (pdIndex <<< 12) ||| (ptIndex <<< 2)
        if PageTableEntry.reservedFlag (← Paging.vload32 k.mem entries pte) ≠ 0 then
          -- the result 0 of a failed allocation is taken for an address
          let (physAddr, physical) ← allocPagesHimem k.physical 1 1
          let mem ← modifyPte k.mem entries pte fun e =>
            PageTableEntry.setPageAddr e (physAddr >>> pageShift)
          let mem ← modifyPte mem entries pte fun e => PageTableEntry.setReservedFlag e 0
          let mem ← modifyPte mem entries pte fun e => PageTableEntry.setPresent e 1
          return (true, ⟨mem, physical⟩)
        else
          return (false, k)
      else
        some (false, k)
    else
      some (false, k)

end TimbOS.Native.Paging
