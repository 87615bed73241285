import TimbOS.Native.Paging

/-!
# The page table of the kernel

`paging_build_kernel_table` of `paging.cpp` builds a table for the sections of the kernel's ELF
image. `kernelPageTable` is the virtual address of `kernel_page_table`, which the processor
translates for every access. `none` is a page fault.
-/

namespace TimbOS.Native.Paging

open ForStd ForStd.Paging

/-- What is read of an `Elf32_Shdr`. -/
structure Elf32Shdr where
  flags : Nat
  addr : Nat
  size : Nat

/-- `SHF_WRITE` -/
def shfWrite : Nat := 1 <<< 0

/-- `SHF_ALLOC` -/
def shfAlloc : Nat := 1 <<< 1

/-- `memset( dest, value, count )` -/
def memset (entries : Nat) (value : UInt8) : Nat → Nat → Mem → Option Mem
  | 0, _, m => some m
  | count + 1, dest, m => do
    let m ← vstore8 m entries dest value
    memset entries value count (add32 dest 1) m

/-- `&kernel_page_table[ptindex]` -/
def pteAddr (kernelPageTable ptindex : Nat) : Nat := add32 kernelPageTable (4 * ptindex)

/-- A round of the loop over a section: the page of `virtualAddr`. -/
def mapSectionPage (m : Mem) (entries kernelPageTable flags ptindex virtualAddr : Nat) :
    Option Mem := do
  let physicalAddress ← (PageDirectory.virtualToPhysical m entries virtualAddr).toOption
  let pte := pteAddr kernelPageTable ptindex
  let m ← modifyPte m entries pte fun e => PageTableEntry.setPageAddr e (physicalAddress >>> 12)
  let m ← modifyPte m entries pte fun e => PageTableEntry.setPresent e 1
  let m ← modifyPte m entries pte fun e => PageTableEntry.setUser e 1
  modifyPte m entries pte fun e =>
    PageTableEntry.setWritable e (if flags &&& shfWrite ≠ 0 then 1 else 0)

/-- The loop over a section, with `size` bytes left. -/
def sectionLoop (entries kernelPageTable flags size ptindex virtualAddr : Nat) (m : Mem) :
    Option Mem :=
  if size > 0 then do
    let m ← mapSectionPage m entries kernelPageTable flags ptindex virtualAddr
    let pageStep := 0x1000 - virtualAddr % 0x1000
    let pageStep := if pageStep > size then size else pageStep
    sectionLoop entries kernelPageTable flags (size - pageStep) (ptindex + 1)
      (add32 virtualAddr pageStep) m
  else
    some m
  termination_by size
  decreasing_by
    split <;> omega

/-- The loop over the section headers. -/
def sections (entries kernelPageTable : Nat) : List Elf32Shdr → Mem → Option Mem
  | [], m => some m
  | esh :: rest, m =>
    if esh.flags &&& shfAlloc ≠ 0 then do
      let m ← sectionLoop entries kernelPageTable esh.flags esh.size
        ((esh.addr >>> pageShift) &&& 0x3FF) esh.addr m
      sections entries kernelPageTable rest m
    else
      sections entries kernelPageTable rest m

/-- `paging_build_kernel_table( esht, kernel_base )`, where `esht` has the section headers, and
    `pde` is what the local variable holds before it is set. -/
def pagingBuildKernelTable (m : Mem) (entries kernelPageTable pde : Nat)
    (esht : List Elf32Shdr) (kernelBase : Nat) : Option Mem := do
  let m ← memset entries 0 (4 * 0x400) kernelPageTable m
  let m ← sections entries kernelPageTable esht m
  -- video memory
  let pte := pteAddr kernelPageTable 0x0B8
  let m ← modifyPte m entries pte fun e => PageTableEntry.setWritable e 1
  let m ← modifyPte m entries pte fun e => PageTableEntry.setPresent e 1
  let m ← modifyPte m entries pte fun e => PageTableEntry.setUser e 1
  let m ← modifyPte m entries pte fun e => PageTableEntry.setPageAddr e 0x0B8
  -- the multiboot header
  let pte := pteAddr kernelPageTable 0x02B
  let m ← modifyPte m entries pte fun e => PageTableEntry.setWritable e 1
  let m ← modifyPte m entries pte fun e => PageTableEntry.setPresent e 1
  let m ← modifyPte m entries pte fun e => PageTableEntry.setPageAddr e 0x02B
  -- the switch
  let pde := PageDirEntry.setWritable pde 1
  let pde := PageDirEntry.setPresent pde 1
  let pde := PageDirEntry.setEnable4m pde 0
  let pde := PageDirEntry.setUser pde 1
  let physicalAddress ← (PageDirectory.virtualToPhysical m entries kernelPageTable).toOption
  let pde := PageDirEntry.setPageTableAddr pde (physicalAddress >>> 12)
  return PageDirectory.modifyEntry m entries (kernelBase >>> 22) fun _ => pde

end TimbOS.Native.Paging
