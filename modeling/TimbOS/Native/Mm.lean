import TimbOS.Native.Mmdef

/-!
# Addresses of kernel memory

The small functions of `mm.cpp` that its clients use: the kernel sees physical memory from
`KERNEL_VIRTUAL_BASE` on.
-/

namespace TimbOS.Native.Mm

/-- `kernel_virtual_to_physical( p )` -/
def kernelVirtualToPhysical (p : Nat) : Nat := sub32 p kernelVirtualBase

/-- `kernel_physical_to_virtual( p )` -/
def kernelPhysicalToVirtual (p : Nat) : Nat := add32 p kernelVirtualBase

/-- `calc_required_page_count( size )` -/
def calcRequiredPageCount (size : Nat) : Nat := sub32 (add32 size pageSize) 1 / pageSize

end TimbOS.Native.Mm
