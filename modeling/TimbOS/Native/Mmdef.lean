import Mathlib

/-!
# Memory layout constants

The constants of `mmdef.h` and the two operations of 32-bit unsigned arithmetic
that can wrap around in the kernel's address computations.
-/

namespace TimbOS.Native

/-- `PAGE_SIZE` -/
abbrev pageSize : Nat := 0x1000

/-- `DMA_MEMORY_LIMIT`: end of the memory that ISA DMA can reach. -/
abbrev dmaMemoryLimit : Nat := 0x01000000

/-- `KERNEL_VIRTUAL_BASE` -/
abbrev kernelVirtualBase : Nat := 0xC0000000

/-- `KERNEL_VIRTUAL_SIZE_MAX` -/
abbrev kernelVirtualSizeMax : Nat := 0x04000000

/-- `a + b` on `unsigned int`. -/
def add32 (a b : Nat) : Nat := (a + b) % 2 ^ 32

/-- `a - b` on `unsigned int`. -/
def sub32 (a b : Nat) : Nat := (a + 2 ^ 32 - b) % 2 ^ 32

/-- `p & ~PAGE_MASK`: the start of the page that holds `p`. -/
def pageOf (p : Nat) : Nat := p - p % pageSize

theorem add32_lt (a b : Nat) : add32 a b < 2 ^ 32 := Nat.mod_lt _ (by decide)

theorem sub32_lt (a b : Nat) : sub32 a b < 2 ^ 32 := Nat.mod_lt _ (by decide)

theorem sub32_eq {a b : Nat} (hab : b ≤ a) (ha : a < 2 ^ 32) : sub32 a b = a - b := by
  simp only [sub32]
  omega

end TimbOS.Native
