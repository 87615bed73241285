import TimbOS.Native.DiskCache
import TimbOS.Native.Floppy
import TimbOS.Native.Mm
import TimbOS.Native.Physical

/-!
# Pages of kernel memory

The functions of `mm.cpp` that hand out pages by their virtual addresses and take them back,
the floppy drive, which keeps a cylinder in such pages, and the buffers of the disk cache
together with the pools that their pages come from.
-/

namespace TimbOS.Native.Mm

open Physical (State)

/-- The virtual address of a page, or `0` if there is none. -/
def virtualOrNull (physicalAddr : Nat) : Nat :=
  if physicalAddr ≠ 0 then kernelPhysicalToVirtual physicalAddr else 0

/-- `alloc_pages_dma( count, align )` -/
def allocPagesDma (s : State) (count align : Nat) : Option (Nat × State) := do
  let (physicalAddr, s) ← s.allocDma count align
  return (virtualOrNull physicalAddr, s)

/-- `alloc_pages( count, align )` -/
def allocPages (s : State) (count align : Nat) : Option (Nat × State) := do
  let (physicalAddr, s) ← s.alloc count align
  return (virtualOrNull physicalAddr, s)

/-- `free_pages( addr, count )`, where `count` is 1 by default. -/
def freePages (s : State) (addr count : Nat) : State :=
  s.free (kernelVirtualToPhysical addr) count

end TimbOS.Native.Mm

namespace TimbOS.Native.Floppy

open Physical (State)

/-- The addresses of the cylinder cache. -/
structure CylCache where
  /-- `_cyl_cache` -/
  address : Nat
  /-- `_cyl_cache_physical` -/
  physical : Nat
  deriving DecidableEq, Repr

namespace FloppyDrive

/-- `cyl_size()` -/
def cylSize (type : FloppyDriveType) : Nat := sectorsPerCyl type * blockSize

/-- `cache_page_count` -/
def cachePageCount (type : FloppyDriveType) : Nat := Mm.calcRequiredPageCount (cylSize type)

/-- The pages that `FloppyDrive( … )` gets for the cylinder cache, at a 64 KiB boundary. -/
def allocCache (s : State) (type : FloppyDriveType) : Option (CylCache × State) := do
  let (cylCache, s) ← Mm.allocPagesDma s (cachePageCount type) 16
  return (⟨cylCache, Mm.kernelVirtualToPhysical cylCache⟩, s)

/-- `~FloppyDrive()` -/
def destroy (s : State) (cache : CylCache) : State := Mm.freePages s cache.address 1

end FloppyDrive

end TimbOS.Native.Floppy

namespace TimbOS.Native.DiskCacheBuffer

open Physical (State)

/-- What `mm::alloc_pages( count )` answers in the state `s`, whose call always returns, and
    what the device answers. -/
def environment (s : State) (read : Nat → Nat → Bool) : DiskCacheEnvironment where
  allocPages := fun count =>
    match Mm.allocPages s count 1 with
    | some (addr, _) => addr
    | none => 0
  read := read

/-- The pools after `mm::alloc_pages( count )`. -/
def poolsAfter (s : State) (count : Nat) : State :=
  match Mm.allocPages s count 1 with
  | some (_, s) => s
  | none => s

/-- A buffer, and the pools that its pages come from. -/
structure WithPools where
  cache : DiskCacheBuffer
  pools : State

/-- The constructor asks for pages if it is to load the blocks. -/
def constructWith (s : State) (read : Nat → Nat → Bool) (blockSize firstBlock blockCount : Nat)
    (load : Bool) : WithPools :=
  let c := construct (environment s read) blockSize firstBlock blockCount load
  ⟨c, if load then poolsAfter s (Mm.calcRequiredPageCount c.length) else s⟩

/-- `lock()` asks for pages if the blocks are not present and there are no pages yet. -/
def lockWith (read : Nat → Nat → Bool) (w : WithPools) : WithPools :=
  ⟨(w.cache.lock (environment w.pools read)).2,
    if w.cache.status = .dcbNotPresent ∧ w.cache.buffer = 0 then
      poolsAfter w.pools (Mm.calcRequiredPageCount w.cache.length)
    else
      w.pools⟩

/-- `unlock()` -/
def unlockWith (w : WithPools) : WithPools := ⟨w.cache.unlock, w.pools⟩

/-- `free()`: its result, and what it leaves. `mm::free_pages( _buffer )` has its default
    count. -/
def freeWith (w : WithPools) : Bool × WithPools :=
  match w.cache.free with
  | (ok, some addr, c) => (ok, ⟨c, Mm.freePages w.pools addr 1⟩)
  | (ok, none, c) => (ok, ⟨c, w.pools⟩)

end TimbOS.Native.DiskCacheBuffer
