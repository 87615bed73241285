import TimbOS.ForStd.Memory
import TimbOS.Native.Mmdef
import TimbOS.Native.Multiboot

/-!
# Physical memory

`physical.cpp` divides the memory into three pools of page frames and keeps, for each
frame, an `int` that says whether it is in use. The three arrays lie behind the kernel
image, in the memory that they describe; they are words of byte memory here, so that an
index past the end of an array is visible.

The boot loader's memory map is read from a memory of its own: the bitmaps do not
overwrite it. `none` stands for a call that does not return, because of `PANIC`, of a
loop without end or of a division by zero.
-/

namespace TimbOS.Native.Physical

open ForStd Multiboot

/-- `DMAPool`, `DefaultPool` and `HiMemPool` -/
inductive PoolId where
  | dmaPool
  | defaultPool
  | hiMemPool
  deriving DecidableEq, Repr

/-- A pool with its `_fallback`, the fallback of that, and so on. -/
def PoolId.chain : PoolId → List PoolId
  | .dmaPool => [.dmaPool]
  | .defaultPool => [.defaultPool, .dmaPool]
  | .hiMemPool => [.hiMemPool, .defaultPool, .dmaPool]

structure PhysicalPool where
  base : Nat
  numPageframes : Nat
  prevIdx : Nat
  bitmap : Nat

namespace PhysicalPool

def addressOf (pool : PhysicalPool) (idx : Nat) : Nat := add32 pool.base (idx * pageSize)

def indexOf (pool : PhysicalPool) (addr : Nat) : Nat := sub32 addr pool.base / pageSize

def size (pool : PhysicalPool) : Nat := pool.numPageframes * pageSize % 2 ^ 32

def limit (pool : PhysicalPool) : Nat := add32 pool.base pool.size

end PhysicalPool

/-- `while( (i + _prev_idx) % alignment ) ++i;` takes fewer steps than `alignment`. It
    stops before `i + _prev_idx` could wrap around, at the latest when that is
    `alignment` or there are as many frames as `alignment`. -/
def firstAligned (prevIdx alignment : Nat) : Nat → Nat → Nat
  | 0, i => i
  | fuel + 1, i =>
    if (i + prevIdx) % alignment ≠ 0 then firstAligned prevIdx alignment fuel (i + 1) else i

/-- Memory and the static pools. -/
structure State where
  mem : Mem
  pool : PoolId → PhysicalPool

namespace State

/-- `_num_pageframes` of a pool. -/
def numPageframes (s : State) (p : PoolId) : Nat := (s.pool p).numPageframes

/-- `status(idx)`. The address wraps around with the memory. -/
def status (s : State) (p : PoolId) (idx : Nat) : Nat :=
  s.mem.load32 ((s.pool p).bitmap + 4 * idx)

def setStatus (s : State) (p : PoolId) (idx v : Nat) : State :=
  { s with mem := s.mem.store32 ((s.pool p).bitmap + 4 * idx) v }

def setPool (s : State) (p : PoolId) (pool : PhysicalPool) : State :=
  { s with pool := fun q => if q = p then pool else s.pool q }

/-! ## `PhysicalPool` -/

/-- `for( j = 0; j < count; ++j ) status(idx + j) = v;` -/
def fill (s : State) (p : PoolId) (idx v : Nat) : Nat → State
  | 0 => s
  | count + 1 => (fill s p idx v count).setStatus p (idx + count) v

/-- `PhysicalPool::init` -/
def initPool (s : State) (p : PoolId) (base numPageframes bitmap : Nat) : State :=
  (s.setPool p ⟨base, numPageframes, 0, bitmap⟩).fill p 0 0 numPageframes

/-- The inner loop of `alloc`: `ok`. -/
def runFree (s : State) (p : PoolId) (pages i : Nat) : Prop :=
  ∀ j < pages, s.status p (((s.pool p).prevIdx + i + j) % 2 ^ 32 % s.numPageframes p) = 0

instance (s : State) (p : PoolId) (pages i : Nat) : Decidable (s.runFree p pages i) :=
  inferInstanceAs (Decidable (∀ j < pages, _))

/-- The search of `alloc` from `i` on. It takes at most `_num_pageframes` steps. An `i` that
    passes `_num_pageframes` does not wrap around: an alignment that is larger than the pool
    leaves no `i` but `0` below it. -/
def findRun (s : State) (p : PoolId) (pages alignment : Nat) : Nat → Nat → Option Nat
  | 0, _ => none
  | fuel + 1, i =>
    if i < s.numPageframes p then
      if s.runFree p pages i then some i
      else findRun s p pages alignment fuel (i + alignment)
    else
      none

/-- The rest of `alloc`, with the run at `idx`: mark it, and return its address. -/
def takeRun (s : State) (p : PoolId) (pages idx : Nat) : Nat × State :=
  -- `status(idx + j)`, not modulo the size of the pool
  let s := s.fill p idx 1 pages
  let pool := s.pool p
  (pool.addressOf idx,
    s.setPool p { pool with prevIdx := (idx + pages) % 2 ^ 32 % pool.numPageframes })

/-- `PhysicalPool::alloc` on the first pool of a chain. -/
def allocFrom (s : State) (pages alignment : Nat) : List PoolId → Option (Nat × State)
  | [] => some (0, s)
  | p :: fallbacks =>
    if alignment = 0 then
      none
    else
      let pool := s.pool p
      match s.findRun p pages alignment (pool.numPageframes + 1)
          (firstAligned pool.prevIdx alignment alignment 0) with
      | some i => some (s.takeRun p pages ((pool.prevIdx + i) % pool.numPageframes))
      -- `return _fallback->alloc( pages, alignment );`
      | none => allocFrom s pages alignment fallbacks

/-! ## `mm::physical` -/

/-- `PhysicalPool::alloc` on a static pool. -/
def allocPool (s : State) (p : PoolId) (pages align : Nat) : Option (Nat × State) :=
  s.allocFrom pages align p.chain

/-- `alloc_dma( pages, align )` -/
def allocDma (s : State) (pages align : Nat) : Option (Nat × State) :=
  s.allocPool .dmaPool pages align

/-- `alloc( pages, align )` -/
def alloc (s : State) (pages align : Nat) : Option (Nat × State) :=
  s.allocPool .defaultPool pages align

/-- `alloc_himem( pages, align )` -/
def allocHimem (s : State) (pages align : Nat) : Option (Nat × State) :=
  s.allocPool .hiMemPool pages align

/-- `find_pool( physical_addr )` -/
def findPool (s : State) (physicalAddr : Nat) : Option PoolId :=
  -- the first pool that does not end before the address
  if physicalAddr < (s.pool .dmaPool).limit then some .dmaPool
  else if physicalAddr < (s.pool .defaultPool).limit then some .defaultPool
  else if physicalAddr < (s.pool .hiMemPool).limit then some .hiMemPool
  else none

/-- Set the status of the frame at `physicalAddr` in the pool that `find_pool` gives. -/
def setFrame (s : State) (physicalAddr v : Nat) : State :=
  match s.findPool physicalAddr with
  | some p => s.setStatus p ((s.pool p).indexOf physicalAddr) v
  -- no pool holds the address: nothing is marked
  | none => s

/-- `free( physical_addr, pages )` -/
def free (s : State) (physicalAddr : Nat) : Nat → State
  | 0 => s
  | pages + 1 => (free s physicalAddr pages).setFrame (add32 physicalAddr (pages * pageSize)) 0

/-- `reserve( physical_addr )` -/
def reserve (s : State) (physicalAddr : Nat) : State := s.setFrame physicalAddr 1

/-- The loop of `reserve_range`, whose counter `i` wraps around. -/
def reserveRangeLoop (physicalAddr size : Nat) : Nat → Nat → State → Option State
  | 0, _, _ => none
  | fuel + 1, i, s =>
    if i < size then
      reserveRangeLoop physicalAddr size fuel (add32 i pageSize) (s.reserve (add32 physicalAddr i))
    else
      some s

/-- `reserve_range( physical_addr, size )`. After `2 ^ 20` steps the counter is back at `0`. -/
def reserveRange (s : State) (physicalAddr size : Nat) : Option State :=
  reserveRangeLoop physicalAddr size (2 ^ 20 + 1) 0 s

end State

/-! ## `mm::physical::init` -/

/-- `while( *pos & align ) ++*pos;` ends at `0` if not before. -/
def skipAlign (align : Nat) : Nat → Nat → Nat
  | 0, pos => pos
  | fuel + 1, pos => if pos &&& align ≠ 0 then skipAlign align fuel (add32 pos 1) else pos

/-- `linear_alloc( size, align, pos )`: the object's virtual address and the new `*pos`. -/
def linearAlloc (size align pos : Nat) : Nat × Nat :=
  let objPhysical := skipAlign align (2 ^ 32) pos
  (add32 objPhysical kernelVirtualBase, add32 objPhysical size)

/-- The pools that `init` sets up before it reserves anything, and `kernel_static_end` behind
    the bitmaps. -/
def setup (mem : Mem) (pool : PoolId → PhysicalPool)
    (kernelStaticEnd kernelDynamicEnd himemEnd : Nat) : State × Nat :=
  let dmaPoolSize :=
    if dmaMemoryLimit < kernelDynamicEnd then dmaMemoryLimit else kernelDynamicEnd
  let defaultPoolSize := sub32 kernelDynamicEnd dmaPoolSize
  let himemPoolSize := sub32 himemEnd kernelDynamicEnd
  let dmaPoolPages := dmaPoolSize / pageSize
  let defaultPoolPages := defaultPoolSize / pageSize
  let himemPoolPages := himemPoolSize / pageSize
  -- the bitmaps lie behind the kernel, one after the other
  let (dmaPoolBitmap, kernelStaticEnd) := linearAlloc (dmaPoolPages * 4) 16 kernelStaticEnd
  let (defaultPoolBitmap, kernelStaticEnd) := linearAlloc (defaultPoolPages * 4) 16 kernelStaticEnd
  let (himemPoolBitmap, kernelStaticEnd) := linearAlloc (himemPoolPages * 4) 16 kernelStaticEnd
  -- the pools follow one another in memory
  let dmaPoolStart := 0
  let defaultPoolStart := add32 dmaPoolStart dmaPoolSize
  let himemPoolStart := add32 defaultPoolStart defaultPoolSize
  let s : State := ⟨mem, pool⟩
  let s := s.initPool .dmaPool dmaPoolStart dmaPoolPages dmaPoolBitmap
  let s := s.initPool .defaultPool defaultPoolStart defaultPoolPages defaultPoolBitmap
  let s := s.initPool .hiMemPool himemPoolStart himemPoolPages himemPoolBitmap
  (s, kernelStaticEnd)

/-- What `init` does with an entry of the memory map: the address and the length of a
    reserved range are cut to 32 bits. -/
def reserveEntry (entry : MmapEntry) (s : State) : Option State :=
  if entry.type &&& memoryAvailable = 0 then
    s.reserveRange (entry.addr % 2 ^ 32) (entry.len % 2 ^ 32)
  else
    some s

/-- `init( mbt, kernel_static_end, kernel_dynamic_end, himem_end )`, where `boot` holds the
    boot loader's memory map. -/
def init (boot : Mem) (mbt : MultibootInfo) (mem : Mem) (pool : PoolId → PhysicalPool)
    (kernelStaticEnd kernelDynamicEnd himemEnd : Nat) : Option State := do
  if himemEnd = 0 then
    none
  else
    let (s, kernelStaticEnd) := setup mem pool kernelStaticEnd kernelDynamicEnd himemEnd
    -- what is not available, and then the kernel with the bitmaps
    let s ← iterateMmap boot mbt reserveEntry s
    s.reserveRange 0 kernelStaticEnd

end TimbOS.Native.Physical
