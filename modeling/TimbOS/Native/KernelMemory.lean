import TimbOS.Native.KHeap
import TimbOS.Native.Pages

/-!
# The memory of the kernel

The heap and the page frame pools work on one memory. A chunk lies in pages that
`mm::alloc_pages` hands out and `mm::free_pages` takes back, and the bitmaps that say which
pages are in use lie behind the kernel image.
-/

namespace TimbOS.Native.Mm

open ForStd KHeap
open Physical (State PoolId PhysicalPool)

/-- Memory, the static pools, and the `_first_chunk` of every group. -/
structure KernelMemory where
  mem : Mem
  pool : PoolId → PhysicalPool
  firstChunk : Group → Nat

namespace KernelMemory

/-- What `mm::physical` works on. -/
def physical (k : KernelMemory) : State := ⟨k.mem, k.pool⟩

/-- What `mm::heap` works on. -/
def heap (k : KernelMemory) : Heap := ⟨k.mem, k.firstChunk⟩

def withPhysical (k : KernelMemory) (s : State) : KernelMemory :=
  { k with mem := s.mem, pool := s.pool }

def withHeap (k : KernelMemory) (h : Heap) : KernelMemory :=
  { k with mem := h.mem, firstChunk := h.firstChunk }

/-- What can go wrong in the heap, or a call to the page allocator that does not return. -/
inductive Fault where
  | heap (fault : KHeap.Fault)
  | pages
  deriving DecidableEq, Repr

/-- The number of pages that `mm::heap::alloc( size )` asks for, when no chunk of the group is
    chained. -/
def pagesAsked (k : KernelMemory) (size : Nat) : Option Nat :=
  match findChunkGroup size with
  | some g => if k.firstChunk g = 0 then some (sizeClass g).pageCount else none
  | none => none

/-- What `mm::alloc_pages` answers to them, if it is asked. -/
def pagesFor (k : KernelMemory) (size : Nat) : Option (Nat × State) :=
  match k.pagesAsked size with
  | some count => allocPages k.physical count 1
  | none => some (0, k.physical)

/-- `mm::heap::alloc( size )`, and its calls to the page allocator. A group asks for pages
    before it touches the memory. -/
def heapAlloc (k : KernelMemory) (size : Nat) :
    Except Fault (Nat × KernelMemory × List PageCall) :=
  match k.pagesFor size with
  | none => .error .pages
  | some (p, s) =>
    match (k.withPhysical s).heap.alloc size p with
    | .error fault => .error (.heap fault)
    | .ok (ptr, h, calls) => .ok (ptr, (k.withPhysical s).withHeap h, calls)

/-- A call of `mm::free_pages`. -/
def release (k : KernelMemory) : PageCall → KernelMemory
  | .allocPages _ _ _ => k
  | .freePages addr count => k.withPhysical (freePages k.physical addr count)

/-- `mm::heap::free( ptr )`, and its calls to the page allocator. An emptied chunk is given back
    when it is out of all lists. -/
def heapFree (k : KernelMemory) (ptr : Nat) : Except Fault (KernelMemory × List PageCall) :=
  match k.heap.free ptr with
  | .error fault => .error (.heap fault)
  | .ok (h, calls) => .ok (calls.foldl release (k.withHeap h), calls)

end KernelMemory

end TimbOS.Native.Mm
