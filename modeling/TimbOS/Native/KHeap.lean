import TimbOS.ForStd.Memory
import TimbOS.Native.Mmdef

/-!
# The kernel heap

`kheap.cpp` serves an allocation from one of 17 *chunk groups*, one for each
object size. A group carves the pages it gets from `mm::alloc_pages` into
*chunks*, and a chunk holds objects of the group's size. The words of a chunk at
address `b` of a group with object size `s` are

* `b`, `b + 4`, `b + 8`: `_next`, `_first_free` and `_free_count`;
* `o`, `o + 4` for the `i`-th object at `o = b + 12 + i * (8 + s)`: `_status` and
  the union of `_next` and `_size`. The object's data starts at `o + 8`.

Chunks and objects live in byte memory here, as in the kernel, so that a header
which overlapped another object would be visible. The groups themselves are
static data of the kernel and are kept beside the memory. Their counters
`_chunk_count`, `_free_object_count` and `_alloc_count` are never read.
-/

namespace TimbOS.Native.KHeap

open ForStd

/-- `HeapObjectStatus` -/
inductive HeapObjectStatus where
  | free
  | used
  | init
  deriving DecidableEq, Repr

/-- The word that stands for a status in memory. -/
def HeapObjectStatus.value : HeapObjectStatus → Nat
  | .free => 0x11111111
  | .used => 0xFFFFFFFF
  | .init => 0x33333333

/-- What can go wrong inside the allocator. -/
inductive Fault where
  /-- A member function is called on a null `_first_free`. -/
  | nullFirstFree
  /-- `PANIC( "huh?! where has my half-full chunk gone?!\n" )` -/
  | lostChunk
  /-- The walk along the chunk list never ends. -/
  | endlessWalk
  deriving DecidableEq, Repr

/-- The template arguments of a `heap_chunk_group`. -/
structure SizeClass where
  objSize : Nat
  pageCount : Nat
  deriving DecidableEq, Repr

/-- `sizeof(heap_object<obj_size>)`. Every object size is a multiple of the word
    size, so there is no padding behind the data. -/
def sizeofHeapObject (objSize : Nat) : Nat := 8 + objSize

namespace SizeClass

variable (c : SizeClass)

/-- `overhead_size`, which the source says to "change when adding fields". It
    counts two of the three words in front of the objects. -/
def overheadSize : Nat := 8

def totalSize : Nat := c.pageCount * pageSize

def payloadSize : Nat := c.totalSize - overheadSize

def objectCount : Nat := c.payloadSize / sizeofHeapObject c.objSize

end SizeClass

/-! ## `heap_object` -/

namespace HeapObject

variable (m : Mem) (this : Nat)

/-- `heap_object()` -/
def constructInit : Mem :=
  (m.store32 this HeapObjectStatus.init.value).store32 (this + 4) 0

/-- `heap_object( next )` -/
def constructFree (next : Nat) : Mem :=
  (m.store32 this HeapObjectStatus.free.value).store32 (this + 4) next

def isUsed : Bool := m.load32 this == HeapObjectStatus.used.value

def size : Nat := m.load32 (this + 4)

/-- `alloc( pchain )` of an object with `objSize` bytes of data. -/
def alloc (objSize pchain : Nat) : Nat × Mem :=
  -- the chain goes on behind this object
  let m := m.store32 pchain (m.load32 (this + 4))
  let m := m.store32 this HeapObjectStatus.used.value
  let m := m.store32 (this + 4) objSize
  (this + 8, m)

/-- `free( pchain )` -/
def free (pchain : Nat) : Mem :=
  -- this object becomes the head of the chain
  let m := m.store32 (this + 4) (m.load32 pchain)
  let m := m.store32 pchain this
  m.store32 this HeapObjectStatus.free.value

end HeapObject

/-! ## `heap_chunk` -/

namespace HeapChunk

variable (c : SizeClass) (m : Mem) (this : Nat)

/-- Address of `_objects[i]`. -/
def objAddr (i : Nat) : Nat := this + 12 + i * sizeofHeapObject c.objSize

/-- Address of the data of `_objects[i]`. -/
def dataAddr (i : Nat) : Nat := objAddr c this i + 8

def next : Nat := m.load32 this

def firstFree : Nat := m.load32 (this + 4)

def freeCount : Nat := m.load32 (this + 8)

/-- The loop of the constructor: build the objects below index `i` in front of
    `next`, last one first. -/
def buildFreeList : Nat → Mem → Nat → Mem × Nat
  | 0, m, next => (m, next)
  | i + 1, m, next =>
    buildFreeList i (HeapObject.constructFree m (objAddr c this i) next) (objAddr c this i)

/-- `heap_chunk()`: the member initialisers, the default construction of the
    objects, and the body. -/
def construct : Mem :=
  -- `_next(0)`, `_first_free(0)`, `_free_count(object_count)`
  let m := m.store32 this 0
  let m := m.store32 (this + 4) 0
  let m := m.store32 (this + 8) c.objectCount
  -- `_objects` is an array of objects with a default constructor
  let m := (List.range c.objectCount).foldl
    (fun m i => HeapObject.constructInit m (objAddr c this i)) m
  -- the body: the last object, and the others in front of it
  let last := objAddr c this (c.objectCount - 1)
  let m := HeapObject.constructFree m last 0
  let (m, next) := buildFreeList c this (c.objectCount - 1) m last
  m.store32 (this + 4) next

def alloc : Except Fault (Nat × Mem) :=
  if firstFree m this = 0 then
    .error .nullFirstFree
  else
    let (ptr, m) := HeapObject.alloc m (firstFree m this) c.objSize (this + 4)
    .ok (ptr, m.store32 (this + 8) (sub32 (freeCount m this) 1))

def free (ptr : Nat) : Mem :=
  let m := HeapObject.free m (sub32 ptr (sizeofHeapObject 0)) (this + 4)
  m.store32 (this + 8) (add32 (freeCount m this) 1)

def chain (next : Nat) : Mem := m.store32 this next

def full : Bool := firstFree m this == 0

def empty : Bool := freeCount m this == c.objectCount

end HeapChunk

/-! ## `heap_chunk_group` -/

/-- The 17 groups, in the order of `s_heap_chunk_groups`. -/
def heapChunkGroups : List SizeClass :=
  [⟨8, 1⟩, ⟨16, 1⟩, ⟨32, 1⟩, ⟨64, 1⟩, ⟨128, 1⟩, ⟨256, 1⟩, ⟨512, 1⟩, ⟨1024 - 16, 1⟩,
    ⟨2048 - 16, 1⟩, ⟨4096 - 20, 1⟩, ⟨8192 - 20, 2⟩, ⟨16384 - 20, 4⟩, ⟨32768 - 20, 8⟩,
    ⟨65536 - 20, 16⟩, ⟨131072 - 20, 32⟩, ⟨262144 - 20, 64⟩, ⟨524288 - 20, 128⟩]

/-- An index into `s_heap_chunk_groups`. -/
abbrev Group := Fin heapChunkGroups.length

def sizeClass (g : Group) : SizeClass := heapChunkGroups.get g

/-- A call that a group makes to the page allocator. -/
inductive PageCall where
  /-- `mm::alloc_pages( count )` returned `result`. -/
  | allocPages (group : Group) (count result : Nat)
  /-- `mm::free_pages( addr, count )` -/
  | freePages (addr count : Nat)
  deriving DecidableEq, Repr

/-- The heap: memory and the `_first_chunk` of every group. -/
structure Heap where
  mem : Mem
  firstChunk : Group → Nat

namespace HeapChunkGroup

/-- Set `_first_chunk` of group `g`. -/
def setFirstChunk (h : Heap) (g : Group) (b : Nat) : Heap :=
  { h with firstChunk := fun g' => if g' = g then b else h.firstChunk g' }

/-- `alloc_from_new()`, where `p` is what `mm::alloc_pages` returns. -/
def allocFromNew (h : Heap) (g : Group) (p : Nat) : Except Fault (Nat × Heap × List PageCall) :=
  let c := sizeClass g
  let calls := [PageCall.allocPages g c.pageCount p]
  if p = 0 then
    .ok (0, h, calls)
  else do
    let (obj, m) ← HeapChunk.alloc c (HeapChunk.construct c h.mem p) p
    if !HeapChunk.full m p then
      .ok (obj, setFirstChunk { h with mem := HeapChunk.chain m p (h.firstChunk g) } g p, calls)
    else
      -- "Don't have to chain a already-full chunk"
      .ok (obj, { h with mem := m }, calls)

/-- `alloc()`. The page allocator is asked only when no chunk is chained; `p` is its
    answer in that case. -/
def alloc (h : Heap) (g : Group) (p : Nat) : Except Fault (Nat × Heap × List PageCall) :=
  let first := h.firstChunk g
  if first ≠ 0 then do
    let (obj, m) ← HeapChunk.alloc (sizeClass g) h.mem first
    if HeapChunk.full m first then
      -- the chunk is full now and leaves the list
      .ok (obj, setFirstChunk { h with mem := m } g (HeapChunk.next m first), [])
    else
      .ok (obj, { h with mem := m }, [])
  else
    allocFromNew h g p

/-- `while( ch && ch->next() != chunk ) ch = ch->next();` and the value of `ch` behind
    it. The walk reads an unchanging memory, so a walk that has not ended within
    `2 ^ 32` steps has come back to a chunk it visited before and never ends. -/
def findPrev (m : Mem) (chunk : Nat) : Nat → Nat → Option Nat
  | 0, _ => none
  | fuel + 1, ch =>
    if ch ≠ 0 ∧ HeapChunk.next m ch ≠ chunk then
      findPrev m chunk fuel (HeapChunk.next m ch)
    else
      some ch

/-- Take an emptied chunk out of the list that starts at `_first_chunk`. -/
def unlink (h : Heap) (g : Group) (chunk : Nat) : Except Fault Heap :=
  if chunk = h.firstChunk g then
    .ok (setFirstChunk h g (HeapChunk.next h.mem chunk))
  else
    match findPrev h.mem chunk (2 ^ 32) (h.firstChunk g) with
    | none => .error .endlessWalk
    | some ch =>
      if ch ≠ 0 then
        .ok { h with mem := HeapChunk.chain h.mem ch (HeapChunk.next h.mem chunk) }
      else
        -- the walk has come to the end of the list
        .error .lostChunk

/-- `free( ptr )` -/
def free (h : Heap) (g : Group) (ptr : Nat) : Except Fault (Heap × List PageCall) :=
  let c := sizeClass g
  let chunk := pageOf ptr
  let wasFull := HeapChunk.full h.mem chunk
  let h := { h with mem := HeapChunk.free h.mem chunk ptr }
  if HeapChunk.empty c h.mem chunk then do
    -- a chunk that was full is in no list
    let h ← if !wasFull then unlink h g chunk else .ok h
    .ok (h, [.freePages chunk c.pageCount])
  else if wasFull then
    -- it has a free object again
    .ok (setFirstChunk { h with mem := HeapChunk.chain h.mem chunk (h.firstChunk g) } g chunk, [])
  else
    .ok (h, [])

end HeapChunkGroup

/-! ## `mm::heap` -/

/-- `find_chunk_group( request_size )` -/
def findChunkGroup (requestSize : Nat) : Option Group :=
  (List.finRange heapChunkGroups.length).find? fun g => requestSize ≤ (sizeClass g).objSize

namespace Heap

/-- `mm::heap::alloc( size )`, where `p` is what `mm::alloc_pages` returns if it is called. -/
def alloc (h : Heap) (size p : Nat) : Except Fault (Nat × Heap × List PageCall) :=
  match findChunkGroup size with
  | some g => HeapChunkGroup.alloc h g p
  | none => .ok (0, h, [])

/-- `mm::heap::free( ptr )`. A pointer whose header does not say "used" is only
    reported on the debug port. -/
def free (h : Heap) (ptr : Nat) : Except Fault (Heap × List PageCall) :=
  -- the header in front of the data
  let obj := sub32 ptr (sizeofHeapObject 0)
  if HeapObject.isUsed h.mem obj then
    match findChunkGroup (HeapObject.size h.mem obj) with
    | some g => HeapChunkGroup.free h g ptr
    | none => .ok (h, [])
  else
    .ok (h, [])

end Heap

end TimbOS.Native.KHeap
