import TimbOS.Native.Mm

/-!
# The disk cache

`DiskCacheBuffer` of `diskcacheimpl.cpp` holds the pages of some blocks of a device. Clients
lock it to use the pages and unlock it afterwards. What the page allocator and the device
answer is given with each call. `DiskCache` hands out buffers and has a map for those that
begin with a block.
-/

namespace TimbOS.Native

/-- The answers of `mm::alloc_pages`, for a number of pages, and of `IBlockDevice::read`, for
    the first block and their number. An address is 0 if there are no pages. -/
structure DiskCacheEnvironment where
  allocPages : Nat → Nat
  read : Nat → Nat → Bool

/-- `enum DiskCacheBufferStatus` -/
inductive DiskCacheBufferStatus where
  | dcbPresent
  | dcbNotPresent
  deriving DecidableEq, Repr

structure DiskCacheBuffer where
  firstBlock : Nat
  blockCount : Nat
  length : Nat
  lockCount : Nat
  /-- An address, or 0. -/
  buffer : Nat
  status : DiskCacheBufferStatus
  deriving DecidableEq, Repr

namespace DiskCacheBuffer

/-- `DiskCacheBuffer( pDevice, first_block, block_count, load )`, where `blockSize` is
    `pDevice->block_size()`. -/
def construct (env : DiskCacheEnvironment) (blockSize firstBlock blockCount : Nat) (load : Bool) :
    DiskCacheBuffer :=
  let c : DiskCacheBuffer :=
    { firstBlock := firstBlock
      blockCount := blockCount
      length := (blockCount * blockSize) % 2 ^ 32
      lockCount := 0
      buffer := 0
      status := .dcbNotPresent }
  if load then
    let c := { c with buffer := env.allocPages (Mm.calcRequiredPageCount c.length) }
    -- a buffer without memory is not read, and one that cannot be read is not present
    if c.buffer ≠ 0 ∧ env.read c.firstBlock c.blockCount = true then
      { c with status := .dcbPresent }
    else
      c
  else
    c

/-- `lock()`: the pointer for the client, and the buffer. -/
def lock (env : DiskCacheEnvironment) (c : DiskCacheBuffer) : Nat × DiskCacheBuffer :=
  match c.status with
  | .dcbPresent => (c.buffer, { c with lockCount := add32 c.lockCount 1 })
  | .dcbNotPresent =>
    let c :=
      if c.buffer = 0 then
        { c with buffer := env.allocPages (Mm.calcRequiredPageCount c.length) }
      else
        c
    if c.buffer ≠ 0 ∧ env.read c.firstBlock c.blockCount = true then
      -- the other way to succeed, without a lock
      (c.buffer, { c with status := .dcbPresent })
    else
      -- the memory stays with the buffer, for the next attempt
      (0, c)

/-- `unlock()` -/
def unlock (c : DiskCacheBuffer) : DiskCacheBuffer :=
  { c with lockCount := sub32 c.lockCount 1 }

/-- `locked()` -/
def locked (c : DiskCacheBuffer) : Bool := c.lockCount > 0

/-- `free()`: its result, what `mm::free_pages` is called with, and the buffer. -/
def free (c : DiskCacheBuffer) : Bool × Option Nat × DiskCacheBuffer :=
  if c.locked then
    -- a client has a pointer into the buffer
    (false, none, c)
  else
    (true, some c.buffer, { c with buffer := 0, status := .dcbNotPresent })

/-- The reads of the device that the constructor makes: first block and number of blocks. -/
def constructReads (env : DiskCacheEnvironment) (blockSize firstBlock blockCount : Nat)
    (load : Bool) : List (Nat × Nat) :=
  if load = true ∧
      env.allocPages (Mm.calcRequiredPageCount ((blockCount * blockSize) % 2 ^ 32)) ≠ 0 then
    [(firstBlock, blockCount)]
  else
    []

/-- The reads that `lock()` makes. -/
def lockReads (env : DiskCacheEnvironment) (c : DiskCacheBuffer) : List (Nat × Nat) :=
  if c.status = .dcbNotPresent ∧
      (c.buffer ≠ 0 ∨ env.allocPages (Mm.calcRequiredPageCount c.length) ≠ 0) then
    [(c.firstBlock, c.blockCount)]
  else
    []

end DiskCacheBuffer

/-! ## `DiskCache` -/

/-- The buffers that have been created, and `_cache`. A pointer to a buffer is its place in the
    list. `blockSize` is `_pDevice->block_size()`. -/
structure DiskCache where
  blockSize : Nat
  buffers : List DiskCacheBuffer
  cacheMap : Nat → Option Nat
  cacheMap_lt : ∀ block i, cacheMap block = some i → i < buffers.length

namespace DiskCache

/-- `DiskCache( pDevice )` -/
def construct (blockSize : Nat) : DiskCache where
  blockSize := blockSize
  buffers := []
  cacheMap := fun _ => none
  cacheMap_lt := nofun

/-- The pointer that a request returns, the buffer there, and the reads of the device. -/
structure Reply where
  pointer : Nat
  buffer : DiskCacheBuffer
  reads : List (Nat × Nat)

/-- `return new DiskCacheBuffer( _pDevice, first_block, block_count, load );` -/
def newBuffer (env : DiskCacheEnvironment) (d : DiskCache) (firstBlock blockCount : Nat)
    (load : Bool) : Reply × DiskCache :=
  let c := DiskCacheBuffer.construct env d.blockSize firstBlock blockCount load
  (⟨d.buffers.length, c,
      DiskCacheBuffer.constructReads env d.blockSize firstBlock blockCount load⟩,
    { d with
      buffers := d.buffers ++ [c]
      cacheMap_lt := by
        intro block i h
        rw [List.length_append]
        exact Nat.lt_of_lt_of_le (d.cacheMap_lt block i h) (Nat.le_add_right _ _) })

/-- `buffer->lock(); return buffer;` -/
def lockBuffer (env : DiskCacheEnvironment) (d : DiskCache) (i : Fin d.buffers.length) :
    Reply × DiskCache :=
  let (_, c) := (d.buffers.get i).lock env
  (⟨i, c, (d.buffers.get i).lockReads env⟩,
    { d with
      buffers := d.buffers.set i c
      cacheMap_lt := by
        intro block j h
        rw [List.length_set]
        exact d.cacheMap_lt block j h })

/-- What `prepare` and `cache` have in common. -/
def request (load : Bool) (env : DiskCacheEnvironment) (d : DiskCache)
    (firstBlock blockCount : Nat) : Reply × DiskCache :=
  match h : d.cacheMap firstBlock with
  | some i =>
    let i : Fin d.buffers.length := ⟨i, d.cacheMap_lt firstBlock i h⟩
    -- a buffer that is larger than what is asked for is not taken
    if (d.buffers.get i).blockCount ≤ blockCount then
      lockBuffer env d i
    else
      newBuffer env d firstBlock blockCount load
  -- the new buffer does not get into the map
  | none => newBuffer env d firstBlock blockCount load

/-- `prepare( first_block, block_count )` -/
def prepare (env : DiskCacheEnvironment) (d : DiskCache) (firstBlock blockCount : Nat) :
    Reply × DiskCache :=
  request false env d firstBlock blockCount

/-- `cache( first_block, block_count )` -/
def cache (env : DiskCacheEnvironment) (d : DiskCache) (firstBlock blockCount : Nat) :
    Reply × DiskCache :=
  request true env d firstBlock blockCount

end DiskCache

end TimbOS.Native
