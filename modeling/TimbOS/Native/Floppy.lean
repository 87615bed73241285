import Mathlib

/-!
# The floppy drive

`FloppyDrive` of `floppy.cpp` reads whole cylinders through the controller and keeps the
last one in a cache. `FloppyController::read_cyl` is a parameter with states `σ` of its
own: it returns an error code and leaves something in the cache.

A buffer that is read into holds `count * 512` bytes of the address space, so offsets in
it do not wrap around. Block numbers may.
-/

namespace TimbOS.Native.Floppy

inductive FloppyDriveType where
  | floppyDriveNone
  | floppyDrive360k
  | floppyDrive1_2M
  | floppyDrive720k
  | floppyDrive1_44M
  | floppyDrive2_88M
  deriving DecidableEq, Repr

inductive Fault where
  | divideByZero
  deriving DecidableEq, Repr

/-- `FloppyController::read_cyl( cyl_index, dma_buffer )`: the error code, what the buffer
    holds afterwards, by offset, and the controller's new state. -/
structure FloppyController (σ : Type) where
  readCyl : σ → Nat → Int × (Nat → UInt8) × σ

structure FloppyDrive where
  type : FloppyDriveType
  /-- The bytes at `_cyl_cache`. -/
  cylCache : Nat → UInt8
  /-- `(unsigned)_cached_cyl_index` -/
  cachedCylIndex : Nat

/-- A call of `read_cyl` and its error code. -/
structure CylCall where
  cylinder : Nat
  error : Int
  deriving DecidableEq, Repr

/-- What a read returns and leaves behind: the result, the bytes that reached the buffer,
    the drive, the controller and the calls of `read_cyl`. -/
structure Reply (σ : Type) where
  ok : Bool
  bytes : List UInt8
  drive : FloppyDrive
  controller : σ
  calls : List CylCall

namespace FloppyDrive

/-- `sectors_per_cyl()` -/
def sectorsPerCyl : FloppyDriveType → Nat
  | .floppyDrive1_2M => 15 * 2
  | .floppyDrive1_44M => 18 * 2
  | _ => 0

/-- `block_size()` -/
def blockSize : Nat := 512

/-- `block_count()` -/
def blockCount : FloppyDriveType → Nat
  | .floppyDrive1_2M => 80 * sectorsPerCyl .floppyDrive1_2M
  | .floppyDrive1_44M => 80 * sectorsPerCyl .floppyDrive1_44M
  | _ => 0

/-- `FloppyDrive( … )`, where the cache pages hold `cylCache`. The cached index is `-1`. -/
def construct (type : FloppyDriveType) (cylCache : Nat → UInt8) : FloppyDrive where
  type := type
  cylCache := cylCache
  cachedCylIndex := 2 ^ 32 - 1

variable {σ : Type} (controller : FloppyController σ)

/-- The first half of `read_block`: have the controller read the cylinder into the cache,
    unless its index says that it is there. The index changes even if the read fails. -/
def loadCylinder (d : FloppyDrive) (s : σ) (cylinder : Nat) :
    Int × FloppyDrive × σ × List CylCall :=
  if cylinder ≠ d.cachedCylIndex then
    -- what the controller has left in the buffer, whether it succeeded or not
    let (error, data, s) := controller.readCyl s cylinder
    (error, { d with cylCache := data, cachedCylIndex := cylinder }, s, [⟨cylinder, error⟩])
  else
    (0, d, s, [])

/-- `read_block( block_index, buffer )` -/
def readBlock (d : FloppyDrive) (s : σ) (blockIndex : Nat) : Except Fault (Reply σ) :=
  if sectorsPerCyl d.type = 0 then
    .error .divideByZero
  else
    let cylinder := blockIndex / sectorsPerCyl d.type
    let offset := (blockIndex % sectorsPerCyl d.type) * blockSize
    let (error, d, s, calls) := loadCylinder controller d s cylinder
    if error = 0 then
      -- `memcpy( buffer, _cyl_cache + offset, block_size() )`
      .ok ⟨true, (List.range blockSize).map fun k => d.cylCache (offset + k), d, s, calls⟩
    else
      .ok ⟨false, [], d, s, calls⟩

/-- The loop of `read`, with `n` blocks left from index `i` on. -/
def readLoop (firstBlockIndex : Nat) :
    Nat → Nat → FloppyDrive → σ → Except Fault (Reply σ)
  | 0, _, d, s => .ok ⟨true, [], d, s, []⟩
  | n + 1, i, d, s => do
    let r ← readBlock controller d s ((firstBlockIndex + i) % 2 ^ 32)
    if r.ok then
      let rest ← readLoop firstBlockIndex n (i + 1) r.drive r.controller
      .ok { rest with bytes := r.bytes ++ rest.bytes, calls := r.calls ++ rest.calls }
    else
      -- `return false;` in the middle of the loop: the blocks before stay in the buffer
      .ok r

/-- `read( first_block_index, block_count, buffer )` -/
def read (d : FloppyDrive) (s : σ) (firstBlockIndex blockCount : Nat) : Except Fault (Reply σ) :=
  readLoop controller firstBlockIndex blockCount 0 d s

end FloppyDrive

end TimbOS.Native.Floppy
