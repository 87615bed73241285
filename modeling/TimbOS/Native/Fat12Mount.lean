import TimbOS.Native.Fat12
import TimbOS.Native.KlibcString

/-!
# Mounting a FAT12 file system

`FAT12FileSystem::tryCreate` looks at the boot sector and reads the file allocation table
from the device, `root_directory` opens the root directory. All sizes come from the boot
sector. The allocations of the vectors succeed, as in `Native.Fat12`.
-/

namespace TimbOS.Native.Fat12

/-- A device cannot change the size of the buffer that it reads into. -/
structure Disk (σ : Type) extends BlockDevice σ where
  length_read : ∀ s first count buffer, (read s first count buffer).2.1.length = buffer.length

/-- `block_size()` -/
def blockSize : Nat := 512

/-- `_pDisk->read( first, count, buffer )`. The device delivers whole blocks, whatever the
    size of the buffer is. -/
def Disk.readBlocks {σ : Type} (disk : Disk σ) (s : σ) (first count : Nat) (buffer : List UInt8) :
    Except Fault (Bool × List UInt8 × σ) :=
  if buffer.length < count * blockSize then
    .error .pastBuffer
  else
    .ok (disk.read s first count buffer)

/-! ## The boot sector -/

/-- A little-endian `uint16_t`. -/
def u16At (data : List UInt8) (i : Nat) : UInt16 :=
  .ofNat ((data.getD i 0).toNat + (data.getD (i + 1) 0).toNat * 2 ^ 8)

/-- The packed structure in memory. -/
def BootSector.ofBytes (data : List UInt8) : BootSector where
  bytesPerSector := u16At data 11
  sectorsPerCluster := data.getD 13 0
  reservedSectorCount := u16At data 14
  numFATs := data.getD 16 0
  rootEntityCount := u16At data 17
  fatSize := u16At data 22

/-- `FileSystemType`, as a pointer to its first byte. -/
def fileSystemType (data : List UInt8) (i : Nat) : UInt8 := data.getD (54 + i) 0

/-- `"FAT12"` -/
def fat12Literal (i : Nat) : UInt8 := (['F', 'A', 'T', '1', '2'].map Char.toUInt8).getD i 0

/-- `strncmp( bootSector->FileSystemType, "FAT12", 5 ) == 0` -/
def isFAT12 (data : List UInt8) : Bool :=
  Klibc.strncmp (fileSystemType data) fat12Literal 5 == 0

/-! ## The file system -/

namespace FileSystem

variable {σ : Type} (disk : Disk σ)

/-- `FAT12FileSystem( pDisk, pBootSector )` -/
def mount (s : σ) (boot : BootSector) : Except Fault (FileSystem × σ) := do
  -- the number of root directory sectors comes before the read
  if boot.bytesPerSector = 0 then
    .error .divideByZero
  else
    let fat := List.replicate (boot.bytesPerSector.toNat * boot.fatSize.toNat) 0
    -- the result of the read is not looked at
    let (_, fat, s) ← disk.readBlocks s boot.reservedSectorCount.toNat boot.fatSize.toNat fat
    let fs ← construct boot fat
    return (fs, s)

/-- `tryCreate( pDisk, pBootSectorData )`; without data the pointer is null. -/
def tryCreate (s : σ) (bootSectorData : Option (List UInt8)) :
    Except Fault (Option FileSystem × σ) :=
  match bootSectorData with
  | none => .ok (none, s)
  | some data =>
    if isFAT12 data then do
      let (fs, s) ← mount disk s (.ofBytes data)
      return (some fs, s)
    else
      .ok (none, s)

/-- `root_directory()` -/
def rootDirectory (fs : FileSystem) : Except Fault DirectoryEnum := do
  if fs.bootSector.bytesPerSector = 0 then
    .error .divideByZero
  else
    let numRootDirectorySectors :=
      (fs.bootSector.rootEntityCount.toNat * sizeofDirectoryEntry) /
        fs.bootSector.bytesPerSector.toNat
    -- the sectors behind the last FAT
    let sector ← fs.sectorFromCluster 0
    return ⟨(List.range numRootDirectorySectors).map fun i => .ofNat (sector + i), 0⟩

end FileSystem

end TimbOS.Native.Fat12
