import Mathlib

/-!
# The FAT12 file system

The file allocation table with its 12-bit packing (`FAT12FAT.h`), the arithmetic from
clusters to sectors (`FAT12FileSystem.cpp`), and the enumeration of directories
(`FAT12DirectoryEnum.h`, `FAT12DirectoryEnumBase.cpp`).

Buffers are lists of bytes. Block devices are a parameter, as `IBlockDevice` is an
interface in the source. The two vectors of `FAT12FAT::read` and the sector lists of the
enumerators fit in the 4 GB address space, so their sizes do not wrap around: a table of
`length * 2 / 3` entries takes `length * 4 / 3` bytes next to the `length` bytes it is
read from, and a chain that ends visits each of at most 65536 clusters once.
-/

namespace TimbOS.Native.Fat12

/-- `cluster_id` -/
abbrev ClusterId := UInt16

/-- The calls of `panic`. -/
inductive Panic where
  /-- `"Access outside bounds of FAT: cluster = %d"` -/
  | accessOutsideFat (cluster : Nat)
  /-- `"Unexpected length of FAT: length = %d"` -/
  | unexpectedLength (length : Nat)
  /-- `"Not enough space for FAT: space = %d, fat size = %d"` -/
  | notEnoughSpace (space fatSize : Nat)
  /-- `"There is no cluster 1 in FAT12"` -/
  | noClusterOne
  deriving DecidableEq, Repr

/-- What can stop the file system. -/
inductive Fault where
  | panic (p : Panic)
  /-- An element access outside a vector. -/
  | outOfBounds
  /-- A write behind the end of a buffer. -/
  | pastBuffer
  | divideByZero
  deriving DecidableEq, Repr

/-! ## `FAT12FAT` -/

namespace FAT12FAT

/-- `next_cluster( cluster )` -/
def nextCluster (fat : List ClusterId) (cluster : ClusterId) : Except Fault ClusterId :=
  if cluster.toNat > fat.length then
    .error (.panic (.accessOutsideFat cluster.toNat))
  else
    -- the check lets the first index behind the table through
    match fat[cluster.toNat]? with
    | some next => .ok next
    | none => .error .outOfBounds

/-- The loop of `read`: three bytes hold two entries. -/
def readEntries : List UInt8 → List ClusterId
  | f0 :: f1 :: f2 :: src =>
    -- three bytes hold two entries of 12 bits
    let u := f0.toNat ||| ((f1.toNat <<< 8) &&& 0xF00)
    let v := (f2.toNat <<< 4) ||| ((f1.toNat >>> 4) &&& 0x00F)
    .ofNat u :: .ofNat v :: readEntries src
  | _ => []

/-- `read( src, length )` -/
def read (src : List UInt8) : Except Fault (List ClusterId) :=
  if src.length % 3 ≠ 0 then
    .error (.panic (.unexpectedLength src.length))
  else
    .ok (readEntries src)

/-- The loop of `write`. It takes two entries in each round. -/
def writeEntries : List ClusterId → Except Fault (List UInt8)
  | [] => .ok []
  -- an odd number of entries: the second one of the round does not exist
  | [_] => .error .outOfBounds
  | u :: v :: fat => do
    let p ← writeEntries fat
    .ok (.ofNat (u.toNat &&& 0xFF) ::
      .ofNat (((u.toNat &&& 0x0F00) >>> 8) ||| ((v.toNat &&& 0x00F) <<< 4)) ::
      .ofNat ((v.toNat &&& 0xFF0) >>> 4) :: p)

/-- `write( ptr, space )`: what the `space` bytes at `ptr` hold afterwards. -/
def write (fat : List ClusterId) (ptr : List UInt8) : Except Fault (List UInt8) :=
  if ptr.length < fat.length * 2 / 3 then
    .error (.panic (.notEnoughSpace ptr.length fat.length))
  else do
    let p ← writeEntries fat
    if ptr.length < p.length then
      .error .pastBuffer
    else
      .ok (p ++ ptr.drop p.length)

end FAT12FAT

/-! ## `FAT12FileSystem` -/

/-- The fields of `FAT12_BootSector` that the file system uses. -/
structure BootSector where
  bytesPerSector : UInt16
  sectorsPerCluster : UInt8
  reservedSectorCount : UInt16
  numFATs : UInt8
  rootEntityCount : UInt16
  fatSize : UInt16
  deriving DecidableEq, Repr

/-- `sizeof( lowlevel::FAT12_DirectoryEntry )` -/
def sizeofDirectoryEntry : Nat := 32

structure FileSystem where
  bootSector : BootSector
  firstDataSector : Nat
  fat : List ClusterId
  deriving DecidableEq, Repr

namespace FileSystem

/-- The constructor, from the boot sector and the bytes of the FAT on. Its last step
    writes the table back and reports whether the bytes are the same. -/
def construct (boot : BootSector) (fat : List UInt8) : Except Fault FileSystem := do
  if boot.bytesPerSector = 0 then
    .error .divideByZero
  else
    let firstFATsector := boot.reservedSectorCount.toNat
    let firstRootDirectorySector := firstFATsector + boot.numFATs.toNat * boot.fatSize.toNat
    let numRootDirectorySectors :=
      (boot.rootEntityCount.toNat * sizeofDirectoryEntry) / boot.bytesPerSector.toNat
    -- the table, and a copy of it that is only compared with `fat` for a message
    let table ← FAT12FAT.read fat
    let _ ← FAT12FAT.write table (List.replicate fat.length 0)
    .ok ⟨boot, firstRootDirectorySector + numRootDirectorySectors, table⟩

variable (fs : FileSystem)

/-- `sectors_per_cluster()` -/
def sectorsPerCluster : Nat := fs.bootSector.sectorsPerCluster.toNat

/-- `sector_from_cluster( cluster )` -/
def sectorFromCluster (cluster : ClusterId) : Except Fault Nat :=
  let rootSector := fs.bootSector.reservedSectorCount.toNat +
    fs.bootSector.numFATs.toNat * fs.bootSector.fatSize.toNat
  if cluster = 0 then
    .ok rootSector
  else if cluster = 1 then
    .error (.panic .noClusterOne)
  else
    .ok (fs.firstDataSector + (cluster.toNat - 2) * fs.sectorsPerCluster)

/-- `next_cluster( cluster )` -/
def nextCluster (cluster : ClusterId) : Except Fault ClusterId :=
  FAT12FAT.nextCluster fs.fat cluster

end FileSystem

/-! ## `FAT12DirectoryEnum` -/

namespace DirectoryEnum

/-- The body of the loop: add the sectors of a cluster, as 16-bit numbers, and look up
    the next cluster. -/
def addCluster (fs : FileSystem) (cluster : ClusterId) :
    Except Fault (List UInt16 × ClusterId) := do
  -- both calls may panic
  let sector ← fs.sectorFromCluster cluster
  let next ← fs.nextCluster cluster
  .ok ((List.range fs.sectorsPerCluster).map fun i => .ofNat (sector + i), next)

/-- The `do … while` loop of the constructor, whose only caller passes a `cluster_id` as
    the first cluster. `none` means that it did not end within `fuel` rounds. -/
def collectSectors (fs : FileSystem) : Nat → ClusterId → Option (Except Fault (List UInt16))
  | 0, _ => none
  | fuel + 1, cluster =>
    match addCluster fs cluster with
    | .error e => some (.error e)
    | .ok (sectors, next) =>
      if next ≠ 0xFF0 ∧ next ≠ 0xFFF then
        (collectSectors fs fuel next).map fun rest => rest.map fun l => sectors ++ l
      else
        some (.ok sectors)

end DirectoryEnum

/-! ## `FAT12DirectoryEnumBase` -/

/-- `drv::itf::IBlockDevice` with states `σ`. `read` takes the first block, the number of
    blocks and the buffer, and gives the result, the buffer's new content and the device's
    new state. -/
structure BlockDevice (σ : Type) where
  read : σ → Nat → Nat → List UInt8 → Bool × List UInt8 × σ

/-- `ATTR_DIRECTORY` -/
def attrDirectory : Nat := 0x10

/-- The fields of `lowlevel::FAT12_DirectoryEntry` that the enumeration uses. -/
structure DirectoryEntry where
  name : List UInt8
  attr : UInt8
  fileSystemClusterLogical : UInt16
  fileSize : UInt32
  deriving DecidableEq, Repr

/-- The packed structure in memory, little endian. -/
def DirectoryEntry.ofBytes (b : List UInt8) : DirectoryEntry where
  name := b.take 11
  attr := b.getD 11 0
  fileSystemClusterLogical := .ofNat ((b.getD 26 0).toNat + (b.getD 27 0).toNat * 2 ^ 8)
  fileSize := .ofNat ((b.getD 28 0).toNat + (b.getD 29 0).toNat * 2 ^ 8 +
    (b.getD 30 0).toNat * 2 ^ 16 + (b.getD 31 0).toNat * 2 ^ 24)

/-- `entry.Name[0]` -/
def DirectoryEntry.firstByte (entry : DirectoryEntry) : Nat := (entry.name.headD 0).toNat

/-- `FAT12Directory` and `FAT12File`. -/
inductive Item where
  | directory (name : List UInt8) (firstCluster : ClusterId)
  | file (name : List UInt8) (size : UInt32) (firstCluster : ClusterId)
  deriving DecidableEq, Repr

/-- `extract_fn_part( src, dest, count )` moves both pointers. -/
def extractFnPart : Nat → List UInt8 → List UInt8 → List UInt8 × List UInt8
  | count + 1, ch :: src, dest =>
    -- blanks are left out
    extractFnPart count src (if ch ≠ ' '.toUInt8 then dest ++ [ch] else dest)
  | _, src, dest => (src, dest)

/-- `extract_file_name( fn, dest )` -/
def extractFileName (fn : List UInt8) : List UInt8 :=
  let (fn, dest) := extractFnPart 8 fn []
  -- the point is taken back if there is no extension
  let dest := dest ++ ['.'.toUInt8]
  let (_, dest) := extractFnPart 3 fn dest
  if dest.getLast? = some '.'.toUInt8 then dest.dropLast else dest

/-- The item made from an entry. Its name goes through a zero-terminated string. -/
def DirectoryEntry.item (entry : DirectoryEntry) : Item :=
  let entryName := (extractFileName entry.name).takeWhile (· ≠ 0)
  if entry.attr.toNat &&& attrDirectory ≠ 0 then
    .directory entryName entry.fileSystemClusterLogical
  else
    .file entryName entry.fileSize entry.fileSystemClusterLogical

/-- An enumerator: what `get_sectors()` returns, and `_index`. -/
structure DirectoryEnum where
  sectors : List UInt16
  index : Nat
  deriving DecidableEq, Repr

namespace DirectoryEnum

variable {σ : Type} (dev : BlockDevice σ)

/-- `get_entry_count()` -/
def entryCount (e : DirectoryEnum) : Nat := e.sectors.length * 16

/-- `reset()` -/
def reset (e : DirectoryEnum) : DirectoryEnum := { e with index := 0 }

/-- The local variables of `next`: `sector_cache_index` and `sector_cache`. -/
structure SectorCache where
  sectorIndex : Option Nat
  data : List UInt8

/-- Read the sector with the given index into the cache, unless it is there. -/
def SectorCache.load (cache : SectorCache) (sectors : List UInt16) (sectorIndex : Nat) (s : σ) :
    Except Fault (SectorCache × σ) :=
  if cache.sectorIndex ≠ some sectorIndex then
    match sectors[sectorIndex]? with
    | some sector =>
      -- the result of the read is not looked at
      let (_, data, s) := dev.read s sector.toNat 1 cache.data
      .ok (⟨some sectorIndex, data⟩, s)
    | none => .error .outOfBounds
  else
    .ok (cache, s)

/-- `sector_cache[i]` -/
def entryAt (data : List UInt8) (i : Nat) : DirectoryEntry :=
  .ofBytes ((data.drop (i * sizeofDirectoryEntry)).take sizeofDirectoryEntry)

/-- The `while` loop of `next`, with `n` entries from `_index` to the entry count. The
    result is the item, if there is one, and the new `_index`. -/
def nextLoop (sectors : List UInt16) :
    Nat → σ → Nat → SectorCache → Except Fault (Option Item × Nat × σ)
  | 0, s, index, _ => .ok (none, index, s)
  | n + 1, s, index, cache => do
    let (cache, s) ← cache.load dev sectors (index / 16) s
    let entry := entryAt cache.data (index % 16)
    if entry.firstByte = 0x00 then -- empty from here
      .ok (none, index + (n + 1), s)
    else if entry.firstByte = 0x0E ∨ entry.firstByte = 0xE5 then -- empty or deleted
      nextLoop sectors n s (index + 1) cache
    else
      .ok (some entry.item, index + 1, s)

/-- `next( file )`. The cache is a local variable that nothing initialises, so it starts
    with whatever `stack` holds. -/
def next (e : DirectoryEnum) (s : σ) (stack : List UInt8) :
    Except Fault (Option Item × DirectoryEnum × σ) := do
  let (item, index, s) ← nextLoop dev e.sectors (e.entryCount - e.index) s e.index ⟨none, stack⟩
  .ok (item, { e with index := index }, s)

end DirectoryEnum

end TimbOS.Native.Fat12
