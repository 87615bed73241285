import TimbOS.Native.Fat12Mount
import TimbOS.Spec.Fat12Chain

/-!
# Which boot sectors can be mounted

Nothing checks the sizes in a boot sector. Mounting goes well when the sectors are not
smaller than the blocks of the device and the table can be cut into groups of three bytes.
The 1.44M format is one of these, but the 1.2M format with its 7 sectors for a table is not.

## Key results

- `mount_eq`: the three ways in which mounting ends
- `mount_safe_iff`: exactly which boot sectors can be mounted
- `mount_fails_1200k`: one that cannot
-/

namespace TimbOS.Native.Fat12.FileSystem

variable {σ : Type} {disk : Disk σ} {s : σ} {boot : BootSector}

/-- The sizes in a boot sector fit together. -/
structure SizesFit (boot : BootSector) : Prop where
  sector : boot.bytesPerSector ≠ 0
  /-- A table of whole sectors has room for as many blocks. -/
  blocks : boot.fatSize = 0 ∨ blockSize ≤ boot.bytesPerSector.toNat
  /-- The table ends with a whole pair of entries. -/
  pairs : boot.bytesPerSector.toNat * boot.fatSize.toNat % 3 = 0

/-- A table of `FATSize` sectors has room for as many blocks. -/
theorem blocks_fit_iff (boot : BootSector) :
    boot.fatSize.toNat * blockSize ≤ boot.bytesPerSector.toNat * boot.fatSize.toNat ↔
      boot.fatSize = 0 ∨ blockSize ≤ boot.bytesPerSector.toNat := by
  -- no sector, no block: then the sizes do not matter
  have hzero : boot.fatSize = 0 ↔ boot.fatSize.toNat = 0 := UInt16.toNat_inj.symm
  rw [hzero, Nat.mul_comm boot.bytesPerSector.toNat]
  constructor
  · intro hle
    by_cases hsize : boot.fatSize.toNat = 0
    · exact .inl hsize
    · exact .inr (Nat.le_of_mul_le_mul_left hle (Nat.pos_of_ne_zero hsize))
  · rintro (hsize | hle)
    · rw [hsize, Nat.zero_mul]
      exact Nat.zero_le _
    · exact Nat.mul_le_mul_left _ hle

/-- What the device makes of the buffer for the table: whether it was read, the bytes, and the
    state of the device. -/
def readFat (disk : Disk σ) (s : σ) (boot : BootSector) : Bool × List UInt8 × σ :=
  disk.read s boot.reservedSectorCount.toNat boot.fatSize.toNat
    (List.replicate (boot.bytesPerSector.toNat * boot.fatSize.toNat) 0)

/-- The table has the size of the buffer. -/
private theorem length_readFat (disk : Disk σ) (s : σ) (boot : BootSector) :
    (readFat disk s boot).2.1.length = boot.bytesPerSector.toNat * boot.fatSize.toNat := by
  rw [readFat, disk.length_read, List.length_replicate]

/-- The FAT12 constructor: what the device delivers becomes the table, or a fault. -/
theorem mount_eq (disk : Disk σ) (s : σ) (hsector : boot.bytesPerSector ≠ 0)
    (hblocks : boot.fatSize = 0 ∨ blockSize ≤ boot.bytesPerSector.toNat) :
    mount disk s boot = (construct boot (readFat disk s boot).2.1).map fun fs =>
      (fs, (readFat disk s boot).2.2) := by
  have hfit := (blocks_fit_iff boot).mpr hblocks
  have hread : disk.readBlocks s boot.reservedSectorCount.toNat boot.fatSize.toNat
      (List.replicate (boot.bytesPerSector.toNat * boot.fatSize.toNat) 0) =
        .ok (readFat disk s boot) := by
    rw [Disk.readBlocks, List.length_replicate, if_neg (by omega), readFat]
  rw [mount, if_neg hsector]
  simp only [hread, bind, Except.bind, pure, Except.pure]
  cases construct boot (readFat disk s boot).2.1 with
  | error e => rfl
  | ok fs => rfl

theorem rootDirectory_ok {fs : FileSystem} (hsector : fs.bootSector.bytesPerSector ≠ 0) :
    ∃ e, fs.rootDirectory = .ok e := by
  rw [rootDirectory, if_neg hsector]
  exact ⟨_, rfl⟩

/-- Boot sectors whose sizes fit are mounted, and their root directory can be opened. -/
theorem mount_of_sizesFit (disk : Disk σ) (s : σ) (h : SizesFit boot) :
    ∃ fs s' e, mount disk s boot = .ok (fs, s') ∧ fs.rootDirectory = .ok e := by
  have hlen : (readFat disk s boot).2.1.length % 3 = 0 := by
    rw [length_readFat]
    exact h.pairs
  have hconstruct := DirectoryEnum.construct_eq h.sector hlen
  rw [mount_eq disk s h.sector h.blocks, hconstruct]
  obtain ⟨e, hroot⟩ := rootDirectory_ok
    (show (FileSystem.mk boot _ _).bootSector.bytesPerSector ≠ 0 from h.sector)
  exact ⟨_, _, e, rfl, hroot⟩

/-- Boot sectors that are mounted have sizes that fit. -/
theorem sizesFit_of_mount {fs : FileSystem} {s' : σ} (hmount : mount disk s boot = .ok (fs, s')) :
    SizesFit boot := by
  have hsector : boot.bytesPerSector ≠ 0 := by
    intro hzero
    rw [mount, if_pos hzero] at hmount
    cases hmount
  have hblocks : boot.fatSize = 0 ∨ blockSize ≤ boot.bytesPerSector.toNat := by
    rw [← blocks_fit_iff]
    -- otherwise the device writes behind the buffer
    by_contra hshort
    have hread : disk.readBlocks s boot.reservedSectorCount.toNat boot.fatSize.toNat
        (List.replicate (boot.bytesPerSector.toNat * boot.fatSize.toNat) 0) =
          .error .pastBuffer := by
      rw [Disk.readBlocks, List.length_replicate, if_pos (by omega)]
    rw [mount, if_neg hsector] at hmount
    simp only [hread, bind, Except.bind, reduceCtorEq] at hmount
  refine ⟨hsector, hblocks, ?_⟩
  -- otherwise `FAT12FAT::read` panics
  by_contra hpairs
  rw [mount_eq disk s hsector hblocks, construct, if_neg hsector, FAT12FAT.read,
    if_pos (by rw [length_readFat]; exact hpairs)] at hmount
  cases hmount

/-- A boot sector that is accepted is mounted. -/
theorem tryCreate_ok_iff {data : List UInt8} {fs : FileSystem} {s' : σ}
    (haccept : isFAT12 data = true) :
    tryCreate disk s (some data) = .ok (some fs, s') ↔
      mount disk s (.ofBytes data) = .ok (fs, s') := by
  rw [tryCreate, if_pos haccept]
  simp only [bind, Except.bind, pure, Except.pure]
  cases mount disk s (.ofBytes data) with
  | error fault => simp
  | ok result => simp [Prod.ext_iff]

/-- Mounting a boot sector that is accepted and opening the root directory meets no fault, on
    any disk: no division by zero, no panic and no read behind the buffer of the table. -/
def MountsSafely (disk : Disk σ) (s : σ) (data : List UInt8) : Prop :=
  ∃ fs s' e, tryCreate disk s (some data) = .ok (some fs, s') ∧ fs.rootDirectory = .ok e

/-- A boot sector that is accepted mounts safely when its sizes fit, and only then. -/
theorem mount_safe_iff (disk : Disk σ) (s : σ) (data : List UInt8) (haccept : isFAT12 data = true) :
    MountsSafely disk s data ↔ SizesFit (.ofBytes data) := by
  constructor
  · rintro ⟨fs, s', e, hcreate, -⟩
    exact sizesFit_of_mount ((tryCreate_ok_iff haccept).mp hcreate)
  · intro hsizes
    obtain ⟨fs, s', e, hmount, hroot⟩ := mount_of_sizesFit disk s hsizes
    exact ⟨fs, s', e, (tryCreate_ok_iff haccept).mpr hmount, hroot⟩

/-! ## Boot sectors of floppy disks -/

/-- A disk full of zeros. -/
def zeroDisk : Disk Unit where
  read := fun _ _ _ buffer => (true, List.replicate buffer.length 0, ())
  length_read := by
    intro s first count buffer
    exact List.length_replicate

/-- The boot sector of a disk with 512 bytes in a sector, one reserved sector and two tables of
    the given size, which is below 256. -/
def floppyBootSector (fatSize rootEntityCount : UInt8) : List UInt8 :=
  List.replicate 11 0 ++ [0, 2, 1, 1, 0, 2, rootEntityCount, 0, 0, 0, 0, fatSize, 0] ++
    List.replicate 30 0 ++ ['F', 'A', 'T', '1', '2', ' ', ' ', ' '].map Char.toUInt8 ++
    List.replicate 450 0

theorem floppyBootSector_accepted (fatSize rootEntityCount : UInt8) :
    isFAT12 (floppyBootSector fatSize rootEntityCount) = true := rfl

/-- The 1.44M format has 9 sectors for a table. -/
theorem mount_safe_1440k :
    MountsSafely zeroDisk () (floppyBootSector 9 224) ↔
      SizesFit (.ofBytes (floppyBootSector 9 224)) :=
  mount_safe_iff zeroDisk () (floppyBootSector 9 224) (floppyBootSector_accepted 9 224)

/-- The 1.2M format has 7, which leaves two bytes at the end of the table. -/
theorem mount_fails_1200k : ¬ ∀ (disk : Disk Unit) (data : List UInt8), data.length = 512 →
    isFAT12 data = true → MountsSafely disk () data := by
  intro h
  have haccept := floppyBootSector_accepted 7 224
  have hlen : (floppyBootSector 7 224).length = 512 := by
    simp only [floppyBootSector, List.length_append, List.length_replicate, List.length_map,
      List.length_cons, List.length_nil]
  obtain ⟨fs, s', e, hcreate, -⟩ := h zeroDisk (floppyBootSector 7 224) hlen haccept
  have hpairs := (sizesFit_of_mount ((tryCreate_ok_iff haccept).mp hcreate)).pairs
  revert hpairs
  decide

end TimbOS.Native.Fat12.FileSystem
