import TimbOS.Native.Fat12Mount
import TimbOS.Spec.Fat12Chain

/-!
# The regions of a FAT12 volume

Three places compute the layout: the constructor, `sector_from_cluster` and
`root_directory`. They agree on where the root directory begins, and each divides its size by
the size of a sector and forgets the remainder. The enumerator of the root directory stores
its sectors as 16-bit numbers.

## Key results

- `laidOut_iff`: when the regions are disjoint and the root sectors hold all root entries
-/

namespace TimbOS.Native.Fat12

open DirectoryEnum (sectorOf clusterSectors)

/-! ## The regions -/

/-- The sector behind the last FAT. -/
def BootSector.rootStart (boot : BootSector) : Nat :=
  boot.reservedSectorCount.toNat + boot.numFATs.toNat * boot.fatSize.toNat

/-- The sectors of all FATs. -/
def BootSector.fatSectors (boot : BootSector) : List Nat :=
  List.range' boot.reservedSectorCount.toNat (boot.numFATs.toNat * boot.fatSize.toNat)

/-- The whole sectors that the root entries fill. -/
def BootSector.rootSectorCount (boot : BootSector) : Nat :=
  boot.rootEntityCount.toNat * sizeofDirectoryEntry / boot.bytesPerSector.toNat

/-- The sector that the `i`-th root entry lies in. -/
def BootSector.rootEntrySector (boot : BootSector) (i : Nat) : Nat :=
  boot.rootStart + i * sizeofDirectoryEntry / boot.bytesPerSector.toNat

/-- The FATs, the sectors of the root directory and all clusters are apart from each other,
    and the sectors of the root directory hold its entries. -/
structure LaidOut (fs : FileSystem) (root : DirectoryEnum) : Prop where
  fat_root : fs.bootSector.fatSectors.Disjoint (root.sectors.map UInt16.toNat)
  fat_cluster : ∀ c : ClusterId, 2 ≤ c.toNat →
    fs.bootSector.fatSectors.Disjoint (clusterSectors fs c)
  root_cluster : ∀ c : ClusterId, 2 ≤ c.toNat →
    (root.sectors.map UInt16.toNat).Disjoint (clusterSectors fs c)
  cluster_cluster : ∀ c d : ClusterId, 2 ≤ c.toNat → 2 ≤ d.toNat → c ≠ d →
    (clusterSectors fs c).Disjoint (clusterSectors fs d)
  rootEntry_mem : ∀ i < fs.bootSector.rootEntityCount.toNat,
    fs.bootSector.rootEntrySector i ∈ root.sectors.map UInt16.toNat

/-! ## What the code computes -/

section Regions

variable {boot : BootSector} {fat : List UInt8} {fs : FileSystem} {root : DirectoryEnum}
  {c : ClusterId} {i s : Nat}

theorem construct_spec (h : FileSystem.construct boot fat = .ok fs) :
    boot.bytesPerSector ≠ 0 ∧ fs.bootSector = boot ∧
      fs.firstDataSector = boot.rootStart + boot.rootSectorCount := by
  unfold FileSystem.construct at h
  by_cases h0 : boot.bytesPerSector = 0
  · simp [h0] at h
  · rw [if_neg h0] at h
    cases hread : FAT12FAT.read fat with
    | error e => simp [hread, bind, Except.bind] at h
    | ok table =>
      cases hwrite : FAT12FAT.write table (List.replicate fat.length 0) with
      | error e => simp [hread, hwrite, bind, Except.bind] at h
      | ok w =>
        simp only [hread, hwrite, bind, Except.bind, Except.ok.injEq] at h
        subst h
        exact ⟨h0, rfl, rfl⟩

/-- The enumerator of the root directory exists on every mounted volume. -/
theorem rootDirectory_eq (h0 : fs.bootSector.bytesPerSector ≠ 0) :
    fs.rootDirectory = .ok ⟨(List.range fs.bootSector.rootSectorCount).map fun i =>
      .ofNat (fs.bootSector.rootStart + i), 0⟩ := by
  rw [FileSystem.rootDirectory, if_neg h0]
  rfl

/-- Clusters follow each other behind the root directory. -/
theorem sectorOf_eq (hc : 2 ≤ c.toNat) :
    sectorOf fs c = fs.firstDataSector + (c.toNat - 2) * fs.sectorsPerCluster := by
  have h0 : c ≠ 0 := by
    rintro rfl
    simp at hc
  have h1 : c ≠ 1 := by
    rintro rfl
    simp at hc
  simp only [sectorOf, FileSystem.sectorFromCluster, if_neg h0, if_neg h1]
  rfl

theorem mem_clusterSectors :
    s ∈ clusterSectors fs c ↔ sectorOf fs c ≤ s ∧ s < sectorOf fs c + fs.sectorsPerCluster := by
  simp only [clusterSectors, List.mem_map, List.mem_range]
  constructor
  · rintro ⟨i, hi, rfl⟩
    omega
  · rintro ⟨hle, hlt⟩
    exact ⟨s - sectorOf fs c, by omega, by omega⟩

theorem firstDataSector_le (hc : 2 ≤ c.toNat) (hs : s ∈ clusterSectors fs c) :
    fs.firstDataSector ≤ s := by
  rw [mem_clusterSectors, sectorOf_eq hc] at hs
  omega

theorem mem_fatSectors :
    s ∈ boot.fatSectors ↔ boot.reservedSectorCount.toNat ≤ s ∧ s < boot.rootStart := by
  rw [BootSector.fatSectors, BootSector.rootStart, List.mem_range'_1]

/-- Two clusters share no sector. -/
theorem clusterSectors_disjoint {d : ClusterId} (hc : 2 ≤ c.toNat) (hd : 2 ≤ d.toNat)
    (hne : c ≠ d) : (clusterSectors fs c).Disjoint (clusterSectors fs d) := by
  have key : ∀ {a b : ClusterId}, 2 ≤ a.toNat → a.toNat < b.toNat →
      sectorOf fs a + fs.sectorsPerCluster ≤ sectorOf fs b := by
    intro a b ha hab
    rw [sectorOf_eq ha, sectorOf_eq (by omega : 2 ≤ b.toNat), Nat.add_assoc]
    have : (a.toNat - 2 + 1) * fs.sectorsPerCluster ≤ (b.toNat - 2) * fs.sectorsPerCluster :=
      Nat.mul_le_mul_right _ (by omega)
    rw [Nat.succ_mul] at this
    omega
  intro s hsc hsd
  rw [mem_clusterSectors] at hsc hsd
  rcases Nat.lt_trichotomy c.toNat d.toNat with hlt | heq | hgt
  · have := key hc hlt
    omega
  · exact hne (UInt16.toNat_inj.mp heq)
  · have := key hd hgt
    omega

/-! ## The root directory -/

/-- The numbers that the enumerator of the root directory stores. -/
theorem mem_rootSectors (h0 : fs.bootSector.bytesPerSector ≠ 0)
    (hroot : fs.rootDirectory = .ok root) :
    s ∈ root.sectors.map UInt16.toNat ↔
      ∃ j < fs.bootSector.rootSectorCount, (fs.bootSector.rootStart + j) % 2 ^ 16 = s := by
  rw [rootDirectory_eq h0] at hroot
  cases hroot
  simp

theorem bytesPerSector_pos (h0 : boot.bytesPerSector ≠ 0) : 0 < boot.bytesPerSector.toNat := by
  have : boot.bytesPerSector.toNat ≠ 0 := fun h => h0 (UInt16.toNat_inj.mp h)
  omega

/-- The last root entry lies in the last whole sector when its entries fill it, and behind
    all whole sectors when they do not. -/
theorem last_rootEntry (h0 : boot.bytesPerSector ≠ 0)
    (h32 : sizeofDirectoryEntry ∣ boot.bytesPerSector.toNat)
    (hcount : 0 < boot.rootEntityCount.toNat) :
    boot.rootEntrySector (boot.rootEntityCount.toNat - 1) + 1 =
      boot.rootStart + boot.rootSectorCount +
        if boot.bytesPerSector.toNat ∣ boot.rootEntityCount.toNat * sizeofDirectoryEntry
          then 0 else 1 := by
  have hpos := bytesPerSector_pos h0
  obtain ⟨k, hk⟩ := h32
  have hkpos : 0 < k := by
    rcases Nat.eq_zero_or_pos k with rfl | h
    · omega
    · exact h
  -- in units of one entry a sector holds `k` of them
  have hdiv : ∀ n, n * sizeofDirectoryEntry / boot.bytesPerSector.toNat = n / k := by
    intro n
    rw [hk, Nat.mul_comm sizeofDirectoryEntry, Nat.mul_div_mul_right _ _ (by decide)]
  have hdvd : boot.bytesPerSector.toNat ∣ boot.rootEntityCount.toNat * sizeofDirectoryEntry ↔
      k ∣ boot.rootEntityCount.toNat := by
    rw [hk, Nat.mul_comm sizeofDirectoryEntry, Nat.mul_dvd_mul_iff_right (by decide)]
  have hlast : boot.rootEntityCount.toNat / k =
      (boot.rootEntityCount.toNat - 1) / k +
        if k ∣ boot.rootEntityCount.toNat then 1 else 0 := by
    obtain ⟨n, hn⟩ : ∃ n, boot.rootEntityCount.toNat = n + 1 :=
      ⟨boot.rootEntityCount.toNat - 1, by omega⟩
    rw [hn, Nat.succ_div, Nat.add_sub_cancel]
  unfold BootSector.rootEntrySector BootSector.rootSectorCount
  rw [hdiv, hdiv, hlast]
  simp only [hdvd]
  split <;> omega

/-- The enumerated sectors hold all root entries exactly when these fill whole sectors whose
    numbers are 16-bit numbers. -/
theorem rootEntries_mem_iff (h0 : fs.bootSector.bytesPerSector ≠ 0)
    (h32 : sizeofDirectoryEntry ∣ fs.bootSector.bytesPerSector.toNat)
    (hroot : fs.rootDirectory = .ok root) :
    (∀ i < fs.bootSector.rootEntityCount.toNat,
        fs.bootSector.rootEntrySector i ∈ root.sectors.map UInt16.toNat) ↔
      fs.bootSector.bytesPerSector.toNat ∣
          fs.bootSector.rootEntityCount.toNat * sizeofDirectoryEntry ∧
        (fs.bootSector.rootEntityCount.toNat = 0 ∨
          fs.bootSector.rootStart + fs.bootSector.rootSectorCount ≤ 2 ^ 16) := by
  constructor
  · intro hmem
    rcases Nat.eq_zero_or_pos fs.bootSector.rootEntityCount.toNat with hz | hcount
    · simp [hz]
    · obtain ⟨j, hj, hmod⟩ := (mem_rootSectors h0 hroot).mp (hmem _ (Nat.sub_one_lt_of_lt hcount))
      have hlast := last_rootEntry h0 h32 hcount
      have hle := Nat.mod_le (fs.bootSector.rootStart + j) (2 ^ 16)
      have hlt := Nat.mod_lt (fs.bootSector.rootStart + j) (by decide : 0 < 2 ^ 16)
      split at hlast
      · next hdvd => exact ⟨hdvd, .inr (by omega)⟩
      · -- no stored sector is behind the whole ones
        omega
  · rintro ⟨hdvd, hfit⟩ i hi
    rw [mem_rootSectors h0 hroot]
    have hlt : i * sizeofDirectoryEntry / fs.bootSector.bytesPerSector.toNat <
        fs.bootSector.rootSectorCount := by
      apply Nat.div_lt_div_of_lt_of_dvd hdvd
      exact Nat.mul_lt_mul_of_pos_right hi (by decide)
    refine ⟨_, hlt, Nat.mod_eq_of_lt ?_⟩
    omega

/-! ## The layout -/

/-- The constructor and `root_directory` give up the bytes of the root entries behind its
    last whole sector, and the numbers of its sectors beyond 16 bits. -/
theorem laidOut_iff (h : FileSystem.construct boot fat = .ok fs)
    (h32 : sizeofDirectoryEntry ∣ boot.bytesPerSector.toNat) :
    (∃ root, fs.rootDirectory = .ok root ∧ LaidOut fs root) ↔
      boot.bytesPerSector.toNat ∣ boot.rootEntityCount.toNat * sizeofDirectoryEntry ∧
        (boot.rootEntityCount.toNat = 0 ∨ boot.rootStart + boot.rootSectorCount ≤ 2 ^ 16) := by
  obtain ⟨h0, rfl, hfirst⟩ := construct_spec h
  constructor
  · rintro ⟨root, hroot, hlaid⟩
    exact (rootEntries_mem_iff h0 h32 hroot).mp hlaid.rootEntry_mem
  · rintro ⟨hdvd, hfit⟩
    have hroot := rootDirectory_eq h0
    -- without root entries there is no root sector, otherwise none wraps around
    have hstored : ∀ s, s ∈ (DirectoryEnum.sectors ⟨(List.range
        fs.bootSector.rootSectorCount).map fun i =>
          .ofNat (fs.bootSector.rootStart + i), 0⟩).map UInt16.toNat →
        fs.bootSector.rootStart ≤ s ∧ s < fs.firstDataSector := by
      intro s hs
      obtain ⟨j, hj, hmod⟩ := (mem_rootSectors h0 hroot).mp hs
      have hcount : fs.bootSector.rootEntityCount.toNat ≠ 0 := by
        intro hz
        simp [BootSector.rootSectorCount, hz] at hj
      have hend := hfit.resolve_left hcount
      rw [Nat.mod_eq_of_lt (by omega)] at hmod
      omega
    refine ⟨_, hroot, ?_⟩
    constructor
    case fat_root =>
      intro s hs hs'
      have := mem_fatSectors.mp hs
      have := hstored s hs'
      omega
    case fat_cluster =>
      intro c hc s hs hs'
      have := mem_fatSectors.mp hs
      have := firstDataSector_le hc hs'
      omega
    case root_cluster =>
      intro c hc s hs hs'
      have := hstored s hs
      have := firstDataSector_le hc hs'
      omega
    case cluster_cluster => exact fun c d => clusterSectors_disjoint
    case rootEntry_mem => exact (rootEntries_mem_iff h0 h32 hroot).mpr ⟨hdvd, hfit⟩

/-- The geometry of a 1.44M floppy disk, with `rootEntityCount` root entries. -/
def bootSector1440k (rootEntityCount : UInt16) : BootSector :=
  ⟨512, 1, 1, 2, rootEntityCount, 9⟩

theorem construct_1440k (rootEntityCount : UInt16) :
    ∃ fs, FileSystem.construct (bootSector1440k rootEntityCount)
      (List.replicate (512 * 9) 0) = .ok fs := by
  have hlen : (List.replicate (512 * 9) (0 : UInt8)).length % 3 = 0 := by
    rw [List.length_replicate]
  exact ⟨_, DirectoryEnum.construct_eq (by simp [bootSector1440k]) hlen⟩

/-- The usual 224 root entries fill 14 sectors. -/
theorem laidOut_224 : ∃ fs root, FileSystem.construct (bootSector1440k 224)
    (List.replicate (512 * 9) 0) = .ok fs ∧ fs.rootDirectory = .ok root ∧ LaidOut fs root := by
  obtain ⟨fs, hfs⟩ := construct_1440k 224
  obtain ⟨root, hroot, hlaid⟩ := (laidOut_iff hfs (by decide)).mpr (by decide)
  exact ⟨fs, root, hfs, hroot, hlaid⟩

/-- The last four of 100 root entries lie in the first sector of cluster 2. -/
theorem rootEntries_lost_100 : ¬ ∀ boot fat fs, FileSystem.construct boot fat = .ok fs →
    sizeofDirectoryEntry ∣ boot.bytesPerSector.toNat → 1 ≤ boot.sectorsPerCluster.toNat →
    ∃ root, fs.rootDirectory = .ok root ∧ LaidOut fs root := by
  intro h
  obtain ⟨fs, hfs⟩ := construct_1440k 100
  obtain ⟨root, hroot, hlaid⟩ := h _ _ fs hfs (by decide) (by decide)
  obtain ⟨h0, hboot, -⟩ := construct_spec hfs
  have hdvd := ((rootEntries_mem_iff (by rw [hboot]; exact h0) (by rw [hboot]; decide)
    hroot).mp hlaid.rootEntry_mem).1
  rw [hboot] at hdvd
  revert hdvd
  decide

end Regions

end TimbOS.Native.Fat12
