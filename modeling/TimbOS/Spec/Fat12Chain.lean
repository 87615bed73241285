import TimbOS.Spec.Fat12Table

/-!
# Subdirectories and the cluster chain

The constructor of `FAT12DirectoryEnum` follows the table from the first cluster and
collects sector numbers. Its loop stops at the values `0xFF0` and `0xFFF` and at no other
one, and it stores sectors as 16-bit numbers.

## Key results

- `collectSectors_of_links`: the loop along a chain that it takes for one
- `sectorsFollowChain_iff`: when the sectors are those of the chain
-/

namespace TimbOS.Native.Fat12

instance finite_clusterId : Finite ClusterId :=
  Finite.of_injective UInt16.toFin fun _ _ h => UInt16.toFin_inj.mp h

namespace DirectoryEnum

/-- The table leads from `c` through the clusters `l` to `mark`. -/
def Links (fat : List ClusterId) : ClusterId → List ClusterId → ClusterId → Prop
  | c, [], mark => fat[c.toNat]? = some mark
  | c, d :: l, mark => fat[c.toNat]? = some d ∧ Links fat d l mark

/-- `first :: rest` is a cluster chain of the FAT12 format that ends with `mark`. -/
structure Chain (fs : FileSystem) (first : ClusterId) (rest : List ClusterId)
    (mark : ClusterId) : Prop where
  links : Links fs.fat first rest mark
  nodup : (first :: rest).Nodup
  range : ∀ c ∈ first :: rest, 2 ≤ c.toNat ∧ c.toNat < fs.fat.length
  endMark : 0xFF8 ≤ mark.toNat ∧ mark.toNat ≤ 0xFFF

/-- The first sector of a cluster that has one. -/
def sectorOf (fs : FileSystem) (c : ClusterId) : Nat := (fs.sectorFromCluster c).toOption.getD 0

/-- The sectors of a cluster. -/
def clusterSectors (fs : FileSystem) (c : ClusterId) : List Nat :=
  (List.range fs.sectorsPerCluster).map fun i => sectorOf fs c + i

/-- The constructor ends without a fault, and the enumerator has the sectors of `chain`
    in order. -/
def SectorsFollowChain (fs : FileSystem) (first : ClusterId) (chain : List ClusterId) : Prop :=
  ∃ fuel sectors, collectSectors fs fuel first = some (.ok sectors) ∧
    sectors.map UInt16.toNat = chain.flatMap (clusterSectors fs)

section Chain

variable {fs : FileSystem} {c d mark next : ClusterId} {l : List ClusterId} {fuel : Nat}
  {sectors : List UInt16}

/-- Every cluster but 1 has sectors. -/
theorem sectorFromCluster_eq (hc : c ≠ 1) : fs.sectorFromCluster c = .ok (sectorOf fs c) := by
  unfold sectorOf FileSystem.sectorFromCluster
  by_cases hzero : c = 0
  · rw [if_pos hzero]
    rfl
  · rw [if_neg hzero, if_neg hc]
    rfl

/-- The sectors that one round of the loop stores. -/
def storedSectors (fs : FileSystem) (c : ClusterId) : List UInt16 :=
  (clusterSectors fs c).map UInt16.ofNat

theorem length_storedSectors (fs : FileSystem) (c : ClusterId) :
    (storedSectors fs c).length = fs.sectorsPerCluster := by
  simp [storedSectors, clusterSectors]

/-- One round at a cluster inside the table. -/
theorem addCluster_eq (hc : 2 ≤ c.toNat) (hnext : fs.fat[c.toNat]? = some next) :
    addCluster fs c = .ok (storedSectors fs c, next) := by
  have hone : c ≠ 1 := by
    intro h
    simp [h] at hc
  have hlookup : fs.nextCluster c = .ok next := by
    obtain ⟨hlt, _⟩ := List.getElem?_eq_some_iff.mp hnext
    unfold FileSystem.nextCluster FAT12FAT.nextCluster
    rw [if_neg (by omega), hnext]
  unfold addCluster
  rw [sectorFromCluster_eq hone, hlookup]
  simp [bind, Except.bind, storedSectors, clusterSectors]

/-- A round whose next value is not one of the two that end the loop. -/
theorem collectSectors_go (hc : 2 ≤ c.toNat) (hnext : fs.fat[c.toNat]? = some next)
    (hgo : next ≠ 0xFF0 ∧ next ≠ 0xFFF) :
    collectSectors fs (fuel + 1) c =
      (collectSectors fs fuel next).map fun rest => rest.map fun l => storedSectors fs c ++ l := by
  simp only [collectSectors, addCluster_eq hc hnext, if_pos hgo]

theorem collectSectors_stop (hc : 2 ≤ c.toNat) (hnext : fs.fat[c.toNat]? = some next)
    (hstop : ¬ (next ≠ 0xFF0 ∧ next ≠ 0xFFF)) :
    collectSectors fs (fuel + 1) c = some (.ok (storedSectors fs c)) := by
  simp only [collectSectors, addCluster_eq hc hnext, if_neg hstop]

/-- A loop that ends: its first round is the last one, or the others end as well. -/
theorem collectSectors_cases (h : collectSectors fs (fuel + 1) c = some (.ok sectors)) :
    ∃ more next, addCluster fs c = .ok (more, next) ∧
      (¬ (next ≠ 0xFF0 ∧ next ≠ 0xFFF) ∧ sectors = more ∨
        (next ≠ 0xFF0 ∧ next ≠ 0xFFF) ∧
          ∃ rest, collectSectors fs fuel next = some (.ok rest) ∧ sectors = more ++ rest) := by
  rw [collectSectors] at h
  cases hadd : addCluster fs c with
  | error e => simp [hadd] at h
  | ok p =>
    obtain ⟨more, next⟩ := p
    refine ⟨more, next, rfl, ?_⟩
    simp only [hadd] at h
    by_cases hgo : next ≠ 0xFF0 ∧ next ≠ 0xFFF
    · rw [if_pos hgo] at h
      obtain ⟨result, hresult, hmap⟩ := Option.map_eq_some_iff.mp h
      cases result with
      | error e => cases hmap
      | ok rest =>
        cases hmap
        exact .inr ⟨hgo, rest, hresult, rfl⟩
    · rw [if_neg hgo] at h
      cases h
      exact .inl ⟨hgo, rfl⟩

theorem length_of_addCluster {more : List UInt16} (h : addCluster fs c = .ok (more, next)) :
    more.length = fs.sectorsPerCluster := by
  unfold addCluster at h
  cases hs : fs.sectorFromCluster c with
  | error e => simp [hs, bind, Except.bind] at h
  | ok sector =>
    cases hn : fs.nextCluster c with
    | error e => simp [hs, hn, bind, Except.bind] at h
    | ok n =>
      simp only [hs, hn, bind, Except.bind, Except.ok.injEq, Prod.mk.injEq] at h
      rw [← h.1]
      simp

/-- A loop that ends has stored at least one cluster. -/
theorem le_length_of_collectSectors (h : collectSectors fs fuel c = some (.ok sectors)) :
    fs.sectorsPerCluster ≤ sectors.length := by
  cases fuel with
  | zero => cases h
  | succ fuel =>
    obtain ⟨more, next, hadd, ⟨-, rfl⟩ | ⟨-, rest, -, rfl⟩⟩ := collectSectors_cases h
    · rw [length_of_addCluster hadd]
    · rw [List.length_append, length_of_addCluster hadd]
      exact Nat.le_add_right _ _

/-- Along a chain whose clusters do not look like an end, up to a mark that does, the loop
    stores the sectors of all clusters. -/
theorem collectSectors_of_links (hlinks : Links fs.fat c l mark)
    (hrange : ∀ d ∈ c :: l, 2 ≤ d.toNat) (hgo : ∀ d ∈ l, d ≠ 0xFF0 ∧ d ≠ 0xFFF)
    (hstop : ¬ (mark ≠ 0xFF0 ∧ mark ≠ 0xFFF)) :
    collectSectors fs (l.length + 1) c = some (.ok ((c :: l).flatMap (storedSectors fs))) := by
  induction l generalizing c with
  | nil =>
    rw [List.flatMap_singleton]
    exact collectSectors_stop (hrange c List.mem_cons_self) hlinks hstop
  | cons d l ih =>
    obtain ⟨hnext, hrest⟩ := hlinks
    have hrec := ih hrest (fun e he => hrange e (List.mem_cons_of_mem c he))
      (fun e he => hgo e (List.mem_cons_of_mem d he))
    rw [List.length_cons,
      collectSectors_go (hrange c List.mem_cons_self) hnext (hgo d List.mem_cons_self), hrec]
    rfl

/-- 16 bits are enough for the sectors of a cluster exactly when the last one fits. -/
theorem map_toNat_storedSectors_iff (hspc : 1 ≤ fs.sectorsPerCluster) :
    (storedSectors fs c).map UInt16.toNat = clusterSectors fs c ↔
      sectorOf fs c + fs.sectorsPerCluster ≤ 2 ^ 16 := by
  have hmap : (storedSectors fs c).map UInt16.toNat =
      (List.range fs.sectorsPerCluster).map fun i => (sectorOf fs c + i) % 2 ^ 16 := by
    simp only [storedSectors, clusterSectors, List.map_map]
    rfl
  rw [hmap, clusterSectors, List.map_inj_left]
  constructor
  · intro h
    have hlast := h (fs.sectorsPerCluster - 1) (List.mem_range.mpr (by omega))
    omega
  · intro h i hi
    have hi := List.mem_range.mp hi
    exact Nat.mod_eq_of_lt (by omega)

/-- If the stored sectors are those of the chain, the loop took exactly the chain. -/
theorem ends_of_sectors_eq (hspc : 1 ≤ fs.sectorsPerCluster) (hlinks : Links fs.fat c l mark)
    (hrange : ∀ d ∈ c :: l, 2 ≤ d.toNat) (hrun : collectSectors fs fuel c = some (.ok sectors))
    (heq : sectors.map UInt16.toNat = (c :: l).flatMap (clusterSectors fs)) :
    ¬ (mark ≠ 0xFF0 ∧ mark ≠ 0xFFF) ∧ (∀ d ∈ l, d ≠ 0xFF0 ∧ d ≠ 0xFFF) ∧
      ∀ d ∈ c :: l, sectorOf fs d + fs.sectorsPerCluster ≤ 2 ^ 16 := by
  have hstored := length_storedSectors fs
  have hlength : ∀ d, (clusterSectors fs d).length = fs.sectorsPerCluster := by
    intro d
    simp [clusterSectors]
  induction l generalizing c fuel sectors with
  | nil =>
    have hc := hrange c List.mem_cons_self
    rw [List.flatMap_singleton] at heq
    have hlen := congrArg List.length heq
    rw [List.length_map, hlength] at hlen
    cases fuel with
    | zero => cases hrun
    | succ fuel =>
      by_cases hgo : mark ≠ 0xFF0 ∧ mark ≠ 0xFFF
      · -- one more round would store more sectors
        rw [collectSectors_go hc hlinks hgo] at hrun
        obtain ⟨rest, hrest, hmap⟩ := Option.map_eq_some_iff.mp hrun
        cases rest with
        | error e => cases hmap
        | ok more =>
          cases hmap
          have hmore := le_length_of_collectSectors hrest
          rw [List.length_append, hstored] at hlen
          omega
      · rw [collectSectors_stop hc hlinks hgo] at hrun
        cases hrun
        refine ⟨hgo, by simp, ?_⟩
        intro d hd
        rw [List.mem_singleton.mp hd]
        exact (map_toNat_storedSectors_iff hspc).mp heq
  | cons d l ih =>
    obtain ⟨hnext, hrest⟩ := hlinks
    have hc := hrange c List.mem_cons_self
    cases fuel with
    | zero => cases hrun
    | succ fuel =>
      by_cases hgo : d ≠ 0xFF0 ∧ d ≠ 0xFFF
      · rw [collectSectors_go hc hnext hgo] at hrun
        obtain ⟨rest, hrec, hmap⟩ := Option.map_eq_some_iff.mp hrun
        cases rest with
        | error e => cases hmap
        | ok more =>
          cases hmap
          rw [List.map_append, List.flatMap_cons] at heq
          obtain ⟨hhead, htail⟩ := List.append_inj heq (by rw [List.length_map, hstored, hlength])
          obtain ⟨hmark, hmid, hfit⟩ := ih hrest
            (fun e he => hrange e (List.mem_cons_of_mem c he)) hrec htail
          refine ⟨hmark, ?_, ?_⟩
          · intro e he
            rcases List.mem_cons.mp he with rfl | he
            · exact hgo
            · exact hmid e he
          · intro e he
            rcases List.mem_cons.mp he with rfl | he
            · exact (map_toNat_storedSectors_iff hspc).mp hhead
            · exact hfit e he
      · -- the loop takes the cluster for an end and misses its sectors
        rw [collectSectors_stop hc hnext hgo] at hrun
        cases hrun
        have hlen := congrArg List.length heq
        rw [List.length_map, hstored, List.flatMap_cons, List.flatMap_cons, List.length_append,
          List.length_append, hlength, hlength] at hlen
        omega

/-- The enumerator of a subdirectory has the sectors of its cluster chain exactly when the
    chain ends with `0xFFF`, no later cluster is `0xFF0` or `0xFFF`, and every sector number
    has 16 bits. -/
theorem sectorsFollowChain_iff (hspc : 1 ≤ fs.sectorsPerCluster) (hchain : Chain fs c l mark) :
    SectorsFollowChain fs c (c :: l) ↔
      mark = 0xFFF ∧ (∀ d ∈ l, d ≠ 0xFF0 ∧ d ≠ 0xFFF) ∧
        ∀ d ∈ c :: l, sectorOf fs d + fs.sectorsPerCluster ≤ 2 ^ 16 := by
  have hrange : ∀ d ∈ c :: l, 2 ≤ d.toNat := fun d hd => (hchain.range d hd).1
  have hmark : mark ≠ 0xFF0 := by
    intro h
    have hend := hchain.endMark.1
    simp [h] at hend
  constructor
  · rintro ⟨fuel, sectors, hrun, heq⟩
    obtain ⟨hstop, hmid, hfit⟩ := ends_of_sectors_eq hspc hchain.links hrange hrun heq
    refine ⟨?_, hmid, hfit⟩
    by_cases hfff : mark = 0xFFF
    · exact hfff
    · exact absurd ⟨hmark, hfff⟩ hstop
  · rintro ⟨rfl, hmid, hfit⟩
    refine ⟨l.length + 1, _, collectSectors_of_links hchain.links hrange hmid (by simp), ?_⟩
    rw [List.map_flatMap]
    apply List.flatMap_congr
    intro d hd
    exact (map_toNat_storedSectors_iff hspc).mpr (hfit d hd)

end Chain

/-! ## A disk with one cluster in use -/

/-- Mounting succeeds on every table of whole groups. -/
theorem construct_eq {boot : BootSector} {fat : List UInt8} (hsector : boot.bytesPerSector ≠ 0)
    (hlen : fat.length % 3 = 0) :
    FileSystem.construct boot fat = .ok ⟨boot,
      boot.reservedSectorCount.toNat + boot.numFATs.toNat * boot.fatSize.toNat +
        (boot.rootEntityCount.toNat * sizeofDirectoryEntry) / boot.bytesPerSector.toNat,
      FAT12FAT.readEntries fat⟩ := by
  have hsize := FAT12FAT.length_readEntries fat
  have hwrite : FAT12FAT.write (FAT12FAT.readEntries fat) (List.replicate fat.length 0) = .ok fat :=
    FAT12FAT.write_eq (FAT12FAT.writeEntries_readEntries fat hlen)
      (by rw [List.length_replicate]; omega) List.length_replicate.symm
  simp only [FileSystem.construct, if_neg hsector, FAT12FAT.read_eq hlen, hwrite, bind, Except.bind]

def smallBootSector : BootSector where
  bytesPerSector := 512
  sectorsPerCluster := 1
  reservedSectorCount := 1
  numFATs := 2
  rootEntityCount := 224
  fatSize := 3

/-- Three sectors of table, where cluster 2 holds the end mark `0xF00 + low`. -/
def smallFat (low : UInt8) : List UInt8 :=
  [0xF0, 0xFF, 0xFF, low, 0x0F, 0x00] ++ List.replicate 1530 0

theorem length_smallFat (low : UInt8) : (smallFat low).length = 1536 := by
  rw [smallFat, List.length_append, List.length_replicate]
  rfl

def smallFileSystem (low : UInt8) : FileSystem where
  bootSector := smallBootSector
  firstDataSector := 21
  fat := FAT12FAT.readEntries (smallFat low)

theorem smallFileSystem_construct (low : UInt8) :
    FileSystem.construct smallBootSector (smallFat low) = .ok (smallFileSystem low) :=
  construct_eq (by decide) (by rw [length_smallFat])

theorem smallFileSystem_chain (low : UInt8) (h : 0xF8 ≤ low.toNat) :
    Chain (smallFileSystem low) 2 [] (.ofNat (low.toNat + 0xF00)) := by
  have hlt := low.toNat_lt
  have hlen : (smallFileSystem low).fat.length = 1024 := by
    show (FAT12FAT.readEntries (smallFat low)).length = 1024
    rw [FAT12FAT.length_readEntries, length_smallFat]
  refine ⟨?_, by simp, ?_, ?_⟩
  · show (FAT12FAT.readEntries ([0xF0, 0xFF, 0xFF, low, 0x0F, 0x00] ++ _))[2]? = _
    simp only [List.cons_append, FAT12FAT.readEntries_cons]
    rfl
  · intro c hc
    rw [List.mem_singleton.mp hc, hlen]
    decide
  · rw [UInt16.toNat_ofNat_of_lt' (show _ < 65536 by omega)]
    omega

/-- A table where cluster 2 is followed by clusters 3 and 4, and cluster 4 holds `0xFFF`. -/
def chainFat : List UInt8 :=
  [0xF0, 0xFF, 0xFF, 0x03, 0x40, 0x00, 0xFF, 0x0F, 0x00] ++ List.replicate 1527 0

theorem length_chainFat : chainFat.length = 1536 := by
  rw [chainFat, List.length_append, List.length_replicate]
  rfl

/-- A file system with clusters of two sectors. -/
def chainFileSystem : FileSystem where
  bootSector := { smallBootSector with sectorsPerCluster := 2 }
  firstDataSector := 21
  fat := FAT12FAT.readEntries chainFat

theorem chainFileSystem_construct :
    FileSystem.construct { smallBootSector with sectorsPerCluster := 2 } chainFat =
      .ok chainFileSystem :=
  construct_eq (by decide) (by rw [length_chainFat])

theorem chainFileSystem_length : chainFileSystem.fat.length = 1024 := by
  show (FAT12FAT.readEntries chainFat).length = 1024
  rw [FAT12FAT.length_readEntries, length_chainFat]

/-- The entries of the three clusters. -/
theorem chainFileSystem_entries : chainFileSystem.fat[2]? = some 3 ∧
    chainFileSystem.fat[3]? = some 4 ∧ chainFileSystem.fat[4]? = some 0xFFF := by
  show (FAT12FAT.readEntries chainFat)[2]? = _ ∧ (FAT12FAT.readEntries chainFat)[3]? = _ ∧
    (FAT12FAT.readEntries chainFat)[4]? = _
  simp only [chainFat, List.cons_append, FAT12FAT.readEntries_cons]
  exact ⟨rfl, rfl, rfl⟩

theorem chainFileSystem_chain : Chain chainFileSystem 2 [3, 4] 0xFFF where
  links := chainFileSystem_entries
  nodup := by decide
  range := by
    rw [chainFileSystem_length]
    intro c hc
    simp only [List.mem_cons, List.not_mem_nil, or_false] at hc
    rcases hc with rfl | rfl | rfl <;> decide
  endMark := by decide

/-- A chain of three clusters that ends with `0xFFF` is read as it should be. -/
theorem sectorsFollowChain_three : SectorsFollowChain chainFileSystem 2 [2, 3, 4] := by
  apply (sectorsFollowChain_iff (by decide) chainFileSystem_chain).mpr
  refine ⟨rfl, ?_, ?_⟩
  · intro d hd
    simp only [List.mem_cons, List.not_mem_nil, or_false] at hd
    rcases hd with rfl | rfl <;> decide
  have hsectors : sectorOf chainFileSystem 2 = 21 ∧ sectorOf chainFileSystem 3 = 23 ∧
      sectorOf chainFileSystem 4 = 25 := ⟨rfl, rfl, rfl⟩
  simp only [List.forall_mem_cons, hsectors]
  exact ⟨by decide, by decide, by decide, fun d hd => absurd hd List.not_mem_nil⟩

/-- `0xFF8` is an end mark too, but the loop goes on behind it. -/
theorem sectors_leave_chain : ¬ ∀ (boot : BootSector) (fat : List UInt8) (fs : FileSystem)
    (first : ClusterId) (rest : List ClusterId) (mark : ClusterId),
    FileSystem.construct boot fat = .ok fs → 1 ≤ fs.sectorsPerCluster →
    Chain fs first rest mark → SectorsFollowChain fs first (first :: rest) := by
  intro h
  have hchain := smallFileSystem_chain 0xF8 (by decide)
  have hfollow := h _ _ _ 2 [] _ (smallFileSystem_construct 0xF8) (by decide) hchain
  obtain ⟨fuel, sectors, hrun, heq⟩ := hfollow
  have hends := ends_of_sectors_eq (by decide) hchain.links (fun d hd => (hchain.range d hd).1)
    hrun heq
  exact hends.1 (by decide)

end DirectoryEnum

end TimbOS.Native.Fat12
