import TimbOS.ForStd.List
import TimbOS.Native.Fat12

/-!
# Directory enumeration

The enumerator keeps one index between calls and reads its sector anew in each call. Over
any number of calls it yields the entries that count, in the order of the disk, and then
nothing.

## Key results

- `extractFileName_eq`: the name of an item
- `next_eq`: one call takes the first entry that counts from the rest of the directory
- `run_eq`: any number of calls
-/

namespace TimbOS.Native.Fat12

/-! ## Names -/

/-- A name of the directory without padding: base, dot and extension, or the base alone. -/
def shortName (fn : List UInt8) : List UInt8 :=
  let base := (fn.take 8).filter (· ≠ ' '.toUInt8)
  let ext := ((fn.drop 8).take 3).filter (· ≠ ' '.toUInt8)
  if (ext.getLast?.getD '.'.toUInt8) = '.'.toUInt8 then (base ++ '.'.toUInt8 :: ext).dropLast
  else base ++ '.'.toUInt8 :: ext

theorem extractFnPart_eq (count : Nat) (src dest : List UInt8) :
    extractFnPart count src dest =
      (src.drop count, dest ++ (src.take count).filter (· ≠ ' '.toUInt8)) := by
  induction count generalizing src dest with
  | zero => simp [extractFnPart]
  | succ count ih =>
    cases src with
    | nil => simp [extractFnPart]
    | cons ch src =>
      rw [extractFnPart, ih, List.drop_succ_cons, List.take_succ_cons, List.filter_cons]
      by_cases hch : ch ≠ ' '.toUInt8
      · simp [hch]
      · simp [hch]

theorem extractFileName_eq (fn : List UInt8) : extractFileName fn = shortName fn := by
  simp only [extractFileName, extractFnPart_eq, List.nil_append, shortName, List.append_assoc,
    List.singleton_append]
  generalize ((fn.drop 8).take 3).filter (· ≠ ' '.toUInt8) = ext
  generalize (fn.take 8).filter (· ≠ ' '.toUInt8) = base
  have hlast : (base ++ '.'.toUInt8 :: ext).getLast? = some (ext.getLast?.getD '.'.toUInt8) := by
    rw [List.getLast?_append, List.getLast?_cons]
    rfl
  rw [hlast]
  simp only [Option.some.injEq]

/-! ## Items -/

namespace Item

def name : Item → List UInt8
  | .directory name _ => name
  | .file name _ _ => name

def firstCluster : Item → ClusterId
  | .directory _ firstCluster => firstCluster
  | .file _ _ firstCluster => firstCluster

/-- Files know their size. -/
def size? : Item → Option UInt32
  | .directory _ _ => none
  | .file _ size _ => some size

def isDirectory : Item → Bool
  | .directory _ _ => true
  | .file _ _ _ => false

end Item

namespace DirectoryEntry

/-- The `ATTR_DIRECTORY` bit. -/
def isDirectory (entry : DirectoryEntry) : Bool := entry.attr.toNat.testBit 4

/-- What an item carries of its entry. -/
theorem item_spec (entry : DirectoryEntry) :
    entry.item.isDirectory = entry.isDirectory ∧
      entry.item.name = (shortName entry.name).takeWhile (· ≠ 0) ∧
      entry.item.firstCluster = entry.fileSystemClusterLogical ∧
      entry.item.size? = if entry.isDirectory then none else some entry.fileSize := by
  have hbit : entry.attr.toNat &&& attrDirectory ≠ 0 ↔ entry.isDirectory = true := by
    rw [show attrDirectory = 2 ^ 4 from rfl, Nat.and_two_pow, isDirectory]
    cases entry.attr.toNat.testBit 4
    · decide
    · decide
  unfold item
  rw [extractFileName_eq]
  by_cases hdir : entry.isDirectory = true
  · rw [if_pos (hbit.mpr hdir), if_pos hdir, hdir]
    exact ⟨rfl, rfl, rfl, rfl⟩
  · rw [if_neg (mt hbit.mp hdir), if_neg hdir, Bool.eq_false_iff.mpr hdir]
    exact ⟨rfl, rfl, rfl, rfl⟩

end DirectoryEntry

namespace DirectoryEnum

/-! ## The directory on disk -/

/-- Every read of a directory sector succeeds and delivers the bytes of the disk. -/
def ReadsDisk {σ : Type} (dev : BlockDevice σ) (disk : Nat → List UInt8)
    (sectors : List UInt16) : Prop :=
  ∀ sector ∈ sectors, (disk sector.toNat).length = 512 ∧
    ∀ s buffer, ∃ s', dev.read s sector.toNat 1 buffer = (true, disk sector.toNat, s')

/-- Every read of a directory sector into a buffer with the property `P` succeeds and delivers
    the bytes of the disk, which have it too. -/
def ReadsInto {σ : Type} (P : List UInt8 → Prop) (dev : BlockDevice σ)
    (disk : Nat → List UInt8) (sectors : List UInt16) : Prop :=
  ∀ sector ∈ sectors, P (disk sector.toNat) ∧
    ∀ s buffer, P buffer → ∃ s', dev.read s sector.toNat 1 buffer = (true, disk sector.toNat, s')

/-- All entries of a directory, in the order of the disk. -/
def entries (disk : Nat → List UInt8) (sectors : List UInt16) : List DirectoryEntry :=
  sectors.flatMap fun sector => (List.range 16).map (entryAt (disk sector.toNat))

/-- The entries in use: those before the end mark that are neither deleted nor empty. -/
def inUse (l : List DirectoryEntry) : List DirectoryEntry :=
  (l.takeWhile fun e => e.firstByte ≠ 0x00).filter fun e => e.firstByte ≠ 0xE5 ∧ e.firstByte ≠ 0x0E

/-- A number of calls of `next`, each with its own content of the stack frame. -/
def run {σ : Type} (dev : BlockDevice σ) :
    List (List UInt8) → DirectoryEnum → σ → Except Fault (List (Option Item) × DirectoryEnum × σ)
  | [], e, s => .ok ([], e, s)
  | stack :: rest, e, s => do
    let (item, e, s) ← e.next dev s stack
    let (items, e, s) ← run dev rest e s
    .ok (item :: items, e, s)

section Enum

variable {σ : Type} {P : List UInt8 → Prop} {dev : BlockDevice σ} {disk : Nat → List UInt8}
  {sectors : List UInt16}

theorem ReadsDisk.readsInto (hdev : ReadsDisk dev disk sectors) :
    ReadsInto (fun _ => True) dev disk sectors := by
  intro sector hsector
  exact ⟨trivial, fun s buffer _ => (hdev sector hsector).2 s buffer⟩

theorem length_entries : (entries disk sectors).length = sectors.length * 16 := by
  simp [entries, List.length_flatMap]

theorem entries_getElem? (i : Nat) :
    (entries disk sectors)[i]? =
      sectors[i / 16]?.map fun sector => entryAt (disk sector.toNat) (i % 16) := by
  rw [entries, List.getElem?_flatMap_of_length (n := 16) (by decide) (by simp)]
  have hmod : i % 16 < 16 := Nat.mod_lt i (by decide)
  cases sectors[i / 16]? with
  | none => rfl
  | some sector => simp [hmod]

theorem inUse_cons_end {e : DirectoryEntry} {l : List DirectoryEntry} (h : e.firstByte = 0x00) :
    inUse (e :: l) = [] := by
  simp [inUse, h]

theorem inUse_cons_skip {e : DirectoryEntry} {l : List DirectoryEntry}
    (h : e.firstByte = 0x0E ∨ e.firstByte = 0xE5) : inUse (e :: l) = inUse l := by
  have h0 : e.firstByte ≠ 0x00 := by omega
  have hnot : ¬ (e.firstByte ≠ 0xE5 ∧ e.firstByte ≠ 0x0E) := by omega
  simp only [inUse, List.takeWhile_cons, h0, ne_eq, not_false_eq_true, decide_true, if_true]
  rw [List.filter_cons_of_neg (by simpa using hnot)]

theorem inUse_cons_use {e : DirectoryEntry} {l : List DirectoryEntry} (h0 : e.firstByte ≠ 0x00)
    (h : ¬ (e.firstByte = 0x0E ∨ e.firstByte = 0xE5)) : inUse (e :: l) = e :: inUse l := by
  have huse : e.firstByte ≠ 0xE5 ∧ e.firstByte ≠ 0x0E := by omega
  simp only [inUse, List.takeWhile_cons, h0, ne_eq, not_false_eq_true, decide_true, if_true]
  rw [List.filter_cons_of_pos (by simpa using huse)]

/-- The cache holds the sector of the disk that it says it holds. -/
def CacheValid (disk : Nat → List UInt8) (sectors : List UInt16) (cache : SectorCache) : Prop :=
  ∀ k, cache.sectorIndex = some k →
    ∃ sector, sectors[k]? = some sector ∧ cache.data = disk sector.toNat

/-- Whether it was cached or is read now, the sector's data are the disk's. -/
theorem load_eq (hdev : ReadsInto P dev disk sectors) (s : σ) {cache : SectorCache}
    (hcache : CacheValid disk sectors cache) (hbuffer : P cache.data) {k : Nat} {sector : UInt16}
    (hsector : sectors[k]? = some sector) :
    ∃ s', cache.load dev sectors k s = .ok (⟨some k, disk sector.toNat⟩, s') := by
  unfold SectorCache.load
  by_cases hhit : cache.sectorIndex = some k
  · obtain ⟨sector', hsector', hdata⟩ := hcache k hhit
    rw [hsector] at hsector'
    cases hsector'
    refine ⟨s, ?_⟩
    rw [if_neg (not_not.mpr hhit), ← hhit, ← hdata]
  · obtain ⟨s', hrun⟩ := (hdev sector (List.mem_of_getElem? hsector)).2 s cache.data hbuffer
    refine ⟨s', ?_⟩
    rw [if_pos hhit, hsector]
    simp only [hrun]

/-- The loop of `next` from index `i` on: it takes the first entry in use, and the entries
    in use behind its new index are the others. -/
theorem nextLoop_eq (hdev : ReadsInto P dev disk sectors) {n : Nat} (s : σ) (i : Nat)
    (cache : SectorCache) (hn : i + n = sectors.length * 16)
    (hcache : CacheValid disk sectors cache) (hbuffer : P cache.data) :
    ∃ i' s', nextLoop dev sectors n s i cache =
        .ok ((inUse ((entries disk sectors).drop i)).head?.map DirectoryEntry.item, i', s') ∧
      inUse ((entries disk sectors).drop i') = (inUse ((entries disk sectors).drop i)).tail ∧
      i' ≤ sectors.length * 16 := by
  have hend : ∀ j, sectors.length * 16 ≤ j → (entries disk sectors).drop j = [] := by
    intro j hj
    apply List.drop_eq_nil_of_le
    rw [length_entries]
    exact hj
  induction n generalizing s i cache with
  | zero =>
    rw [hend i (by omega)]
    exact ⟨i, s, rfl, by rw [hend i (by omega)]; rfl, by omega⟩
  | succ n ih =>
    have hlt : i / 16 < sectors.length := by omega
    obtain ⟨sector, hsector⟩ : ∃ sector, sectors[i / 16]? = some sector :=
      ⟨_, List.getElem?_eq_getElem hlt⟩
    obtain ⟨s₁, hload⟩ := load_eq hdev s hcache hbuffer hsector
    have hcache₁ : CacheValid disk sectors ⟨some (i / 16), disk sector.toNat⟩ := by
      intro k hk
      cases hk
      exact ⟨sector, hsector, rfl⟩
    have hdrop : (entries disk sectors).drop i =
        entryAt (disk sector.toNat) (i % 16) :: (entries disk sectors).drop (i + 1) := by
      have hget : (entries disk sectors)[i]? =
          sectors[i / 16]?.map fun sector => entryAt (disk sector.toNat) (i % 16) :=
        entries_getElem? i
      rw [hsector] at hget
      obtain ⟨hi, hval⟩ := List.getElem?_eq_some_iff.mp hget
      rw [List.drop_eq_getElem_cons hi, hval]
    rw [hdrop, nextLoop]
    simp only [hload, bind, Except.bind]
    generalize entryAt (disk sector.toNat) (i % 16) = entry
    by_cases hfree : entry.firstByte = 0x00
    · -- the rest of the directory is empty
      rw [if_pos hfree, inUse_cons_end hfree]
      exact ⟨_, s₁, rfl, by rw [hend _ (by omega)]; rfl, by omega⟩
    · rw [if_neg hfree]
      by_cases hskip : entry.firstByte = 0x0E ∨ entry.firstByte = 0xE5
      · rw [if_pos hskip, inUse_cons_skip hskip]
        exact ih s₁ (i + 1) _ (by omega) hcache₁ (hdev sector (List.mem_of_getElem? hsector)).1
      · rw [if_neg hskip, inUse_cons_use hfree hskip]
        exact ⟨_, s₁, rfl, rfl, by omega⟩

/-- One call of `next`: the first entry in use from the index on, and an index that leaves
    the others. -/
theorem next_eq (e : DirectoryEnum) (hdev : ReadsInto P dev disk e.sectors) (s : σ)
    (stack : List UInt8) (hstack : P stack) (he : e.index ≤ e.entryCount) :
    ∃ e' s', e.next dev s stack =
        .ok ((inUse ((entries disk e.sectors).drop e.index)).head?.map DirectoryEntry.item,
          e', s') ∧
      e'.sectors = e.sectors ∧ e'.index ≤ e'.entryCount ∧
      inUse ((entries disk e'.sectors).drop e'.index) =
        (inUse ((entries disk e.sectors).drop e.index)).tail := by
  obtain ⟨i', s', hrun, htail, hle⟩ := nextLoop_eq (n := e.entryCount - e.index) hdev s e.index
    ⟨none, stack⟩ (Nat.add_sub_cancel' he) (fun k hk => nomatch hk) hstack
  refine ⟨{ e with index := i' }, s', ?_, rfl, hle, htail⟩
  simp only [next, hrun, bind, Except.bind]

/-- Any number of calls of `next` yields the entries in use, and then nothing. -/
theorem run_eq (e : DirectoryEnum) (hdev : ReadsDisk dev disk e.sectors) (s : σ)
    (frames : List (List UInt8)) (he : e.index ≤ e.entryCount) :
    ∃ e' s', run dev frames e s =
        .ok ((List.range frames.length).map fun k =>
          (inUse ((entries disk e.sectors).drop e.index))[k]?.map DirectoryEntry.item, e', s') ∧
      e'.sectors = e.sectors := by
  induction frames generalizing e s with
  | nil => exact ⟨e, s, rfl, rfl⟩
  | cons stack rest ih =>
    obtain ⟨e₁, s₁, hnext, hsectors, hle, htail⟩ := next_eq e hdev.readsInto s stack trivial he
    obtain ⟨e', s', hrest, hsectors'⟩ := ih e₁ (hsectors ▸ hdev) s₁ hle
    refine ⟨e', s', ?_, hsectors'.trans hsectors⟩
    rw [run]
    simp only [hnext, hrest, bind, Except.bind, htail]
    rw [List.length_cons, List.range_succ_eq_map, List.map_cons, List.map_map]
    simp [List.head?_eq_getElem?, Function.comp_def]

/-- From `reset()` on, the calls of `next` yield one item for each entry in use, in the
    order of the disk, and nothing behind the last. Items carry the name and the first
    cluster of their entry, files also the size. -/
theorem enumeration_exact (e : DirectoryEnum) (hdev : ReadsDisk dev disk e.sectors) (s : σ)
    (frames : List (List UInt8)) :
    ∃ e' s', run dev frames e.reset s =
        .ok ((List.range frames.length).map fun k =>
          (inUse (entries disk e.sectors))[k]?.map DirectoryEntry.item, e', s') ∧
      e'.sectors = e.sectors ∧
      ∀ entry ∈ inUse (entries disk e.sectors),
        entry.item.isDirectory = entry.isDirectory ∧
        entry.item.name = (shortName entry.name).takeWhile (· ≠ 0) ∧
        entry.item.firstCluster = entry.fileSystemClusterLogical ∧
        (entry.isDirectory = false → entry.item.size? = some entry.fileSize) := by
  obtain ⟨e', s', hrun, hsectors⟩ := run_eq e.reset hdev s frames (Nat.zero_le _)
  refine ⟨e', s', hrun, hsectors, ?_⟩
  intro entry _
  obtain ⟨hdir, hname, hcluster, hsize⟩ := entry.item_spec
  refine ⟨hdir, hname, hcluster, ?_⟩
  intro hfile
  rw [hsize, hfile]
  rfl

end Enum

/-! ## A root directory with one subdirectory -/

/-- The sector of a directory with the one entry `BOOT`, a directory in cluster 2 whose
    size field is 5. -/
def bootSector : List UInt8 :=
  [0x42, 0x4F, 0x4F, 0x54, 0x20, 0x20, 0x20, 0x20, 0x20, 0x20, 0x20, 0x10] ++
    List.replicate 14 0 ++ [2, 0, 5, 0, 0, 0] ++ List.replicate 480 0

def bootDevice : BlockDevice Unit where
  read := fun _ _ _ _ => (true, bootSector, ())

theorem bootDevice_reads : ReadsDisk bootDevice (fun _ => bootSector) [19] := by
  intro sector _
  refine ⟨?_, fun s buffer => ⟨(), rfl⟩⟩
  simp only [bootSector, List.length_append, List.length_replicate]
  rfl

/-- Two calls yield the directory and then nothing. -/
theorem enumeration_exact_boot : ∃ e' s',
    run bootDevice [[], []] (reset ⟨[19], 7⟩) () =
      .ok ([some (.directory [0x42, 0x4F, 0x4F, 0x54] 2), none], e', s') := by
  obtain ⟨e', s', hrun, _⟩ := enumeration_exact ⟨[19], 7⟩ bootDevice_reads () [[], []]
  exact ⟨e', s', hrun⟩

/-- An item does not always carry the size of its entry: a directory item has none. -/
theorem directory_without_size : ¬ ∀ (dev : BlockDevice Unit) (disk : Nat → List UInt8)
    (e : DirectoryEnum) (frames : List (List UInt8)) (items : List (Option Item))
    (e' : DirectoryEnum), ReadsDisk dev disk e.sectors →
    run dev frames e.reset () = .ok (items, e', ()) →
    ∀ (k : Nat) (item : Item), items[k]? = some (some item) →
      ∃ entry : DirectoryEntry, (inUse (entries disk e.sectors))[k]? = some entry ∧
        item.size? = some entry.fileSize := by
  intro h
  obtain ⟨entry, _, hsize⟩ := h bootDevice (fun _ => bootSector) ⟨[19], 0⟩ [[]] _ _
    bootDevice_reads rfl 0 (.directory [0x42, 0x4F, 0x4F, 0x54] 2) rfl
  cases hsize

end DirectoryEnum

end TimbOS.Native.Fat12
