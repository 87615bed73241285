import TimbOS.Spec.Fat12Enum
import TimbOS.Spec.Fat12Mount

/-!
# Data from reads that failed

Neither the constructor of the file system nor `next` looks at the result of a read. The
reads are recorded here by a device that passes them on, so that it can be said which read a
result comes from. Whatever the device answers, mounting uses the bytes that it left in the
buffer, and `next` returns the first entry in use among the entries that it left.

## Key results

- `mount_recorded`: the read of the constructor
- `next_delivered`: the entry that `next` takes and the read that it comes from
- `reads_checked_iff`: exactly for which answers no data come from a failed read
- `broken_disk_delivers`: data from a disk that never answers
-/

namespace TimbOS.Native.Fat12

/-! ## Recorded reads -/

/-- A read of a device: its arguments, its result and what the buffer holds then. -/
structure ReadRecord where
  first : Nat
  count : Nat
  ok : Bool
  data : List UInt8

variable {σ : Type}

/-- The device with a record of the reads so far. -/
def Disk.recorded (disk : Disk σ) : Disk (σ × List ReadRecord) where
  read := fun s first count buffer =>
    let (ok, data, s') := disk.read s.1 first count buffer
    (ok, data, s', s.2 ++ [⟨first, count, ok, data⟩])
  length_read := by
    intro s first count buffer
    exact disk.length_read s.1 first count buffer

/-- The record of a read. -/
def Disk.record (disk : Disk σ) (s : σ) (first count : Nat) (buffer : List UInt8) : ReadRecord :=
  ⟨first, count, (disk.read s first count buffer).1, (disk.read s first count buffer).2.1⟩

theorem recorded_read (disk : Disk σ) (s : σ) (log : List ReadRecord) (first count : Nat)
    (buffer : List UInt8) :
    disk.recorded.read (s, log) first count buffer =
      ((disk.read s first count buffer).1, (disk.read s first count buffer).2.1,
        (disk.read s first count buffer).2.2, log ++ [disk.record s first count buffer]) := rfl

/-! ## The table -/

namespace FileSystem

/-- The read of the constructor. -/
def fatRead (disk : Disk σ) (s : σ) (boot : BootSector) : ReadRecord :=
  disk.record s boot.reservedSectorCount.toNat boot.fatSize.toNat
    (List.replicate (boot.bytesPerSector.toNat * boot.fatSize.toNat) 0)

/-- Mounting makes one read, and builds the table from what is in the buffer then. -/
theorem mount_recorded {disk : Disk σ} {s s' : σ} {log : List ReadRecord} {boot : BootSector}
    {fs : FileSystem} (h : mount disk.recorded (s, []) boot = .ok (fs, s', log)) :
    log = [fatRead disk s boot] ∧ fs.fat = FAT12FAT.readEntries (fatRead disk s boot).data := by
  have hsizes := sizesFit_of_mount h
  have hlen : (fatRead disk s boot).data.length % 3 = 0 := by
    rw [fatRead, Disk.record, disk.length_read, List.length_replicate]
    exact hsizes.pairs
  have hconstruct := DirectoryEnum.construct_eq hsizes.sector hlen
  have hdata : (readFat disk s boot).2.1 = (fatRead disk s boot).data := rfl
  rw [mount_eq disk.recorded (s, []) hsizes.sector hsizes.blocks, readFat, recorded_read,
    ← readFat] at h
  simp only [hdata, hconstruct, Except.map, List.nil_append, Except.ok.injEq, Prod.mk.injEq] at h
  obtain ⟨rfl, -, rfl⟩ := h
  exact ⟨rfl, rfl⟩

end FileSystem

/-! ## The directory -/

namespace DirectoryEnum

/-- The reads of some sectors, one after the other into one buffer. -/
def sectorReads (disk : Disk σ) : List UInt16 → σ → List UInt8 → List ReadRecord
  | [], _, _ => []
  | sector :: sectors, s, buffer =>
    let (_, data, s') := disk.read s sector.toNat 1 buffer
    disk.record s sector.toNat 1 buffer :: sectorReads disk sectors s' data

/-- The entries that a read leaves in the cache, with the read. -/
def readEntriesOf (r : ReadRecord) : List (ReadRecord × DirectoryEntry) :=
  (List.range 16).map fun i => (r, entryAt r.data i)

/-- The entries from the index on, as the device delivers them. -/
def delivered (disk : Disk σ) (e : DirectoryEnum) (s : σ) (stack : List UInt8) :
    List (ReadRecord × DirectoryEntry) :=
  ((sectorReads disk (e.sectors.drop (e.index / 16)) s stack).flatMap readEntriesOf).drop
    (e.index % 16)

/-- The first entry in use: none if the end mark comes first. -/
def firstInUse (l : List (ReadRecord × DirectoryEntry)) : Option (ReadRecord × DirectoryEntry) :=
  (l.takeWhile fun p => p.2.firstByte ≠ 0x00).find? fun p =>
    p.2.firstByte ≠ 0xE5 ∧ p.2.firstByte ≠ 0x0E

theorem firstInUse_cons_end {p : ReadRecord × DirectoryEntry}
    {l : List (ReadRecord × DirectoryEntry)} (h : p.2.firstByte = 0x00) :
    firstInUse (p :: l) = none := by
  simp [firstInUse, h]

theorem firstInUse_cons_skip {p : ReadRecord × DirectoryEntry}
    {l : List (ReadRecord × DirectoryEntry)} (h : p.2.firstByte = 0x0E ∨ p.2.firstByte = 0xE5) :
    firstInUse (p :: l) = firstInUse l := by
  have h0 : p.2.firstByte ≠ 0x00 := by omega
  have hnot : ¬ (p.2.firstByte ≠ 0xE5 ∧ p.2.firstByte ≠ 0x0E) := by omega
  simp only [firstInUse, List.takeWhile_cons, h0, ne_eq, not_false_eq_true, decide_true, if_true]
  rw [List.find?_cons_of_neg (by simpa using hnot)]

theorem firstInUse_cons_use {p : ReadRecord × DirectoryEntry}
    {l : List (ReadRecord × DirectoryEntry)} (h0 : p.2.firstByte ≠ 0x00)
    (h : ¬ (p.2.firstByte = 0x0E ∨ p.2.firstByte = 0xE5)) : firstInUse (p :: l) = some p := by
  have huse : p.2.firstByte ≠ 0xE5 ∧ p.2.firstByte ≠ 0x0E := by omega
  simp only [firstInUse, List.takeWhile_cons, h0, ne_eq, not_false_eq_true, decide_true, if_true]
  rw [List.find?_cons_of_pos (by simpa using huse)]

/-- The entries that `next` has in front of it at index `i`, when the last read was `r` and the
    cache says what it holds. -/
def ahead (disk : Disk σ) (sectors : List UInt16) (s : σ) (i : Nat) (cached : Option Nat)
    (r : ReadRecord) : List (ReadRecord × DirectoryEntry) :=
  if cached = some (i / 16) then
    (readEntriesOf r).drop (i % 16) ++
      (sectorReads disk (sectors.drop (i / 16 + 1)) s r.data).flatMap readEntriesOf
  else
    ((sectorReads disk (sectors.drop (i / 16)) s r.data).flatMap readEntriesOf).drop (i % 16)

theorem length_readEntriesOf (r : ReadRecord) : (readEntriesOf r).length = 16 := by
  rw [readEntriesOf, List.length_map, List.length_range]

variable {disk : Disk σ} {sectors : List UInt16}

/-- Reading the sector of the index changes nothing about what is ahead. -/
theorem ahead_load {s : σ} {i : Nat} {cached : Option Nat} {r : ReadRecord} {sector : UInt16}
    (hcached : cached ≠ some (i / 16)) (hsector : sectors[i / 16]? = some sector) :
    ahead disk sectors s i cached r =
      ahead disk sectors (disk.read s sector.toNat 1 r.data).2.2 i (some (i / 16))
        (disk.record s sector.toNat 1 r.data) := by
  obtain ⟨hi, hval⟩ := List.getElem?_eq_some_iff.mp hsector
  have hdrop := List.drop_eq_getElem_cons hi
  rw [hval] at hdrop
  have hmod : i % 16 < 16 := Nat.mod_lt i (by decide)
  rw [ahead, if_neg hcached, ahead, if_pos rfl, hdrop, sectorReads, List.flatMap_cons,
    List.drop_append_of_le_length (by rw [length_readEntriesOf]; omega)]
  rfl

/-- The entry of the index is the first one ahead, the others are ahead of the next index. -/
theorem ahead_cons {s : σ} {i : Nat} {r : ReadRecord} :
    ahead disk sectors s i (some (i / 16)) r =
      (r, entryAt r.data (i % 16)) :: ahead disk sectors s (i + 1) (some (i / 16)) r := by
  have hmod : i % 16 < 16 := Nat.mod_lt i (by decide)
  have hlt : i % 16 < (readEntriesOf r).length := by rw [length_readEntriesOf]; exact hmod
  have hentry : (readEntriesOf r)[i % 16] = (r, entryAt r.data (i % 16)) := by
    simp only [readEntriesOf, List.getElem_map, List.getElem_range]
  rw [ahead, if_pos rfl, List.drop_eq_getElem_cons hlt, hentry, List.cons_append, ahead]
  congr 1
  by_cases hlast : i % 16 = 15
  · -- the next index is in the next sector
    have hdiv : (i + 1) / 16 = i / 16 + 1 := by omega
    have hmod' : (i + 1) % 16 = 0 := by omega
    have hne : some (i / 16) ≠ some ((i + 1) / 16) := by
      rw [hdiv]
      simp
    rw [if_neg hne, hdiv, hmod', List.drop_zero,
      List.drop_eq_nil_of_le (by rw [length_readEntriesOf, hlast]), List.nil_append]
  · have hdiv : (i + 1) / 16 = i / 16 := by omega
    have hmod' : (i + 1) % 16 = i % 16 + 1 := by omega
    rw [if_pos (by rw [hdiv]), hdiv, hmod']

/-- The last read is the one of the cached sector. -/
def LastRead (sectors : List UInt16) (log : List ReadRecord) (cached : Option Nat)
    (r : ReadRecord) : Prop :=
  ∀ k, cached = some k → log.getLast? = some r ∧ sectors[k]?.map UInt16.toNat = some r.first

/-- The entry in front of the index comes from the last read, which was a read of its sector. -/
structure FromLastRead (sectors : List UInt16) (index : Nat) (log : List ReadRecord)
    (p : ReadRecord × DirectoryEntry) : Prop where
  last : log.getLast? = some p.1
  sector : sectors[(index - 1) / 16]?.map UInt16.toNat = some p.1.first
  entry : p.2 = entryAt p.1.data ((index - 1) % 16)

/-- Nothing is ahead of the end of the directory. -/
private theorem ahead_nil {s : σ} {i : Nat} {cached : Option Nat} {log : List ReadRecord}
    {r : ReadRecord} (hi : sectors.length * 16 ≤ i) (hlast : LastRead sectors log cached r) :
    ahead disk sectors s i cached r = [] := by
  have hcached : cached ≠ some (i / 16) := by
    intro h
    -- a sector behind the last one cannot be cached
    have hsector := (hlast _ h).2
    rw [List.getElem?_eq_none (by omega)] at hsector
    exact nomatch hsector
  have hnone : sectors.drop (i / 16) = [] := List.drop_eq_nil_of_le (by omega)
  rw [ahead, if_neg hcached, hnone, sectorReads, List.flatMap_nil, List.drop_nil]

/-- Whether it was cached or is read now, the sector of the index is in the cache then. -/
private theorem load_ahead (disk : Disk σ) (s : σ) {log : List ReadRecord} {i : Nat}
    {cache : SectorCache} {r : ReadRecord} (hi : i < sectors.length * 16)
    (hdata : cache.data = r.data)
    (hlast : LastRead sectors log cache.sectorIndex r) :
    ∃ s₁ log₁ r₁,
      cache.load disk.recorded.toBlockDevice sectors (i / 16) (s, log) =
        .ok (⟨some (i / 16), r₁.data⟩, s₁, log₁) ∧
      ahead disk sectors s i cache.sectorIndex r = ahead disk sectors s₁ i (some (i / 16)) r₁ ∧
      LastRead sectors log₁ (some (i / 16)) r₁ := by
  by_cases hcached : cache.sectorIndex = some (i / 16)
  · refine ⟨s, log, r, ?_, by rw [hcached], by rw [← hcached]; exact hlast⟩
    rw [SectorCache.load, if_neg (not_not.mpr hcached), ← hcached, ← hdata]
  · obtain ⟨sector, hsector⟩ : ∃ sector, sectors[i / 16]? = some sector :=
      ⟨_, List.getElem?_eq_getElem (by omega)⟩
    refine ⟨(disk.read s sector.toNat 1 r.data).2.2,
      log ++ [disk.record s sector.toNat 1 r.data], disk.record s sector.toNat 1 r.data, ?_,
      ahead_load hcached hsector, ?_⟩
    · rw [SectorCache.load, if_pos hcached, hsector, hdata]
      rfl
    · intro k hk
      cases hk
      exact ⟨List.getLast?_concat, by rw [hsector]; rfl⟩

/-- The loop of `next` takes the first entry in use of those that are ahead. -/
theorem nextLoop_ahead (disk : Disk σ) (n : Nat) (s : σ) (log : List ReadRecord) (i : Nat)
    (cache : SectorCache) (r : ReadRecord) (hn : n = sectors.length * 16 - i)
    (hdata : cache.data = r.data) (hlast : LastRead sectors log cache.sectorIndex r) :
    ∃ i' s' log', nextLoop disk.recorded.toBlockDevice sectors n (s, log) i cache =
        .ok ((firstInUse (ahead disk sectors s i cache.sectorIndex r)).map fun p => p.2.item,
          i', s', log') ∧
      ∀ p, firstInUse (ahead disk sectors s i cache.sectorIndex r) = some p →
        FromLastRead sectors i' log' p := by
  induction n generalizing s log i cache r with
  | zero =>
    rw [ahead_nil (by omega) hlast]
    refine ⟨i, s, log, rfl, ?_⟩
    intro p hp
    cases hp
  | succ n ih =>
    obtain ⟨s₁, log₁, r₁, hload, hahead, hbehind⟩ :=
      load_ahead disk s (show i < sectors.length * 16 by omega) hdata hlast
    -- the sector is in the cache now, and its entry is the first one ahead
    rw [hahead, ahead_cons, nextLoop]
    simp only [hload, bind, Except.bind]
    by_cases hfree : (entryAt r₁.data (i % 16)).firstByte = 0x00
    · rw [if_pos hfree, firstInUse_cons_end hfree]
      refine ⟨_, s₁, log₁, rfl, ?_⟩
      intro p hp
      cases hp
    · rw [if_neg hfree]
      by_cases hskip : (entryAt r₁.data (i % 16)).firstByte = 0x0E ∨
          (entryAt r₁.data (i % 16)).firstByte = 0xE5
      · rw [if_pos hskip, firstInUse_cons_skip hskip]
        exact ih s₁ log₁ (i + 1) ⟨some (i / 16), r₁.data⟩ r₁ (by omega) rfl hbehind
      · rw [if_neg hskip, firstInUse_cons_use hfree hskip]
        refine ⟨i + 1, s₁, log₁, rfl, ?_⟩
        intro p hp
        cases hp
        obtain ⟨hlog, hsector⟩ := hbehind _ rfl
        exact ⟨hlog, hsector, rfl⟩

/-- One call of `next` takes the first entry in use of those that the device delivers, and the
    entry comes from the last read of the call. -/
theorem next_delivered (disk : Disk σ) (e : DirectoryEnum) (s : σ) (stack : List UInt8) :
    ∃ e' s' log, e.next disk.recorded.toBlockDevice (s, []) stack =
        .ok ((firstInUse (delivered disk e s stack)).map fun p => p.2.item, e', s', log) ∧
      ∀ p, firstInUse (delivered disk e s stack) = some p →
        FromLastRead e.sectors e'.index log p := by
  obtain ⟨i', s', log, hloop, hfrom⟩ := nextLoop_ahead disk (e.entryCount - e.index) s [] e.index
    ⟨none, stack⟩ ⟨0, 0, true, stack⟩ rfl rfl nofun
  refine ⟨{ e with index := i' }, s', log, ?_, hfrom⟩
  simp only [next, hloop, bind, Except.bind]
  rfl

end DirectoryEnum

/-! ## Results and the reads they come from -/

/-- A file system comes from a read of the table that succeeded. -/
def TableWasRead (disk : Disk σ) (s : σ) (data : List UInt8) : Prop :=
  ∀ fs s' log, FileSystem.tryCreate disk.recorded (s, []) (some data) = .ok (some fs, s', log) →
    ∃ r ∈ log, r.first = (BootSector.ofBytes data).reservedSectorCount.toNat ∧ r.ok = true

/-- An item comes from a read of its sector that succeeded. -/
def SectorWasRead (disk : Disk σ) (e : DirectoryEnum) (s : σ) (stack : List UInt8) : Prop :=
  ∀ item e' s' log,
    e.next disk.recorded.toBlockDevice (s, []) stack = .ok (some item, e', s', log) →
    ∃ r entry, DirectoryEnum.FromLastRead e.sectors e'.index log (r, entry) ∧
      item = entry.item ∧ r.ok = true

/-- What keeps the first law: the read of the table succeeds, or mounting does not come to an
    end. -/
def TableReadSucceeds (disk : Disk σ) (s : σ) (data : List UInt8) : Prop :=
  isFAT12 data = false ∨ ¬ FileSystem.SizesFit (.ofBytes data) ∨
    (FileSystem.fatRead disk s (.ofBytes data)).ok = true

/-- What keeps the second: the read that delivers the first entry in use succeeds. -/
def EntryReadSucceeds (disk : Disk σ) (e : DirectoryEnum) (s : σ) (stack : List UInt8) : Prop :=
  ∀ p ∈ DirectoryEnum.firstInUse (DirectoryEnum.delivered disk e s stack), p.1.ok = true

theorem tableWasRead_iff (disk : Disk σ) (s : σ) (data : List UInt8) :
    TableWasRead disk s data ↔ TableReadSucceeds disk s data := by
  rw [TableWasRead, TableReadSucceeds, FileSystem.tryCreate]
  by_cases haccept : isFAT12 data = true
  · rw [if_pos haccept]
    simp only [haccept, Bool.true_eq_false, false_or, bind, Except.bind, pure, Except.pure]
    by_cases hsizes : FileSystem.SizesFit (.ofBytes data)
    · obtain ⟨fs, s', e, hmount, -⟩ :=
        FileSystem.mount_of_sizesFit disk.recorded (s, ([] : List ReadRecord)) hsizes
      obtain ⟨s', log⟩ := s'
      obtain ⟨rfl, -⟩ := FileSystem.mount_recorded hmount
      rw [hmount]
      simp only [hsizes, not_true_eq_false, false_or]
      constructor
      · intro h
        -- the constructor makes one read, that of the table
        obtain ⟨r, hr, -, hok⟩ := h _ _ _ rfl
        rw [List.mem_singleton.mp hr] at hok
        exact hok
      · intro hok fs₂ s₂ log₂ heq
        cases heq
        exact ⟨_, List.mem_singleton.mpr rfl, rfl, hok⟩
    · simp only [hsizes, not_false_eq_true, true_or, iff_true]
      intro fs s' log hcreate
      cases hmount : FileSystem.mount disk.recorded (s, []) (.ofBytes data) with
      | error fault =>
        rw [hmount] at hcreate
        cases hcreate
      | ok result => exact absurd (FileSystem.sizesFit_of_mount hmount) hsizes
  · rw [if_neg haccept]
    simp only [Bool.not_eq_true] at haccept
    simp only [haccept, true_or, iff_true]
    intro fs s' log hcreate
    cases hcreate

theorem sectorWasRead_iff (disk : Disk σ) (e : DirectoryEnum) (s : σ) (stack : List UInt8) :
    SectorWasRead disk e s stack ↔ EntryReadSucceeds disk e s stack := by
  obtain ⟨e', s', log, hnext, hfrom⟩ := DirectoryEnum.next_delivered disk e s stack
  rw [SectorWasRead, EntryReadSucceeds, hnext]
  constructor
  · intro h p hp
    have hfirst := Option.mem_def.mp hp
    obtain ⟨r, entry, hlast, -, hok⟩ := h p.2.item e' s' log (by rw [hfirst]; rfl)
    -- both are the last read
    have hsame := hlast.last.symm.trans (hfrom p hfirst).last
    cases hsame
    exact hok
  · intro h item e₂ s₂ log₂ heq
    simp only [Except.ok.injEq, Prod.mk.injEq, Option.map_eq_some_iff] at heq
    obtain ⟨⟨p, hp, rfl⟩, rfl, rfl, rfl⟩ := heq
    exact ⟨p.1, p.2, hfrom p hp, rfl, h p hp⟩

/-- A mounted file system comes from a table that was read, exactly when its read succeeds; and
    the item of a call comes from a sector that was read, exactly when the read that delivers
    the first entry in use succeeds. -/
theorem reads_checked_iff (disk : Disk σ) :
    (∀ s data, TableWasRead disk s data ↔ TableReadSucceeds disk s data) ∧
      ∀ e s stack, SectorWasRead disk e s stack ↔ EntryReadSucceeds disk e s stack :=
  ⟨tableWasRead_iff disk, sectorWasRead_iff disk⟩

/-! ## A disk that fails -/

/-- Every read fails and leaves the buffer alone. -/
def brokenDisk : Disk Unit where
  read := fun _ _ _ buffer => (false, buffer, ())
  length_read := fun _ _ _ _ => rfl

/-- The file system is mounted all the same, with an empty table, and the directory that an
    earlier call left on the stack is enumerated. -/
theorem broken_disk_delivers :
    ¬ TableWasRead brokenDisk () (FileSystem.floppyBootSector 9 224) ∧
      ¬ SectorWasRead brokenDisk ⟨[19], 0⟩ () DirectoryEnum.bootSector := by
  rw [tableWasRead_iff, sectorWasRead_iff]
  constructor
  · rintro (haccept | hsizes | hok)
    · exact nomatch haccept
    · apply hsizes
      exact ⟨by decide, .inr (by decide), by decide⟩
    · exact nomatch hok
  · intro h
    have hok := h (brokenDisk.record () 19 1 DirectoryEnum.bootSector,
      DirectoryEnum.entryAt DirectoryEnum.bootSector 0) rfl
    exact nomatch hok

end TimbOS.Native.Fat12
