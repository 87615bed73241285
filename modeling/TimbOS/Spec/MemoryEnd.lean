import TimbOS.Native.Multiboot

/-!
# The end of the memory

`find_memory_end` adds the base and the length of an entry and keeps the low 32 bits of the sum.
For an entry that ends below 4 GiB this is its end. An entry that crosses the line seems to end
near the bottom of the memory, and one above the line seems to lie below it.

## Key results

- `findMemoryEnd_eq`: the result is the greatest truncated end
- `memory_end_iff`: exactly when it is the end of the memory
- `memory_end_lost`: a map whose memory crosses the line
-/

namespace TimbOS.Native.Multiboot

open ForStd

/-! ## Ends of entries -/

/-- The ends that count: those of available entries that start below 4 GiB, up to the last
    address there, and 0. -/
def Ends (list : List MmapEntry) : Set Nat :=
  insert 0 {x | ∃ entry ∈ list, entry.type = memoryAvailable ∧ entry.addr < 2 ^ 32 ∧
    x = min (entry.addr + entry.len) (2 ^ 32 - 1)}

/-- `block_end` -/
def MmapEntry.blockEnd (entry : MmapEntry) : Nat := (entry.addr + entry.len) % 2 ^ 32

/-- The ends that the callback looks at, and where it begins. -/
def BlockEnds (list : List MmapEntry) (start : Nat) : Set Nat :=
  insert start {x | ∃ entry ∈ list, entry.type = memoryAvailable ∧ x = entry.blockEnd}

section Ends

variable {list : List MmapEntry} {entry : MmapEntry} {x start : Nat}

theorem mem_ends (h : entry ∈ list) (htype : entry.type = memoryAvailable)
    (haddr : entry.addr < 2 ^ 32) : min (entry.addr + entry.len) (2 ^ 32 - 1) ∈ Ends list :=
  .inr ⟨entry, h, htype, haddr, rfl⟩

theorem mem_blockEnds (h : entry ∈ list) (htype : entry.type = memoryAvailable) (start : Nat) :
    entry.blockEnd ∈ BlockEnds list start :=
  .inr ⟨entry, h, htype, rfl⟩

/-- The callback of `find_memory_end`, called with an entry and the greatest end so far. -/
private def keepGreatest (entry : MmapEntry) (memoryEnd : Nat) : Option Nat :=
  if entry.type = memoryAvailable then
    let blockEnd := (entry.addr + entry.len) % 2 ^ 32
    if memoryEnd < blockEnd then some blockEnd else some memoryEnd
  else
    some memoryEnd

/-- One entry: it adds its end, if it is available. -/
private theorem keepGreatest_spec (entry : MmapEntry) (start : Nat) :
    ∃ next, keepGreatest entry start = some next ∧ ∀ (list : List MmapEntry) (x : Nat),
      IsGreatest (BlockEnds list next) x → IsGreatest (BlockEnds (entry :: list) start) x := by
  unfold keepGreatest
  by_cases htype : entry.type = memoryAvailable
  · rw [if_pos htype]
    refine ⟨max start entry.blockEnd, ?_, ?_⟩
    · simp only [MmapEntry.blockEnd]
      split <;> congr 1 <;> omega
    · rintro list x ⟨hmem, hle⟩
      have hmax : max start entry.blockEnd ≤ x := hle (Set.mem_insert _ _)
      constructor
      · -- the end of the first entry is the start of the others, if it is larger
        rcases hmem with rfl | ⟨e, he, htype', rfl⟩
        · rcases Nat.le_total start entry.blockEnd with hlow | hhigh
          · rw [Nat.max_eq_right hlow]
            exact mem_blockEnds List.mem_cons_self htype start
          · rw [Nat.max_eq_left hhigh]
            exact Set.mem_insert _ _
        · exact mem_blockEnds (List.mem_cons_of_mem _ he) htype' start
      · rintro y (rfl | ⟨e, he, htype', rfl⟩)
        · omega
        · rcases List.mem_cons.mp he with rfl | he
          · omega
          · exact hle (mem_blockEnds he htype' _)
  · rw [if_neg htype]
    refine ⟨start, rfl, ?_⟩
    rintro list x ⟨hmem, hle⟩
    constructor
    · rcases hmem with rfl | ⟨e, he, htype', rfl⟩
      · exact Set.mem_insert _ _
      · exact mem_blockEnds (List.mem_cons_of_mem _ he) htype' start
    · rintro y (rfl | ⟨e, he, htype', rfl⟩)
      · exact hle (Set.mem_insert _ _)
      · rcases List.mem_cons.mp he with rfl | he
        · exact absurd htype' htype
        · exact hle (mem_blockEnds he htype' _)

private theorem foldlM_keepGreatest (list : List MmapEntry) (start : Nat) :
    ∃ x, list.foldlM (fun memoryEnd entry => keepGreatest entry memoryEnd) start = some x ∧
      IsGreatest (BlockEnds list start) x := by
  induction list generalizing start with
  | nil =>
    refine ⟨start, rfl, Set.mem_insert _ _, ?_⟩
    rintro y (rfl | ⟨e, he, -⟩)
    · exact Nat.le_refl _
    · cases he
  | cons entry list ih =>
    obtain ⟨next, hnext, hstep⟩ := keepGreatest_spec entry start
    obtain ⟨x, hx, hgreatest⟩ := ih next
    refine ⟨x, ?_, hstep list x hgreatest⟩
    rw [List.foldlM_cons, hnext]
    exact hx

end Ends

/-- The result is the greatest truncated end of an available entry. -/
theorem findMemoryEnd_eq {m : Mem} {mbt : MultibootInfo} {list : List MmapEntry}
    (h : entries m mbt = some list) :
    ∃ x, findMemoryEnd m mbt = some x ∧ IsGreatest (BlockEnds list 0) x := by
  obtain ⟨x, hx, hgreatest⟩ := foldlM_keepGreatest list 0
  refine ⟨x, ?_, hgreatest⟩
  rw [findMemoryEnd, iterateMmap_eq, h]
  exact hx

/-! ## When it is the end of the memory -/

/-- The entry begins below 4 GiB and does not end there. -/
def MmapEntry.Crosses (entry : MmapEntry) : Prop :=
  entry.addr < 2 ^ 32 ∧ 2 ^ 32 ≤ entry.addr + entry.len

/-- The truncation does not matter. If some available memory crosses the line of 4 GiB, then some
    entry seems to end at the last address below it. Otherwise no memory above the line seems to
    end behind all available memory below it. -/
structure TruncationHarmless (list : List MmapEntry) : Prop where
  crossing : (∃ entry ∈ list, entry.type = memoryAvailable ∧ entry.Crosses) →
    ∃ entry ∈ list, entry.type = memoryAvailable ∧ entry.blockEnd = 2 ^ 32 - 1
  above : (∀ entry ∈ list, entry.type = memoryAvailable → ¬ entry.Crosses) →
    ∀ entry ∈ list, entry.type = memoryAvailable → 2 ^ 32 ≤ entry.addr → entry.blockEnd ≠ 0 →
      ∃ below ∈ list, below.type = memoryAvailable ∧ below.addr < 2 ^ 32 ∧
        entry.blockEnd ≤ below.addr + below.len

/-- `find_memory_end` returns the end of the memory below 4 GiB. -/
def MemoryEndRight (m : Mem) (mbt : MultibootInfo) : Prop :=
  ∃ list x, entries m mbt = some list ∧ findMemoryEnd m mbt = some x ∧ IsGreatest (Ends list) x

section Harmless

variable {list : List MmapEntry} {entry : MmapEntry} {x : Nat}

theorem blockEnd_lt (entry : MmapEntry) : entry.blockEnd < 2 ^ 32 :=
  Nat.mod_lt _ (Nat.two_pow_pos 32)

/-- Below the line and not across it, the truncation changes nothing. -/
theorem blockEnd_eq (haddr : entry.addr < 2 ^ 32) (hcross : ¬ entry.Crosses) :
    entry.blockEnd = entry.addr + entry.len ∧
      min (entry.addr + entry.len) (2 ^ 32 - 1) = entry.blockEnd := by
  have hlt : entry.addr + entry.len < 2 ^ 32 := Nat.lt_of_not_le fun hle => hcross ⟨haddr, hle⟩
  have hmod : entry.blockEnd = entry.addr + entry.len := Nat.mod_eq_of_lt hlt
  exact ⟨hmod, by omega⟩

/-- With memory that crosses the line, the end is the last address below it. -/
theorem ends_of_crosses (he : entry ∈ list) (htype : entry.type = memoryAvailable)
    (hcross : entry.Crosses) : IsGreatest (Ends list) x ↔ x = 2 ^ 32 - 1 := by
  have hmem := mem_ends he htype hcross.1
  rw [Nat.min_eq_right (Nat.le_trans (Nat.sub_le _ _) hcross.2)] at hmem
  have hgreatest : IsGreatest (Ends list) (2 ^ 32 - 1) := by
    refine ⟨hmem, ?_⟩
    rintro y (rfl | ⟨e, -, -, -, rfl⟩)
    · exact Nat.zero_le _
    · exact Nat.min_le_right _ _
  constructor
  · exact fun h => h.unique hgreatest
  · rintro rfl
    exact hgreatest

/-- Without such memory, no end below the line is lost. -/
theorem ends_le (hno : ∀ entry ∈ list, entry.type = memoryAvailable → ¬ entry.Crosses)
    (hle : x ∈ upperBounds (BlockEnds list 0)) : x ∈ upperBounds (Ends list) := by
  rintro y (rfl | ⟨e, he, htype, haddr, rfl⟩)
  · exact Nat.zero_le _
  · rw [(blockEnd_eq haddr (hno e he htype)).2]
    exact hle (mem_blockEnds he htype 0)

/-- If the truncation is harmless, no truncated end lies behind all the ends below the line. -/
theorem TruncationHarmless.exists_ends (h : TruncationHarmless list)
    (hno : ∀ entry ∈ list, entry.type = memoryAvailable → ¬ entry.Crosses) (he : entry ∈ list)
    (htype : entry.type = memoryAvailable) (hpos : entry.blockEnd ≠ 0) :
    ∃ y ∈ Ends list, entry.blockEnd ≤ y := by
  by_cases haddr : entry.addr < 2 ^ 32
  · have hmin := (blockEnd_eq haddr (hno entry he htype)).2
    refine ⟨entry.blockEnd, ?_, Nat.le_refl _⟩
    rw [← hmin]
    exact mem_ends he htype haddr
  · -- memory above the line does not seem to end behind the entry `b` below it
    obtain ⟨b, hb, htypeb, haddrb, hleb⟩ := h.above hno entry he htype (Nat.le_of_not_lt haddr) hpos
    obtain ⟨hplain, hmin⟩ := blockEnd_eq haddrb (hno b hb htypeb)
    refine ⟨b.blockEnd, ?_, by omega⟩
    rw [← hmin]
    exact mem_ends hb htypeb haddrb

/-- Across the line, some entry has to end right below it. -/
theorem harmless_of_crosses (h : IsGreatest (BlockEnds list 0) x)
    (hcross : ∃ entry ∈ list, entry.type = memoryAvailable ∧ entry.Crosses) :
    x = 2 ^ 32 - 1 ↔ TruncationHarmless list := by
  obtain ⟨hmem, hle⟩ := h
  constructor
  · rintro rfl
    obtain ⟨e, he, htype, hc⟩ := hcross
    refine ⟨fun _ => ?_, fun hno => absurd hc (hno e he htype)⟩
    rcases hmem with hzero | ⟨e', he', htype', hx⟩
    · omega
    · exact ⟨e', he', htype', hx.symm⟩
  · intro hharmless
    obtain ⟨e', he', htype', hend⟩ := hharmless.crossing hcross
    have hlow := hle (mem_blockEnds he' htype' 0)
    have hhigh : x < 2 ^ 32 := by
      rcases hmem with rfl | ⟨e'', -, -, rfl⟩
      · exact Nat.two_pow_pos 32
      · exact blockEnd_lt e''
    omega

/-- The greatest truncated end is the end of the memory exactly if the truncation is harmless. -/
theorem isGreatest_ends_iff (h : IsGreatest (BlockEnds list 0) x) :
    IsGreatest (Ends list) x ↔ TruncationHarmless list := by
  by_cases hcross : ∃ entry ∈ list, entry.type = memoryAvailable ∧ entry.Crosses
  · rw [← harmless_of_crosses h hcross]
    obtain ⟨e, he, htype, hc⟩ := hcross
    exact ends_of_crosses he htype hc
  · obtain ⟨hmem, hle⟩ := h
    have hno : ∀ entry ∈ list, entry.type = memoryAvailable → ¬ entry.Crosses :=
      fun e he htype hc => hcross ⟨e, he, htype, hc⟩
    constructor
    · rintro ⟨hend, -⟩
      refine ⟨fun hc => absurd hc hcross, fun _ e he htype _ hpos => ?_⟩
      -- the entry with the greatest end below the line
      have hex := hle (mem_blockEnds he htype 0)
      rcases hend with rfl | ⟨below, hb, htypeb, haddrb, rfl⟩
      · omega
      · exact ⟨below, hb, htypeb, haddrb, Nat.le_trans hex (Nat.min_le_left _ _)⟩
    · intro hharmless
      have hupper := ends_le hno hle
      refine ⟨?_, hupper⟩
      by_cases hzero : x = 0
      · exact .inl hzero
      · rcases hmem with hx | ⟨e, he, htype, rfl⟩
        · exact absurd hx hzero
        · -- the greatest truncated end is one below the line, too
          obtain ⟨y, hy, hley⟩ := hharmless.exists_ends hno he htype hzero
          rw [Nat.le_antisymm hley (hupper hy)]
          exact hy

end Harmless

/-- For every memory map, the end of the memory is found exactly if the walk over the map ends
    and the truncation to 32 bits is harmless. -/
theorem memory_end_iff (m : Mem) (mbt : MultibootInfo) :
    MemoryEndRight m mbt ↔ ∃ list, entries m mbt = some list ∧ TruncationHarmless list := by
  constructor
  · rintro ⟨list, x, hlist, hx, hright⟩
    obtain ⟨y, hy, hgreatest⟩ := findMemoryEnd_eq hlist
    rw [hy] at hx
    cases hx
    exact ⟨list, hlist, (isGreatest_ends_iff hgreatest).mp hright⟩
  · rintro ⟨list, hlist, hharmless⟩
    obtain ⟨x, hx, hgreatest⟩ := findMemoryEnd_eq hlist
    exact ⟨list, x, hlist, hx, (isGreatest_ends_iff hgreatest).mpr hharmless⟩

/-! ## Memory across the line -/

/-- A map at `0x500` with one available entry: 4 GiB from 1 MiB on. -/
def crossingMap : Mem := fun a =>
  ([20, 0, 0, 0, 0x00, 0x00, 0x10, 0, 0, 0, 0, 0, 0, 0, 0, 0, 1, 0, 0, 0, 1, 0, 0, 0] :
    List UInt8).getD (a - 0x500) 0

def crossingInfo : MultibootInfo := ⟨infoMemMap, 24, 0x500⟩

theorem crossingMap_entries :
    entries crossingMap crossingInfo = some [⟨20, 0x100000, 0x100000000, 1⟩] := by
  decide +kernel

/-- The memory seems to end where it begins, at 1 MiB. -/
theorem memory_end_lost : ¬ ∀ (m : Mem) (mbt : MultibootInfo) (list : List MmapEntry),
    entries m mbt = some list → MemoryEndRight m mbt := by
  intro h
  obtain ⟨list, hlist, hharmless⟩ :=
    (memory_end_iff _ _).mp (h crossingMap crossingInfo _ crossingMap_entries)
  rw [crossingMap_entries] at hlist
  cases hlist
  obtain ⟨e, he, -, hend⟩ := hharmless.crossing
    ⟨_, List.mem_singleton_self _, rfl, by constructor <;> decide⟩
  rw [List.mem_singleton.mp he] at hend
  exact absurd hend (by decide)

end TimbOS.Native.Multiboot
