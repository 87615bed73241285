import TimbOS.Native.KernelTable
import TimbOS.Spec.PageWalk

/-!
# Building the page table of the kernel

The table is cleared and filled while another one is in use for the window, so that all
translations stay as they are until the directory is switched. The loops set the entry of every
page that a section touches. Each section that touches a page finds the same frame for it, and the
last one decides whether the page can be written. A table that is in use already is lost when it
is cleared: the walk finds frame 0 for every page.

## Key results

- `mapSectionPage_eq`: the entry that one round writes
- `memset_fault`: a table that maps its own page cannot be cleared
- `sectionLoop_spec`, `sections_spec`: what the table holds behind the loops
- `pagingBuildKernelTable_spec`: the table and the directory entry at the switch
- `pagingBuildKernelTable_switched`: what the whole call does
- `build_kernel_table_iff`: exactly which section tables are mapped correctly
-/

namespace TimbOS.Native.Paging

open ForStd ForStd.Paging PageDirectory

/-! ## Sections -/

/-- The section occupies memory. -/
def Elf32Shdr.Alloc (s : Elf32Shdr) : Prop := s.flags &&& shfAlloc ≠ 0

/-- The section can be written. -/
def Elf32Shdr.Write (s : Elf32Shdr) : Prop := s.flags &&& shfWrite ≠ 0

instance (s : Elf32Shdr) : Decidable s.Alloc := inferInstanceAs (Decidable (_ ≠ _))

instance (s : Elf32Shdr) : Decidable s.Write := inferInstanceAs (Decidable (_ ≠ _))

/-- A byte of the section. -/
def Elf32Shdr.Byte (s : Elf32Shdr) (v : Nat) : Prop := s.addr ≤ v ∧ v < s.addr + s.size

instance (s : Elf32Shdr) (v : Nat) : Decidable (s.Byte v) :=
  inferInstanceAs (Decidable (s.addr ≤ v ∧ v < s.addr + s.size))

/-- One of `size` bytes from `addr` on lies in the page. -/
def Touches (addr size page : Nat) : Prop := ∃ v, addr ≤ v ∧ v < addr + size ∧ v / 2 ^ 12 = page

theorem touches_iff {addr size page : Nat} :
    Touches addr size page ↔
      0 < size ∧ addr < (page + 1) * 2 ^ 12 ∧ page * 2 ^ 12 < addr + size := by
  constructor
  · rintro ⟨v, hlow, hhigh, hpage⟩
    omega
  · rintro ⟨hsize, hlow, hhigh⟩
    exact ⟨max addr (page * 2 ^ 12), by omega, by omega, by omega⟩

instance (addr size page : Nat) : Decidable (Touches addr size page) :=
  decidable_of_iff _ touches_iff.symm

/-- Whether the last of the sections in memory that touch the page can be written. -/
def lastWrite : List Elf32Shdr → Nat → Option Bool
  | [], _ => none
  | s :: rest, page =>
    (lastWrite rest page).or
      (if s.Alloc ∧ Touches s.addr s.size page then some (decide s.Write) else none)

/-- The pages of the 4 MiB in slot `slot` above the first MiB. -/
def InWindow (slot page : Nat) : Prop := page / 2 ^ 10 = slot ∧ 0x100 ≤ page % 2 ^ 10

instance (slot page : Nat) : Decidable (InWindow slot page) :=
  inferInstanceAs (Decidable (page / 2 ^ 10 = slot ∧ 0x100 ≤ page % 2 ^ 10))

/-! ## What the call should do -/

/-- What holds before the call: the directory is its own table in the last slot, and
    `kernel_page_table` is an aligned page in the frame `table`, which is not the directory's. -/
structure Before (m : Mem) (entries kernelPageTable table : Nat) : Prop where
  recursive : Recursive m entries 0x3FF
  aligned : kernelPageTable % 2 ^ 12 = 0
  lt : kernelPageTable < 2 ^ 32
  mapped : translate m entries kernelPageTable = some (table * 2 ^ 12)
  apart : entries / 2 ^ 12 ≠ table

/-- All bytes of the sections in memory lie in the window at `kernelBase`, above its first MiB,
    and are mapped. -/
def SectionsMapped (m : Mem) (entries kernelBase : Nat) (esht : List Elf32Shdr) : Prop :=
  ∀ s ∈ esht, s.Alloc → ∀ v, s.Byte v →
    InWindow (kernelBase >>> 22) (v / 2 ^ 12) ∧ translate m entries v ≠ none

/-- Behind the call, nothing but the table and one entry of the directory has changed, the bytes
    of the sections are where they were, and those that can be written are on pages that can. -/
structure TableBuilt (m m' : Mem) (entries table kernelBase : Nat) (esht : List Elf32Shdr) :
    Prop where
  confined : ∀ a, a / 2 ^ 12 ≠ table → ¬ (dirSlot entries (kernelBase >>> 22) ≤ a ∧
    a < dirSlot entries (kernelBase >>> 22) + 4) → m' a = m a
  same : ∀ s ∈ esht, s.Alloc → ∀ v, s.Byte v → translate m' entries v = translate m entries v
  writable : ∀ s ∈ esht, s.Alloc → s.Write → ∀ v, s.Byte v → Writable m' entries v

/-- The call returns, with the table built. -/
def BuildsTable (m : Mem) (entries kernelPageTable table pde : Nat) (esht : List Elf32Shdr)
    (kernelBase : Nat) : Prop :=
  ∃ m', pagingBuildKernelTable m entries kernelPageTable pde esht kernelBase = some m' ∧
    TableBuilt m m' entries table kernelBase esht

/-- On every page with a byte of a section that can be written, the last section can be
    written. -/
def WritableLast (esht : List Elf32Shdr) : Prop :=
  ∀ s ∈ esht, s.Alloc → s.Write → ∀ v, s.Byte v → lastWrite esht (v / 2 ^ 12) = some true

/-- The table is not in use for its own page. If it is in use for the window, then the sections
    lie in frame 0. -/
structure TableFree (m : Mem) (entries kernelPageTable table kernelBase : Nat)
    (esht : List Elf32Shdr) : Prop where
  self : ¬ UsesTable m entries table (dirIndex kernelPageTable)
  window : UsesTable m entries table (kernelBase >>> 22) → ∀ s ∈ esht, s.Alloc → ∀ v, s.Byte v →
    translate m entries v = some (v % 2 ^ 12)

/-! ## Entries of the table -/

/-- The page of the table has another table. -/
structure Ready (m : Mem) (entries kernelPageTable table : Nat) : Prop extends
    Before m entries kernelPageTable table where
  self : ¬ UsesTable m entries table (dirIndex kernelPageTable)

section Entries

variable {m m' : Mem} {entries kernelPageTable table slot j v p flags y : Nat}

theorem Ready.of_equalOff (h : Ready m entries kernelPageTable table)
    (heq : EqualOff table m m') : Ready m' entries kernelPageTable table where
  recursive := heq.recursive h.recursive h.apart
  aligned := h.aligned
  lt := h.lt
  mapped := by
    rw [heq.translate h.recursive h.apart h.self]
    exact h.mapped
  apart := h.apart
  self := by
    rw [heq.usesTable_iff h.recursive h.apart (dirIndex_lt _)]
    exact h.self

theorem Before.slot_word (h : Before m entries kernelPageTable table) (hj : j < 2 ^ 10) :
    (tableSlot table j % 4 = 0 ∧ tableSlot table j + 4 ≤ 2 ^ 32) ∧
      tableSlot table j / 2 ^ 12 = table := by
  obtain ⟨-, hlt⟩ := translate_mod h.mapped
  simp only [tableSlot]
  omega

/-- Where the byte `i` of `kernel_page_table` is. -/
theorem Before.translate_byte (h : Before m entries kernelPageTable table) {i : Nat}
    (hi : i < 2 ^ 12) :
    translate m entries (add32 kernelPageTable i) = some (table * 2 ^ 12 + i) := by
  have haligned := h.aligned
  have hlt := h.lt
  have haddr : add32 kernelPageTable i = kernelPageTable + i := by
    simp only [add32]
    omega
  rw [haddr, translate_offset haligned hi, h.mapped]
  rfl

/-- Where `kernel_page_table[j]` is. -/
theorem Before.translate_pteAddr (h : Before m entries kernelPageTable table) (hj : j < 2 ^ 10) :
    translate m entries (pteAddr kernelPageTable j) = some (tableSlot table j) :=
  h.translate_byte (by omega)

theorem Before.modifyPte_eq (h : Before m entries kernelPageTable table) (hj : j < 2 ^ 10)
    (f : Nat → Nat) :
    modifyPte m entries (pteAddr kernelPageTable j) f =
      some (m.store32 (tableSlot table j) (f (m.load32 (tableSlot table j)))) := by
  simp only [modifyPte, vload32, vstore32, h.translate_pteAddr hj, Option.map_some, bind,
    Option.bind_some]

/-- One change of an entry after the other. -/
theorem Ready.modifyPte_store (h : Ready m entries kernelPageTable table) (hj : j < 2 ^ 10)
    (hy : y < 2 ^ 32) (f : Nat → Nat) :
    modifyPte (m.store32 (tableSlot table j) y) entries (pteAddr kernelPageTable j) f =
      some (m.store32 (tableSlot table j) (f y)) := by
  obtain ⟨hword, hframe⟩ := h.slot_word hj
  have hoff := (EqualOff.refl table m).store32 hword hframe y
  rw [(h.of_equalOff hoff).modifyPte_eq hj, Mem.load32_store32_same, Nat.mod_eq_of_lt hy,
    Mem.store32_store32_same]

/-- The entry that a round of the loop over a section makes of the old one. -/
def sectionEntry (e flags physicalAddress : Nat) : Nat :=
  let e := PageTableEntry.setPageAddr e (physicalAddress >>> 12)
  let e := PageTableEntry.setPresent e 1
  let e := PageTableEntry.setUser e 1
  PageTableEntry.setWritable e (if flags &&& shfWrite ≠ 0 then 1 else 0)

theorem sectionEntry_spec {e : Nat} (flags : Nat) (he : e < 2 ^ 32) (hp : p < 2 ^ 32) :
    sectionEntry e flags p < 2 ^ 32 ∧ Present (sectionEntry e flags p) ∧
      frame (sectionEntry e flags p) = p / 2 ^ 12 ∧
      field (sectionEntry e flags p) 1 1 = if flags &&& shfWrite ≠ 0 then 1 else 0 := by
  simp only [sectionEntry, PageTableEntry.setWritable, PageTableEntry.setUser,
    PageTableEntry.setPresent, PageTableEntry.setPageAddr]
  refine ⟨?_, ?_, ?_, ?_⟩
  · exact setField_lt _ _ (setField_lt _ _ (setField_lt _ _ (setField_lt _ _ he (by decide))
      (by decide)) (by decide)) (by decide)
  · rw [Present, field_setField_below _ _ (by decide), field_setField_below _ _ (by decide),
      field_setField_same]
    decide
  · rw [frame, field_setField_above _ _ (by decide), field_setField_above _ _ (by decide),
      field_setField_above _ _ (by decide), field_setField_same, Nat.shiftRight_eq_div_pow]
    omega
  · rw [field_setField_same]
    split <;> rfl

/-- One round writes the entry of its page. -/
theorem mapSectionPage_eq (h : Ready m entries kernelPageTable table) (hj : j < 2 ^ 10)
    (hp : virtualToPhysical m entries v = .ok p) :
    mapSectionPage m entries kernelPageTable flags j v =
      some (m.store32 (tableSlot table j)
        (sectionEntry (m.load32 (tableSlot table j)) flags p)) := by
  have he := Mem.load32_lt m (tableSlot table j)
  have haddr : ∀ x, PageTableEntry.setPageAddr (m.load32 (tableSlot table j)) x < 2 ^ 32 :=
    fun x => setField_lt _ _ he (by decide)
  have hpresent : ∀ x, PageTableEntry.setPresent (PageTableEntry.setPageAddr
      (m.load32 (tableSlot table j)) x) 1 < 2 ^ 32 := fun x => setField_lt _ _ (haddr x) (by decide)
  have huser : ∀ x, PageTableEntry.setUser (PageTableEntry.setPresent (PageTableEntry.setPageAddr
      (m.load32 (tableSlot table j)) x) 1) 1 < 2 ^ 32 :=
    fun x => setField_lt _ _ (hpresent x) (by decide)
  simp only [mapSectionPage, hp, Except.toOption, bind, Option.bind_some, h.modifyPte_eq hj,
    h.modifyPte_store hj (haddr _), h.modifyPte_store hj (hpresent _),
    h.modifyPte_store hj (huser _)]
  rfl

end Entries

/-! ## What the table holds -/

/-- The frame that the walk finds for a page: a table in use has been cleared. -/
def foundFrame (m : Mem) (entries table page : Nat) : Nat :=
  if UsesTable m entries table (page / 2 ^ 10) then 0
  else (pageFrame m (entry m entries (page / 2 ^ 10)) (page % 2 ^ 10)).getD 0

/-- The entry maps the page to that frame, and says whether it can be written. -/
structure Maps (m : Mem) (entries table page : Nat) (write : Bool) (e : Nat) : Prop where
  present : Present e
  frame : frame e = foundFrame m entries table page
  write : field e 1 1 = if write then 1 else 0

/-- The memory `m` differs from `m₀` in the table only, and the table has the entries of the pages
    that `flags` knows. -/
structure Holds (m₀ m : Mem) (entries table slot : Nat) (flags : Nat → Option Bool) : Prop where
  off : EqualOff table m₀ m
  entry : ∀ page write, flags page = some write → InWindow slot page ∧
    Maps m₀ entries table page write (m.load32 (tableSlot table (page % 2 ^ 10)))

/-- While the loops run, a table that is in use has no frame but 0. -/
structure Filling (m₀ m : Mem) (entries table slot : Nat) (flags : Nat → Option Bool) : Prop extends
    Holds m₀ m entries table slot flags where
  cleared : UsesTable m₀ entries table slot →
    ∀ j < 2 ^ 10, frame (m.load32 (tableSlot table j)) = 0

section Table

variable {m₀ m m' : Mem} {entries kernelPageTable table slot j v p x page size : Nat}
  {flags : Nat → Option Bool} {write : Bool}

theorem pageNumber (v : Nat) : v / 2 ^ 12 % 2 ^ 10 = tableIndex v := rfl

theorem dirNumber (hv : v < 2 ^ 32) : v / 2 ^ 12 / 2 ^ 10 = dirIndex v := by
  simp only [dirIndex, field]
  omega

/-- A table that is not in use does not matter. -/
theorem translate_foundFrame (hv : v < 2 ^ 32) (hnot : ¬ UsesTable m entries table (dirIndex v))
    (hmapped : translate m entries v ≠ none) :
    translate m entries v =
      some (foundFrame m entries table (v / 2 ^ 12) * 2 ^ 12 + v % 2 ^ 12) := by
  have hentry : m.load32 (dirSlot entries (dirIndex v)) = entry m entries (dirIndex v) := rfl
  rw [translate_eq_pageFrame, hentry] at hmapped ⊢
  rw [foundFrame, dirNumber hv, pageNumber, if_neg hnot]
  cases hf : pageFrame m (entry m entries (dirIndex v)) (tableIndex v) with
  | none =>
    rw [hf] at hmapped
    exact absurd rfl hmapped
  | some f => rfl

/-- The other entries of the table. -/
theorem Before.load32_other (h₀ : Before m₀ entries kernelPageTable table) {i : Nat}
    (hi : i < 2 ^ 10) (hj : j < 2 ^ 10) (hne : j ≠ i) (x : Nat) :
    (m.store32 (tableSlot table i) x).load32 (tableSlot table j) =
      m.load32 (tableSlot table j) := by
  apply load32_store32_aligned m x (h₀.slot_word hi).1 (h₀.slot_word hj).1
  simp only [tableSlot]
  omega

/-- A new entry. -/
theorem Filling.set (h : Filling m₀ m entries table slot flags)
    (h₀ : Before m₀ entries kernelPageTable table) (hpage : InWindow slot page) (hx : x < 2 ^ 32)
    (hmaps : Maps m₀ entries table page write x) :
    Filling m₀ (m.store32 (tableSlot table (page % 2 ^ 10)) x) entries table slot
      (Function.update flags page (some write)) := by
  have hlt : ∀ page, page % 2 ^ 10 < 2 ^ 10 := fun page => Nat.mod_lt page (by decide)
  obtain ⟨hword, hframe⟩ := h₀.slot_word (hlt page)
  have hsame : (m.store32 (tableSlot table (page % 2 ^ 10)) x).load32
      (tableSlot table (page % 2 ^ 10)) = x := by
    rw [Mem.load32_store32_same, Nat.mod_eq_of_lt hx]
  refine ⟨⟨h.off.store32 hword hframe x, ?_⟩, ?_⟩
  · intro page' write' hflag
    by_cases heq : page' = page
    · subst heq
      rw [Function.update_self] at hflag
      obtain rfl := Option.some.inj hflag
      rw [hsame]
      exact ⟨hpage, hmaps⟩
    · rw [Function.update_of_ne heq] at hflag
      obtain ⟨hpage', hmaps'⟩ := h.entry page' write' hflag
      -- pages of one window have different entries
      have hne : page' % 2 ^ 10 ≠ page % 2 ^ 10 := by
        have hslot := hpage.1
        have hslot' := hpage'.1
        omega
      rw [h₀.load32_other (hlt page) (hlt page') hne]
      exact ⟨hpage', hmaps'⟩
  · intro huses j hj
    by_cases heq : j = page % 2 ^ 10
    · rw [heq, hsame, hmaps.frame, foundFrame, hpage.1, if_pos huses]
    · rw [h₀.load32_other (hlt page) hj heq]
      exact h.cleared huses j hj

/-- Entries of other pages do not count. -/
theorem Holds.store_low (h : Holds m₀ m entries table slot flags)
    (h₀ : Before m₀ entries kernelPageTable table) (hj : j < 0x100) (x : Nat) :
    Holds m₀ (m.store32 (tableSlot table j) x) entries table slot flags := by
  have hlt : j < 2 ^ 10 := by omega
  obtain ⟨hword, hframe⟩ := h₀.slot_word hlt
  refine ⟨h.off.store32 hword hframe x, ?_⟩
  intro page write hflag
  obtain ⟨hpage, hmaps⟩ := h.entry page write hflag
  have hlow := hpage.2
  rw [h₀.load32_other hlt (Nat.mod_lt page (by decide)) (by omega)]
  exact ⟨hpage, hmaps⟩

/-- In a table with no frame but 0 the walk finds nothing else. -/
theorem translate_cleared (huses : UsesTable m entries table (dirIndex v))
    (hzero : frame (m.load32 (tableSlot table (tableIndex v))) = 0) :
    (translate m entries v).getD 0 < 2 ^ 12 := by
  obtain ⟨hp, hl, htable⟩ := huses
  rw [translate_small hp hl, htable]
  simp only [hzero, Nat.zero_mul, Nat.zero_add]
  split
  · exact Nat.mod_lt v (by decide)
  · decide

/-- What the walk finds for a byte of a section. -/
theorem Filling.lookup (h : Filling m₀ m entries table slot flags)
    (h₀ : Before m₀ entries kernelPageTable table) (hv : v < 2 ^ 32)
    (hpage : InWindow slot (v / 2 ^ 12)) (hmapped : translate m₀ entries v ≠ none) :
    ∃ p < 2 ^ 32, virtualToPhysical m entries v = .ok p ∧
      p / 2 ^ 12 = foundFrame m₀ entries table (v / 2 ^ 12) := by
  have hslot : dirIndex v = slot := by
    rw [← dirNumber hv]
    exact hpage.1
  rw [virtualToPhysical_eq (h.off.recursive h₀.recursive h₀.apart) hv]
  -- the walk goes through the table itself, or through another one that has not changed
  by_cases huses : UsesTable m₀ entries table slot
  · have huses' : UsesTable m entries table (dirIndex v) := by
      rw [h.off.usesTable_iff h₀.recursive h₀.apart (dirIndex_lt v), hslot]
      exact huses
    have hzero := translate_cleared huses' (h.cleared huses _ (tableIndex_lt v))
    refine ⟨_, hzero.trans (by decide), rfl, ?_⟩
    rw [foundFrame, hpage.1, if_pos huses]
    exact Nat.div_eq_of_lt hzero
  · rw [← hslot] at huses
    have hfound := translate_foundFrame hv huses hmapped
    rw [h.off.translate h₀.recursive h₀.apart huses, hfound]
    refine ⟨_, (translate_mod hfound).2, rfl, ?_⟩
    omega

/-- One round of the loop over a section. -/
theorem Filling.mapSectionPage (h : Filling m₀ m entries table slot flags)
    (h₀ : Ready m₀ entries kernelPageTable table) (sectionFlags : Nat) (hv : v < 2 ^ 32)
    (hpage : InWindow slot (v / 2 ^ 12)) (hmapped : translate m₀ entries v ≠ none) :
    ∃ m', mapSectionPage m entries kernelPageTable sectionFlags (tableIndex v) v = some m' ∧
      Filling m₀ m' entries table slot (Function.update flags (v / 2 ^ 12)
        (some (decide (sectionFlags &&& shfWrite ≠ 0)))) := by
  obtain ⟨p, hlt, hp, hfound⟩ := h.lookup h₀.toBefore hv hpage hmapped
  have he := Mem.load32_lt m (tableSlot table (tableIndex v))
  obtain ⟨hword, hpresent, hframe, hwrite⟩ := sectionEntry_spec sectionFlags he hlt
  refine ⟨_, mapSectionPage_eq (h₀.of_equalOff h.off) (tableIndex_lt v) hp, ?_⟩
  apply h.set h₀.toBefore hpage hword
  refine ⟨hpresent, ?_, ?_⟩
  · rw [hframe, hfound]
  · rw [hwrite]
    simp only [decide_eq_true_eq]

/-! ## The loops -/

/-- The bytes lie in the window, and are mapped. -/
def BytesMapped (m : Mem) (entries slot v size : Nat) : Prop :=
  ∀ b, v ≤ b → b < v + size →
    b < 2 ^ 32 ∧ InWindow slot (b / 2 ^ 12) ∧ translate m entries b ≠ none

/-- The number of bytes that are on the page of `v`. -/
def pageStep (v size : Nat) : Nat := min (0x1000 - v % 0x1000) size

/-- The flags of the pages that `size` bytes from `v` on touch are set. -/
def setFlags (flags : Nat → Option Bool) (v size : Nat) (write : Bool) (page : Nat) : Option Bool :=
  if Touches v size page then some write else flags page

theorem setFlags_zero (flags : Nat → Option Bool) (v : Nat) (write : Bool) :
    setFlags flags v 0 write = flags := by
  funext page
  exact if_neg fun htouch => absurd (touches_iff.mp htouch).1 (Nat.lt_irrefl 0)

/-- The pages of a range are its first page and those behind it. -/
theorem touches_step (hsize : 0 < size) (hend : v + size ≤ 2 ^ 32) (page : Nat) :
    Touches v size page ↔
      Touches (add32 v (pageStep v size)) (size - pageStep v size) page ∨ page = v / 2 ^ 12 := by
  simp only [touches_iff, add32, pageStep]
  omega

theorem setFlags_step (hsize : 0 < size) (hend : v + size ≤ 2 ^ 32) :
    setFlags (Function.update flags (v / 2 ^ 12) (some write)) (add32 v (pageStep v size))
      (size - pageStep v size) write = setFlags flags v size write := by
  funext page
  have htouches := touches_step hsize hend page
  rw [setFlags, setFlags]
  by_cases hrest : Touches (add32 v (pageStep v size)) (size - pageStep v size) page
  · rw [if_pos hrest, if_pos (htouches.mpr (.inl hrest))]
  · rw [if_neg hrest]
    by_cases hfirst : page = v / 2 ^ 12
    · rw [if_pos (htouches.mpr (.inr hfirst)), hfirst, Function.update_self]
    · rw [if_neg (fun htouch => (htouches.mp htouch).elim hrest hfirst),
        Function.update_of_ne hfirst]

/-- The rest of the bytes, if there is one, begins on the next page of the window. -/
theorem BytesMapped.rest (h : BytesMapped m₀ entries slot v size) :
    BytesMapped m₀ entries slot (add32 v (pageStep v size)) (size - pageStep v size) ∧
      (0 < size - pageStep v size → tableIndex v + 1 = tableIndex (add32 v (pageStep v size))) := by
  by_cases hrest : 0 < size - pageStep v size
  · have hle : pageStep v size ≤ size := Nat.min_le_right _ _
    obtain ⟨-, hpage, -⟩ := h v (Nat.le_refl v) (by omega)
    obtain ⟨hlt, hpage', -⟩ := h (v + pageStep v size) (by omega) (by omega)
    have hnext : add32 v (pageStep v size) = v + pageStep v size := Nat.mod_eq_of_lt hlt
    rw [hnext]
    constructor
    · intro b hlow hhigh
      exact h b (by omega) (by omega)
    · intro _
      have hslot := hpage.1
      have hslot' := hpage'.1
      simp only [pageStep] at hrest hslot' ⊢
      simp only [tableIndex, field]
      omega
  · refine ⟨?_, fun h => absurd h hrest⟩
    intro b hlow hhigh
    omega

/-- The loop over a section sets the entries of its pages. -/
theorem sectionLoop_spec (h₀ : Ready m₀ entries kernelPageTable table)
    (h : Filling m₀ m entries table slot flags) (sectionFlags : Nat)
    (hindex : 0 < size → j = tableIndex v) (hbytes : BytesMapped m₀ entries slot v size) :
    ∃ m', sectionLoop entries kernelPageTable sectionFlags size j v m = some m' ∧
      Filling m₀ m' entries table slot
        (setFlags flags v size (decide (sectionFlags &&& shfWrite ≠ 0))) := by
  induction size using Nat.strong_induction_on generalizing m v j flags with
  | _ size ih =>
    rw [sectionLoop]
    by_cases hsize : 0 < size
    · obtain ⟨hv, hpage, hmapped⟩ := hbytes v (Nat.le_refl v) (by omega)
      obtain ⟨hend, -⟩ := hbytes (v + (size - 1)) (by omega) (by omega)
      have hstep : (if 0x1000 - v % 0x1000 > size then size else 0x1000 - v % 0x1000) =
          pageStep v size := by
        rw [pageStep]
        split_ifs <;> omega
      have hless : size - pageStep v size < size := by
        simp only [pageStep]
        omega
      -- the page of `v`, and then the pages of the bytes that are left
      obtain ⟨m₁, hm₁, hfilling⟩ := h.mapSectionPage h₀ sectionFlags hv hpage hmapped
      obtain ⟨hrest, hindex'⟩ := hbytes.rest
      obtain ⟨m', hm', hfilling'⟩ := ih (size - pageStep v size) hless hfilling hindex' hrest
      refine ⟨m', ?_, ?_⟩
      · rw [if_pos hsize, hindex hsize]
        simp only [hm₁, hstep, bind, Option.bind_some]
        exact hm'
      · rw [← setFlags_step hsize (by omega)]
        exact hfilling'
    · obtain rfl := Nat.eq_zero_of_not_pos hsize
      rw [setFlags_zero]
      exact ⟨m, if_neg hsize, h⟩

/-- The last section that touches a page decides. -/
theorem sections_spec (h₀ : Ready m₀ entries kernelPageTable table)
    (h : Filling m₀ m entries table slot flags) {esht : List Elf32Shdr}
    (hbytes : ∀ s ∈ esht, s.Alloc → BytesMapped m₀ entries slot s.addr s.size) :
    ∃ m', sections entries kernelPageTable esht m = some m' ∧
      Filling m₀ m' entries table slot fun page => (lastWrite esht page).or (flags page) := by
  induction esht generalizing m flags with
  | nil => exact ⟨m, rfl, h⟩
  | cons s rest ih =>
    rw [List.forall_mem_cons] at hbytes
    obtain ⟨hfirst, hrest⟩ := hbytes
    rw [sections]
    by_cases halloc : s.Alloc
    · have hflag : s.flags &&& shfAlloc ≠ 0 := halloc
      have hindex : (s.addr >>> pageShift) &&& 0x3FF = tableIndex s.addr :=
        tableIndex_of_shift s.addr
      obtain ⟨m₁, hm₁, hholds⟩ := sectionLoop_spec h₀ h s.flags (fun _ => hindex) (hfirst halloc)
      obtain ⟨m', hm', hholds'⟩ := ih hholds hrest
      refine ⟨m', ?_, ?_⟩
      · rw [if_pos hflag, hm₁]
        exact hm'
      · -- the flags of this section count where no later one has any
        convert hholds' using 2 with page
        rw [lastWrite, Option.or_assoc, setFlags]
        congr 1
        by_cases htouch : Touches s.addr s.size page
        · rw [if_pos ⟨halloc, htouch⟩, if_pos htouch]
          rfl
        · rw [if_neg (fun hs => htouch hs.2), if_neg htouch, Option.none_or]
    · have hflag : ¬ (s.flags &&& shfAlloc ≠ 0) := halloc
      obtain ⟨m', hm', hholds'⟩ := ih h hrest
      refine ⟨m', ?_, ?_⟩
      · rw [if_neg hflag]
        exact hm'
      · convert hholds' using 2 with page
        rw [lastWrite, if_neg (fun hs => halloc hs.1), Option.or_none]

theorem add32_succ (a i : Nat) : add32 (add32 a i) 1 = add32 a (i + 1) := by
  simp only [add32]
  omega

/-- `memset` clears the rest of the table. -/
theorem memset_spec (h₀ : Ready m₀ entries kernelPageTable table) (hm : EqualOff table m₀ m)
    {i count : Nat} (hcount : i + count ≤ 0x1000)
    (hzero : ∀ o < i, m (table * 2 ^ 12 + o) = 0) :
    ∃ m', memset entries 0 count (add32 kernelPageTable i) m = some m' ∧ EqualOff table m₀ m' ∧
      ∀ o < i + count, m' (table * 2 ^ 12 + o) = 0 := by
  induction count generalizing m i with
  | zero => exact ⟨m, rfl, hm, hzero⟩
  | succ count ih =>
    obtain ⟨-, htable⟩ := translate_mod h₀.mapped
    have hi : i < 2 ^ 12 := by omega
    have hbyte : table * 2 ^ 12 + i < 2 ^ 32 := by
      rw [Nat.add_comm]
      omega
    have hframe : (table * 2 ^ 12 + i) / 2 ^ 12 = table := by omega
    have hrest : i + 1 + count ≤ 0x1000 := by omega
    have hzero' : ∀ o < i + 1, m.store8 (table * 2 ^ 12 + i) 0 (table * 2 ^ 12 + o) = 0 := by
      intro o ho
      rw [Mem.store8, Nat.mod_eq_of_lt hbyte]
      split_ifs with hlast
      · rfl
      · exact hzero o (by omega)
    obtain ⟨m', hm', hoff, hcleared⟩ := ih (hm.store8 hbyte hframe 0) hrest hzero'
    refine ⟨m', ?_, hoff, fun o ho => hcleared o (by omega)⟩
    rw [memset, vstore8, (h₀.of_equalOff hm).translate_byte hi, Option.map_some, add32_succ]
    exact hm'

/-- All entries are zero behind `memset`. -/
theorem Before.load32_zero (h₀ : Before m₀ entries kernelPageTable table) (hj : j < 2 ^ 10)
    (hzero : ∀ o < 0x1000, m (table * 2 ^ 12 + o) = 0) : m.load32 (tableSlot table j) = 0 := by
  obtain ⟨hword, -⟩ := h₀.slot_word hj
  have hbyte : ∀ k < 4, m.load8 (tableSlot table j + k) = 0 := by
    intro k hk
    have haddr : tableSlot table j + k = table * 2 ^ 12 + (4 * j + k) := by
      simp only [tableSlot]
      omega
    rw [Mem.load8, Nat.mod_eq_of_lt (by omega), haddr]
    exact hzero _ (by omega)
  have hfirst := hbyte 0 (by decide)
  rw [Nat.add_zero] at hfirst
  rw [Mem.load32, hfirst, hbyte 1 (by decide), hbyte 2 (by decide), hbyte 3 (by decide)]
  rfl

/-- The entry of its own page in a table that maps it. -/
def ownSlot (kernelPageTable table : Nat) : Nat := tableSlot table (tableIndex kernelPageTable)

/-- Changes of other entries keep the table mapped. -/
theorem Before.of_ownSlot (h₀ : Before m₀ entries kernelPageTable table)
    (huses : UsesTable m₀ entries table (dirIndex kernelPageTable)) (hm : EqualOff table m₀ m)
    (hkept : m.load32 (ownSlot kernelPageTable table) = m₀.load32 (ownSlot kernelPageTable table)) :
    Before m entries kernelPageTable table where
  recursive := hm.recursive h₀.recursive h₀.apart
  aligned := h₀.aligned
  lt := h₀.lt
  mapped := by
    rw [← h₀.mapped]
    apply translate_congr
    rintro a (rfl | ⟨-, -, rfl⟩)
    · exact hm.dirSlot h₀.recursive h₀.apart (dirIndex_lt _)
    · rw [huses.2.2]
      exact hkept
  apart := h₀.apart

/-- Without its entry the table is not mapped. -/
theorem translate_ownSlot (huses : UsesTable m entries table (dirIndex kernelPageTable))
    (hzero : m.load8 (ownSlot kernelPageTable table) = 0) :
    translate m entries kernelPageTable = none := by
  have habsent : ¬ Present (m.load32 (ownSlot kernelPageTable table)) := by
    simp only [Present, field, Mem.load32, hzero, UInt8.toNat_zero]
    omega
  obtain ⟨hp, hl, htable⟩ := huses
  rw [translate_small hp hl, htable]
  exact if_neg habsent

/-- `memset` loses a table that maps its own page when it clears the entry of that page. -/
theorem memset_fault (h₀ : Before m₀ entries kernelPageTable table)
    (huses : UsesTable m₀ entries table (dirIndex kernelPageTable)) (hm : EqualOff table m₀ m)
    {i count : Nat} (hcount : i + count = 0x1000) (hi : i ≤ 4 * tableIndex kernelPageTable)
    (hkept : m.load32 (ownSlot kernelPageTable table) =
      m₀.load32 (ownSlot kernelPageTable table)) :
    memset entries 0 count (add32 kernelPageTable i) m = none := by
  have hindex := tableIndex_lt kernelPageTable
  induction count generalizing m i with
  | zero => omega
  | succ count ih =>
    have hbefore := h₀.of_ownSlot huses hm hkept
    obtain ⟨hword, hframe⟩ := h₀.slot_word hindex
    have hown : ownSlot kernelPageTable table =
        table * 2 ^ 12 + 4 * tableIndex kernelPageTable := rfl
    have hbyte : table * 2 ^ 12 + i < 2 ^ 32 := by
      simp only [tableSlot] at hword
      omega
    have hoff := hm.store8 hbyte (by omega) 0
    rw [memset, vstore8, hbefore.translate_byte (by omega), Option.map_some, add32_succ]
    show memset entries 0 count (add32 kernelPageTable (i + 1)) _ = none
    by_cases hlast : i = 4 * tableIndex kernelPageTable
    · -- the present bit is cleared, and there are more bytes to write
      have huses' : UsesTable (m.store8 (table * 2 ^ 12 + i) 0) entries table
          (dirIndex kernelPageTable) := by
        rw [hoff.usesTable_iff h₀.recursive h₀.apart (dirIndex_lt _)]
        exact huses
      have hnone := translate_ownSlot huses' (by rw [hown, ← hlast, Mem.load8_store8_same])
      obtain ⟨rest, rfl⟩ : ∃ rest, count = rest + 1 := ⟨count - 1, by omega⟩
      have haligned := h₀.aligned
      have hlt := h₀.lt
      have haddr : add32 kernelPageTable (i + 1) = kernelPageTable + (i + 1) := by
        simp only [add32]
        omega
      rw [memset, vstore8, haddr, translate_offset haligned (by omega), hnone]
      rfl
    · apply ih hoff (by omega) (by omega)
      rw [← hkept]
      apply Mem.load32_congr hword.2
      intro x hlow hhigh
      simp only [tableSlot] at hlow
      rw [Mem.store8, Nat.mod_eq_of_lt hbyte, if_neg (by omega)]

/-! ## The switch -/

/-- The entry that goes into the directory. -/
def switchEntry (pde physicalAddress : Nat) : Nat :=
  let pde := PageDirEntry.setWritable pde 1
  let pde := PageDirEntry.setPresent pde 1
  let pde := PageDirEntry.setEnable4m pde 0
  let pde := PageDirEntry.setUser pde 1
  PageDirEntry.setPageTableAddr pde (physicalAddress >>> 12)

theorem switchEntry_spec {pde : Nat} (hpde : pde < 2 ^ 32) (hp : p < 2 ^ 32) :
    switchEntry pde p < 2 ^ 32 ∧ Present (switchEntry pde p) ∧ ¬ Large (switchEntry pde p) ∧
      frame (switchEntry pde p) = p / 2 ^ 12 ∧ field (switchEntry pde p) 1 1 = 1 := by
  simp only [switchEntry, PageDirEntry.setWritable, PageDirEntry.setPresent,
    PageDirEntry.setEnable4m, PageDirEntry.setUser, PageDirEntry.setPageTableAddr]
  refine ⟨?_, ?_, ?_, ?_, ?_⟩
  · exact setField_lt _ _ (setField_lt _ _ (setField_lt _ _ (setField_lt _ _
      (setField_lt _ _ hpde (by decide)) (by decide)) (by decide)) (by decide)) (by decide)
  · rw [Present, field_setField_below _ _ (by decide), field_setField_below _ _ (by decide),
      field_setField_below _ _ (by decide), field_setField_same]
    decide
  · rw [Large, field_setField_below _ _ (by decide), field_setField_above _ _ (by decide),
      field_setField_same]
    decide
  · rw [frame, field_setField_same, Nat.shiftRight_eq_div_pow]
    omega
  · rw [field_setField_below _ _ (by decide), field_setField_below _ _ (by decide),
      field_setField_below _ _ (by decide), field_setField_above _ _ (by decide),
      field_setField_same]
    decide

/-- Changes of an entry below the first MiB. -/
theorem Holds.modifyPte (h : Holds m₀ m entries table slot flags)
    (h₀ : Ready m₀ entries kernelPageTable table) (hj : j < 0x100) (f : Nat → Nat) :
    ∃ m', modifyPte m entries (pteAddr kernelPageTable j) f = some m' ∧
      Holds m₀ m' entries table slot flags :=
  ⟨_, (h₀.of_equalOff h.off).modifyPte_eq (by omega) f, h.store_low h₀.toBefore hj _⟩

/-- The two entries below the first MiB are written, and then the directory is switched. -/
theorem pagingBuildKernelTable_spec {esht : List Elf32Shdr}
    (h₀ : Ready m₀ entries kernelPageTable table) (pde kernelBase : Nat)
    (hbytes : ∀ s ∈ esht, s.Alloc → BytesMapped m₀ entries slot s.addr s.size) :
    ∃ m, pagingBuildKernelTable m₀ entries kernelPageTable pde esht kernelBase =
        some (m.store32 (dirSlot entries (kernelBase >>> 22))
          (switchEntry pde (table * 2 ^ 12))) ∧
      Holds m₀ m entries table slot (lastWrite esht) := by
  have hself : add32 kernelPageTable 0 = kernelPageTable := Nat.mod_eq_of_lt h₀.lt
  obtain ⟨m₁, hm₁, hoff, hzero⟩ := memset_spec h₀ (EqualOff.refl table m₀)
    (Nat.zero_add 0x1000).le (by simp)
  rw [hself] at hm₁
  have hempty : Filling m₀ m₁ entries table slot fun _ => none := by
    refine ⟨⟨hoff, by simp⟩, fun _ j hj => ?_⟩
    rw [h₀.load32_zero hj (by simpa using hzero)]
    rfl
  obtain ⟨m₂, hm₂, hfilled⟩ := sections_spec h₀ hempty hbytes
  have hholds : Holds m₀ m₂ entries table slot (lastWrite esht) := by
    simpa using hfilled.toHolds
  -- the entry of the video memory, then that of the multiboot header
  have hvideo : 0x0B8 < 0x100 := by decide
  have hmultiboot : 0x02B < 0x100 := by decide
  obtain ⟨m₃, hm₃, hholds⟩ :=
    hholds.modifyPte h₀ hvideo fun e => PageTableEntry.setWritable e 1
  obtain ⟨m₄, hm₄, hholds⟩ := hholds.modifyPte h₀ hvideo fun e => PageTableEntry.setPresent e 1
  obtain ⟨m₅, hm₅, hholds⟩ := hholds.modifyPte h₀ hvideo fun e => PageTableEntry.setUser e 1
  obtain ⟨m₆, hm₆, hholds⟩ :=
    hholds.modifyPte h₀ hvideo fun e => PageTableEntry.setPageAddr e 0x0B8
  obtain ⟨m₇, hm₇, hholds⟩ :=
    hholds.modifyPte h₀ hmultiboot fun e => PageTableEntry.setWritable e 1
  obtain ⟨m₈, hm₈, hholds⟩ :=
    hholds.modifyPte h₀ hmultiboot fun e => PageTableEntry.setPresent e 1
  obtain ⟨m₉, hm₉, hholds⟩ :=
    hholds.modifyPte h₀ hmultiboot fun e => PageTableEntry.setPageAddr e 0x02B
  have h₉ := h₀.of_equalOff hholds.off
  have hphysical : virtualToPhysical m₉ entries kernelPageTable = .ok (table * 2 ^ 12) := by
    rw [virtualToPhysical_eq h₉.recursive h₀.lt, h₉.mapped]
    rfl
  refine ⟨m₉, ?_, hholds⟩
  simp only [pagingBuildKernelTable, bind, Option.bind_some, hm₁, hm₂, hm₃, hm₄, hm₅, hm₆, hm₇, hm₈,
    hm₉, hphysical, Except.toOption]
  rfl

/-- Behind the switch, the pages of the window are those of the table. -/
theorem Holds.switch (h : Holds m₀ m entries table slot flags)
    (h₀ : Before m₀ entries kernelPageTable table) (hslot : dirIndex v = slot)
    (hflag : flags (v / 2 ^ 12) = some write) {z : Nat} (hz : z < 2 ^ 32) (hp : Present z)
    (hl : ¬ Large z) (hframe : frame z = table) (hwrite : field z 1 1 = 1) :
    translate (m.store32 (dirSlot entries slot) z) entries v =
        some (foundFrame m₀ entries table (v / 2 ^ 12) * 2 ^ 12 + v % 2 ^ 12) ∧
      (Writable (m.store32 (dirSlot entries slot) z) entries v ↔ write = true) := by
  have hlt : slot < 2 ^ 10 := hslot ▸ dirIndex_lt v
  obtain ⟨haligned, hend⟩ := h₀.recursive.bounds
  have hdir : dirSlot entries slot % 4 = 0 ∧ dirSlot entries slot + 4 ≤ 2 ^ 32 := by
    simp only [dirSlot]
    omega
  obtain ⟨-, hmaps⟩ := h.entry _ write hflag
  rw [pageNumber] at hmaps
  have hpde : (m.store32 (dirSlot entries slot) z).load32 (dirSlot entries (dirIndex v)) = z := by
    rw [hslot, Mem.load32_store32_same, Nat.mod_eq_of_lt hz]
  -- the entry in the directory is not in the table
  have hpte : (m.store32 (dirSlot entries slot) z).load32 (tableSlot table (tableIndex v)) =
      m.load32 (tableSlot table (tableIndex v)) := by
    obtain ⟨hword, htable⟩ := h₀.slot_word (tableIndex_lt v)
    have hapart := h₀.apart
    apply load32_store32_aligned m z hdir hword
    simp only [dirSlot]
    omega
  constructor
  · rw [translate_small (by rw [hpde]; exact hp) (by rw [hpde]; exact hl), hpde, hframe, hpte,
      ← hmaps.frame]
    exact if_pos hmaps.present
  · simp only [Writable, hpde, hframe, hpte, hwrite, hmaps.write, hl, false_or, true_and]
    cases write <;> simp

theorem lastWrite_of_mem {s : Elf32Shdr} {esht : List Elf32Shdr} (hs : s ∈ esht) (halloc : s.Alloc)
    (hv : s.Byte v) : ∃ write, lastWrite esht (v / 2 ^ 12) = some write := by
  induction esht with
  | nil => simp at hs
  | cons t rest ih =>
    rw [lastWrite]
    rcases List.mem_cons.mp hs with rfl | hs
    · rw [if_pos ⟨halloc, v, hv.1, hv.2, rfl⟩]
      cases lastWrite rest (v / 2 ^ 12) with
      | none => exact ⟨decide s.Write, rfl⟩
      | some write => exact ⟨write, rfl⟩
    · obtain ⟨write, hwrite⟩ := ih hs
      exact ⟨write, by rw [hwrite, Option.some_or]⟩

end Table

/-! ## The whole call -/

/-- The bytes of the window whose page is touched by a section are in the frames that the walk
    finds, and can be written if the last section can. -/
def Switched (m m' : Mem) (entries table slot : Nat) (esht : List Elf32Shdr) : Prop :=
  ∀ v write, InWindow slot (v / 2 ^ 12) → lastWrite esht (v / 2 ^ 12) = some write →
    translate m' entries v =
        some (foundFrame m entries table (v / 2 ^ 12) * 2 ^ 12 + v % 2 ^ 12) ∧
      (Writable m' entries v ↔ write = true)

section Call

variable {m : Mem} {entries kernelPageTable table pde kernelBase : Nat} {esht : List Elf32Shdr}

/-- Pages of a window are pages of 32 bits. -/
theorem InWindow.lt {v : Nat} (hbase : kernelBase < 2 ^ 32)
    (h : InWindow (kernelBase >>> 22) (v / 2 ^ 12)) : v < 2 ^ 32 := by
  have hpage := h.1
  rw [Nat.shiftRight_eq_div_pow] at hpage
  omega

theorem InWindow.dirIndex_eq {slot v : Nat} (hv : v < 2 ^ 32) (h : InWindow slot (v / 2 ^ 12)) :
    dirIndex v = slot := by
  rw [← dirNumber hv]
  exact h.1

theorem pagingBuildKernelTable_switched (hpde : pde < 2 ^ 32) (hbase : kernelBase < 2 ^ 32)
    (h₀ : Ready m entries kernelPageTable table)
    (hsections : SectionsMapped m entries kernelBase esht) :
    ∃ m', pagingBuildKernelTable m entries kernelPageTable pde esht kernelBase = some m' ∧
      (∀ a, a / 2 ^ 12 ≠ table → ¬ (dirSlot entries (kernelBase >>> 22) ≤ a ∧
        a < dirSlot entries (kernelBase >>> 22) + 4) → m' a = m a) ∧
      Switched m m' entries table (kernelBase >>> 22) esht := by
  obtain ⟨m', hm', hholds⟩ := pagingBuildKernelTable_spec h₀ pde kernelBase
    fun s hs halloc b hlow hhigh =>
      have hbyte := hsections s hs halloc b ⟨hlow, hhigh⟩
      ⟨hbyte.1.lt hbase, hbyte⟩
  obtain ⟨hz, hp, hl, hframe, hwrite⟩ := switchEntry_spec hpde (translate_mod h₀.mapped).2
  have htable : frame (switchEntry pde (table * 2 ^ 12)) = table := by omega
  refine ⟨_, hm', ?_, ?_⟩
  · intro a ha hentry
    have hslot : dirSlot entries (kernelBase >>> 22) + 4 ≤ 2 ^ 32 := by
      obtain ⟨haligned, hend⟩ := h₀.recursive.bounds
      rw [dirSlot, Nat.shiftRight_eq_div_pow]
      omega
    rw [Mem.store32_apply m' _ hslot (by omega)]
    exact hholds.off a ha
  · intro v write hpage hflag
    exact hholds.switch h₀.toBefore (hpage.dirIndex_eq (hpage.lt hbase)) hflag hz hp hl htable
      hwrite

/-- A call for a table that maps its own page faults. -/
theorem pagingBuildKernelTable_fault (h₀ : Before m entries kernelPageTable table)
    (huses : UsesTable m entries table (dirIndex kernelPageTable)) :
    pagingBuildKernelTable m entries kernelPageTable pde esht kernelBase = none := by
  have hself : add32 kernelPageTable 0 = kernelPageTable := Nat.mod_eq_of_lt h₀.lt
  have hfault := memset_fault h₀ huses (EqualOff.refl table m) (Nat.zero_add 0x1000)
    (Nat.zero_le _) rfl
  rw [hself] at hfault
  simp only [pagingBuildKernelTable, hfault, bind, Option.bind_none]

/-- The bytes of the sections stay where they are exactly if the table was not in use for the
    window, or all of them are in frame 0. -/
theorem translate_found_iff (hbase : kernelBase < 2 ^ 32)
    (hsections : SectionsMapped m entries kernelBase esht) :
    (∀ s ∈ esht, s.Alloc → ∀ v, s.Byte v → translate m entries v =
      some (foundFrame m entries table (v / 2 ^ 12) * 2 ^ 12 + v % 2 ^ 12)) ↔
      (UsesTable m entries table (kernelBase >>> 22) → ∀ s ∈ esht, s.Alloc → ∀ v, s.Byte v →
        translate m entries v = some (v % 2 ^ 12)) := by
  by_cases huses : UsesTable m entries table (kernelBase >>> 22)
  · simp only [huses, true_imp_iff]
    refine forall₂_congr fun s hs => forall₂_congr fun halloc v => forall_congr' fun hv => ?_
    have hpage := (hsections s hs halloc v hv).1
    rw [foundFrame, hpage.1, if_pos huses, Nat.zero_mul, Nat.zero_add]
  · simp only [huses, false_imp_iff, iff_true]
    intro s hs halloc v hv
    obtain ⟨hpage, hmapped⟩ := hsections s hs halloc v hv
    rw [← hpage.dirIndex_eq (hpage.lt hbase)] at huses
    exact translate_foundFrame (hpage.lt hbase) huses hmapped

end Call

/-- The table is built correctly exactly if it is not in use before, neither for its own page nor
    for sections outside frame 0, and if, on every page with a byte of a section that can be
    written, the last of the sections in memory can be written. -/
theorem build_kernel_table_iff (m : Mem) (entries kernelPageTable table pde : Nat)
    (esht : List Elf32Shdr) (kernelBase : Nat) (hpde : pde < 2 ^ 32) (hbase : kernelBase < 2 ^ 32)
    (h₀ : Before m entries kernelPageTable table)
    (hsections : SectionsMapped m entries kernelBase esht) :
    BuildsTable m entries kernelPageTable table pde esht kernelBase ↔
      TableFree m entries kernelPageTable table kernelBase esht ∧ WritableLast esht := by
  by_cases hself : UsesTable m entries table (dirIndex kernelPageTable)
  · -- the table shows its own page, and the memset clears the entry that it goes through
    refine iff_of_false ?_ fun h => h.1.self hself
    rintro ⟨m', hm', -⟩
    rw [pagingBuildKernelTable_fault h₀ hself] at hm'
    cases hm'
  obtain ⟨m', hm', hconfined, hswitched⟩ :=
    pagingBuildKernelTable_switched hpde hbase ⟨h₀, hself⟩ hsections
  constructor
  · rintro ⟨m'', hrun, hbuilt⟩
    rw [hm'] at hrun
    cases hrun
    refine ⟨⟨hself, (translate_found_iff hbase hsections).mp ?_⟩, ?_⟩
    · intro s hs halloc v hv
      -- the last section with a byte on the page decides about its flag
      obtain ⟨write, hflag⟩ := lastWrite_of_mem hs halloc hv
      rw [← hbuilt.same s hs halloc v hv]
      exact (hswitched v write (hsections s hs halloc v hv).1 hflag).1
    · intro s hs halloc hwrite v hv
      obtain ⟨write, hflag⟩ := lastWrite_of_mem hs halloc hv
      have hiff := (hswitched v write (hsections s hs halloc v hv).1 hflag).2
      rw [hflag, hiff.mp (hbuilt.writable s hs halloc hwrite v hv)]
  · rintro ⟨hfree, hlast⟩
    have hfound := (translate_found_iff hbase hsections).mpr hfree.window
    refine ⟨m', hm', hconfined, ?_, ?_⟩
    · intro s hs halloc v hv
      obtain ⟨write, hflag⟩ := lastWrite_of_mem hs halloc hv
      rw [hfound s hs halloc v hv]
      exact (hswitched v write (hsections s hs halloc v hv).1 hflag).1
    · intro s hs halloc hwrite v hv
      have hflag := hlast s hs halloc hwrite v hv
      exact (hswitched v true (hsections s hs halloc v hv).1 hflag).2.mpr rfl

/-! ## A kernel at 3 GiB -/

/-- The directory has the large page of the kernel, and itself. -/
def kernelMemory : Mem := emptyDirectory.store32 (0x1000 + 4 * 0x300) 0x83

theorem kernelMemory_ready : Ready kernelMemory 0x1000 0xC0200000 0x200 where
  recursive := emptyDirectory_recursive.store32 _ (by decide) (by decide)
  aligned := by decide
  lt := by decide
  mapped := by decide
  apart := by decide
  self := by decide

/-- All addresses of the large page are mapped. -/
theorem kernelMemory_translate {v : Nat} (hv : v / 2 ^ 22 = 0x300) :
    translate kernelMemory 0x1000 v ≠ none := by
  have hdir : dirIndex v = 0x300 := by
    simp only [dirIndex, field]
    omega
  rw [translate_large (by rw [hdir]; decide) (by rw [hdir]; decide)]
  simp

theorem kernelMemory_sections {esht : List Elf32Shdr}
    (h : ∀ s ∈ esht, 0xC0100000 ≤ s.addr ∧ s.addr + s.size ≤ 0xC0400000) :
    SectionsMapped kernelMemory 0x1000 0xC0000000 esht := by
  intro s hs _ v hv
  obtain ⟨hlow, hhigh⟩ := h s hs
  obtain ⟨hfirst, hlast⟩ := hv
  have hbase : 0xC0000000 >>> 22 = 0x300 := by decide
  rw [hbase]
  refine ⟨⟨by omega, by omega⟩, kernelMemory_translate (by omega)⟩

/-- Code, and data on a page of its own. -/
theorem build_kernel_table_aligned :
    BuildsTable kernelMemory 0x1000 0xC0200000 0x200 0
        [⟨6, 0xC0100000, 0x1800⟩, ⟨3, 0xC0102000, 0x800⟩] 0xC0000000 ↔
      TableFree kernelMemory 0x1000 0xC0200000 0x200 0xC0000000
          [⟨6, 0xC0100000, 0x1800⟩, ⟨3, 0xC0102000, 0x800⟩] ∧
        WritableLast [⟨6, 0xC0100000, 0x1800⟩, ⟨3, 0xC0102000, 0x800⟩] :=
  build_kernel_table_iff kernelMemory 0x1000 0xC0200000 0x200 0 _ 0xC0000000 (by decide)
    (by decide) kernelMemory_ready.toBefore (kernelMemory_sections (by decide))

/-- Data, and constants behind it on the same page. -/
theorem build_kernel_table_shared :
    ¬ ∀ (m : Mem) (entries kernelPageTable table pde : Nat) (esht : List Elf32Shdr)
      (kernelBase : Nat), pde < 2 ^ 32 → kernelBase < 2 ^ 32 →
      Before m entries kernelPageTable table → SectionsMapped m entries kernelBase esht →
        BuildsTable m entries kernelPageTable table pde esht kernelBase := by
  intro h
  have hmapped : SectionsMapped kernelMemory 0x1000 0xC0000000
      [⟨3, 0xC0100000, 0x800⟩, ⟨2, 0xC0100800, 0x800⟩] := kernelMemory_sections (by decide)
  obtain ⟨m', hrun, hbuilt⟩ := h kernelMemory 0x1000 0xC0200000 0x200 0
    [⟨3, 0xC0100000, 0x800⟩, ⟨2, 0xC0100800, 0x800⟩] 0xC0000000 (by decide) (by decide)
    kernelMemory_ready.toBefore hmapped
  have hpde : 0 < 2 ^ 32 := by decide
  obtain ⟨m'', hrun', -, hswitched⟩ := pagingBuildKernelTable_switched hpde (by decide)
    kernelMemory_ready hmapped
  rw [hrun'] at hrun
  cases hrun
  have hiff := (hswitched 0xC0100000 false (by decide) (by decide)).2
  have hwritable := hbuilt.writable ⟨3, 0xC0100000, 0x800⟩ List.mem_cons_self (by decide)
    (by decide) 0xC0100000 (by decide)
  exact absurd (hiff.mp hwritable) (by decide)

end TimbOS.Native.Paging
