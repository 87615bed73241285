import TimbOS.ForStd.BitField
import TimbOS.ForStd.Memory

/-!
# Two-level page tables

The address translation of a 32-bit processor with pages of 4 KiB and 4 MiB. A directory of
1024 words lies at a physical address; an entry is a page of 4 MiB or points to a table of
1024 words. Bit 0 of an entry says that it is present, bit 7 of a directory entry that it is
a large page. Translations are not cached.

A directory whose slot `slot` points to itself makes the tables visible: the entry `j` of the
table in slot `i` is the word at `window slot i j`.

## Key results

- `translate_fill_table`, `translate_fill_dir`: what an entry that becomes present changes
- `translate_window`: what the window shows
- `translate_of_not_reads`: translations that do not use a word do not depend on it
- `translate_eq_pageFrame`, `pageFrame_store_usesSlot`: the frames of the pages, and what a new
  entry of a table changes
- `EqualOff.translate`: what a frame holds matters only where it is the table
-/

namespace ForStd.Paging

open Mem

/-! ## Translation -/

/-- The entry can be used. -/
def Present (entry : Nat) : Prop := field entry 0 1 = 1

/-- The entry of a directory is a page of 4 MiB. -/
def Large (entry : Nat) : Prop := field entry 7 1 = 1

instance (entry : Nat) : Decidable (Present entry) := inferInstanceAs (Decidable (_ = _))

instance (entry : Nat) : Decidable (Large entry) := inferInstanceAs (Decidable (_ = _))

/-- The number of the page frame, or of the table's frame. -/
def frame (entry : Nat) : Nat := field entry 12 20

/-- The number of the large page frame. -/
def largeFrame (entry : Nat) : Nat := field entry 22 10

/-- The slot of the directory that an address belongs to. -/
def dirIndex (v : Nat) : Nat := field v 22 10

/-- The slot of the table. -/
def tableIndex (v : Nat) : Nat := field v 12 10

/-- The address of a directory entry. -/
def dirSlot (dir i : Nat) : Nat := dir + 4 * i

/-- The address of an entry of the table in frame `t`. -/
def tableSlot (t j : Nat) : Nat := t * 2 ^ 12 + 4 * j

/-- The physical address that a virtual address stands for, if its page is present. -/
def translate (m : Mem) (dir v : Nat) : Option Nat :=
  let pde := m.load32 (dirSlot dir (dirIndex v))
  if Present pde then
    if Large pde then
      some (largeFrame pde * 2 ^ 22 + v % 2 ^ 22)
    else
      let pte := m.load32 (tableSlot (frame pde) (tableIndex v))
      if Present pte then some (frame pte * 2 ^ 12 + v % 2 ^ 12) else none
  else
    none

/-- Read the word at a virtual address that is divisible by 4. -/
def vload32 (m : Mem) (dir v : Nat) : Option Nat := (translate m dir v).map m.load32

/-- Write it. -/
def vstore32 (m : Mem) (dir v x : Nat) : Option Mem :=
  (translate m dir v).map fun p => m.store32 p x

/-- Write the byte at a virtual address. -/
def vstore8 (m : Mem) (dir v : Nat) (x : UInt8) : Option Mem :=
  (translate m dir v).map fun p => m.store8 p x

/-- The entries of a virtual address allow writes (bit 1). -/
def Writable (m : Mem) (dir v : Nat) : Prop :=
  let pde := m.load32 (dirSlot dir (dirIndex v))
  field pde 1 1 = 1 ∧
    (Large pde ∨ field (m.load32 (tableSlot (frame pde) (tableIndex v))) 1 1 = 1)

section Translate

variable {m m' : Mem} {dir v i j : Nat}

theorem dirIndex_lt (v : Nat) : dirIndex v < 2 ^ 10 := field_lt v 22 10

theorem tableIndex_lt (v : Nat) : tableIndex v < 2 ^ 10 := field_lt v 12 10

theorem frame_lt (entry : Nat) : frame entry < 2 ^ 20 := field_lt entry 12 20

/-- Addresses of the slot `i`. -/
theorem dirIndex_eq {r : Nat} (hi : i < 2 ^ 10) (hr : r < 2 ^ 22) :
    dirIndex (i * 2 ^ 22 + r) = i := by
  simp only [dirIndex, field]
  omega

/-- Addresses of the slot `j` of the table in slot `i`. -/
theorem tableIndex_eq {o : Nat} (hj : j < 2 ^ 10) (ho : o < 2 ^ 12) :
    tableIndex (i * 2 ^ 22 + j * 2 ^ 12 + o) = j := by
  simp only [tableIndex, field]
  omega

theorem translate_large (hp : Present (m.load32 (dirSlot dir (dirIndex v))))
    (hl : Large (m.load32 (dirSlot dir (dirIndex v)))) :
    translate m dir v =
      some (largeFrame (m.load32 (dirSlot dir (dirIndex v))) * 2 ^ 22 + v % 2 ^ 22) := by
  rw [translate]
  simp only [if_pos hp, if_pos hl]

theorem translate_small (hp : Present (m.load32 (dirSlot dir (dirIndex v))))
    (hl : ¬ Large (m.load32 (dirSlot dir (dirIndex v)))) :
    translate m dir v =
      let pte := m.load32 (tableSlot (frame (m.load32 (dirSlot dir (dirIndex v)))) (tableIndex v))
      if Present pte then some (frame pte * 2 ^ 12 + v % 2 ^ 12) else none := by
  rw [translate]
  simp only [if_pos hp, if_neg hl]

/-- A translation keeps the offset in the page. -/
theorem translate_mod {p : Nat} (h : translate m dir v = some p) :
    p % 2 ^ 12 = v % 2 ^ 12 ∧ p < 2 ^ 32 := by
  rw [translate] at h
  split_ifs at h with hp hl
  · obtain rfl := Option.some.inj h
    have hlt : largeFrame (m.load32 (dirSlot dir (dirIndex v))) < 2 ^ 10 := field_lt _ 22 10
    omega
  · simp only at h
    split_ifs at h
    obtain rfl := Option.some.inj h
    have hlt := frame_lt
      (m.load32 (tableSlot (frame (m.load32 (dirSlot dir (dirIndex v)))) (tableIndex v)))
    omega

theorem translate_absent (hp : ¬ Present (m.load32 (dirSlot dir (dirIndex v)))) :
    translate m dir v = none := by
  rw [translate]
  simp only [if_neg hp]

/-! ## The words of a translation -/

/-- The translation of `v` reads the word at `a`. -/
def Reads (m : Mem) (dir v a : Nat) : Prop :=
  a = dirSlot dir (dirIndex v) ∨
    Present (m.load32 (dirSlot dir (dirIndex v))) ∧ ¬ Large (m.load32 (dirSlot dir (dirIndex v))) ∧
      a = tableSlot (frame (m.load32 (dirSlot dir (dirIndex v)))) (tableIndex v)

/-- Translations that do not read the words that have changed stay the same. -/
theorem translate_congr (h : ∀ a, Reads m dir v a → m'.load32 a = m.load32 a) :
    translate m' dir v = translate m dir v := by
  have hpde := h _ (.inl rfl)
  rw [translate, translate, hpde]
  by_cases hp : Present (m.load32 (dirSlot dir (dirIndex v)))
  · by_cases hl : Large (m.load32 (dirSlot dir (dirIndex v)))
    · simp only [if_pos hl]
    · -- only a small page has an entry in a table
      have hpte := h _ (.inr ⟨hp, hl, rfl⟩)
      simp only [hpte]
  · simp only [if_neg hp]

/-- The words of a translation are aligned. -/
theorem Reads.aligned {a : Nat} (hdir : dir % 2 ^ 12 = 0) (hlt : dir < 2 ^ 32)
    (h : Reads m dir v a) : a % 4 = 0 ∧ a + 4 ≤ 2 ^ 32 := by
  have hd := dirIndex_lt v
  have ht := tableIndex_lt v
  rcases h with rfl | ⟨-, -, rfl⟩
  · simp only [dirSlot]
    omega
  · have hframe := frame_lt (m.load32 (dirSlot dir (dirIndex v)))
    simp only [tableSlot]
    omega

/-- A store to an aligned word leaves every other aligned word alone. -/
theorem load32_store32_aligned (m : Mem) {a b : Nat} (x : Nat) (ha : a % 4 = 0 ∧ a + 4 ≤ 2 ^ 32)
    (hb : b % 4 = 0 ∧ b + 4 ≤ 2 ^ 32) (hne : b ≠ a) : (m.store32 a x).load32 b = m.load32 b := by
  apply load32_store32_sep
  omega

/-- A store to a word that a translation does not read. -/
theorem translate_of_not_reads {a : Nat} (x : Nat) (hdir : dir % 2 ^ 12 = 0) (hlt : dir < 2 ^ 32)
    (ha : a % 4 = 0 ∧ a + 4 ≤ 2 ^ 32) (h : ¬ Reads m dir v a) :
    translate (m.store32 a x) dir v = translate m dir v := by
  apply translate_congr
  intro b hb
  apply load32_store32_aligned m x ha (hb.aligned hdir hlt)
  rintro rfl
  exact h hb

/-! ## Making an entry present

`a` is a word that is not present, and `z` is what it becomes. -/

variable {a z : Nat}

/-- The directory entries that are present are not the one that changes. -/
theorem dirEntry_fill (hdir : dir % 2 ^ 12 = 0) (hlt : dir < 2 ^ 32)
    (ha : a % 4 = 0 ∧ a + 4 ≤ 2 ^ 32) (habsent : ¬ Present (m.load32 a)) (hi : i < 2 ^ 10)
    (hp : Present (m.load32 (dirSlot dir i))) :
    (m.store32 a z).load32 (dirSlot dir i) = m.load32 (dirSlot dir i) := by
  apply load32_store32_aligned m z ha
  · simp only [dirSlot]
    omega
  · intro heq
    rw [heq] at hp
    exact habsent hp

/-- The pages whose table entry it is. -/
theorem translate_fill_table (hdir : dir % 2 ^ 12 = 0) (hlt : dir < 2 ^ 32)
    (ha : a % 4 = 0 ∧ a + 4 ≤ 2 ^ 32) (habsent : ¬ Present (m.load32 a)) (hword : z < 2 ^ 32)
    (hz : Present z) (hp : Present (m.load32 (dirSlot dir (dirIndex v))))
    (hl : ¬ Large (m.load32 (dirSlot dir (dirIndex v))))
    (hslot : tableSlot (frame (m.load32 (dirSlot dir (dirIndex v)))) (tableIndex v) = a) :
    translate (m.store32 a z) dir v = some (frame z * 2 ^ 12 + v % 2 ^ 12) := by
  have hpde := dirEntry_fill (z := z) hdir hlt ha habsent (dirIndex_lt v) hp
  rw [translate_small (by rw [hpde]; exact hp) (by rw [hpde]; exact hl), hpde, hslot,
    load32_store32_same, Nat.mod_eq_of_lt hword]
  exact if_pos hz

/-- The addresses of the large page, if the word is an entry of the directory. -/
theorem translate_fill_large (hword : z < 2 ^ 32) (hz : Present z) (hl : Large z)
    (hslot : dirSlot dir (dirIndex v) = a) :
    translate (m.store32 a z) dir v = some (largeFrame z * 2 ^ 22 + v % 2 ^ 22) := by
  have hpde : (m.store32 a z).load32 (dirSlot dir (dirIndex v)) = z := by
    rw [hslot, load32_store32_same, Nat.mod_eq_of_lt hword]
  rw [translate_large (by rw [hpde]; exact hz) (by rw [hpde]; exact hl), hpde]

/-- The pages of a new table are those that the frame has an entry for by chance. -/
theorem translate_fill_dir (hword : z < 2 ^ 32) (hz : Present z) (hl : ¬ Large z)
    (hslot : dirSlot dir (dirIndex v) = a) :
    translate (m.store32 a z) dir v = none ↔
      ¬ Present ((m.store32 a z).load32 (tableSlot (frame z) (tableIndex v))) := by
  have hpde : (m.store32 a z).load32 (dirSlot dir (dirIndex v)) = z := by
    rw [hslot, load32_store32_same, Nat.mod_eq_of_lt hword]
  rw [translate_small (by rw [hpde]; exact hz) (by rw [hpde]; exact hl), hpde]
  simp only [ite_eq_right_iff, reduceCtorEq, imp_false]

/-! ## Page frames

The pages of a directory are numbered by the slot in the directory and the slot in the table. -/

/-- The frame of the page `j` of a directory entry. -/
def pageFrame (m : Mem) (pde j : Nat) : Option Nat :=
  if Present pde then
    if Large pde then
      some (largeFrame pde * 2 ^ 10 + j)
    else
      let pte := m.load32 (tableSlot (frame pde) j)
      if Present pte then some (frame pte) else none
  else
    none

/-- The page `j` of the directory entry has its table entry at `a`. -/
def UsesSlot (pde j a : Nat) : Prop := Present pde ∧ ¬ Large pde ∧ tableSlot (frame pde) j = a

variable {pde x : Nat}

theorem translate_eq_pageFrame (m : Mem) (dir v : Nat) :
    translate m dir v = (pageFrame m (m.load32 (dirSlot dir (dirIndex v))) (tableIndex v)).map
      fun f => f * 2 ^ 12 + v % 2 ^ 12 := by
  rw [translate, pageFrame]
  by_cases hp : Present (m.load32 (dirSlot dir (dirIndex v)))
  · by_cases hl : Large (m.load32 (dirSlot dir (dirIndex v)))
    · -- the offset in the large page is the page and the offset in it
      simp only [if_pos hp, if_pos hl, Option.map_some, Option.some.injEq, tableIndex, field]
      omega
    · simp only [if_pos hp, if_neg hl]
      split <;> rfl
  · simp only [if_neg hp, Option.map_none]

/-- Addresses of one page. -/
theorem translate_offset {o : Nat} (hv : v % 2 ^ 12 = 0) (ho : o < 2 ^ 12) :
    translate m dir (v + o) = (translate m dir v).map (· + o) := by
  have hdir : dirIndex (v + o) = dirIndex v := by
    simp only [dirIndex, field]
    omega
  have htable : tableIndex (v + o) = tableIndex v := by
    simp only [tableIndex, field]
    omega
  have hoffset : (v + o) % 2 ^ 12 = o := by omega
  rw [translate_eq_pageFrame, translate_eq_pageFrame, hdir, htable, hoffset, hv]
  cases pageFrame m (m.load32 (dirSlot dir (dirIndex v))) (tableIndex v) with
  | none => rfl
  | some f => rw [Option.map_some, Option.map_some, Option.map_some, Nat.add_zero]

/-- Two memories translate an address to the same one if the page has the same frame. -/
theorem translate_eq_iff :
    translate m' dir v = translate m dir v ↔
      pageFrame m' (m'.load32 (dirSlot dir (dirIndex v))) (tableIndex v) =
        pageFrame m (m.load32 (dirSlot dir (dirIndex v))) (tableIndex v) := by
  rw [translate_eq_pageFrame, translate_eq_pageFrame]
  constructor
  · intro h
    refine Option.map_injective ?_ h
    intro f f' hf
    simp only at hf
    omega
  · intro h
    rw [h]

theorem pageFrame_of_usesSlot (h : UsesSlot pde j a) :
    pageFrame m pde j = if Present (m.load32 a) then some (frame (m.load32 a)) else none := by
  obtain ⟨hp, hl, rfl⟩ := h
  simp only [pageFrame, if_pos hp, if_neg hl]

/-- A store of an entry that is present. -/
theorem pageFrame_store_usesSlot (hword : x < 2 ^ 32) (hx : Present x) (h : UsesSlot pde j a) :
    pageFrame (m.store32 a x) pde j = some (frame x) := by
  rw [pageFrame_of_usesSlot h, load32_store32_same, Nat.mod_eq_of_lt hword, if_pos hx]

/-- The pages with another entry keep their frames. -/
theorem pageFrame_store_of_not (hj : j < 2 ^ 10) (ha : a % 4 = 0 ∧ a + 4 ≤ 2 ^ 32)
    (h : ¬ UsesSlot pde j a) : pageFrame (m.store32 a x) pde j = pageFrame m pde j := by
  by_cases hp : Present pde
  · by_cases hl : Large pde
    · simp only [pageFrame, if_pos hl]
    · have hframe := frame_lt pde
      have hpte : (m.store32 a x).load32 (tableSlot (frame pde) j) =
          m.load32 (tableSlot (frame pde) j) := by
        apply load32_store32_aligned m x ha
        · simp only [tableSlot]
          omega
        · exact fun heq => h ⟨hp, hl, heq⟩
      simp only [pageFrame, hpte]
  · simp only [pageFrame, if_neg hp]

end Translate

/-! ## The window on the tables -/

/-- The slot of the directory that points to the directory. -/
structure Recursive (m : Mem) (dir slot : Nat) : Prop where
  slot_lt : slot < 2 ^ 10
  present : Present (m.load32 (dirSlot dir slot))
  small : ¬ Large (m.load32 (dirSlot dir slot))
  frame : frame (m.load32 (dirSlot dir slot)) * 2 ^ 12 = dir

/-- The directory lies on a page boundary. -/
theorem Recursive.bounds {m : Mem} {dir slot : Nat} (h : Recursive m dir slot) :
    dir % 2 ^ 12 = 0 ∧ dir < 2 ^ 32 := by
  have hframe := h.frame
  have hlt := frame_lt (m.load32 (dirSlot dir slot))
  omega

/-- A store to another word keeps the slot. -/
theorem Recursive.store32 {m : Mem} {dir slot a : Nat} (h : Recursive m dir slot) (x : Nat)
    (ha : a % 4 = 0 ∧ a + 4 ≤ 2 ^ 32) (hne : dirSlot dir slot ≠ a) :
    Recursive (m.store32 a x) dir slot := by
  obtain ⟨hdir, hlt⟩ := h.bounds
  have hslot := h.slot_lt
  have hentry : (m.store32 a x).load32 (dirSlot dir slot) = m.load32 (dirSlot dir slot) := by
    apply load32_store32_aligned m x ha _ hne
    simp only [dirSlot]
    omega
  constructor
  · exact hslot
  · rw [hentry]
    exact h.present
  · rw [hentry]
    exact h.small
  · rw [hentry]
    exact h.frame

/-! ## Changes in one frame -/

/-- The two memories differ in the frame `t` only. -/
def EqualOff (t : Nat) (m m' : Mem) : Prop := ∀ a, a / 2 ^ 12 ≠ t → m' a = m a

/-- The frame `t` is the table of slot `i`. -/
def UsesTable (m : Mem) (dir t i : Nat) : Prop :=
  Present (m.load32 (dirSlot dir i)) ∧ ¬ Large (m.load32 (dirSlot dir i)) ∧
    frame (m.load32 (dirSlot dir i)) = t

instance (m : Mem) (dir t i : Nat) : Decidable (UsesTable m dir t i) :=
  inferInstanceAs (Decidable (_ ∧ _ ∧ _))

section EqualOff

variable {m m' : Mem} {dir slot t a i v : Nat}

theorem EqualOff.refl (t : Nat) (m : Mem) : EqualOff t m m := fun _ _ => rfl

theorem EqualOff.store8 (h : EqualOff t m m') (ha : a < 2 ^ 32) (hframe : a / 2 ^ 12 = t)
    (x : UInt8) : EqualOff t m (m'.store8 a x) := by
  intro b hb
  have hne : b ≠ a % 2 ^ 32 := by
    rw [Nat.mod_eq_of_lt ha]
    rintro rfl
    exact hb hframe
  rw [Mem.store8, if_neg hne]
  exact h b hb

theorem EqualOff.store32 (h : EqualOff t m m') (ha : a % 4 = 0 ∧ a + 4 ≤ 2 ^ 32)
    (hframe : a / 2 ^ 12 = t) (x : Nat) : EqualOff t m (m'.store32 a x) := by
  intro b hb
  rw [store32_apply m' x ha.2 (by omega)]
  exact h b hb

theorem EqualOff.load32 (h : EqualOff t m m') (ha : a % 4 = 0 ∧ a + 4 ≤ 2 ^ 32)
    (hframe : a / 2 ^ 12 ≠ t) : m'.load32 a = m.load32 a := by
  apply load32_congr ha.2
  intro b hlow hhigh
  apply h
  omega

/-- The directory is in another frame. -/
theorem EqualOff.dirSlot (heq : EqualOff t m m') (h : Recursive m dir slot)
    (hne : dir / 2 ^ 12 ≠ t) (hi : i < 2 ^ 10) :
    m'.load32 (dirSlot dir i) = m.load32 (dirSlot dir i) := by
  obtain ⟨haligned, hlt⟩ := h.bounds
  apply heq.load32
  · simp only [Paging.dirSlot]
    omega
  · simp only [Paging.dirSlot]
    omega

/-- What is in the frame does not matter for addresses with another table. -/
theorem EqualOff.translate (heq : EqualOff t m m') (h : Recursive m dir slot)
    (hne : dir / 2 ^ 12 ≠ t) (hnot : ¬ UsesTable m dir t (dirIndex v)) :
    translate m' dir v = translate m dir v := by
  obtain ⟨haligned, hlt⟩ := h.bounds
  apply translate_congr
  intro b hb
  have hword := hb.aligned haligned hlt
  rcases hb with rfl | ⟨hp, hl, rfl⟩
  · exact heq.dirSlot h hne (dirIndex_lt v)
  · have hframe : frame (m.load32 (Paging.dirSlot dir (dirIndex v))) ≠ t :=
      fun hframe => hnot ⟨hp, hl, hframe⟩
    have hindex := tableIndex_lt v
    apply heq.load32 hword
    simp only [tableSlot]
    omega

theorem EqualOff.usesTable_iff (heq : EqualOff t m m') (h : Recursive m dir slot)
    (hne : dir / 2 ^ 12 ≠ t) (hi : i < 2 ^ 10) :
    UsesTable m' dir t i ↔ UsesTable m dir t i := by
  rw [UsesTable, UsesTable, heq.dirSlot h hne hi]

theorem EqualOff.recursive (heq : EqualOff t m m') (h : Recursive m dir slot)
    (hne : dir / 2 ^ 12 ≠ t) : Recursive m' dir slot := by
  have hentry := heq.dirSlot h hne h.slot_lt
  constructor
  · exact h.slot_lt
  · rw [hentry]
    exact h.present
  · rw [hentry]
    exact h.small
  · rw [hentry]
    exact h.frame

end EqualOff

/-- The virtual address of an entry of the table in slot `i`. -/
def window (slot i j : Nat) : Nat := slot * 2 ^ 22 + i * 2 ^ 12 + 4 * j

section Window

variable {m : Mem} {dir slot i j : Nat}

theorem dirIndex_window (hslot : slot < 2 ^ 10) (hi : i < 2 ^ 10) (hj : j < 2 ^ 10) :
    dirIndex (window slot i j) = slot := by
  simp only [dirIndex, field, window]
  omega

theorem tableIndex_window (hi : i < 2 ^ 10) (hj : j < 2 ^ 10) :
    tableIndex (window slot i j) = i := by
  simp only [tableIndex, field, window]
  omega

/-- Through the window one sees the tables. -/
theorem translate_window (h : Recursive m dir slot) (hi : i < 2 ^ 10) (hj : j < 2 ^ 10)
    (hp : Present (m.load32 (dirSlot dir i))) :
    translate m dir (window slot i j) =
      some (tableSlot (frame (m.load32 (dirSlot dir i))) j) := by
  have hdir := dirIndex_window h.slot_lt hi hj
  -- the directory is its own table in this slot
  have htable : tableSlot (frame (m.load32 (dirSlot dir slot))) i = dirSlot dir i := by
    rw [tableSlot, h.frame, dirSlot]
  rw [translate, hdir, tableIndex_window hi hj]
  simp only [if_pos h.present, if_neg h.small, htable, if_pos hp]
  -- the offset in that page selects the word
  have hoffset : window slot i j % 2 ^ 12 = 4 * j := by
    simp only [window]
    omega
  rw [hoffset, tableSlot]

end Window

end ForStd.Paging
