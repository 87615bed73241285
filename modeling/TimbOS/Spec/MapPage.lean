import TimbOS.Spec.PageFault

/-!
# Mapping a page

`map_page` writes the table entry of a page through the window, and looks at neither the
directory entry nor the old table entry. Without a table the write faults, or it goes into a page
of 4 MiB. With one, the word that is written may be the entry of other pages too, and if the
table is the directory itself, the word is also an entry of the directory.

## Key results

- `mapPage_eq`: the word that is written
- `mapped_iff`: when a new table entry maps its page, and no other
- `map_page_iff`: exactly when a call does its work
- `map_page_no_table`: a page whose table does not exist
-/

namespace TimbOS.Native.Paging

open ForStd ForStd.Paging PageDirectory

/-- The entry that `map_page` writes. -/
def mapEntry (physicalAddr flags : Nat) : Nat := physicalAddr ||| (flags &&& 0xFFF) ||| 0x01

/-- The entry maps the page to the frame. -/
theorem mapEntry_spec {p : Nat} (flags : Nat) (hp : p < 2 ^ 32) (haligned : p % 2 ^ 12 = 0) :
    mapEntry p flags < 2 ^ 32 ∧ Present (mapEntry p flags) ∧
      frame (mapEntry p flags) * 2 ^ 12 = p := by
  have hlow : (flags &&& 0xFFF) ||| 0x01 < 2 ^ 12 :=
    Nat.or_lt_two_pow (by rw [and_fff]; exact Nat.mod_lt _ (by decide)) (by decide)
  have hodd : ((flags &&& 0xFFF) ||| 0x01) % 2 = 1 := by
    rw [Nat.mod_two_eq_one_iff_testBit_zero, Nat.testBit_or]
    exact Bool.or_true _
  -- the flags lie below the address
  have heq : mapEntry p flags = p + ((flags &&& 0xFFF) ||| 0x01) := by
    have hshift : p = (p / 2 ^ 12) <<< 12 := by
      rw [Nat.shiftLeft_eq]
      omega
    rw [mapEntry, Nat.or_assoc]
    conv_lhs => rw [hshift]
    rw [shiftLeft_or _ hlow]
    omega
  rw [heq]
  refine ⟨by omega, ?_, ?_⟩
  · simp only [Present, field]
    omega
  · simp only [frame, field]
    omega

section Call

variable {m : Mem} {entries p v flags : Nat}

/-- The address of the entry in the window, as `map_page` computes it. -/
theorem window_add {i j : Nat} : 0xFFC00000 + 4 * (0x400 * i) + 4 * j = window 0x3FF i j := by
  simp only [window]
  omega

/-- What is not aligned is not mapped. -/
theorem mapPage_unaligned (h : ¬ (p % 2 ^ 12 = 0 ∧ v % 2 ^ 12 = 0)) :
    mapPage m entries p v flags = some m := by
  rw [mapPage, and_fff, and_fff]
  by_cases hp : p % 2 ^ 12 = 0
  · have hv : v % 2 ^ 12 ≠ 0 := fun hv => h ⟨hp, hv⟩
    rw [if_neg (not_not.mpr hp), if_pos hv]
  · rw [if_pos hp]

/-- A call writes the entry of the page where the window shows it. -/
theorem mapPage_eq (hv : v < 2 ^ 32) (haligned : p % 2 ^ 12 = 0 ∧ v % 2 ^ 12 = 0) :
    mapPage m entries p v flags =
      vstore32 m entries (window 0x3FF (dirIndex v) (tableIndex v)) (mapEntry p flags) := by
  rw [mapPage, and_fff, and_fff, if_neg (not_not.mpr haligned.1),
    if_neg (not_not.mpr haligned.2)]
  simp only [dirIndex_of_shift hv, tableIndex_of_shift, window_add]
  rfl

end Call

/-! ## Who uses the entry -/

/-- The frame of the page `t` in the slot `d` of the directory. -/
def slotFrame (m : Mem) (entries d t : Nat) : Option Nat := pageFrame m (entry m entries d) t

/-- The page belongs to a page table. -/
def HasTable (m : Mem) (entries v : Nat) : Prop :=
  Present (entry m entries (dirIndex v)) ∧ ¬ Large (entry m entries (dirIndex v))

/-- The old table entry of the page has the frame of `z` already. -/
def AlreadyMaps (m : Mem) (entries v z : Nat) : Prop :=
  Present (m.load32 (pteSlot m entries v)) ∧ frame (m.load32 (pteSlot m entries v)) = frame z

/-- The other pages with this table entry, if there are any, do not get another frame. -/
def TablesAgree (m : Mem) (entries v z : Nat) : Prop :=
  ∀ d < 2 ^ 10, ∀ t < 2 ^ 10, ¬ (d = dirIndex v ∧ t = tableIndex v) →
    dirSlot entries d ≠ pteSlot m entries v →
    UsesSlot (entry m entries d) t (pteSlot m entries v) → AlreadyMaps m entries v z

/-- The word `z` can replace the table entry of the page. If the entry is one of the directory,
    all its pages keep their frames. -/
structure Replaces (m : Mem) (entries v z : Nat) : Prop where
  table : TablesAgree m entries v z
  directory : ∀ d < 2 ^ 10, dirSlot entries d = pteSlot m entries v → ∀ t < 2 ^ 10,
    pageFrame m z t = pageFrame m (m.load32 (pteSlot m entries v)) t

/-- The page at `v` stands for the one at `p` now, no other page has changed, and nothing but the
    table entry of the page was written. -/
structure Remapped (m m' : Mem) (entries p v : Nat) : Prop where
  page : ∀ k < 2 ^ 12, translate m' entries (v + k) = some (p + k)
  others : ∀ w < 2 ^ 32, w / 2 ^ 12 ≠ v / 2 ^ 12 → translate m' entries w = translate m entries w
  table : HasTable m entries v
  kept : ∀ b, ¬ Mem.InWord (pteSlot m entries v) b → m'.load8 b = m.load8 b

section Pages

variable {m m' : Mem} {entries p v z d t : Nat}

/-- The page at `v` in terms of its frame. -/
theorem page_iff (hv : v % 2 ^ 12 = 0) (hp : p % 2 ^ 12 = 0) :
    (∀ k < 2 ^ 12, translate m entries (v + k) = some (p + k)) ↔
      slotFrame m entries (dirIndex v) (tableIndex v) = some (p / 2 ^ 12) := by
  have htranslate : ∀ w, translate m entries w =
      (slotFrame m entries (dirIndex w) (tableIndex w)).map fun f => f * 2 ^ 12 + w % 2 ^ 12 :=
    translate_eq_pageFrame m entries
  constructor
  · intro h
    -- the first address of the page says which frame it is
    have hfirst := h 0 (by decide)
    rw [Nat.add_zero, Nat.add_zero, htranslate, Option.map_eq_some_iff] at hfirst
    obtain ⟨f, hf, heq⟩ := hfirst
    rw [hf]
    congr 1
    omega
  · intro h k hk
    have hdir : dirIndex (v + k) = dirIndex v := by
      simp only [dirIndex, field]
      omega
    have htable : tableIndex (v + k) = tableIndex v := by
      simp only [tableIndex, field]
      omega
    rw [htranslate, hdir, htable, h, Option.map_some, Option.some.injEq]
    omega

/-- All other pages in terms of their frames. -/
theorem others_iff (hv : v < 2 ^ 32) :
    (∀ w < 2 ^ 32, w / 2 ^ 12 ≠ v / 2 ^ 12 → translate m' entries w = translate m entries w) ↔
      ∀ d < 2 ^ 10, ∀ t < 2 ^ 10, ¬ (d = dirIndex v ∧ t = tableIndex v) →
        slotFrame m' entries d t = slotFrame m entries d t := by
  constructor
  · intro h d hd t ht hne
    -- the first address of the page `t` in the slot `d`
    have hdir : dirIndex (d * 2 ^ 22 + t * 2 ^ 12) = d := dirIndex_eq hd (by omega)
    have htable : tableIndex (d * 2 ^ 22 + t * 2 ^ 12 + 0) = t := tableIndex_eq ht (by decide)
    have hpage := translate_eq_iff.mp (h (d * 2 ^ 22 + t * 2 ^ 12) (by omega) (by
      simp only [dirIndex, tableIndex, field] at hne
      omega))
    rw [Nat.add_zero] at htable
    rw [hdir, htable] at hpage
    exact hpage
  · intro h w hw hne
    apply translate_eq_iff.mpr
    apply h _ (dirIndex_lt w) _ (tableIndex_lt w)
    simp only [dirIndex, tableIndex, field]
    omega

theorem usesSlot_self (h : HasTable m entries v) :
    UsesSlot (entry m entries (dirIndex v)) (tableIndex v) (pteSlot m entries v) :=
  ⟨h.1, h.2, rfl⟩

/-- The directory is the table of the last slot, so that its entries are table entries. -/
theorem usesSlot_window (h : Recursive m entries 0x3FF)
    (hslot : dirSlot entries d = pteSlot m entries v) :
    UsesSlot (entry m entries 0x3FF) d (pteSlot m entries v) := by
  refine ⟨h.present, h.small, ?_⟩
  have hframe : frame (entry m entries 0x3FF) * 2 ^ 12 = entries := h.frame
  rw [tableSlot, hframe, ← hslot, dirSlot]

theorem entry_store_same (hz : z < 2 ^ 32) (hslot : dirSlot entries d = pteSlot m entries v) :
    entry (m.store32 (pteSlot m entries v) z) entries d = z := by
  rw [← hslot]
  exact (Mem.load32_store32_same m _ z).trans (Nat.mod_eq_of_lt hz)

theorem entry_store_ne (h : Recursive m entries 0x3FF) (hd : d < 2 ^ 10)
    (hslot : dirSlot entries d ≠ pteSlot m entries v) :
    entry (m.store32 (pteSlot m entries v) z) entries d = entry m entries d := by
  obtain ⟨haligned, hlt⟩ := h.bounds
  have hword : dirSlot entries d % 4 = 0 ∧ dirSlot entries d + 4 ≤ 2 ^ 32 := by
    simp only [dirSlot]
    omega
  exact load32_store32_aligned m z (pteSlot_aligned m entries v) hword hslot

/-- If the entry is one of the directory, then the page of the window that shows it has it, too. -/
theorem TablesAgree.alreadyMaps (h : Recursive m entries 0x3FF) (hout : dirIndex v ≠ 0x3FF)
    (htables : TablesAgree m entries v z) (hd : d < 2 ^ 10)
    (hslot : dirSlot entries d = pteSlot m entries v) (hne : d ≠ 0x3FF) :
    AlreadyMaps m entries v z := by
  refine htables 0x3FF (by decide) d hd (fun hv => hout hv.1.symm) ?_ (usesSlot_window h hslot)
  rw [← hslot, dirSlot, dirSlot]
  omega

/-- The new entry of the directory finds the same frames in its table as before the store. -/
theorem pageFrame_directory (h : Recursive m entries 0x3FF) (hout : dirIndex v ≠ 0x3FF)
    (hz : z < 2 ^ 32) (hpresent : Present z) (htables : TablesAgree m entries v z) (hd : d < 2 ^ 10)
    (hslot : dirSlot entries d = pteSlot m entries v) (ht : t < 2 ^ 10) :
    pageFrame (m.store32 (pteSlot m entries v) z) z t = pageFrame m z t := by
  by_cases huses : UsesSlot z t (pteSlot m entries v)
  · obtain ⟨hold, hframe⟩ : AlreadyMaps m entries v z := by
      by_cases hne : d = 0x3FF
      · -- the recursive slot, which has the frame of the directory
        subst hne
        have hframe := h.frame
        obtain ⟨haligned, -⟩ := h.bounds
        obtain ⟨-, -, htable⟩ := huses
        rw [AlreadyMaps]
        rw [← hslot] at htable ⊢
        refine ⟨h.present, ?_⟩
        simp only [tableSlot, dirSlot] at htable hframe ⊢
        omega
      · exact htables.alreadyMaps h hout hd hslot hne
    rw [pageFrame_store_usesSlot hz hpresent huses, pageFrame_of_usesSlot huses, if_pos hold,
      hframe]
  · exact pageFrame_store_of_not ht (pteSlot_aligned m entries v) huses

/-- If the other pages keep their frames, those with the same table entry have the new one. -/
theorem tablesAgree_of_others (h : Recursive m entries 0x3FF) (hz : z < 2 ^ 32)
    (hpresent : Present z)
    (hothers : ∀ d < 2 ^ 10, ∀ t < 2 ^ 10, ¬ (d = dirIndex v ∧ t = tableIndex v) →
      slotFrame (m.store32 (pteSlot m entries v) z) entries d t = slotFrame m entries d t) :
    TablesAgree m entries v z := by
  intro d hd t ht hne hslot huses
  have heq := hothers d hd t ht hne
  rw [slotFrame, entry_store_ne h hd hslot, pageFrame_store_usesSlot hz hpresent huses,
    slotFrame, pageFrame_of_usesSlot huses] at heq
  split at heq
  · rename_i hold
    exact ⟨hold, (Option.some.inj heq).symm⟩
  · cases heq

/-- A new table entry maps its page to its frame, and no other page differently, exactly if it
    can replace the old one. -/
theorem mapped_iff (h : Recursive m entries 0x3FF) (htable : HasTable m entries v)
    (hout : dirIndex v ≠ 0x3FF) (hz : z < 2 ^ 32) (hpresent : Present z) :
    (slotFrame (m.store32 (pteSlot m entries v) z) entries (dirIndex v) (tableIndex v) =
        some (frame z) ∧
      ∀ d < 2 ^ 10, ∀ t < 2 ^ 10, ¬ (d = dirIndex v ∧ t = tableIndex v) →
        slotFrame (m.store32 (pteSlot m entries v) z) entries d t = slotFrame m entries d t) ↔
      Replaces m entries v z := by
  have hself := usesSlot_self htable
  have hdir := dirIndex_lt v
  have htab := tableIndex_lt v
  constructor
  · rintro ⟨hpage, hothers⟩
    have htables := tablesAgree_of_others h hz hpresent hothers
    refine ⟨htables, ?_⟩
    intro d hd hslot t ht
    have hkeep := pageFrame_directory h hout hz hpresent htables hd hslot ht
    by_cases hv : d = dirIndex v ∧ t = tableIndex v
    · -- the page goes through the entry that is its own table entry
      obtain ⟨rfl, rfl⟩ := hv
      obtain ⟨hold, hframe⟩ := htables.alreadyMaps h hout hd hslot hout
      rw [slotFrame, entry_store_same hz hslot, hkeep] at hpage
      have hbefore := pageFrame_of_usesSlot (m := m) hself
      rw [if_pos hold, hframe] at hbefore
      rw [hpage, ← hbefore, ← hslot]
      rfl
    · -- any other page of the slot keeps its frame, by assumption
      have heq := hothers d hd t ht hv
      rw [slotFrame, entry_store_same hz hslot, hkeep] at heq
      rw [heq, ← hslot]
      rfl
  · rintro ⟨htables, hdirectory⟩
    -- below an entry of the directory that has changed, all frames are as before
    have hchanged : ∀ d < 2 ^ 10, ∀ t < 2 ^ 10, dirSlot entries d = pteSlot m entries v →
        slotFrame (m.store32 (pteSlot m entries v) z) entries d t = slotFrame m entries d t := by
      intro d hd t ht hslot
      rw [slotFrame, entry_store_same hz hslot,
        pageFrame_directory h hout hz hpresent htables hd hslot ht, hdirectory d hd hslot t ht,
        ← hslot]
      rfl
    constructor
    · by_cases hslot : dirSlot entries (dirIndex v) = pteSlot m entries v
      · -- the path to the entry goes through the entry itself
        obtain ⟨hold, hframe⟩ := htables.alreadyMaps h hout hdir hslot hout
        rw [hchanged _ hdir _ htab hslot, slotFrame, pageFrame_of_usesSlot hself, if_pos hold,
          hframe]
      · rw [slotFrame, entry_store_ne h hdir hslot, pageFrame_store_usesSlot hz hpresent hself]
    · intro d hd t ht hne
      by_cases hslot : dirSlot entries d = pteSlot m entries v
      · exact hchanged d hd t ht hslot
      · rw [slotFrame, slotFrame, entry_store_ne h hd hslot]
        by_cases huses : UsesSlot (entry m entries d) t (pteSlot m entries v)
        · -- a page that shares the table entry had this frame before
          obtain ⟨hold, hframe⟩ := htables d hd t ht hne hslot huses
          rw [pageFrame_store_usesSlot hz hpresent huses, pageFrame_of_usesSlot huses,
            if_pos hold, hframe]
        · exact pageFrame_store_of_not ht (pteSlot_aligned m entries v) huses

end Pages

/-! ## When a call does its work -/

/-- What a call should do: map an aligned page outside the window, and nothing for arguments that
    are not aligned. -/
def MapsPage (m : Mem) (entries p v flags : Nat) : Prop :=
  (p % 2 ^ 12 = 0 ∧ v % 2 ^ 12 = 0 → dirIndex v ≠ 0x3FF →
    ∃ m', mapPage m entries p v flags = some m' ∧ Remapped m m' entries p v) ∧
  (¬ (p % 2 ^ 12 = 0 ∧ v % 2 ^ 12 = 0) → mapPage m entries p v flags = some m)

/-- A call does its work exactly if the page has a table, and the entry written can replace the
    one there. -/
theorem map_page_iff (m : Mem) (entries p v flags : Nat) (hp : p < 2 ^ 32) (hv : v < 2 ^ 32)
    (h : Recursive m entries 0x3FF) :
    MapsPage m entries p v flags ↔
      (p % 2 ^ 12 = 0 ∧ v % 2 ^ 12 = 0 → dirIndex v ≠ 0x3FF →
        HasTable m entries v ∧ Replaces m entries v (mapEntry p flags)) := by
  rw [MapsPage, and_iff_left mapPage_unaligned]
  refine forall₂_congr fun haligned hout => ?_
  obtain ⟨hz, hpresent, hframe⟩ := mapEntry_spec flags hp haligned.1
  have hnumber : p / 2 ^ 12 = frame (mapEntry p flags) := by omega
  -- with a table, the write goes to the entry of the page
  have hwrite : HasTable m entries v → mapPage m entries p v flags =
      some (m.store32 (pteSlot m entries v) (mapEntry p flags)) := by
    intro htable
    rw [mapPage_eq hv haligned, vstore32,
      translate_window h (dirIndex_lt v) (tableIndex_lt v) htable.1]
    rfl
  constructor
  · rintro ⟨m', hrun, hmapped⟩
    -- a word that is the page's table entry can only be written if there is a table
    have htable := hmapped.table
    rw [hwrite htable] at hrun
    cases hrun
    refine ⟨htable, (mapped_iff h htable hout hz hpresent).mp ⟨?_, ?_⟩⟩
    · rw [← hnumber]
      exact (page_iff haligned.2 haligned.1).mp hmapped.page
    · exact (others_iff hv).mp hmapped.others
  · rintro ⟨htable, hreplaces⟩
    obtain ⟨hpage, hothers⟩ := (mapped_iff h htable hout hz hpresent).mpr hreplaces
    rw [← hnumber] at hpage
    refine ⟨_, hwrite htable, (page_iff haligned.2 haligned.1).mpr hpage,
      (others_iff hv).mpr hothers, htable, ?_⟩
    intro b hb
    exact Mem.load8_store32_of_not_inWord m _ hb

/-! ## A table at `0x2000` -/

/-- The directory has no other entries than the table and itself. -/
theorem demandMemory_entry {d : Nat} (hd : d < 2 ^ 10)
    (hp : Present (entry demandMemory 0x1000 d)) : d = 0 ∨ d = 0x3FF := by
  by_contra hne
  have hzero : entry demandMemory 0x1000 d = 0 := by
    rw [entry, demandMemory, emptyDirectory, Mem.load32_store32_sep _ _ (by omega),
      Mem.load32_store32_sep _ _ (by omega), Mem.load32_store32_sep _ _ (by omega)]
    rfl
  rw [hzero] at hp
  exact absurd hp (by decide)

/-- The page at `0x5000` can be mapped. -/
theorem map_page_table : MapsPage demandMemory 0x1000 0x3000 0x5000 0x2 := by
  refine (map_page_iff demandMemory 0x1000 0x3000 0x5000 0x2 (by decide) (by decide)
    demandMemory_recursive).mpr fun _ _ => ⟨⟨by decide, by decide⟩, ?_, ?_⟩
  · intro d hd t ht hne hslot huses
    -- only the page itself has its entry at `0x2014`
    obtain ⟨hp, -, htable⟩ := huses
    rw [show pteSlot demandMemory 0x1000 0x5000 = 0x2014 by decide] at htable
    rcases demandMemory_entry hd hp with rfl | rfl
    · rw [show frame (entry demandMemory 0x1000 0) = 2 by decide, tableSlot] at htable
      exact absurd ⟨by decide, show t = 5 by omega⟩ hne
    · rw [show frame (entry demandMemory 0x1000 0x3FF) = 1 by decide, tableSlot] at htable
      omega
  · intro d hd hslot
    rw [show pteSlot demandMemory 0x1000 0x5000 = 0x2014 by decide, dirSlot] at hslot
    omega

/-- Without a table the call faults. -/
theorem map_page_no_table : ¬ ∀ m entries p v flags, p < 2 ^ 32 → v < 2 ^ 32 →
    Recursive m entries 0x3FF → MapsPage m entries p v flags := by
  intro hclaim
  have hmaps := hclaim emptyDirectory 0x1000 0x3000 0x5000 0x2 (by decide) (by decide)
    emptyDirectory_recursive
  obtain ⟨htable, -⟩ := (map_page_iff emptyDirectory 0x1000 0x3000 0x5000 0x2 (by decide)
    (by decide) emptyDirectory_recursive).mp hmaps ⟨by decide, by decide⟩ (by decide)
  exact absurd htable.1 (by decide)

end TimbOS.Native.Paging
