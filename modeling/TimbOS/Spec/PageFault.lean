import TimbOS.Native.Paging
import TimbOS.Spec.PageWalk
import TimbOS.Spec.PhysicalPage

/-!
# Page faults

A page whose table entry has the reserved flag gets a page frame when it is touched for the
first time. The handler changes the one entry through the window on the page tables. It takes
whatever `alloc_himem` returns for a frame, so with no frame left the page is mapped to frame
0, which belongs to somebody else.

## Key results

- `modifyPte_eq`: a change of an entry through the window
- `handle_demand`, `handle_other`: what the handler does in each case
- `others_unchanged_iff`: whose translations change with the entry
- `page_fault_iff`: exactly when the handler does its work
- `page_fault_no_memory`: a fault with no frame left
-/

namespace TimbOS.Native.Paging

open ForStd ForStd.Paging PageDirectory Physical

/-! ## The entry of a page -/

/-- Where the table entry of a page is. -/
def pteSlot (m : Mem) (entries v : Nat) : Nat :=
  tableSlot (frame (entry m entries (dirIndex v))) (tableIndex v)

/-- What the handler makes of an entry. -/
def demandEntry (e physAddr : Nat) : Nat :=
  PageTableEntry.setPresent (PageTableEntry.setReservedFlag
    (PageTableEntry.setPageAddr e (physAddr >>> pageShift)) 0) 1

theorem pteSlot_aligned (m : Mem) (entries v : Nat) :
    pteSlot m entries v % 4 = 0 ∧ pteSlot m entries v + 4 ≤ 2 ^ 32 := by
  have hframe := frame_lt (entry m entries (dirIndex v))
  have htable := tableIndex_lt v
  simp only [pteSlot, tableSlot]
  omega

/-- The entry maps the page to the frame, and the bit for large pages stays as it was. -/
theorem demandEntry_spec {e a : Nat} (he : e < 2 ^ 32) (ha : a % pageSize = 0)
    (hlt : a < 2 ^ 32) :
    demandEntry e a < 2 ^ 32 ∧ Present (demandEntry e a) ∧
      PageTableEntry.reservedFlag (demandEntry e a) = 0 ∧ frame (demandEntry e a) * 2 ^ 12 = a ∧
      (Large (demandEntry e a) ↔ Large e) := by
  simp only [demandEntry, PageTableEntry.setPresent, PageTableEntry.setReservedFlag,
    PageTableEntry.setPageAddr]
  refine ⟨?_, ?_, ?_, ?_, ?_⟩
  · exact setField_lt _ _ (setField_lt _ _ (setField_lt _ _ he (by decide)) (by decide))
      (by decide)
  · rw [Present, field_setField_same]
    decide
  · rw [PageTableEntry.reservedFlag, field_setField_above _ _ (by decide), field_setField_same]
    decide
  · rw [frame, field_setField_above _ _ (by decide), field_setField_above _ _ (by decide),
      field_setField_same, Nat.shiftRight_eq_div_pow]
    simp only [pageSize, pageShift] at ha ⊢
    omega
  · rw [Large, field_setField_above _ _ (by decide), field_setField_below _ _ (by decide),
      field_setField_below _ _ (by decide), Large]

section Window

variable {m : Mem} {entries v : Nat}

/-- The address of the entry in the window, as the handler puts it together. -/
theorem window_or {i j : Nat} (hi : i < 2 ^ 10) (hj : j < 2 ^ 10) :
    0xFFC00000 ||| (i <<< 12) ||| (j <<< 2) = window 0x3FF i j := by
  -- the recursive slot, the table and the entry do not overlap
  have hbase : (0xFFC00000 : Nat) = 0x3FF <<< 22 := by decide
  have hhigh : (0x3FF <<< 22) ||| (i <<< 12) = (0x3FF * 2 ^ 10 + i) <<< 12 := by
    rw [shiftLeft_or _ (by rw [Nat.shiftLeft_eq]; omega), Nat.shiftLeft_eq, Nat.shiftLeft_eq]
    omega
  rw [hbase, hhigh, shiftLeft_or _ (by rw [Nat.shiftLeft_eq]; omega), Nat.shiftLeft_eq, window]
  omega

theorem translate_pte (h : Recursive m entries 0x3FF)
    (hp : Present (entry m entries (dirIndex v))) :
    translate m entries (0xFFC00000 ||| (dirIndex v <<< 12) ||| (tableIndex v <<< 2)) =
      some (pteSlot m entries v) := by
  rw [window_or (dirIndex_lt v) (tableIndex_lt v),
    translate_window h (dirIndex_lt v) (tableIndex_lt v) hp]
  rfl

/-- A change of an entry through the window. -/
theorem modifyPte_eq (h : Recursive m entries 0x3FF)
    (hp : Present (entry m entries (dirIndex v))) (f : Nat → Nat) :
    modifyPte m entries (0xFFC00000 ||| (dirIndex v <<< 12) ||| (tableIndex v <<< 2)) f =
      some (m.store32 (pteSlot m entries v) (f (m.load32 (pteSlot m entries v)))) := by
  simp only [modifyPte, vload32, vstore32, translate_pte h hp, Option.map_some, bind,
    Option.bind_some]

/-- A store to the entry of an absent page keeps the path to it. -/
theorem entry_store (h : Recursive m entries 0x3FF)
    (habsent : ¬ Present (m.load32 (pteSlot m entries v))) (y : Nat) {i : Nat} (hi : i < 2 ^ 10)
    (hp : Present (entry m entries i)) :
    entry (m.store32 (pteSlot m entries v) y) entries i = entry m entries i := by
  obtain ⟨haligned, hlt⟩ := h.bounds
  exact dirEntry_fill haligned hlt (pteSlot_aligned m entries v) habsent hi hp

theorem pteSlot_store (h : Recursive m entries 0x3FF)
    (hp : Present (entry m entries (dirIndex v)))
    (habsent : ¬ Present (m.load32 (pteSlot m entries v))) (y : Nat) :
    pteSlot (m.store32 (pteSlot m entries v) y) entries v = pteSlot m entries v := by
  rw [pteSlot, entry_store h habsent y (dirIndex_lt v) hp, pteSlot]

theorem recursive_store (h : Recursive m entries 0x3FF)
    (habsent : ¬ Present (m.load32 (pteSlot m entries v))) (y : Nat) :
    Recursive (m.store32 (pteSlot m entries v) y) entries 0x3FF := by
  apply h.store32 y (pteSlot_aligned m entries v)
  intro heq
  rw [← heq] at habsent
  exact habsent h.present

/-- One change after the other. -/
theorem modifyPte_store (h : Recursive m entries 0x3FF)
    (hp : Present (entry m entries (dirIndex v)))
    (habsent : ¬ Present (m.load32 (pteSlot m entries v))) {y : Nat} (hy : y < 2 ^ 32)
    (f : Nat → Nat) :
    modifyPte (m.store32 (pteSlot m entries v) y) entries
        (0xFFC00000 ||| (dirIndex v <<< 12) ||| (tableIndex v <<< 2)) f =
      some (m.store32 (pteSlot m entries v) (f y)) := by
  have hentry := entry_store h habsent y (dirIndex_lt v) hp
  rw [modifyPte_eq (recursive_store h habsent y) (by rw [hentry]; exact hp),
    pteSlot_store h hp habsent, Mem.load32_store32_same, Nat.mod_eq_of_lt hy,
    Mem.store32_store32_same]

end Window

/-! ## The handler -/

/-- The page was reserved and is touched for the first time. -/
structure Demand (k : Kernel) (entries errCode v : Nat) : Prop where
  reservedViolation : errCode &&& 0x8 = 0
  protectionViolation : errCode &&& 0x1 = 0
  present : Present (entry k.mem entries (dirIndex v))
  small : ¬ Large (entry k.mem entries (dirIndex v))
  reserved : PageTableEntry.reservedFlag (k.mem.load32 (pteSlot k.mem entries v)) ≠ 0

section Handler

variable {k : Kernel} {entries errCode v : Nat}

theorem enable4m_eq_zero (e : Nat) : PageDirEntry.enable4m e = 0 ↔ ¬ Large e := by
  rw [← enable4m_ne_zero, not_not]

/-- The processor reports a page that is not present. -/
theorem absent_of_fault (hp : Present (entry k.mem entries (dirIndex v)))
    (hl : ¬ Large (entry k.mem entries (dirIndex v)))
    (hfault : translate k.mem entries v = none) :
    ¬ Present (k.mem.load32 (pteSlot k.mem entries v)) := by
  intro hpte
  rw [translate_small hp hl] at hfault
  simp only at hfault
  split at hfault
  · exact nomatch hfault
  · rename_i hno
    exact hno hpte

/-- The frame goes into the entry, whatever the allocation has returned. -/
theorem handle_demand (hv : v < 2 ^ 32) (h : Recursive k.mem entries 0x3FF)
    (habsent : ¬ Present (k.mem.load32 (pteSlot k.mem entries v)))
    (hd : Demand k entries errCode v) {a : Nat} {s : State}
    (halloc : k.physical.allocHimem 1 1 = some (a, s)) :
    pagingHandleFault k entries errCode v =
      some (true, ⟨k.mem.store32 (pteSlot k.mem entries v)
        (demandEntry (k.mem.load32 (pteSlot k.mem entries v)) a), s⟩) := by
  have hentry : k.mem.load32 (pteSlot k.mem entries v) < 2 ^ 32 := Mem.load32_lt _ _
  have hfirst : PageTableEntry.setPageAddr (k.mem.load32 (pteSlot k.mem entries v))
      (a >>> pageShift) < 2 ^ 32 := setField_lt _ _ hentry (by decide)
  have hsecond : PageTableEntry.setReservedFlag (PageTableEntry.setPageAddr
      (k.mem.load32 (pteSlot k.mem entries v)) (a >>> pageShift)) 0 < 2 ^ 32 :=
    setField_lt _ _ hfirst (by decide)
  simp only [pagingHandleFault, hd.reservedViolation, hd.protectionViolation,
    dirIndex_of_shift hv, tableIndex_of_shift, present_ne_zero, enable4m_eq_zero,
    if_pos hd.present, if_pos hd.small, ne_eq, not_true_eq_false, if_false]
  -- the read of the flag, the allocation, and the three changes of the entry
  simp only [vload32, translate_pte h hd.present, Option.map_some, bind, Option.bind_some,
    if_pos hd.reserved, allocPagesHimem, halloc, modifyPte_eq h hd.present,
    modifyPte_store h hd.present habsent hfirst, modifyPte_store h hd.present habsent hsecond]
  rfl

/-- In all other cases nothing happens. -/
theorem handle_other (hv : v < 2 ^ 32) (h : Recursive k.mem entries 0x3FF)
    (hd : ¬ Demand k entries errCode v) :
    pagingHandleFault k entries errCode v = some (false, k) := by
  simp only [pagingHandleFault, dirIndex_of_shift hv, tableIndex_of_shift, present_ne_zero,
    enable4m_eq_zero]
  by_cases hreserved : errCode &&& 0x8 = 0
  · rw [if_neg (not_not.mpr hreserved)]
    by_cases hprotection : errCode &&& 0x1 = 0
    · rw [if_neg (not_not.mpr hprotection)]
      by_cases hp : Present (entry k.mem entries (dirIndex v))
      · rw [if_pos hp]
        by_cases hl : Large (entry k.mem entries (dirIndex v))
        · rw [if_neg (not_not.mpr hl)]
        · have hflag : ¬ PageTableEntry.reservedFlag
              (k.mem.load32 (pteSlot k.mem entries v)) ≠ 0 :=
            fun hflag => hd ⟨hreserved, hprotection, hp, hl, hflag⟩
          rw [if_pos hl]
          simp only [vload32, translate_pte h hp, Option.map_some, bind, Option.bind_some,
            if_neg hflag]
          rfl
      · rw [if_neg hp]
    · rw [if_pos hprotection]
  · rw [if_pos hreserved]

end Handler

/-! ## Whose translations change -/

/-- The entry belongs to this page alone. No other page has it for its table entry. If it is an
    entry of the directory, because the page is a page table in the window, then not for a large
    page, and the frame at `a` has no entries as a table. -/
structure OwnEntry (m : Mem) (entries v a : Nat) : Prop where
  table : ∀ w < 2 ^ 32, w / 2 ^ 12 ≠ v / 2 ^ 12 → Present (entry m entries (dirIndex w)) →
    ¬ Large (entry m entries (dirIndex w)) → pteSlot m entries w ≠ pteSlot m entries v
  small : ∀ i < 2 ^ 10, dirSlot entries i = pteSlot m entries v →
    ¬ Large (m.load32 (pteSlot m entries v))
  empty : ∀ i < 2 ^ 10, dirSlot entries i = pteSlot m entries v →
    ∀ j < 2 ^ 10, a + 4 * j ≠ dirSlot entries i ∧ ¬ Present (m.load32 (a + 4 * j))

section Others

variable {m : Mem} {entries v z : Nat}

/-- If the entry is one of the directory, nothing is mapped through it before, and the page
    itself is mapped through another one. -/
theorem translate_dirSlot (hp : Present (entry m entries (dirIndex v)))
    (habsent : ¬ Present (m.load32 (pteSlot m entries v))) {i r : Nat} (hi : i < 2 ^ 10)
    (hslot : dirSlot entries i = pteSlot m entries v) (hr : r < 2 ^ 22) :
    translate m entries (i * 2 ^ 22 + r) = none ∧ (i * 2 ^ 22 + r) / 2 ^ 12 ≠ v / 2 ^ 12 := by
  constructor
  · apply translate_absent
    rw [dirIndex_eq hi hr, hslot]
    exact habsent
  · intro heq
    have hdir : dirIndex v = i := by
      simp only [dirIndex, field]
      omega
    rw [hdir] at hp
    rw [← hslot] at habsent
    exact habsent hp

/-- Exactly when the change of the entry leaves all other pages alone. -/
theorem others_unchanged_iff (h : Recursive m entries 0x3FF)
    (hp : Present (entry m entries (dirIndex v)))
    (habsent : ¬ Present (m.load32 (pteSlot m entries v))) (hword : z < 2 ^ 32) (hz : Present z)
    (hlarge : Large z ↔ Large (m.load32 (pteSlot m entries v))) :
    (∀ w < 2 ^ 32, w / 2 ^ 12 ≠ v / 2 ^ 12 →
        translate (m.store32 (pteSlot m entries v) z) entries w = translate m entries w) ↔
      OwnEntry m entries v (frame z * 2 ^ 12) := by
  obtain ⟨haligned, hlt⟩ := h.bounds
  have hpte := pteSlot_aligned m entries v
  constructor
  · intro hothers
    -- the pages below a directory entry that is not present are other pages
    have hdirPage : ∀ {i r}, i < 2 ^ 10 → dirSlot entries i = pteSlot m entries v → r < 2 ^ 22 →
        translate (m.store32 (pteSlot m entries v) z) entries (i * 2 ^ 22 + r) = none := by
      intro i r hi hslot hr
      obtain ⟨hnone, hne⟩ := translate_dirSlot hp habsent hi hslot hr
      rw [hothers _ (by omega) hne, hnone]
    have hsmall : ∀ i < 2 ^ 10, dirSlot entries i = pteSlot m entries v → ¬ Large z := by
      intro i hi hslot hl
      have hnone := hdirPage hi hslot (r := 0) (by decide)
      rw [translate_fill_large hword hz hl
        (by rw [dirIndex_eq hi (by decide)]; exact hslot)] at hnone
      exact nomatch hnone
    refine ⟨?_, ?_, ?_⟩
    · intro w hw hne hpw hlw hsame
      have hbefore : translate m entries w = none := by
        rw [translate_small hpw hlw]
        apply if_neg
        rw [← hsame] at habsent
        exact habsent
      have hafter := translate_fill_table haligned hlt hpte habsent hword hz hpw hlw hsame
      rw [hothers w hw hne, hbefore] at hafter
      exact nomatch hafter
    · intro i hi hslot hl
      exact hsmall i hi hslot (hlarge.mpr hl)
    · intro i hi hslot j hj
      -- the page of the entry `j` of the new table
      have hnone := hdirPage hi hslot (r := j * 2 ^ 12) (by omega)
      have hdir : dirIndex (i * 2 ^ 22 + j * 2 ^ 12) = i := dirIndex_eq hi (by omega)
      have htable := tableIndex_eq (i := i) (o := 0) hj (by decide)
      rw [Nat.add_zero] at htable
      rw [translate_fill_dir hword hz (hsmall i hi hslot) (by rw [hdir]; exact hslot), htable,
        tableSlot] at hnone
      have hne : frame z * 2 ^ 12 + 4 * j ≠ dirSlot entries i := by
        intro heq
        rw [heq, hslot, Mem.load32_store32_same, Nat.mod_eq_of_lt hword] at hnone
        exact hnone hz
      have hframe := frame_lt z
      rw [load32_store32_aligned m z hpte (by omega) (by rw [← hslot]; exact hne)] at hnone
      exact ⟨hne, hnone⟩
  · intro hown w hw hne
    by_cases hreads : Reads m entries w (pteSlot m entries v)
    · rcases hreads with hslot | ⟨hpw, hlw, hslot⟩
      · have hl : ¬ Large z := by
          rw [hlarge]
          exact hown.small _ (dirIndex_lt w) hslot.symm
        have hbefore : translate m entries w = none := by
          apply translate_absent
          rw [← hslot]
          exact habsent
        obtain ⟨hneq, hempty⟩ :=
          hown.empty _ (dirIndex_lt w) hslot.symm (tableIndex w) (tableIndex_lt w)
        have hframe := frame_lt z
        have htable := tableIndex_lt w
        rw [hbefore, translate_fill_dir hword hz hl hslot.symm, tableSlot,
          load32_store32_aligned m z hpte (by omega) (by rw [hslot]; exact hneq)]
        exact hempty
      · exact absurd hslot.symm (hown.table w hw hne hpw hlw)
    · exact translate_of_not_reads z haligned hlt hpte hreads

end Others

/-! ## When the handler does its work -/

/-- The page at `v` has got a frame that was free, and nothing else is translated
    differently. -/
structure Handled (k k' : Kernel) (entries v : Nat) : Prop where
  mapped : ∃ p idx, idx < k.physical.numPageframes p ∧ k.physical.status p idx = 0 ∧
    k'.physical.status p idx = 1 ∧ ∀ w, w / 2 ^ 12 = v / 2 ^ 12 →
      translate k'.mem entries w = some ((k.physical.pool p).frameStart idx + w % 2 ^ 12)
  reserved : PageTableEntry.reservedFlag (k'.mem.load32 (pteSlot k'.mem entries v)) = 0
  others : ∀ w < 2 ^ 32, w / 2 ^ 12 ≠ v / 2 ^ 12 →
    translate k'.mem entries w = translate k.mem entries w

/-- What a call should do. -/
def Correct (k : Kernel) (entries errCode v : Nat) : Prop :=
  ∃ handled k', pagingHandleFault k entries errCode v = some (handled, k') ∧
    (handled = true → Handled k k' entries v) ∧ (handled = false → k' = k)

section Correct

variable {k : Kernel} {entries errCode v : Nat}

/-- With a free frame, only other pages can go wrong. -/
theorem handled_iff (h : Recursive k.mem entries 0x3FF) (hready : PoolsReady k.physical)
    (hd : Demand k entries errCode v)
    (habsent : ¬ Present (k.mem.load32 (pteSlot k.mem entries v))) {p : PoolId} {idx : Nat}
    (hnext : k.physical.Next p idx PoolId.hiMemPool.chain) :
    Handled k ⟨k.mem.store32 (pteSlot k.mem entries v)
        (demandEntry (k.mem.load32 (pteSlot k.mem entries v)) (k.physical.takeRun p 1 idx).1),
        (k.physical.takeRun p 1 idx).2⟩ entries v ↔
      OwnEntry k.mem entries v ((k.physical.pool p).frameStart idx) := by
  obtain ⟨haligned, hlt⟩ := h.bounds
  obtain ⟨hidx, hfree⟩ := hready.next_free hnext
  obtain ⟨haddr, hstatus⟩ := hready.takeRun_one hidx
  obtain ⟨hpage, hbound⟩ := hready.frameStart_aligned hidx
  obtain ⟨hword, hpresent, hflag, hframe, hlarge⟩ :=
    demandEntry_spec (Mem.load32_lt k.mem (pteSlot k.mem entries v)) hpage hbound
  have hothers := others_unchanged_iff h hd.present habsent hword hpresent hlarge
  rw [hframe] at hothers
  rw [haddr]
  constructor
  · intro hhandled
    exact hothers.mp hhandled.others
  · intro hown
    refine ⟨⟨p, idx, hidx, hfree, hstatus, ?_⟩, ?_, hothers.mpr hown⟩
    · intro w hsame
      -- addresses of one page have the same indices
      have hdir : dirIndex w = dirIndex v := by
        simp only [dirIndex, field]
        omega
      have htable : tableIndex w = tableIndex v := by
        simp only [tableIndex, field]
        omega
      have hpage := translate_fill_table (v := w) haligned hlt
        (pteSlot_aligned k.mem entries v) habsent hword hpresent (by rw [hdir]; exact hd.present)
        (by rw [hdir]; exact hd.small) (by rw [hdir, htable]; rfl)
      rw [hframe] at hpage
      exact hpage
    · simp only
      rw [pteSlot_store h hd.present habsent, Mem.load32_store32_same, Nat.mod_eq_of_lt hword]
      exact hflag

/-- Without a free frame the page gets one that is in use. -/
theorem not_correct_of_full (hv : v < 2 ^ 32) (h : Recursive k.mem entries 0x3FF)
    (hready : PoolsReady k.physical) (hd : Demand k entries errCode v)
    (habsent : ¬ Present (k.mem.load32 (pteSlot k.mem entries v)))
    (hfull : ∀ p idx, idx < k.physical.numPageframes p → k.physical.status p idx ≠ 0) :
    ¬ Correct k entries errCode v := by
  rcases next_or_full k.physical PoolId.hiMemPool.chain with ⟨p, idx, hnext⟩ | ⟨-, halloc⟩
  · obtain ⟨hidx, hfree⟩ := hready.next_free hnext
    exact absurd hfree (hfull p idx hidx)
  · rintro ⟨handled, k', hrun, htrue, -⟩
    rw [handle_demand hv h habsent hd halloc] at hrun
    cases hrun
    -- the call claims success, but there was no frame to map
    obtain ⟨p, idx, hidx, hfree, -⟩ := (htrue rfl).mapped
    exact hfull p idx hidx hfree

end Correct

/-- The handler does its work exactly if a page that was reserved finds a frame, and has its
    entry for itself. -/
theorem page_fault_iff (k : Kernel) (entries errCode v : Nat) (hv : v < 2 ^ 32)
    (h : Recursive k.mem entries 0x3FF) (hready : PoolsReady k.physical)
    (hfault : errCode &&& 0x1 = 0 → translate k.mem entries v = none) :
    Correct k entries errCode v ↔
      (Demand k entries errCode v → ∃ p idx, k.physical.Next p idx PoolId.hiMemPool.chain ∧
        OwnEntry k.mem entries v ((k.physical.pool p).frameStart idx)) := by
  by_cases hd : Demand k entries errCode v
  · -- the entry itself is not present, so that changing it keeps the window
    have habsent := absent_of_fault hd.present hd.small (hfault hd.protectionViolation)
    constructor
    · intro hcorrect _
      rcases next_or_full k.physical PoolId.hiMemPool.chain with ⟨p, idx, hnext⟩ | ⟨hno, -⟩
      · obtain ⟨handled, k', hrun, htrue, -⟩ := hcorrect
        rw [handle_demand hv h habsent hd (allocFrom_of_next hnext)] at hrun
        cases hrun
        exact ⟨p, idx, hnext, (handled_iff h hready hd habsent hnext).mp (htrue rfl)⟩
      · refine absurd hcorrect (not_correct_of_full hv h hready hd habsent ?_)
        intro p idx hidx hfree
        obtain ⟨i, hfits⟩ := hready.fits_of_free hidx hfree
        exact hno p (mem_chain_hiMemPool p) i hfits
    · intro hcond
      obtain ⟨p, idx, hnext, hown⟩ := hcond hd
      refine ⟨true, _, handle_demand hv h habsent hd (allocFrom_of_next hnext), ?_, nofun⟩
      intro _
      exact (handled_iff h hready hd habsent hnext).mpr hown
  · constructor
    · intro _ hdemand
      exact absurd hdemand hd
    · intro _
      exact ⟨false, k, handle_other hv h hd, nofun, fun _ => rfl⟩

/-! ## A page at `0x5000` -/

/-- A directory at `0x1000` with a table at `0x2000`, where the sixth page is reserved. -/
def demandMemory : Mem :=
  Mem.store32 (Mem.store32 emptyDirectory 0x1000 0x2003) (0x2000 + 4 * 5) 0x200

theorem demandMemory_recursive : Recursive demandMemory 0x1000 0x3FF where
  slot_lt := by decide
  present := by decide
  small := by decide
  frame := by decide

/-- The pools of a machine with two page frames above the DMA limit. -/
def demandKernel (bitmaps : Mem) : Kernel :=
  ⟨demandMemory, bitmaps, bootPools 0x200000 (Multiboot.kernelDynamicEnd 0x01002000) 0x01002000⟩

theorem demandKernel_ready (bitmaps : Mem) : PoolsReady (demandKernel bitmaps).physical :=
  ready_bootPools bitmaps 0x200000 (show 0x01002000 < 2 ^ 32 by decide)

theorem demandKernel_absent : translate demandMemory 0x1000 0x5000 = none := by decide

theorem page_fault_iff_small :
    Correct (demandKernel fun _ => 0) 0x1000 0x2 0x5000 ↔
      (Demand (demandKernel fun _ => 0) 0x1000 0x2 0x5000 → ∃ p idx,
        (demandKernel fun _ => 0).physical.Next p idx PoolId.hiMemPool.chain ∧
        OwnEntry (demandKernel fun _ => 0).mem 0x1000 0x5000
          (((demandKernel fun _ => 0).physical.pool p).frameStart idx)) :=
  page_fault_iff (demandKernel fun _ => 0) 0x1000 0x2 0x5000 (by decide) demandMemory_recursive
    (demandKernel_ready _) fun _ => demandKernel_absent

/-- All frames are in use, and the handler claims to have handled the fault. -/
theorem page_fault_no_memory :
    Recursive demandMemory 0x1000 0x3FF ∧ PoolsReady (demandKernel fun _ => 1).physical ∧
      translate demandMemory 0x1000 0x5000 = none ∧
      ¬ Correct (demandKernel fun _ => 1) 0x1000 0x2 0x5000 := by
  have hd : Demand (demandKernel fun _ => 1) 0x1000 0x2 0x5000 :=
    ⟨by decide, by decide, by decide, by decide, by decide⟩
  refine ⟨demandMemory_recursive, demandKernel_ready _, demandKernel_absent, ?_⟩
  apply not_correct_of_full (by decide) demandMemory_recursive (demandKernel_ready _) hd
  · exact absent_of_fault hd.present hd.small demandKernel_absent
  · intro p idx _
    have hused : ∀ a, Mem.load32 (fun _ => 1) a ≠ 0 := by
      intro a
      simp only [Mem.load32, Mem.load8]
      decide
    exact hused _

end TimbOS.Native.Paging
