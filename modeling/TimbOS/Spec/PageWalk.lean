import TimbOS.Native.PageDir

/-!
# Walking the page tables in both directions

`virtual_to_physical` does in software what the processor does, with the page tables read
through the recursive slot `0x3FF`. `physical_to_virtual` looks at all entries in the order of
the virtual addresses, so that the first one that fits belongs to the smallest address.

## Key results

- `virtualToPhysical_eq`: the walk is the translation of the processor
- `scanTable_spec`, `scanDirectory_spec`: what the two loops find
- `physical_to_virtual_exact`: the smallest virtual address, or 0
-/

namespace TimbOS.Native.PageDirectory

open ForStd Paging

/-! ## Words and addresses -/

theorem present_ne_zero (e : Nat) : PageDirEntry.present e ≠ 0 ↔ Present e := by
  have hlt := field_lt e 0 1
  simp only [PageDirEntry.present, Present]
  omega

theorem pte_present_ne_zero (e : Nat) : PageTableEntry.present e ≠ 0 ↔ Present e :=
  present_ne_zero e

theorem enable4m_ne_zero (e : Nat) : PageDirEntry.enable4m e ≠ 0 ↔ Large e := by
  have hlt := field_lt e 7 1
  simp only [PageDirEntry.enable4m, Large]
  omega

/-- Putting an offset below a shifted number. -/
theorem shiftLeft_or {k b : Nat} (a : Nat) (hb : b < 2 ^ k) : (a <<< k) ||| b = a * 2 ^ k + b := by
  rw [← Nat.shiftLeft_add_eq_or_of_lt hb, Nat.shiftLeft_eq]

/-- Putting an address together from its slots and the offset. -/
theorem address_eq {j o : Nat} (i : Nat) (hj : j < 2 ^ 10) (ho : o < 2 ^ 12) :
    (i <<< 22) ||| (j <<< 12) ||| o = i * 2 ^ 22 + j * 2 ^ 12 + o := by
  have hhigh : (i <<< 22) ||| (j <<< 12) = (i * 2 ^ 10 + j) <<< 12 := by
    rw [shiftLeft_or i (by rw [Nat.shiftLeft_eq]; omega), Nat.shiftLeft_eq, Nat.shiftLeft_eq]
    omega
  rw [hhigh, shiftLeft_or _ ho]
  omega

/-- The address of a page table in the window. -/
theorem window_eq {i : Nat} (hi : i < 2 ^ 10) (j : Nat) :
    (0xFFC00000 ||| (i <<< 12)) + 4 * j = window 0x3FF i j := by
  have hbase : (0xFFC00000 : Nat) = 0x3FF <<< 22 := by decide
  rw [hbase, shiftLeft_or _ (by rw [Nat.shiftLeft_eq]; omega), Nat.shiftLeft_eq, window]

theorem and_fff (v : Nat) : v &&& 0xFFF = v % 2 ^ 12 := Nat.and_two_pow_sub_one_eq_mod v 12

theorem and_3fffff (v : Nat) : v &&& 0x3FFFFF = v % 2 ^ 22 := Nat.and_two_pow_sub_one_eq_mod v 22

/-- `ptindex` -/
theorem tableIndex_of_shift (v : Nat) : (v >>> 12) &&& 0x3FF = tableIndex v := by
  rw [tableIndex, field, Nat.shiftRight_eq_div_pow]
  exact Nat.and_two_pow_sub_one_eq_mod _ 10

/-- `pdindex` -/
theorem dirIndex_of_shift {v : Nat} (hv : v < 2 ^ 32) : v >>> 22 = dirIndex v := by
  rw [dirIndex, field, Nat.shiftRight_eq_div_pow, Nat.mod_eq_of_lt (by omega)]

variable {m : Mem} {entries i j p : Nat}

/-- A read through the window. -/
theorem vload_window (h : Recursive m entries 0x3FF) (hi : i < 2 ^ 10) (hj : j < 2 ^ 10)
    (hp : Present (entry m entries i)) :
    vload m entries ((0xFFC00000 ||| (i <<< 12)) + 4 * j) =
      .ok (m.load32 (tableSlot (frame (entry m entries i)) j)) := by
  rw [window_eq hi, vload, vload32, translate_window h hi hj hp]
  rfl

/-! ## From virtual to physical -/

/-- Large pages need no table. -/
theorem virtualToPhysical_large {v : Nat} (hv : v < 2 ^ 32)
    (hp : Present (entry m entries (dirIndex v))) (hl : Large (entry m entries (dirIndex v))) :
    virtualToPhysical m entries v =
      .ok (largeFrame (entry m entries (dirIndex v)) * 2 ^ 22 + v % 2 ^ 22) := by
  -- the walk puts the offset in the large page together from two parts
  have hoffset : tableIndex v * 2 ^ 12 + v % 2 ^ 12 = v % 2 ^ 22 := by
    simp only [tableIndex, field]
    omega
  have hmod : v % 2 ^ 12 < 2 ^ 12 := Nat.mod_lt v (by decide)
  simp only [virtualToPhysical, dirIndex_of_shift hv, tableIndex_of_shift, present_ne_zero,
    enable4m_ne_zero, if_pos hp, if_pos hl]
  rw [and_fff, address_eq _ (tableIndex_lt v) hmod, Nat.add_assoc, hoffset]
  rfl

/-- The walk is the translation of the processor. Addresses that are not mapped give 0. -/
theorem virtualToPhysical_eq (h : Recursive m entries 0x3FF) {v : Nat} (hv : v < 2 ^ 32) :
    virtualToPhysical m entries v = .ok ((translate m entries v).getD 0) := by
  by_cases hp : Present (entry m entries (dirIndex v))
  · by_cases hl : Large (entry m entries (dirIndex v))
    · rw [virtualToPhysical_large hv hp hl, translate_large hp hl]
      rfl
    · have hentry : m.load32 (dirSlot entries (dirIndex v)) = entry m entries (dirIndex v) := rfl
      simp only [virtualToPhysical, dirIndex_of_shift hv, tableIndex_of_shift, present_ne_zero,
        enable4m_ne_zero, pte_present_ne_zero, if_pos hp, if_neg hl]
      rw [translate_small hp hl, vload_window h (dirIndex_lt v) (tableIndex_lt v) hp]
      simp only [hentry, bind, Except.bind]
      -- both look at the same entry of the table
      generalize m.load32 (tableSlot (frame (entry m entries (dirIndex v))) (tableIndex v)) = pte
      by_cases hpte : Present pte
      · rw [if_pos hpte, if_pos hpte, and_fff, Nat.shiftLeft_eq]
        rfl
      · rw [if_neg hpte, if_neg hpte]
        rfl
  · simp only [virtualToPhysical, dirIndex_of_shift hv, present_ne_zero, if_neg hp,
      translate_absent hp]
    rfl

/-! ## From physical to virtual -/

/-- A page of the table in slot `i` that holds `p`. -/
theorem translate_table_iff (hi : i < 2 ^ 10) (hj : j < 2 ^ 10) {o : Nat} (ho : o < 2 ^ 12)
    (hp : Present (entry m entries i)) (hl : ¬ Large (entry m entries i)) :
    translate m entries (i * 2 ^ 22 + j * 2 ^ 12 + o) = some p ↔
      Present (m.load32 (tableSlot (frame (entry m entries i)) j)) ∧
        frame (m.load32 (tableSlot (frame (entry m entries i)) j)) = p / 2 ^ 12 ∧
        o = p % 2 ^ 12 := by
  have hdir : dirIndex (i * 2 ^ 22 + j * 2 ^ 12 + o) = i := by
    rw [Nat.add_assoc]
    exact dirIndex_eq hi (by omega)
  have htable := tableIndex_eq (i := i) hj ho
  have hoffset : (i * 2 ^ 22 + j * 2 ^ 12 + o) % 2 ^ 12 = o := by omega
  rw [translate_small (by rw [hdir]; exact hp) (by rw [hdir]; exact hl), hdir, htable, hoffset]
  have hentry : m.load32 (dirSlot entries i) = entry m entries i := rfl
  simp only [hentry]
  generalize m.load32 (tableSlot (frame (entry m entries i)) j) = pte
  by_cases hpte : Present pte
  · rw [if_pos hpte, Option.some.injEq]
    simp only [hpte, true_and]
    omega
  · rw [if_neg hpte]
    simp only [hpte, false_and, reduceCtorEq]

/-- The large page in slot `i` holds `p`. -/
theorem translate_large_iff (hi : i < 2 ^ 10) {r : Nat} (hr : r < 2 ^ 22)
    (hp : Present (entry m entries i)) (hl : Large (entry m entries i)) :
    translate m entries (i * 2 ^ 22 + r) = some p ↔
      largeFrame (entry m entries i) = p / 2 ^ 22 ∧ r = p % 2 ^ 22 := by
  have hdir := dirIndex_eq hi hr
  have hoffset : (i * 2 ^ 22 + r) % 2 ^ 22 = r := by omega
  rw [translate_large (by rw [hdir]; exact hp) (by rw [hdir]; exact hl), hdir, hoffset,
    Option.some.injEq]
  simp only [entry, dirSlot]
  omega

/-- The smallest virtual address of `p` from `low` on and below `high`, if there is one. -/
def FindsFirst (m : Mem) (entries p low high : Nat) (result : Except PageFault (Option Nat)) :
    Prop :=
  (∃ v, result = .ok (some v) ∧ low ≤ v ∧ v < high ∧ translate m entries v = some p ∧
      ∀ v', low ≤ v' → v' < v → translate m entries v' ≠ some p) ∨
    result = .ok none ∧ ∀ v', low ≤ v' → v' < high → translate m entries v' ≠ some p

/-- Nothing below `mid`, and then what is found from there on. -/
theorem FindsFirst.append {low mid high : Nat} {result : Except PageFault (Option Nat)}
    (hle : low ≤ mid) (hnone : ∀ v', low ≤ v' → v' < mid → translate m entries v' ≠ some p)
    (h : FindsFirst m entries p mid high result) : FindsFirst m entries p low high result := by
  -- below `mid` by `hnone`, from there on by the search
  have hall : ∀ v bound, (∀ v', mid ≤ v' → v' < bound → translate m entries v' ≠ some p) →
      low ≤ v → v < bound → translate m entries v ≠ some p := by
    intro v bound hrest hlow hlt
    by_cases hv : v < mid
    · exact hnone v hlow hv
    · exact hrest v (by omega) hlt
  rcases h with ⟨v, hok, hlow, hhigh, hv, hfirst⟩ | ⟨hok, hrest⟩
  · exact .inl ⟨v, hok, by omega, hhigh, hv, fun v' => hall v' v hfirst⟩
  · exact .inr ⟨hok, fun v' => hall v' high hrest⟩

/-- The loop over a table finds the first page that holds `p`. -/
theorem scanTable_spec (h : Recursive m entries 0x3FF) (hi : i < 2 ^ 10)
    (hp : Present (entry m entries i)) (hl : ¬ Large (entry m entries i)) (n : Nat) (j : Nat)
    (hn : j + n = 1024) :
    FindsFirst m entries p (i * 2 ^ 22 + j * 2 ^ 12) ((i + 1) * 2 ^ 22)
      (scanTable m entries p i n j) := by
  induction n generalizing j with
  | zero =>
    -- all entries have been looked at: no address is left
    refine .inr ⟨rfl, ?_⟩
    intro v' hlow hhigh
    omega
  | succ n ih =>
    have hj : j < 2 ^ 10 := by omega
    have hoffset : p % 2 ^ 12 < 2 ^ 12 := Nat.mod_lt p (by decide)
    rw [scanTable, vload_window h hi hj hp]
    simp only [bind, Except.bind, pte_present_ne_zero, Nat.shiftRight_eq_div_pow]
    by_cases hfit : Present (m.load32 (tableSlot (frame (entry m entries i)) j)) ∧
        PageTableEntry.pageAddr (m.load32 (tableSlot (frame (entry m entries i)) j)) = p / 2 ^ 12
    · rw [if_pos hfit, and_fff, address_eq i hj hoffset]
      refine .inl ⟨_, rfl, by omega, by omega, ?_, ?_⟩
      · exact (translate_table_iff hi hj hoffset hp hl).mpr ⟨hfit.1, hfit.2, rfl⟩
      · -- the pages begin at this one, and smaller offsets do not fit
        intro v' hlow hlt htranslate
        obtain ⟨o, rfl⟩ : ∃ o, v' = i * 2 ^ 22 + j * 2 ^ 12 + o :=
          ⟨v' - (i * 2 ^ 22 + j * 2 ^ 12), by omega⟩
        -- the offset is the one of `p`
        obtain ⟨-, -, ho⟩ := (translate_table_iff hi hj (by omega) hp hl).mp htranslate
        omega
    · rw [if_neg hfit]
      apply FindsFirst.append _ _ (ih (j + 1) (by omega))
      · omega
      · intro v' hlow hlt htranslate
        obtain ⟨o, rfl⟩ : ∃ o, v' = i * 2 ^ 22 + j * 2 ^ 12 + o :=
          ⟨v' - (i * 2 ^ 22 + j * 2 ^ 12), by omega⟩
        obtain ⟨hpte, hframe, -⟩ := (translate_table_iff hi hj (by omega) hp hl).mp htranslate
        exact hfit ⟨hpte, hframe⟩

/-- The loop over the directory finds the first address of `p`. -/
theorem scanDirectory_spec (h : Recursive m entries 0x3FF) (p n i : Nat) (hn : i + n = 1024) :
    FindsFirst m entries p (i * 2 ^ 22) (2 ^ 32) (scanDirectory m entries p n i) := by
  induction n generalizing i with
  | zero =>
    refine .inr ⟨rfl, ?_⟩
    intro v' hlow hhigh
    omega
  | succ n ih =>
    have hi : i < 2 ^ 10 := by omega
    have hrest := ih (i + 1) (by omega)
    rw [scanDirectory]
    simp only [present_ne_zero, enable4m_ne_zero, Nat.shiftRight_eq_div_pow]
    by_cases hp : Present (entry m entries i)
    · rw [if_pos hp]
      by_cases hl : Large (entry m entries i)
      · rw [if_pos hl]
        have hoffset : p % 2 ^ 22 < 2 ^ 22 := Nat.mod_lt p (by decide)
        by_cases hfit : PageDirEntry.pageFrameAddr (entry m entries i) = p / 2 ^ 22
        · rw [if_pos hfit, and_3fffff, shiftLeft_or i hoffset]
          refine .inl ⟨_, rfl, by omega, by omega, ?_, ?_⟩
          · exact (translate_large_iff hi hoffset hp hl).mpr ⟨hfit, rfl⟩
          · intro v' hlow hlt htranslate
            obtain ⟨r, rfl⟩ : ∃ r, v' = i * 2 ^ 22 + r := ⟨v' - i * 2 ^ 22, by omega⟩
            obtain ⟨-, hr⟩ := (translate_large_iff hi (by omega) hp hl).mp htranslate
            omega
        · rw [if_neg hfit]
          apply hrest.append (by omega)
          intro v' hlow hlt htranslate
          obtain ⟨r, rfl⟩ : ∃ r, v' = i * 2 ^ 22 + r := ⟨v' - i * 2 ^ 22, by omega⟩
          exact hfit ((translate_large_iff hi (by omega) hp hl).mp htranslate).1
      · rw [if_neg hl]
        -- a table: its loop decides about the 4 MiB of this slot
        have htable := scanTable_spec (p := p) h hi hp hl 1024 0 rfl
        rw [Nat.zero_mul, Nat.add_zero] at htable
        rcases htable with ⟨v, hok, hlow, hhigh, hv, hfirst⟩ | ⟨hok, hnone⟩
        · rw [hok]
          exact .inl ⟨v, rfl, hlow, by omega, hv, hfirst⟩
        · rw [hok]
          exact hrest.append (by omega) hnone
    · rw [if_neg hp]
      apply hrest.append (by omega)
      intro v' hlow hlt htranslate
      obtain ⟨r, rfl⟩ : ∃ r, v' = i * 2 ^ 22 + r := ⟨v' - i * 2 ^ 22, by omega⟩
      -- the slot is not present, and neither is any address in it
      have hdir := dirIndex_eq hi (show r < 2 ^ 22 by omega)
      rw [translate_absent (by rw [hdir]; exact hp)] at htranslate
      exact nomatch htranslate

/-- With the directory in its own slot `0x3FF`, `physical_to_virtual` returns the smallest
    virtual address of `p`, which `virtual_to_physical` takes back to `p`, and 0 if there is
    none. -/
theorem physical_to_virtual_exact (m : Mem) (entries p : Nat) (h : Recursive m entries 0x3FF) :
    (∀ v, IsLeast {v | v < 2 ^ 32 ∧ translate m entries v = some p} v →
      physicalToVirtual m entries p = .ok v ∧ virtualToPhysical m entries v = .ok p) ∧
    ((∀ v < 2 ^ 32, translate m entries v ≠ some p) →
      physicalToVirtual m entries p = .ok 0) := by
  have hscan := scanDirectory_spec h p 1024 0 rfl
  rw [Nat.zero_mul] at hscan
  rw [physicalToVirtual]
  constructor
  · rintro v ⟨⟨hlt, hv⟩, hleast⟩
    constructor
    · rcases hscan with ⟨v', hok, -, hlt', hv', hfirst⟩ | ⟨hok, hnone⟩
      · -- the scan goes up, and so it finds the least address first
        have hle := hleast ⟨hlt', hv'⟩
        have hge : v' ≤ v := by
          by_contra hgt
          exact hfirst v (Nat.zero_le _) (by omega) hv
        rw [hok, Nat.le_antisymm hge hle]
        rfl
      · exact absurd hv (hnone v (Nat.zero_le _) hlt)
    · rw [virtualToPhysical_eq h hlt, hv]
      rfl
  · intro hnone
    rcases hscan with ⟨v', -, -, hlt', hv', -⟩ | ⟨hok, -⟩
    · exact absurd hv' (hnone v' hlt')
    · rw [hok]
      rfl

/-- A directory at `0x1000` with nothing but its own slot. -/
def emptyDirectory : Mem := Mem.store32 (fun _ => 0) (0x1000 + 4 * 0x3FF) 0x1003

theorem emptyDirectory_recursive : Recursive emptyDirectory 0x1000 0x3FF where
  slot_lt := by decide
  present := by decide
  small := by decide
  frame := by decide

/-- The same directory with a table at `0x2000` in slot 2, which has the page frame at `0x5000` in
    its second entry, and with the large page frame at `0x800000` in slot 3. -/
def mixedDirectory : Mem :=
  ((emptyDirectory.store32 (0x1000 + 4 * 2) 0x2003).store32 (0x2000 + 4) 0x5003).store32
    (0x1000 + 4 * 3) 0x00800083

theorem mixedDirectory_recursive : Recursive mixedDirectory 0x1000 0x3FF where
  slot_lt := by decide
  present := by decide
  small := by decide
  frame := by decide

/-- The pages below 16 MiB: one of the table, and the large one. -/
theorem translate_mixedDirectory {v : Nat} (hv : v < 2 ^ 24) :
    translate mixedDirectory 0x1000 v =
      if 0xC00000 ≤ v then some (0x800000 + v % 2 ^ 22)
      else if v / 2 ^ 12 = 0x801 then some (0x5000 + v % 2 ^ 12) else none := by
  have hdir : dirIndex v = v / 2 ^ 22 := by
    simp only [dirIndex, field]
    omega
  have htable : tableIndex v = v / 2 ^ 12 % 2 ^ 10 := rfl
  have hlt : v / 2 ^ 22 < 4 := by omega
  generalize hd : v / 2 ^ 22 = d at hdir hlt
  interval_cases d
  · rw [translate_absent (by rw [hdir]; decide), if_neg (by omega), if_neg (by omega)]
  · rw [translate_absent (by rw [hdir]; decide), if_neg (by omega), if_neg (by omega)]
  · rw [translate_small (by rw [hdir]; decide) (by rw [hdir]; decide), hdir, htable,
      show frame (mixedDirectory.load32 (dirSlot 0x1000 2)) = 2 by decide,
      if_neg (show ¬ 0xC00000 ≤ v by omega)]
    by_cases hpage : v / 2 ^ 12 = 0x801
    · rw [if_pos hpage, hpage]
      rfl
    · have hzero : mixedDirectory.load32 (tableSlot 2 (v / 2 ^ 12 % 2 ^ 10)) = 0 := by
        rw [tableSlot, mixedDirectory, emptyDirectory, Mem.load32_store32_sep _ _ (by omega),
          Mem.load32_store32_sep _ _ (by omega), Mem.load32_store32_sep _ _ (by omega),
          Mem.load32_store32_sep _ _ (by omega)]
        rfl
      rw [hzero, if_neg hpage]
      rfl
  · rw [translate_large (by rw [hdir]; decide) (by rw [hdir]; decide), hdir,
      if_pos (show 0xC00000 ≤ v by omega)]
    rfl

/-- An address in the page of the table, and one in the large page. -/
theorem physical_to_virtual_mixed :
    physicalToVirtual mixedDirectory 0x1000 0x5234 = .ok 0x801234 ∧
      virtualToPhysical mixedDirectory 0x1000 0x801234 = .ok 0x5234 ∧
      physicalToVirtual mixedDirectory 0x1000 0x812345 = .ok 0xC12345 ∧
      virtualToPhysical mixedDirectory 0x1000 0xC12345 = .ok 0x812345 := by
  have hsmall := (physical_to_virtual_exact mixedDirectory 0x1000 0x5234
    mixedDirectory_recursive).1 0x801234
  have hlarge := (physical_to_virtual_exact mixedDirectory 0x1000 0x812345
    mixedDirectory_recursive).1 0xC12345
  have hleast : ∀ v p, v < 2 ^ 24 → translate mixedDirectory 0x1000 v = some p →
      (∀ u < v, translate mixedDirectory 0x1000 u ≠ some p) →
      IsLeast {v | v < 2 ^ 32 ∧ translate mixedDirectory 0x1000 v = some p} v := by
    intro v p hv hp hbefore
    refine ⟨⟨by omega, hp⟩, ?_⟩
    rintro u ⟨-, hu⟩
    by_contra hlt
    exact hbefore u (by omega) hu
  -- in front of 0x801234 nothing maps to 0x5234: both mappings are known for all addresses
  obtain ⟨hto, hback⟩ := hsmall (hleast _ _ (by decide) (by decide) (by
    intro u hu
    rw [translate_mixedDirectory (by omega), if_neg (by omega)]
    split
    · simp only [ne_eq, Option.some.injEq]
      omega
    · intro h
      cases h))
  obtain ⟨hto', hback'⟩ := hlarge (hleast _ _ (by decide) (by decide) (by
    intro u hu
    rw [translate_mixedDirectory (by omega)]
    split_ifs
    · simp only [ne_eq, Option.some.injEq]
      omega
    · simp only [ne_eq, Option.some.injEq]
      omega
    · intro h
      cases h))
  exact ⟨hto, hback, hto', hback'⟩

end TimbOS.Native.PageDirectory
