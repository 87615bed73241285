import TimbOS.Native.Paging
import TimbOS.Spec.PageWalk

/-!
# The linear mapping of the kernel

The boot loader leaves a directory with two large pages, one at address 0 and one for the
kernel. `init` adds the recursive slot and one large page after the other, up to the page in
which the mapping ends. Then a walk through the directory and the subtraction of
`KERNEL_VIRTUAL_BASE` give the same physical address.

## Key results

- `entry_modifyEntry`: a change of one entry
- `Mapped.step`: one round of the loop maps one more large page
- `linear_mapping_exact`: the two translations agree, and nothing is mapped below the kernel
-/

namespace TimbOS.Native.Paging

open ForStd ForStd.Paging PageDirectory

/-- What `loader.s` leaves: the directory lies in the large page of the kernel. -/
structure LoaderDirectory (m : Mem) (entries : Nat) : Prop where
  aligned : entries % 2 ^ 12 = 0
  inKernelPage : entries < 2 ^ 22
  first : entry m entries 0 = 0x83
  kernel : entry m entries 768 = 0x83
  others : ∀ i < 1024, i ≠ 0 → i ≠ 768 → entry m entries i = 0

variable {m : Mem} {entries : Nat}

/-! ## Changing entries -/

theorem entry_lt (m : Mem) (entries i : Nat) : entry m entries i < 2 ^ 32 := Mem.load32_lt m _

/-- An entry that is changed, and the others. -/
theorem entry_modifyEntry (haligned : entries % 2 ^ 12 = 0) (hlt : entries < 2 ^ 32)
    {i j : Nat} (hi : i < 1024) (hj : j < 1024) (f : Nat → Nat) :
    entry (modifyEntry m entries j f) entries i =
      if i = j then f (entry m entries j) % 2 ^ 32 else entry m entries i := by
  rw [entry, modifyEntry]
  by_cases hsame : i = j
  · rw [if_pos hsame, hsame, Mem.load32_store32_same]
  · rw [if_neg hsame, load32_store32_aligned m _ (by omega) (by omega) (by omega), entry]

/-- The entry that a round of `init` writes. -/
theorem largePage_entry {e n : Nat} (he : e < 2 ^ 32) (hn : n < 2 ^ 10) :
    let e' := PageDirEntry.setPageFrameAddr (PageDirEntry.setUser (PageDirEntry.setPresent
      (PageDirEntry.setWritable (PageDirEntry.setEnable4m e 1) 1) 1) 1) n
    e' < 2 ^ 32 ∧ Present e' ∧ Large e' ∧ largeFrame e' = n := by
  simp only [PageDirEntry.setPageFrameAddr, PageDirEntry.setUser, PageDirEntry.setPresent,
    PageDirEntry.setWritable, PageDirEntry.setEnable4m]
  refine ⟨?_, ?_, ?_, ?_⟩
  · exact setField_lt _ _ (setField_lt _ _ (setField_lt _ _ (setField_lt _ _ (setField_lt _ _ he
      (by decide)) (by decide)) (by decide)) (by decide)) (by decide)
  · rw [Present, field_setField_below _ _ (by decide), field_setField_below _ _ (by decide),
      field_setField_same]
    decide
  · rw [Large, field_setField_below _ _ (by decide), field_setField_above _ _ (by decide),
      field_setField_above _ _ (by decide), field_setField_above _ _ (by decide),
      field_setField_same]
    decide
  · rw [largeFrame, field_setField_same, Nat.mod_eq_of_lt hn]

/-- The entry of the recursive slot. -/
theorem recursive_entry {e a : Nat} (he : e < 2 ^ 32) (ha : a % 2 ^ 12 = 0) (hlt : a < 2 ^ 32) :
    let e' := PageDirEntry.setPageTableAddr (PageDirEntry.setUser (PageDirEntry.setEnable4m
      (PageDirEntry.setWritable (PageDirEntry.setPresent e 1) 1) 0) 1) (a >>> 12)
    e' < 2 ^ 32 ∧ Present e' ∧ ¬ Large e' ∧ frame e' * 2 ^ 12 = a := by
  simp only [PageDirEntry.setPageTableAddr, PageDirEntry.setUser, PageDirEntry.setPresent,
    PageDirEntry.setWritable, PageDirEntry.setEnable4m]
  refine ⟨?_, ?_, ?_, ?_⟩
  · exact setField_lt _ _ (setField_lt _ _ (setField_lt _ _ (setField_lt _ _ (setField_lt _ _ he
      (by decide)) (by decide)) (by decide)) (by decide)) (by decide)
  · rw [Present, field_setField_below _ _ (by decide), field_setField_below _ _ (by decide),
      field_setField_below _ _ (by decide), field_setField_below _ _ (by decide),
      field_setField_same]
    decide
  · rw [Large, field_setField_below _ _ (by decide), field_setField_above _ _ (by decide),
      field_setField_same]
    decide
  · rw [frame, field_setField_same, Nat.shiftRight_eq_div_pow]
    omega

/-! ## The rounds of the loop -/

/-- The directory after `k` rounds. -/
structure Mapped (m : Mem) (entries k : Nat) : Prop where
  recursive : Recursive m entries 0x3FF
  linear : ∀ i < k, Present (entry m entries (768 + i)) ∧ Large (entry m entries (768 + i)) ∧
    largeFrame (entry m entries (768 + i)) = i
  user : ∀ i, 0 < i → i < 768 → ¬ Present (entry m entries i)

theorem recursive_of_entry (hp : Present (entry m entries 0x3FF))
    (hl : ¬ Large (entry m entries 0x3FF))
    (hframe : frame (entry m entries 0x3FF) * 2 ^ 12 = entries) : Recursive m entries 0x3FF :=
  ⟨by decide, hp, hl, hframe⟩

/-- Other entries do not touch the recursive slot. -/
theorem recursive_modifyEntry (h : Recursive m entries 0x3FF) {j : Nat} (hj : j < 0x3FF)
    (f : Nat → Nat) : Recursive (modifyEntry m entries j f) entries 0x3FF := by
  obtain ⟨haligned, hlt⟩ := h.bounds
  apply h.store32
  · omega
  · simp only [dirSlot]
    omega

/-- `init()` of the directory: the recursive slot. The walk to its address goes through the page
    of the kernel. -/
theorem init_loader (h : LoaderDirectory m entries) :
    ∃ m', PageDirectory.init m entries (Mm.kernelPhysicalToVirtual entries) = .ok m' ∧
      Mapped m' entries 0 := by
  obtain ⟨haligned, hpage, hfirst, hkernel, hothers⟩ := h
  -- the directory lies in the first 4 MiB, which the boot loader maps to the kernel
  have hself : Mm.kernelPhysicalToVirtual entries = 768 * 2 ^ 22 + entries := by
    simp only [Mm.kernelPhysicalToVirtual, add32, kernelVirtualBase]
    omega
  have hdir : dirIndex (768 * 2 ^ 22 + entries) = 768 := dirIndex_eq (by decide) hpage
  have hwalk : virtualToPhysical m entries (Mm.kernelPhysicalToVirtual entries) =
      .ok entries := by
    have hzero : largeFrame 0x83 = 0 := by decide
    have hoffset : (768 * 2 ^ 22 + entries) % 2 ^ 22 = entries := by omega
    rw [hself, virtualToPhysical_large (by omega) (by rw [hdir, hkernel]; decide)
      (by rw [hdir, hkernel]; decide), hdir, hkernel, hzero, hoffset, Nat.zero_mul, Nat.zero_add]
  simp only [PageDirectory.init, hwalk, bind, Except.bind]
  refine ⟨_, rfl, ?_⟩
  obtain ⟨hword, hpresent, hsmall, hframe⟩ :=
    recursive_entry (entry_lt m entries 0x3FF) haligned (by omega)
  have hslot := entry_modifyEntry (m := m) haligned (show entries < 2 ^ 32 by omega)
    (show 0x3FF < 1024 by decide) (show 0x3FF < 1024 by decide) fun e =>
      PageDirEntry.setPageTableAddr (PageDirEntry.setUser (PageDirEntry.setEnable4m
        (PageDirEntry.setWritable (PageDirEntry.setPresent e 1) 1) 0) 1) (entries >>> 12)
  rw [if_pos rfl, Nat.mod_eq_of_lt hword] at hslot
  refine ⟨recursive_of_entry ?_ ?_ ?_, ?_, ?_⟩
  · rw [hslot]
    exact hpresent
  · rw [hslot]
    exact hsmall
  · rw [hslot]
    exact hframe
  · intro i hi
    omega
  · intro i hpos hi
    rw [entry_modifyEntry haligned (by omega) (by omega) (by decide), if_neg (by omega),
      hothers i (by omega) (by omega) (by omega)]
    decide

/-- One round maps one more large page. -/
theorem Mapped.step {k : Nat} (h : Mapped m entries k) (hk : k < 16) :
    Mapped (mapLargePage m entries kernelVirtualBase (k * largePageSize)) entries (k + 1) := by
  obtain ⟨haligned, hlt⟩ := h.recursive.bounds
  -- the round for `k` writes the entry `768 + k`
  have hvirt : add32 kernelVirtualBase (k * largePageSize) >>> largePageShift = 768 + k := by
    simp only [add32, kernelVirtualBase, largePageSize, largePageShift, Nat.shiftRight_eq_div_pow]
    omega
  have hframe : (k * largePageSize) >>> largePageShift = k := by
    simp only [largePageSize, largePageShift, Nat.shiftRight_eq_div_pow]
    omega
  rw [mapLargePage, hvirt, hframe]
  obtain ⟨hword, hpresent, hlarge, hnumber⟩ :=
    largePage_entry (entry_lt m entries (768 + k)) (show k < 2 ^ 10 by omega)
  refine ⟨recursive_modifyEntry h.recursive (by omega) _, ?_, ?_⟩
  · intro i hi
    rw [entry_modifyEntry haligned hlt (by omega) (by omega)]
    by_cases hlast : i = k
    · rw [if_pos (by omega), Nat.mod_eq_of_lt hword, hlast]
      exact ⟨hpresent, hlarge, hnumber⟩
    · rw [if_neg (by omega)]
      exact h.linear i (by omega)
  · intro i hpos hi
    rw [entry_modifyEntry haligned hlt (by omega) (by omega), if_neg (by omega)]
    exact h.user i hpos hi

/-- The rounds from the one for `k` on: they stop behind the end of the mapping, in the kernel's
    part of the directory. -/
theorem initLoop_spec {linearMappingEnd : Nat} (hend : linearMappingEnd ≤ kernelVirtualSizeMax)
    (k : Nat) (h : Mapped m entries k) (hk : k ≤ 16) :
    ∃ m' K, linearMappingEnd ≤ K * largePageSize ∧ K ≤ 16 ∧ Mapped m' entries K ∧
      ∀ fuel, 17 - k ≤ fuel →
        initLoop entries linearMappingEnd kernelVirtualBase fuel (k * largePageSize) m =
          some m' := by
  simp only [kernelVirtualSizeMax] at hend
  -- the induction is on the rounds that are left
  obtain ⟨n, hn⟩ : ∃ n, n = 16 - k := ⟨_, rfl⟩
  induction n generalizing k m with
  | zero =>
    -- the kernel's part has room for 16 large pages, so the loop has ended
    have hlast : k = 16 := by omega
    refine ⟨m, k, by simp only [largePageSize]; omega, hk, h, ?_⟩
    intro fuel hfuel
    obtain ⟨fuel, rfl⟩ : ∃ f, fuel = f + 1 := ⟨fuel - 1, by omega⟩
    rw [initLoop, if_neg (by simp only [largePageSize]; omega)]
  | succ n ih =>
    by_cases hmore : k * largePageSize < linearMappingEnd
    · obtain ⟨m', K, hK, hle, hmapped, hrun⟩ :=
        ih (k + 1) (h.step (by omega)) (by omega) (by omega)
      refine ⟨m', K, hK, hle, hmapped, ?_⟩
      intro fuel hfuel
      obtain ⟨fuel, rfl⟩ : ∃ f, fuel = f + 1 := ⟨fuel - 1, by omega⟩
      have hnext : add32 (k * largePageSize) largePageSize = (k + 1) * largePageSize := by
        simp only [add32, largePageSize]
        omega
      rw [initLoop, if_pos hmore, hnext]
      exact hrun fuel (by omega)
    · refine ⟨m, k, by omega, hk, h, ?_⟩
      intro fuel hfuel
      obtain ⟨fuel, rfl⟩ : ∃ f, fuel = f + 1 := ⟨fuel - 1, by omega⟩
      rw [initLoop, if_neg hmore]

/-! ## Both translations -/

/-- Without the page at 0 nothing is mapped below the kernel. -/
theorem initUnmap0_spec {k : Nat} (h : Mapped m entries k) (hk : k ≤ 16) :
    Mapped (initUnmap0 m entries) entries k ∧
      ∀ i < 768, ¬ Present (entry (initUnmap0 m entries) entries i) := by
  obtain ⟨haligned, hlt⟩ := h.recursive.bounds
  -- only the first entry changes
  have hother : ∀ i < 1024, i ≠ 0 →
      entry (initUnmap0 m entries) entries i = entry m entries i := by
    intro i hi hne
    rw [initUnmap0, entry_modifyEntry haligned hlt hi (by decide), if_neg hne]
  have hfirst : ¬ Present (entry (initUnmap0 m entries) entries 0) := by
    have hword : setField (entry m entries 0) 0 1 0 < 2 ^ 32 :=
      setField_lt _ _ (entry_lt m entries 0) (by decide)
    rw [initUnmap0, entry_modifyEntry haligned hlt (by decide) (by decide), if_pos rfl,
      PageDirEntry.setPresent, Nat.mod_eq_of_lt hword, Present, field_setField_same]
    decide
  have hmapped : Mapped (initUnmap0 m entries) entries k := by
    refine ⟨recursive_modifyEntry h.recursive (by decide) _, ?_, ?_⟩
    · intro i hi
      rw [hother (768 + i) (by omega) (by omega)]
      exact h.linear i hi
    · intro i hpos hi
      rw [hother i (by omega) (by omega)]
      exact h.user i hpos hi
  refine ⟨hmapped, ?_⟩
  intro i hi
  by_cases hzero : i = 0
  · rw [hzero]
    exact hfirst
  · exact hmapped.user i (by omega) hi

/-- A linear address is translated by subtraction. -/
theorem Mapped.virtualToPhysical {k p : Nat} (h : Mapped m entries k) (hk : k ≤ 16)
    (hp : p < k * largePageSize) :
    PageDirectory.virtualToPhysical m entries (Mm.kernelPhysicalToVirtual p) = .ok p := by
  simp only [largePageSize] at hp
  have hvirt : Mm.kernelPhysicalToVirtual p = (768 + p / 2 ^ 22) * 2 ^ 22 + p % 2 ^ 22 := by
    simp only [Mm.kernelPhysicalToVirtual, add32, kernelVirtualBase]
    omega
  have hdir : dirIndex (Mm.kernelPhysicalToVirtual p) = 768 + p / 2 ^ 22 := by
    rw [hvirt]
    exact dirIndex_eq (by omega) (Nat.mod_lt p (by decide))
  obtain ⟨hpresent, hlarge, hframe⟩ := h.linear (p / 2 ^ 22) (by omega)
  rw [virtualToPhysical_large (by rw [hvirt]; omega) (by rw [hdir]; exact hpresent)
    (by rw [hdir]; exact hlarge), hdir, hframe, hvirt, Nat.mul_add_mod_self_right, Nat.mod_mod,
    Nat.mul_comm, Nat.div_add_mod]

/-- After `init` and `init_unmap_0` the directory translates the linear addresses as the
    subtraction does, and no address below the kernel. -/
theorem linear_mapping_exact (m : Mem) (entries linearMappingEnd : Nat)
    (hloader : LoaderDirectory m entries) (hend : linearMappingEnd ≤ kernelVirtualSizeMax) :
    ∃ m', (∀ fuel, 17 ≤ fuel →
        init fuel m entries (Mm.kernelPhysicalToVirtual entries) linearMappingEnd
          kernelVirtualBase = .ok (some m')) ∧
      (∀ p < linearMappingEnd,
        PageDirectory.virtualToPhysical (initUnmap0 m' entries) entries
          (Mm.kernelPhysicalToVirtual p) = .ok p ∧
        Mm.kernelVirtualToPhysical (Mm.kernelPhysicalToVirtual p) = p) ∧
      ∀ v < kernelVirtualBase, translate (initUnmap0 m' entries) entries v = none := by
  obtain ⟨m₁, hinit, hmapped⟩ := init_loader hloader
  obtain ⟨m', K, hK, hle, hmapped', hloop⟩ := initLoop_spec hend 0 hmapped (Nat.zero_le _)
  obtain ⟨hunmapped, habsent⟩ := initUnmap0_spec hmapped' hle
  simp only [kernelVirtualSizeMax] at hend
  refine ⟨m', ?_, ?_, ?_⟩
  · intro fuel hfuel
    -- 17 rounds are enough: 16 large pages of 4 MiB, and the test that ends the loop
    rw [Nat.zero_mul] at hloop
    rw [init, hinit]
    simp only [bind, Except.bind, hloop fuel hfuel]
    rfl
  · intro p hp
    refine ⟨hunmapped.virtualToPhysical hle (by omega), ?_⟩
    simp only [Mm.kernelVirtualToPhysical, Mm.kernelPhysicalToVirtual, add32, sub32,
      kernelVirtualBase]
    omega
  · intro v hv
    apply translate_absent
    apply habsent
    simp only [kernelVirtualBase] at hv
    simp only [dirIndex, field]
    omega

/-- The directory of `loader.s` at `0x101000`. -/
def loaderMemory : Mem :=
  Mem.store32 (Mem.store32 (fun _ => 0) 0x101000 0x83) (0x101000 + 4 * 768) 0x83

theorem loaderMemory_directory : LoaderDirectory loaderMemory 0x101000 where
  aligned := by decide
  inKernelPage := by decide
  first := by decide
  kernel := by decide
  others := by
    intro i hi hfirst hkernel
    have hzero : ∀ a, Mem.load32 (fun _ => 0) a = 0 := fun _ => rfl
    rw [entry, loaderMemory, load32_store32_aligned _ _ (by decide) (by omega) (by omega),
      load32_store32_aligned _ _ (by decide) (by omega) (by omega), hzero]

/-- A mapping that does not end on a page boundary. -/
theorem linear_mapping_small :
    ∃ m', (∀ fuel, 17 ≤ fuel →
        init fuel loaderMemory 0x101000 (Mm.kernelPhysicalToVirtual 0x101000) 0x1FF0000
          kernelVirtualBase = .ok (some m')) ∧
      (∀ p < 0x1FF0000,
        PageDirectory.virtualToPhysical (initUnmap0 m' 0x101000) 0x101000
          (Mm.kernelPhysicalToVirtual p) = .ok p ∧
        Mm.kernelVirtualToPhysical (Mm.kernelPhysicalToVirtual p) = p) ∧
      ∀ v < kernelVirtualBase, translate (initUnmap0 m' 0x101000) 0x101000 v = none :=
  linear_mapping_exact loaderMemory 0x101000 0x1FF0000 loaderMemory_directory (by decide)

end TimbOS.Native.Paging
