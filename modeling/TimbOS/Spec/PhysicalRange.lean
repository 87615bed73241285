import TimbOS.Spec.PhysicalReserve

/-!
# Reserving a range of addresses

`reserve_range` steps from the first byte of a range to the next page size and so on. If the
range does not begin at a page boundary, its last page may begin behind the last step. And for a
range of nearly 4 GiB the counter goes back to 0 before it gets to the end.

## Key results

- `status_reserveRange_of_not`: frames without a reserved address keep their mark
- `rangeReserves_iff`: which overlapping frames are reserved
- `reserve_range_iff`: exactly when the range is reserved
- `last_page_missed`: a range of two pages of which one is reserved
-/

namespace TimbOS.Native.Physical

open ForStd

/-- The frame overlaps the range in at least one byte. -/
def PhysicalPool.Overlaps (pool : PhysicalPool) (idx start size : Nat) : Prop :=
  ∃ a, start ≤ a ∧ a < start + size ∧ pool.InFrame idx a

/-- From `s` to `s'` the frames that overlap the range have been marked, and no other mark has
    changed. -/
structure RangeReserved (s s' : State) (start size : Nat) : Prop where
  marked : ∀ p idx, idx < s.numPageframes p → (s.pool p).Overlaps idx start size → s'.Used p idx
  kept : ∀ p idx, idx < s.numPageframes p → ¬ (s.pool p).Overlaps idx start size →
    s'.status p idx = s.status p idx

section Range

variable {s s' : State} {p : PoolId} {idx start size : Nat}

/-- The loop changes the marks of frames that hold a reserved address. -/
private theorem reserveRangeLoop_kept {fuel c : Nat} (L : Layout s.pool)
    (h : State.reserveRangeLoop start size fuel (c * pageSize) s = some s')
    (hidx : idx < s.numPageframes p)
    (hnot : ∀ a, RangeReserves start size a → ¬ (s.pool p).InFrame idx a) :
    s'.status p idx = s.status p idx := by
  induction fuel generalizing s c with
  | zero => cases h
  | succ fuel ih =>
    rw [State.reserveRangeLoop] at h
    by_cases hlt : c * pageSize < size
    · rw [if_pos hlt] at h
      have hpool : (s.reserve (add32 start (c * pageSize))).pool = s.pool := pool_setFrame _ _ _
      have hnext : add32 (c * pageSize) pageSize = (c + 1) % 2 ^ 20 * pageSize := by
        simp only [add32, pageSize]
        omega
      rw [hnext] at h
      rw [ih (by rw [hpool]; exact L) h (by rw [State.numPageframes, hpool]; exact hidx)
        (by rw [hpool]; exact hnot), State.reserve, L.status_setFrame _ _ hidx, if_neg]
      exact hnot _ ⟨c, hlt, rfl⟩
    · rw [if_neg hlt] at h
      cases h
      rfl

/-- A frame that holds none of the addresses keeps its mark. -/
theorem status_reserveRange_of_not (L : Layout s.pool) (h : s.reserveRange start size = some s')
    (hidx : idx < s.numPageframes p)
    (hnot : ∀ a, RangeReserves start size a → ¬ (s.pool p).InFrame idx a) :
    s'.status p idx = s.status p idx := by
  have hloop : State.reserveRangeLoop start size (2 ^ 20 + 1) (0 * pageSize) s = some s' := by
    rw [Nat.zero_mul]
    exact h
  exact reserveRangeLoop_kept L hloop hidx hnot

/-- The counter never gets to the end of a range that contains the last page. -/
theorem reserveRange_stuck (s : State) (start : Nat) (hsize : 2 ^ 32 - pageSize < size) :
    s.reserveRange start size = none := by
  have hloop : ∀ fuel c s, c < 2 ^ 20 →
      State.reserveRangeLoop start size fuel (c * pageSize) s = none := by
    intro fuel
    induction fuel with
    | zero =>
      intro c s _
      rfl
    | succ fuel ih =>
      intro c s hc
      have hnext : add32 (c * pageSize) pageSize = (c + 1) % 2 ^ 20 * pageSize := by
        simp only [add32, pageSize]
        omega
      have hlt : c * pageSize < size := by
        simp only [pageSize] at hsize ⊢
        omega
      rw [State.reserveRangeLoop, if_pos hlt, hnext]
      exact ih _ _ (Nat.mod_lt _ (Nat.two_pow_pos 20))
  have hzero := hloop (2 ^ 20 + 1) 0 s (Nat.two_pow_pos 20)
  rw [Nat.zero_mul] at hzero
  exact hzero

/-- All reserved addresses lie in the range. -/
theorem overlaps_of_reserves (hend : start + size ≤ 2 ^ 32) {a : Nat}
    (h : RangeReserves start size a) (hin : (s.pool p).InFrame idx a) :
    (s.pool p).Overlaps idx start size := by
  obtain ⟨k, hk, rfl⟩ := h
  rw [Nat.mod_eq_of_lt (by omega)] at hin
  exact ⟨start + k * pageSize, Nat.le_add_right _ _, by omega, hin⟩

/-- The range ends with a page that no step falls into: the last byte of the range lies lower in
    its page than the first byte does. -/
def LastMissed (start size : Nat) : Prop :=
  0 < size ∧ (start + size - 1) % pageSize < start % pageSize

instance (start size : Nat) : Decidable (LastMissed start size) :=
  inferInstanceAs (Decidable (_ ∧ _))

/-- A frame that overlaps the range holds a reserved address, unless it is the one that is
    missed. -/
theorem rangeReserves_iff (haligned : (s.pool p).base % pageSize = 0)
    (hend : start + size ≤ 2 ^ 32) (h : (s.pool p).Overlaps idx start size) :
    (∃ a, RangeReserves start size a ∧ (s.pool p).InFrame idx a) ↔
      ¬ (LastMissed start size ∧ (s.pool p).InFrame idx (start + size - 1)) := by
  obtain ⟨b, hlow, hhigh, hin, hin'⟩ := h
  simp only [LastMissed, RangeReserves, PhysicalPool.InFrame, PhysicalPool.frameStart,
    pageSize] at haligned hin hin' ⊢
  constructor
  · rintro ⟨a, ⟨k, hk, rfl⟩, ha, ha'⟩
    rw [Nat.mod_eq_of_lt (by omega)] at ha ha'
    omega
  · intro hnot
    -- the step that comes to this page
    obtain ⟨k, hk⟩ : ∃ k, start + k * 4096 =
        start % 4096 + if start % 4096 + start / 4096 * 4096 < (s.pool p).base + idx * 4096 then
          (s.pool p).base + idx * 4096 else start / 4096 * 4096 := by
      split
      · exact ⟨((s.pool p).base + idx * 4096 - start / 4096 * 4096) / 4096, by omega⟩
      · exact ⟨0, by omega⟩
    have hstep : k * 4096 < size := by
      split at hk <;> omega
    refine ⟨start + k * 4096, ⟨k, hstep, (Nat.mod_eq_of_lt (by omega)).symm⟩, ?_, ?_⟩
    · split at hk <;> omega
    · split at hk <;> omega

/-- The call returns and reserves the range exactly if the range does not contain the last page of
    the address space, and the page that is missed, if there is one, is in no pool or in use
    already. -/
theorem reserve_range_iff (L : Layout s.pool) (haligned : ∀ p, (s.pool p).base % pageSize = 0)
    (hend : start + size ≤ 2 ^ 32) :
    (∃ s', s.reserveRange start size = some s' ∧ RangeReserved s s' start size) ↔
      size ≤ 2 ^ 32 - pageSize ∧ (LastMissed start size →
        ∀ p idx, idx < s.numPageframes p → (s.pool p).InFrame idx (start + size - 1) →
          s.Used p idx) := by
  constructor
  · rintro ⟨s', hrun, hreserved⟩
    constructor
    · by_contra hsize
      rw [reserveRange_stuck s start (by omega)] at hrun
      cases hrun
    · intro hmissed p idx hidx hin
      have hpos := hmissed.1
      have hover : (s.pool p).Overlaps idx start size :=
        ⟨start + size - 1, by omega, by omega, hin⟩
      have hused := hreserved.marked p idx hidx hover
      -- nothing that the loop reserves falls into the last page
      have hno : ∀ a, RangeReserves start size a → ¬ (s.pool p).InFrame idx a :=
        fun a ha hin' =>
          (rangeReserves_iff (haligned p) hend hover).mp ⟨a, ha, hin'⟩ ⟨hmissed, hin⟩
      rw [State.Used, status_reserveRange_of_not L hrun hidx hno] at hused
      exact hused
  · rintro ⟨hsize, hmissed⟩
    obtain ⟨s', hrun⟩ := reserveRange_returns s start size hsize
    obtain ⟨-, hused⟩ := reserveRange_eq L hrun
    refine ⟨s', hrun, ?_, ?_⟩
    · intro p idx hidx hover
      rw [hused p idx hidx]
      by_cases hlast : LastMissed start size ∧ (s.pool p).InFrame idx (start + size - 1)
      · exact .inl (hmissed hlast.1 p idx hidx hlast.2)
      · exact .inr ((rangeReserves_iff (haligned p) hend hover).mpr hlast)
    · intro p idx hidx hnot
      apply status_reserveRange_of_not L hrun hidx
      intro a ha hin
      exact hnot (overlaps_of_reserves hend ha hin)

end Range

/-! ## Two free page frames -/

/-- The pools of a machine with two page frames above the DMA limit, where nothing is in use. -/
def freeFrames : State := ⟨fun _ => 0, bootPools 0x200000 0x01002000 0x01002000⟩

theorem freeFrames_layout : Layout freeFrames.pool :=
  layout_bootPools 0x200000 (Nat.le_refl _) (show 0x01002000 < 2 ^ 32 by decide)

theorem freeFrames_aligned (p : PoolId) : (freeFrames.pool p).base % pageSize = 0 := by
  cases p <;> decide

/-- Both frames are reserved from the first byte on. -/
theorem reserve_range_aligned : ∃ s', freeFrames.reserveRange 0x01000000 0x2000 = some s' ∧
    RangeReserved freeFrames s' 0x01000000 0x2000 :=
  (reserve_range_iff freeFrames_layout freeFrames_aligned (by decide)).mpr
    ⟨by decide, fun hmissed => absurd hmissed (by decide)⟩

/-- Of a range from the middle of one frame to the middle of the other, only the first frame is
    reserved. -/
theorem last_page_missed : ¬ ∀ (s : State) (start size : Nat), Layout s.pool →
    (∀ p, (s.pool p).base % pageSize = 0) → start + size ≤ 2 ^ 32 →
    ∃ s', s.reserveRange start size = some s' ∧ RangeReserved s s' start size := by
  intro h
  obtain ⟨-, hmissed⟩ := (reserve_range_iff freeFrames_layout freeFrames_aligned (by decide)).mp
    (h freeFrames 0x01000800 0x1000 freeFrames_layout freeFrames_aligned (by decide))
  have hused := hmissed (by decide) .defaultPool 1 (by decide) (by decide)
  exact hused (by decide)

end TimbOS.Native.Physical
