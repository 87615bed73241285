import TimbOS.Native.Mm
import TimbOS.Spec.PhysicalRuns

/-!
# The kernel image and the bitmaps after `mm::physical::init`

The bitmaps lie in the memory that they describe, behind the kernel image. `init` reserves
this memory last, so no entry of the memory map can free it again.

## Key results

- `init_protects`: where the bitmaps lie, and the frames that are in use for the kernel
- `bitmap_below_kernel`: a kernel that ends in the last 16 bytes of the address space
-/

namespace TimbOS.Native.Physical

open ForStd Mem Multiboot

/-! ## The bitmaps -/

/-- The physical address of a pool's bitmap. -/
def State.bitmapAddress (s : State) (p : PoolId) : Nat :=
  Mm.kernelVirtualToPhysical (s.pool p).bitmap

/-- Where a pool's bitmap ends, without wrap-around. -/
def State.bitmapEnd (s : State) (p : PoolId) : Nat := s.bitmapAddress p + 4 * s.numPageframes p

/-- No two bitmaps share a byte. -/
def State.BitmapsDisjoint (s : State) : Prop :=
  Pairwise fun p q =>
    Disjoint (Set.Ico (s.bitmapAddress p) (s.bitmapEnd p))
      (Set.Ico (s.bitmapAddress q) (s.bitmapEnd q))

/-- Every frame with a byte below the end of a bitmap is in use. -/
def State.KernelFramesUsed (s : State) : Prop :=
  ∀ p idx, idx < s.numPageframes p →
    ∀ q a, a < s.bitmapEnd q → (s.pool p).InFrame idx a → s.Used p idx

section Boot

variable {boot mem : Mem} {mbt : MultibootInfo} {pool : PoolId → PhysicalPool}
  {kernelStaticEnd kernelDynamicEnd himemEnd : Nat} {s : State}

theorem bitmapStart_lt (hstatic : kernelStaticEnd < 2 ^ 32) (p : PoolId) :
    bitmapStart kernelStaticEnd kernelDynamicEnd himemEnd p < 2 ^ 32 := by
  cases p with
  | dmaPool => exact skip16_lt hstatic
  | defaultPool => exact skip16_lt (add32_lt _ _)
  | hiMemPool => exact skip16_lt (add32_lt _ _)

theorem bitmapAddress_eq (hstatic : kernelStaticEnd < 2 ^ 32)
    (hpool : s.pool = bootPools kernelStaticEnd kernelDynamicEnd himemEnd) (p : PoolId) :
    s.bitmapAddress p = bitmapStart kernelStaticEnd kernelDynamicEnd himemEnd p := by
  have hlt : bitmapStart kernelStaticEnd kernelDynamicEnd himemEnd p < 2 ^ 32 :=
    bitmapStart_lt hstatic p
  rw [State.bitmapAddress, hpool]
  simp only [Mm.kernelVirtualToPhysical, bootPools, add32, sub32, kernelVirtualBase]
  omega

theorem bitmapEnd_eq (hstatic : kernelStaticEnd < 2 ^ 32)
    (hpool : s.pool = bootPools kernelStaticEnd kernelDynamicEnd himemEnd) (p : PoolId) :
    s.bitmapEnd p = bitmapStart kernelStaticEnd kernelDynamicEnd himemEnd p +
      4 * poolPages kernelDynamicEnd himemEnd p := by
  rw [State.bitmapEnd, bitmapAddress_eq hstatic hpool, State.numPageframes, hpool,
    numPageframes_bootPools]

/-- The next object goes behind the last one, when this ends below the last page. -/
theorem le_skip16 {pos : Nat} (hpos : pos ≤ 2 ^ 32 - pageSize) : pos ≤ skip16 pos := by
  simp only [pageSize] at hpos
  unfold skip16
  split <;> omega

variable (kernelStaticEnd) in
/-- The bitmaps follow each other when none of them passes the end of the memory. -/
theorem bitmaps_ordered (haligned : pageSize ∣ kernelDynamicEnd) (hend : kernelDynamicEnd < 2 ^ 32)
    (hfit : ∀ p, bitmapStart kernelStaticEnd kernelDynamicEnd himemEnd p +
      4 * poolPages kernelDynamicEnd himemEnd p ≤ kernelDynamicEnd) :
    bitmapStart kernelStaticEnd kernelDynamicEnd himemEnd .dmaPool +
        4 * poolPages kernelDynamicEnd himemEnd .dmaPool ≤
      bitmapStart kernelStaticEnd kernelDynamicEnd himemEnd .defaultPool ∧
    bitmapStart kernelStaticEnd kernelDynamicEnd himemEnd .defaultPool +
        4 * poolPages kernelDynamicEnd himemEnd .defaultPool ≤
      bitmapStart kernelStaticEnd kernelDynamicEnd himemEnd .hiMemPool ∧
    bitmapStart kernelStaticEnd kernelDynamicEnd himemEnd .hiMemPool +
        4 * poolPages kernelDynamicEnd himemEnd .hiMemPool =
      bitmapsEnd kernelStaticEnd kernelDynamicEnd himemEnd := by
  have hlast : kernelDynamicEnd ≤ 2 ^ 32 - pageSize := by
    simp only [pageSize] at haligned ⊢
    omega
  have hnext : ∀ p, add32 (bitmapStart kernelStaticEnd kernelDynamicEnd himemEnd p)
      (poolPages kernelDynamicEnd himemEnd p * 4) =
        bitmapStart kernelStaticEnd kernelDynamicEnd himemEnd p +
          4 * poolPages kernelDynamicEnd himemEnd p := by
    intro p
    have := hfit p
    rw [add32, Nat.mul_comm]
    exact Nat.mod_eq_of_lt (by omega)
  -- the padding of the next object never comes back in front of the last one
  have hskip : ∀ p, bitmapStart kernelStaticEnd kernelDynamicEnd himemEnd p +
        4 * poolPages kernelDynamicEnd himemEnd p ≤
      skip16 (add32 (bitmapStart kernelStaticEnd kernelDynamicEnd himemEnd p)
        (poolPages kernelDynamicEnd himemEnd p * 4)) := by
    intro p
    rw [hnext p]
    exact le_skip16 (Nat.le_trans (hfit p) hlast)
  exact ⟨hskip .dmaPool, hskip .defaultPool, (hnext .hiMemPool).symm⟩

/-- The first bitmap lies behind the kernel, unless `linear_alloc` runs around the end of the
    address space. -/
theorem kernelStaticEnd_le (hstatic : kernelStaticEnd < 2 ^ 32 - 16) :
    kernelStaticEnd ≤ bitmapStart kernelStaticEnd kernelDynamicEnd himemEnd .dmaPool := by
  simp only [bitmapStart]
  unfold skip16
  split <;> omega

/-- With an aligned `kernel_dynamic_end` all frames begin at page boundaries. -/
theorem frameStart_bootPools (haligned : pageSize ∣ kernelDynamicEnd) (p : PoolId) (idx : Nat) :
    pageSize ∣ (bootPools kernelStaticEnd kernelDynamicEnd himemEnd p).frameStart idx := by
  have hdma : pageSize ∣ dmaEnd kernelDynamicEnd := by
    unfold dmaEnd
    rcases Nat.le_total dmaMemoryLimit kernelDynamicEnd with h | h
    · rw [Nat.min_eq_left h]
      decide
    · rw [Nat.min_eq_right h]
      exact haligned
  apply Nat.dvd_add _ (Nat.dvd_mul_left _ _)
  cases p with
  | dmaPool => exact Nat.dvd_zero _
  | defaultPool => exact hdma
  | hiMemPool => exact haligned

/-- The range that begins at address 0 reserves the start of every frame below its end. -/
theorem rangeReserves_frameStart {size a : Nat} (hdvd : pageSize ∣ a) (hlt : a < size)
    (hsize : size < 2 ^ 32) : RangeReserves 0 size a := by
  obtain ⟨k, rfl⟩ := hdvd
  refine ⟨k, ?_, ?_⟩
  · rw [Nat.mul_comm]
    exact hlt
  · rw [Nat.zero_add, Nat.mul_comm, Nat.mod_eq_of_lt (by rw [Nat.mul_comm]; omega)]

/-- The frames up to the end of the bitmaps are in use behind `init`. -/
theorem kernelFramesUsed_init (hstatic : kernelStaticEnd < 2 ^ 32)
    (haligned : pageSize ∣ kernelDynamicEnd) (hle : kernelDynamicEnd ≤ himemEnd)
    (hend : himemEnd < 2 ^ 32)
    (h : init boot mbt mem pool kernelStaticEnd kernelDynamicEnd himemEnd = some s)
    (hfit : ∀ p, s.bitmapEnd p ≤ kernelDynamicEnd) : s.KernelFramesUsed := by
  obtain ⟨list, -, hpool, hused⟩ := init_eq hstatic hle hend h
  have hends := bitmapEnd_eq hstatic hpool
  obtain ⟨h₁, h₂, h₃⟩ := bitmaps_ordered kernelStaticEnd haligned (by omega)
    fun p => by rw [← hends]; exact hfit p
  -- the start of the frame is one of the addresses at which the last range is reserved
  intro p idx hidx q a ha hin
  rw [hends] at ha
  rw [State.numPageframes, hpool, numPageframes_bootPools] at hidx
  rw [hpool] at hin
  have hlt : (bootPools kernelStaticEnd kernelDynamicEnd himemEnd p).frameStart idx <
      bitmapsEnd kernelStaticEnd kernelDynamicEnd himemEnd := by
    have hlow := hin.1
    cases q <;> omega
  refine (hused p idx hidx).mpr ⟨_, Or.inr (rangeReserves_frameStart
    (frameStart_bootPools haligned p idx) hlt (add32_lt _ _)), Nat.le_refl _, ?_⟩
  exact Nat.lt_add_of_pos_right (by decide)

/-- `init` places three separate bitmaps, and the frames up to their end are in use. The bitmaps
    lie behind the kernel when that does not end in the last 16 bytes of the address space. -/
theorem init_protects (hstatic : kernelStaticEnd < 2 ^ 32) (haligned : pageSize ∣ kernelDynamicEnd)
    (hle : kernelDynamicEnd ≤ himemEnd) (hend : himemEnd < 2 ^ 32)
    (h : init boot mbt mem pool kernelStaticEnd kernelDynamicEnd himemEnd = some s)
    (hfit : ∀ p, s.bitmapEnd p ≤ kernelDynamicEnd) :
    s.BitmapsDisjoint ∧ s.KernelFramesUsed ∧
      (kernelStaticEnd < 2 ^ 32 - 16 → ∀ p, kernelStaticEnd ≤ s.bitmapAddress p) := by
  obtain ⟨list, -, hpool, -⟩ := init_eq hstatic hle hend h
  have haddr := bitmapAddress_eq hstatic hpool
  have hends := bitmapEnd_eq hstatic hpool
  obtain ⟨h₁, h₂, h₃⟩ := bitmaps_ordered kernelStaticEnd haligned (by omega)
    fun p => by rw [← hends]; exact hfit p
  refine ⟨?_, kernelFramesUsed_init hstatic haligned hle hend h hfit, ?_⟩
  · have hordered : s.bitmapEnd .dmaPool ≤ s.bitmapAddress .defaultPool ∧
        s.bitmapEnd .defaultPool ≤ s.bitmapAddress .hiMemPool := by
      rw [hends, hends, haddr, haddr]
      exact ⟨h₁, h₂⟩
    have hnonneg : ∀ p, s.bitmapAddress p ≤ s.bitmapEnd p := fun p => Nat.le_add_right _ _
    have hdefault := hnonneg .defaultPool
    intro p q hne
    rw [Set.disjoint_left]
    rintro a ⟨hp, hp'⟩ ⟨hq, hq'⟩
    cases p <;> cases q <;> first | exact hne rfl | omega
  · intro hbelow p
    have h₀ : kernelStaticEnd ≤ bitmapStart kernelStaticEnd kernelDynamicEnd himemEnd .dmaPool :=
      kernelStaticEnd_le hbelow
    rw [haddr]
    cases p <;> omega

end Boot

/-- On the small machine the bitmaps take 16 KiB behind the kernel. -/
theorem init_protects_small : ∃ s, init smallMap smallInfo (fun _ => 0) noPools 0x200000
    0x01002000 0x01002000 = some s ∧ s.BitmapsDisjoint ∧ s.KernelFramesUsed ∧
      ∀ p, 0x200000 ≤ s.bitmapAddress p := by
  obtain ⟨s, h⟩ := small_init
  have hpool := small_pool h
  have hends := bitmapEnd_eq (by decide) hpool
  obtain ⟨hdisjoint, hframes, hbehind⟩ := init_protects (by decide) (by decide) (Nat.le_refl _)
    (by decide) h (by intro p; rw [hends]; cases p <;> decide)
  exact ⟨s, h, hdisjoint, hframes, hbehind (by decide)⟩

/-- A kernel that ends in the last 16 bytes of the address space: the bitmaps begin at
    address 0. -/
theorem bitmap_below_kernel : ¬ ∀ boot mem mbt pool kernelStaticEnd kernelDynamicEnd himemEnd s,
    kernelStaticEnd < 2 ^ 32 → pageSize ∣ kernelDynamicEnd → kernelDynamicEnd ≤ himemEnd →
    himemEnd < 2 ^ 32 →
    init boot mbt mem pool kernelStaticEnd kernelDynamicEnd himemEnd = some s →
    (∀ p, s.bitmapEnd p ≤ kernelDynamicEnd) →
      s.BitmapsDisjoint ∧ s.KernelFramesUsed ∧ ∀ p, kernelStaticEnd ≤ s.bitmapAddress p := by
  intro hclaim
  have hreturns : ∃ s, init smallMap smallInfo (fun _ => 0) noPools 0xFFFFFFF0 0x01002000
      0x01002000 = some s := by
    refine init_returns _ _ (by decide) (Nat.le_refl _) (by decide) (by decide) smallMap_entries
      ?_ (by decide)
    intro entry hentry
    rw [List.mem_singleton.mp hentry]
    decide
  obtain ⟨s, h⟩ := hreturns
  obtain ⟨-, -, hpool, -⟩ := init_eq (by decide) (Nat.le_refl _) (by decide) h
  have hends := bitmapEnd_eq (by decide) hpool
  obtain ⟨-, -, hbehind⟩ := hclaim _ _ _ _ _ _ _ s (by decide) (by decide) (Nat.le_refl _)
    (by decide) h (by intro p; rw [hends]; cases p <;> decide)
  have hstart := hbehind .dmaPool
  rw [bitmapAddress_eq (by decide) hpool] at hstart
  exact absurd hstart (by decide)

end TimbOS.Native.Physical
