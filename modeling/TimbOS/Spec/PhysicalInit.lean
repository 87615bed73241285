import TimbOS.Spec.PhysicalLayout

/-!
# The pools that `mm::physical::init` sets up

## Key results

- `setup_eq`, `setup_staticEnd`: the pools and the end of the bitmaps in closed form
- `layout_bootPools`: the pools have the layout
- `status_setup`: no frame is in use before anything is reserved
-/

namespace TimbOS.Native.Physical

open ForStd Mem

/-! ## `linear_alloc` -/

/-- Where an object goes that is allocated at `pos` with alignment 16: past the paragraphs of
    16 bytes with an odd number. -/
def skip16 (pos : Nat) : Nat :=
  if pos / 16 % 2 = 1 then (pos / 32 + 1) * 32 % 2 ^ 32 else pos

theorem and_16 (pos : Nat) : pos &&& 16 = 0 ↔ pos / 16 % 2 = 0 := by
  have h := Nat.and_two_pow pos 4
  rw [Nat.testBit_eq_decide_div_mod_eq] at h
  rw [show 16 = 2 ^ 4 from rfl, h]
  by_cases hodd : pos / 2 ^ 4 % 2 = 1 <;> simp

/-- The loop steps through the rest of an odd paragraph. -/
private theorem skipAlign_odd (n fuel pos : Nat) (hpos : pos < 2 ^ 32)
    (hodd : pos / 16 % 2 = 1) (hn : pos + n = (pos / 32 + 1) * 32) (hfuel : n ≤ fuel) :
    skipAlign 16 fuel pos = (pos / 32 + 1) * 32 % 2 ^ 32 := by
  induction n generalizing fuel pos with
  | zero => omega
  | succ n ih =>
    obtain ⟨fuel, rfl⟩ : ∃ f, fuel = f + 1 := ⟨fuel - 1, by omega⟩
    rw [skipAlign, if_pos]
    · by_cases hlast : n = 0
      · -- the next position begins an even paragraph
        have hnext : add32 pos 1 = (pos / 32 + 1) * 32 % 2 ^ 32 := by
          simp only [add32]
          omega
        rw [hnext]
        cases fuel with
        | zero => rfl
        | succ fuel =>
          rw [skipAlign, if_neg]
          rw [not_not, and_16]
          omega
      · have hnext : add32 pos 1 = pos + 1 := by
          simp only [add32]
          omega
        rw [hnext, ih fuel (pos + 1) (by omega) (by omega) (by omega) (by omega)]
        omega
    · rw [ne_eq, and_16]
      omega

theorem skipAlign_eq {pos : Nat} (hpos : pos < 2 ^ 32) :
    skipAlign 16 (2 ^ 32) pos = skip16 pos := by
  unfold skip16
  by_cases hodd : pos / 16 % 2 = 1
  · rw [if_pos hodd]
    exact skipAlign_odd ((pos / 32 + 1) * 32 - pos) _ _ hpos hodd (by omega) (by omega)
  · rw [if_neg hodd, show 2 ^ 32 = 2 ^ 32 - 1 + 1 from rfl, skipAlign, if_neg]
    rw [not_not, and_16]
    omega

theorem skip16_lt {pos : Nat} (hpos : pos < 2 ^ 32) : skip16 pos < 2 ^ 32 := by
  unfold skip16
  split <;> omega

/-- The loop skips 16 bytes at most, and none where it has just been. -/
theorem skip16_spec {pos : Nat} (hpos : pos < 2 ^ 32) :
    ∃ pad ≤ 16, skip16 pos = (pos + pad) % 2 ^ 32 ∧ skip16 (skip16 pos) = skip16 pos := by
  unfold skip16
  by_cases hodd : pos / 16 % 2 = 1
  · rw [if_pos hodd]
    refine ⟨(pos / 32 + 1) * 32 - pos, by omega, by congr 1; omega, ?_⟩
    rw [if_neg (by omega)]
  · rw [if_neg hodd]
    exact ⟨0, by omega, by omega, if_neg hodd⟩

theorem linearAlloc_eq {size pos : Nat} (hpos : pos < 2 ^ 32) :
    linearAlloc size 16 pos = (add32 (skip16 pos) kernelVirtualBase, add32 (skip16 pos) size) := by
  rw [linearAlloc, skipAlign_eq hpos]

/-! ## The pools -/

/-- The end of the DMA pool's memory. -/
def dmaEnd (kernelDynamicEnd : Nat) : Nat := min dmaMemoryLimit kernelDynamicEnd

/-- The memory of a pool: where it begins and how many bytes there are. -/
def poolMemory (kernelDynamicEnd himemEnd : Nat) : PoolId → Nat × Nat
  | .dmaPool => (0, dmaEnd kernelDynamicEnd)
  | .defaultPool => (dmaEnd kernelDynamicEnd, kernelDynamicEnd - dmaEnd kernelDynamicEnd)
  | .hiMemPool => (kernelDynamicEnd, himemEnd - kernelDynamicEnd)

def poolPages (kernelDynamicEnd himemEnd : Nat) (p : PoolId) : Nat :=
  (poolMemory kernelDynamicEnd himemEnd p).2 / pageSize

/-- The physical address of a pool's bitmap. -/
def bitmapStart (kernelStaticEnd kernelDynamicEnd himemEnd : Nat) : PoolId → Nat
  | .dmaPool => skip16 kernelStaticEnd
  | .defaultPool => skip16 (add32 (skip16 kernelStaticEnd)
      (poolPages kernelDynamicEnd himemEnd .dmaPool * 4))
  | .hiMemPool => skip16 (add32 (skip16 (add32 (skip16 kernelStaticEnd)
      (poolPages kernelDynamicEnd himemEnd .dmaPool * 4)))
      (poolPages kernelDynamicEnd himemEnd .defaultPool * 4))

/-- The end of the last bitmap, and of what `init` reserves for the kernel. -/
def bitmapsEnd (kernelStaticEnd kernelDynamicEnd himemEnd : Nat) : Nat :=
  add32 (bitmapStart kernelStaticEnd kernelDynamicEnd himemEnd .hiMemPool)
    (poolPages kernelDynamicEnd himemEnd .hiMemPool * 4)

/-- The pools of `init`. -/
def bootPools (kernelStaticEnd kernelDynamicEnd himemEnd : Nat) (p : PoolId) : PhysicalPool where
  base := (poolMemory kernelDynamicEnd himemEnd p).1
  numPageframes := poolPages kernelDynamicEnd himemEnd p
  prevIdx := 0
  bitmap := add32 (bitmapStart kernelStaticEnd kernelDynamicEnd himemEnd p) kernelVirtualBase

section Boot

variable {kernelStaticEnd kernelDynamicEnd himemEnd : Nat}

@[simp] theorem numPageframes_bootPools (p : PoolId) :
    (bootPools kernelStaticEnd kernelDynamicEnd himemEnd p).numPageframes =
      poolPages kernelDynamicEnd himemEnd p := rfl

/-- Where the bitmaps of some pools lie: one behind the other, with little in between. -/
private structure Placed (pool : PoolId → PhysicalPool) (start : Nat) (offset : PoolId → Nat) :
    Prop where
  bitmap : ∀ p, (pool p).bitmap = (start + offset p) % 2 ^ 32
  first : offset .dmaPool = 0
  second_ge : 4 * (pool .dmaPool).numPageframes ≤ offset .defaultPool
  second_le : offset .defaultPool ≤ 4 * (pool .dmaPool).numPageframes + 16
  third_ge : offset .defaultPool + 4 * (pool .defaultPool).numPageframes ≤ offset .hiMemPool
  third_le : offset .hiMemPool ≤
    offset .defaultPool + 4 * (pool .defaultPool).numPageframes + 16
  third_eq : (pool .defaultPool).numPageframes = 0 → offset .hiMemPool = offset .defaultPool

/-- `linear_alloc` places the bitmaps of `init` so. -/
private theorem placed_bootPools (kernelStaticEnd kernelDynamicEnd himemEnd : Nat) :
    ∃ start offset,
      Placed (bootPools kernelStaticEnd kernelDynamicEnd himemEnd) start offset := by
  have hplaced : ∃ start second third,
      (bootPools kernelStaticEnd kernelDynamicEnd himemEnd .dmaPool).bitmap = start % 2 ^ 32 ∧
      (bootPools kernelStaticEnd kernelDynamicEnd himemEnd .defaultPool).bitmap =
        (start + second) % 2 ^ 32 ∧
      (bootPools kernelStaticEnd kernelDynamicEnd himemEnd .hiMemPool).bitmap =
        (start + third) % 2 ^ 32 ∧
      4 * poolPages kernelDynamicEnd himemEnd .dmaPool ≤ second ∧
      second ≤ 4 * poolPages kernelDynamicEnd himemEnd .dmaPool + 16 ∧
      second + 4 * poolPages kernelDynamicEnd himemEnd .defaultPool ≤ third ∧
      third ≤ second + 4 * poolPages kernelDynamicEnd himemEnd .defaultPool + 16 ∧
      (poolPages kernelDynamicEnd himemEnd .defaultPool = 0 → third = second) := by
    simp only [bootPools, bitmapStart]
    generalize poolPages kernelDynamicEnd himemEnd .dmaPool = n₁
    generalize poolPages kernelDynamicEnd himemEnd .defaultPool = n₂
    generalize skip16 kernelStaticEnd = a
    obtain ⟨pad, hpad, hskip, htwice⟩ := skip16_spec (add32_lt a (n₁ * 4))
    -- an empty default pool needs no padding of its own: `skip16` twice is `skip16`
    by_cases hn₂ : n₂ = 0
    · subst hn₂
      have hsame : add32 (skip16 (add32 a (n₁ * 4))) (0 * 4) = skip16 (add32 a (n₁ * 4)) := by
        have hlt := skip16_lt (add32_lt a (n₁ * 4))
        simp only [add32] at hlt ⊢
        omega
      rw [hsame, htwice, hskip]
      refine ⟨a + kernelVirtualBase, 4 * n₁ + pad, 4 * n₁ + pad, rfl, ?_, ?_, by omega, by omega,
        by omega, by omega, fun _ => rfl⟩
      · simp only [add32]
        omega
      · simp only [add32]
        omega
    · obtain ⟨pad', hpad', hskip', -⟩ := skip16_spec (add32_lt (skip16 (add32 a (n₁ * 4))) (n₂ * 4))
      rw [hskip', hskip]
      refine ⟨a + kernelVirtualBase, 4 * n₁ + pad, 4 * n₁ + pad + 4 * n₂ + pad', rfl, ?_, ?_,
        by omega, by omega, by omega, by omega, fun h => absurd h hn₂⟩
      · simp only [add32]
        omega
      · simp only [add32]
        omega
  obtain ⟨start, second, third, hdma, hdefault, hhimem, h₁, h₁', h₂, h₂', hempty⟩ := hplaced
  refine ⟨start, fun p => match p with
    | .dmaPool => 0
    | .defaultPool => second
    | .hiMemPool => third, ?_, rfl, h₁, h₁', h₂, h₂', hempty⟩
  intro p
  cases p with
  | dmaPool => exact hdma
  | defaultPool => exact hdefault
  | hiMemPool => exact hhimem

namespace Placed

variable {pool : PoolId → PhysicalPool} {start : Nat} {offset : PoolId → Nat}

/-- Words at offsets that are apart are apart in memory, wherever the bitmaps begin. -/
private theorem apart (h : Placed pool start offset) {p q : PoolId} {i j : Nat}
    (hpq : offset p + 4 * i + 4 ≤ offset q + 4 * j)
    (hqp : offset q + 4 * j + 4 ≤ offset p + 4 * i + 2 ^ 32) :
    Apart ((pool p).bitmap + 4 * i) ((pool q).bitmap + 4 * j) := by
  rw [h.bitmap p, h.bitmap q]
  apply apart_congr _ _ (apart_of_le (a := start + (offset p + 4 * i))
    (b := start + (offset q + 4 * j)) (by omega) (by omega))
  · omega
  · omega

/-- All words lie in the first 16 MiB from `start` on. -/
private theorem offset_lt (h : Placed pool start offset)
    (hsmall : (pool .dmaPool).numPageframes < 2 ^ 13)
    (hpages : ∀ p, (pool p).numPageframes < 2 ^ 20) {p : PoolId} {i : Nat}
    (hi : i < (pool p).numPageframes) : offset p + 4 * i < 2 ^ 24 := by
  obtain ⟨-, hfirst, -, hsecond, -, hthird, -⟩ := h
  have hp := hpages p
  have hdefault := hpages .defaultPool
  cases p <;> omega

/-- No two frames share a byte of the bitmaps. -/
private theorem words (h : Placed pool start offset)
    (hsmall : (pool .dmaPool).numPageframes < 2 ^ 13)
    (hpages : ∀ p, (pool p).numPageframes < 2 ^ 20) {p q : PoolId} {i j : Nat}
    (hi : i < (pool p).numPageframes) (hj : j < (pool q).numPageframes) (hne : p = q → i ≠ j) :
    Apart ((pool p).bitmap + 4 * i) ((pool q).bitmap + 4 * j) := by
  have hilt := h.offset_lt hsmall hpages hi
  have hjlt := h.offset_lt hsmall hpages hj
  have horder : offset p + 4 * i + 4 ≤ offset q + 4 * j ∨
      offset q + 4 * j + 4 ≤ offset p + 4 * i := by
    obtain ⟨-, hfirst, hsecond, -, hthird, -, -⟩ := h
    cases p <;> cases q <;>
      simp only [forall_const, reduceCtorEq, IsEmpty.forall_iff] at hne <;> omega
  cases horder with
  | inl hlt => exact h.apart hlt (by omega)
  | inr hlt => exact (h.apart hlt (by omega)).symm

/-- The index of an address in a gap leads behind all bitmaps. A gap before the default pool
    means that this pool is empty, as the memory ends in the DMA pool. -/
private theorem stray (h : Placed pool start offset)
    (hsmall : (pool .dmaPool).numPageframes < 2 ^ 13)
    (hpages : ∀ p, (pool p).numPageframes < 2 ^ 20) {p q : PoolId} {j : Nat} (hp : p ≠ .dmaPool)
    (hempty : p = .defaultPool → (pool .defaultPool).numPageframes = 0)
    (hj : j < (pool q).numPageframes) :
    Apart ((pool p).bitmap + 4 * gapIndex) ((pool q).bitmap + 4 * j) := by
  have hjlt := h.offset_lt hsmall hpages hj
  have hq := hpages q
  -- the index is so large that the word lies behind the last bitmap
  have hgap : offset q + 4 * j + 4 ≤ offset p + 4 * gapIndex := by
    obtain ⟨-, hfirst, hsecond, hsecond', hthird, hthird', heq⟩ := h
    simp only [gapIndex]
    cases p with
    | dmaPool => exact absurd rfl hp
    | defaultPool =>
      have hnone := hempty rfl
      have hsame := heq hnone
      cases q <;> omega
    | hiMemPool => cases q <;> omega
  apply Apart.symm
  apply h.apart hgap
  have hpoff : offset p < 2 ^ 24 := by
    obtain ⟨-, hfirst, -, hsecond', -, hthird', -⟩ := h
    have hdefault := hpages .defaultPool
    cases p <;> omega
  simp only [gapIndex]
  omega

end Placed

/-- The pools hold the memory that they are given, less a part of the last page. -/
private theorem poolPages_le (hle : kernelDynamicEnd ≤ himemEnd) (hend : himemEnd < 2 ^ 32) :
    poolPages kernelDynamicEnd himemEnd .dmaPool < 2 ^ 13 ∧
    poolPages kernelDynamicEnd himemEnd .defaultPool < 2 ^ 20 ∧
    poolPages kernelDynamicEnd himemEnd .hiMemPool < 2 ^ 20 ∧
    (kernelDynamicEnd < dmaMemoryLimit →
      poolPages kernelDynamicEnd himemEnd .defaultPool = 0) := by
  simp only [poolPages, poolMemory, dmaEnd, pageSize, dmaMemoryLimit]
  omega

/-- The pools lie one behind the other, with gaps of less than a page. -/
private theorem gapStart_bootPools (kernelStaticEnd kernelDynamicEnd himemEnd : Nat) (p : PoolId) :
    gapStart (bootPools kernelStaticEnd kernelDynamicEnd himemEnd) p ≤
        (poolMemory kernelDynamicEnd himemEnd p).1 ∧
      (poolMemory kernelDynamicEnd himemEnd p).1 <
        gapStart (bootPools kernelStaticEnd kernelDynamicEnd himemEnd) p + pageSize := by
  cases p with
  | dmaPool => exact ⟨Nat.le_refl _, (by decide : 0 < 0 + pageSize)⟩
  | defaultPool =>
    simp only [gapStart, PhysicalPool.top, PhysicalPool.frameStart, bootPools, poolPages,
      poolMemory, pageSize]
    omega
  | hiMemPool =>
    simp only [gapStart, PhysicalPool.top, PhysicalPool.frameStart, bootPools, poolPages,
      poolMemory, dmaEnd, pageSize]
    omega

/-- `init` sets up pools with the layout, whatever the memory sizes. -/
theorem layout_bootPools (kernelStaticEnd : Nat) (hle : kernelDynamicEnd ≤ himemEnd)
    (hend : himemEnd < 2 ^ 32) :
    Layout (bootPools kernelStaticEnd kernelDynamicEnd himemEnd) := by
  obtain ⟨start, offset, hplaced⟩ := placed_bootPools kernelStaticEnd kernelDynamicEnd himemEnd
  obtain ⟨hdma, hdefault, hhimem, hzero⟩ := poolPages_le hle hend
  have hpages : ∀ p,
      (bootPools kernelStaticEnd kernelDynamicEnd himemEnd p).numPageframes < 2 ^ 20 := by
    intro p
    cases p with
    | dmaPool => exact Nat.lt_trans hdma (by decide)
    | defaultPool => exact hdefault
    | hiMemPool => exact hhimem
  constructor
  · rfl
  · exact fun p => (gapStart_bootPools _ _ _ p).1
  · exact fun p => (gapStart_bootPools _ _ _ p).2
  · simp only [PhysicalPool.top, PhysicalPool.frameStart, bootPools, poolPages, poolMemory,
      pageSize]
    omega
  · intro p q i j hi hj hne
    exact hplaced.words hdma hpages hi hj hne
  · intro p q j hgap hj
    apply hplaced.stray hdma hpages _ _ hj
    · rintro rfl
      exact absurd hgap (Nat.lt_irrefl _)
    · rintro rfl
      apply hzero
      simp only [gapStart, PhysicalPool.top, PhysicalPool.frameStart, bootPools, poolPages,
        poolMemory, dmaEnd, pageSize, dmaMemoryLimit] at hgap ⊢
      omega

/-! ## What `init` sets up -/

theorem setPool_fill_comm (s : State) {p q : PoolId} (hpq : p ≠ q) (pool : PhysicalPool)
    (idx v count : Nat) :
    (s.setPool q pool).fill p idx v count = (s.fill p idx v count).setPool q pool := by
  induction count with
  | zero => rfl
  | succ count ih =>
    rw [State.fill, ih, State.fill]
    simp only [State.setStatus, pool_setPool_ne _ q pool hpq]
    rfl

/-- All pools are in place before the first bitmap is cleared. -/
private theorem initPools_eq (mem : Mem) (pool pools : PoolId → PhysicalPool)
    (hprev : ∀ p, (pools p).prevIdx = 0) :
    (((⟨mem, pool⟩ : State).initPool .dmaPool (pools .dmaPool).base
        (pools .dmaPool).numPageframes (pools .dmaPool).bitmap).initPool .defaultPool
        (pools .defaultPool).base (pools .defaultPool).numPageframes
        (pools .defaultPool).bitmap).initPool .hiMemPool (pools .hiMemPool).base
        (pools .hiMemPool).numPageframes (pools .hiMemPool).bitmap =
      (((⟨mem, pools⟩ : State).fill .dmaPool 0 0 (pools .dmaPool).numPageframes).fill
        .defaultPool 0 0 (pools .defaultPool).numPageframes).fill
        .hiMemPool 0 0 (pools .hiMemPool).numPageframes := by
  have hpool : ∀ p,
      (⟨(pools p).base, (pools p).numPageframes, 0, (pools p).bitmap⟩ : PhysicalPool) =
        pools p := by
    intro p
    rw [← hprev p]
  have hall : (((⟨mem, pool⟩ : State).setPool .dmaPool (pools .dmaPool)).setPool .defaultPool
      (pools .defaultPool)).setPool .hiMemPool (pools .hiMemPool) = ⟨mem, pools⟩ := by
    simp only [State.setPool]
    congr 1
    funext p
    cases p <;> rfl
  simp only [State.initPool, hpool]
  rw [← setPool_fill_comm _ (by decide), ← setPool_fill_comm _ (by decide),
    ← setPool_fill_comm _ (by decide), hall]

theorem dmaPoolSize_eq (kernelDynamicEnd : Nat) :
    (if dmaMemoryLimit < kernelDynamicEnd then dmaMemoryLimit else kernelDynamicEnd) =
      dmaEnd kernelDynamicEnd := by
  simp only [dmaEnd, dmaMemoryLimit]
  split <;> omega

/-- Nothing wraps around in the sizes and starts of the pools below `kernel_dynamic_end`. -/
theorem setup_sizes (hdyn : kernelDynamicEnd < 2 ^ 32) :
    sub32 kernelDynamicEnd (dmaEnd kernelDynamicEnd) =
        kernelDynamicEnd - dmaEnd kernelDynamicEnd ∧
      add32 0 (dmaEnd kernelDynamicEnd) = dmaEnd kernelDynamicEnd ∧
      add32 (dmaEnd kernelDynamicEnd) (kernelDynamicEnd - dmaEnd kernelDynamicEnd) =
        kernelDynamicEnd := by
  refine ⟨sub32_eq (Nat.min_le_right _ _) hdyn, ?_, ?_⟩
  · simp only [add32, dmaEnd, dmaMemoryLimit]
    omega
  · simp only [add32, dmaEnd, dmaMemoryLimit]
    omega

theorem setup_eq (mem : Mem) (pool : PoolId → PhysicalPool) (hstatic : kernelStaticEnd < 2 ^ 32)
    (hle : kernelDynamicEnd ≤ himemEnd) (hend : himemEnd < 2 ^ 32) :
    setup mem pool kernelStaticEnd kernelDynamicEnd himemEnd =
      ((((⟨mem, bootPools kernelStaticEnd kernelDynamicEnd himemEnd⟩ : State).fill .dmaPool 0 0
        (poolPages kernelDynamicEnd himemEnd .dmaPool)).fill .defaultPool 0 0
        (poolPages kernelDynamicEnd himemEnd .defaultPool)).fill .hiMemPool 0 0
        (poolPages kernelDynamicEnd himemEnd .hiMemPool),
        bitmapsEnd kernelStaticEnd kernelDynamicEnd himemEnd) := by
  have hhimem : sub32 himemEnd kernelDynamicEnd = himemEnd - kernelDynamicEnd := sub32_eq hle hend
  obtain ⟨hdefault, hstart, hstart'⟩ := setup_sizes (Nat.lt_of_le_of_lt hle hend)
  unfold setup
  simp only [dmaPoolSize_eq, hdefault, hhimem, hstart, hstart', linearAlloc_eq hstatic,
    linearAlloc_eq (add32_lt _ _)]
  have hinit := initPools_eq mem pool (bootPools kernelStaticEnd kernelDynamicEnd himemEnd)
    fun p => rfl
  exact congrArg₂ Prod.mk hinit rfl

theorem setup_staticEnd (mem : Mem) (pool : PoolId → PhysicalPool)
    (hstatic : kernelStaticEnd < 2 ^ 32) (hle : kernelDynamicEnd ≤ himemEnd)
    (hend : himemEnd < 2 ^ 32) :
    (setup mem pool kernelStaticEnd kernelDynamicEnd himemEnd).2 =
      bitmapsEnd kernelStaticEnd kernelDynamicEnd himemEnd := by
  rw [setup_eq mem pool hstatic hle hend]

theorem setup_pool (mem : Mem) (pool : PoolId → PhysicalPool)
    (hstatic : kernelStaticEnd < 2 ^ 32) (hle : kernelDynamicEnd ≤ himemEnd)
    (hend : himemEnd < 2 ^ 32) :
    (setup mem pool kernelStaticEnd kernelDynamicEnd himemEnd).1.pool =
      bootPools kernelStaticEnd kernelDynamicEnd himemEnd := by
  rw [setup_eq mem pool hstatic hle hend]
  simp only [pool_fill]

/-- Clearing the bitmap of one pool. -/
private theorem status_clear {s : State} (L : Layout s.pool) (p : PoolId) {q : PoolId} {k : Nat}
    (hk : k < s.numPageframes q) :
    (s.fill p 0 0 (s.numPageframes p)).status q k = if q = p then 0 else s.status q k := by
  rw [L.status_fill 0 (Nat.le_of_eq (Nat.zero_add _)) hk]
  by_cases hq : q = p
  · subst hq
    rw [if_pos rfl, if_pos ⟨rfl, Nat.zero_le k, by omega⟩, Nat.zero_mod]
  · rw [if_neg hq, if_neg fun h => hq h.1]

/-- No frame is in use in the pools that `init` has just set up. -/
theorem status_setup (mem : Mem) (pool : PoolId → PhysicalPool)
    (hstatic : kernelStaticEnd < 2 ^ 32) (hle : kernelDynamicEnd ≤ himemEnd)
    (hend : himemEnd < 2 ^ 32) {p : PoolId} {k : Nat}
    (hk : k < poolPages kernelDynamicEnd himemEnd p) :
    (setup mem pool kernelStaticEnd kernelDynamicEnd himemEnd).1.status p k = 0 := by
  rw [setup_eq mem pool hstatic hle hend]
  let s₀ : State := ⟨mem, bootPools kernelStaticEnd kernelDynamicEnd himemEnd⟩
  let s₁ := s₀.fill .dmaPool 0 0 (s₀.numPageframes .dmaPool)
  let s₂ := s₁.fill .defaultPool 0 0 (s₁.numPageframes .defaultPool)
  let s₃ := s₂.fill .hiMemPool 0 0 (s₂.numPageframes .hiMemPool)
  have L₀ : Layout s₀.pool := layout_bootPools kernelStaticEnd hle hend
  have h₁ : s₁.pool = s₀.pool := pool_fill _ _ _ _ _
  have h₂ : s₂.pool = s₀.pool := (pool_fill _ _ _ _ _).trans h₁
  have hnum₁ : ∀ r, s₁.numPageframes r = poolPages kernelDynamicEnd himemEnd r := by
    intro r
    rw [State.numPageframes, h₁]
    rfl
  have hnum₂ : ∀ r, s₂.numPageframes r = poolPages kernelDynamicEnd himemEnd r := by
    intro r
    rw [State.numPageframes, h₂]
    rfl
  have hthree : s₃.status p k = 0 := by
    rw [status_clear (h₂ ▸ L₀) .hiMemPool (by rw [hnum₂]; exact hk),
      status_clear (h₁ ▸ L₀) .defaultPool (by rw [hnum₁]; exact hk),
      status_clear L₀ .dmaPool hk]
    cases p <;> rfl
  simp only [s₃, hnum₂] at hthree
  simp only [s₂, hnum₁] at hthree
  exact hthree

end Boot

end TimbOS.Native.Physical
