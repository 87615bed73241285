import TimbOS.Spec.PhysicalAlloc
import TimbOS.Spec.PhysicalReserve

/-!
# Single pages

For one page the search of `PhysicalPool::alloc` comes to every frame of a pool, and then to
the pools below it. So it fails only if all frames are in use, and the frame that it takes
is on a page boundary.

## Key results

- `ready_init`, `PoolsReady.allocFrom`, `PoolsReady.free`: the pools of every run are ready
- `next_or_full`: the search stops at a frame, or nothing fits
- `PoolsReady.next_free`, `PoolsReady.fits_of_free`: the frame is free, and found if there is one
-/

namespace TimbOS.Native.Physical

open ForStd Multiboot

/-! ## Pools that are ready -/

/-- The pools as `mm::init` builds them and the allocator keeps them. -/
structure PoolsReady (s : State) : Prop where
  layout : Layout s.pool
  prevIdx_lt : ∀ p, (s.pool p).prevIdx < 2 ^ 20
  aligned : ∀ p, 0 < s.numPageframes p → (s.pool p).base % pageSize = 0

/-- `mm::init` ends the pools of the kernel at `KERNEL_VIRTUAL_SIZE_MAX` or at the end of the
    memory, so that the pool of high memory begins at a page boundary or is empty. -/
theorem ready_bootPools (mem : Mem) (kernelStaticEnd : Nat) {himemEnd : Nat}
    (hend : himemEnd < 2 ^ 32) :
    PoolsReady ⟨mem, bootPools kernelStaticEnd (kernelDynamicEnd himemEnd) himemEnd⟩ where
  layout := layout_bootPools kernelStaticEnd (kernelDynamicEnd_le himemEnd) hend
  prevIdx_lt := fun _ => Nat.two_pow_pos 20
  aligned := by
    intro p hpos
    simp only [State.numPageframes, bootPools, poolPages, poolMemory] at hpos ⊢
    cases p with
    | dmaPool => rfl
    | defaultPool =>
      -- it begins at the DMA limit, for a shorter memory ends in the DMA pool
      simp only [dmaEnd, dmaMemoryLimit, pageSize] at hpos ⊢
      omega
    | hiMemPool =>
      simp only [kernelDynamicEnd, kernelVirtualSizeMax, pageSize] at hpos ⊢
      by_cases hlong : 0x04000000 < himemEnd
      · rw [if_pos hlong]
      · rw [if_neg hlong] at hpos
        omega

section Ready

variable {s s' : State}

/-- Only the pools count, not what is in the bitmaps. -/
theorem PoolsReady.of_pool (h : PoolsReady s) (hpool : s'.pool = s.pool) : PoolsReady s' where
  layout := by
    rw [hpool]
    exact h.layout
  prevIdx_lt := by
    rw [hpool]
    exact h.prevIdx_lt
  aligned := by
    intro p hpos
    rw [State.numPageframes, hpool] at hpos
    rw [hpool]
    exact h.aligned p hpos

/-- `mm::init` hands over pools that are ready. -/
theorem ready_init {boot mem : Mem} {mbt : MultibootInfo}
    {pool : PoolId → PhysicalPool} {kernelStaticEnd himemEnd : Nat}
    (hstatic : kernelStaticEnd < 2 ^ 32) (hend : himemEnd < 2 ^ 32)
    (h : init boot mbt mem pool kernelStaticEnd (kernelDynamicEnd himemEnd) himemEnd = some s) :
    PoolsReady s := by
  obtain ⟨-, -, hpool, -⟩ := init_eq hstatic (kernelDynamicEnd_le himemEnd) hend h
  exact (ready_bootPools mem kernelStaticEnd hend).of_pool hpool

theorem PoolsReady.takeRun (h : PoolsReady s) {p : PoolId} (hpos : 0 < s.numPageframes p)
    (pages idx : Nat) : PoolsReady (s.takeRun p pages idx).2 := by
  -- only `_prev_idx` changes, and it stays below the size of its pool
  have hsame := takeRun_sameFrames s p pages idx
  have hnum : s.numPageframes p < 2 ^ 20 := h.layout.numPageframes_lt p
  refine ⟨h.layout.congr hsame, ?_, ?_⟩
  · intro q
    rw [takeRun_prevIdx]
    split
    · exact Nat.lt_trans (Nat.mod_lt _ hpos) hnum
    · exact h.prevIdx_lt q
  · intro q hq
    obtain ⟨hbase, hpages, -⟩ := hsame q
    rw [State.numPageframes, hpages] at hq
    rw [hbase]
    exact h.aligned q hq

/-- Every allocation keeps the pools ready, whatever it finds. -/
theorem PoolsReady.allocFrom (h : PoolsReady s) {pages alignment a : Nat} (halign : 0 < alignment)
    {chain : List PoolId} (hs : s.allocFrom pages alignment chain = some (a, s')) :
    PoolsReady s' := by
  rcases allocFrom_cases s pages halign chain with hzero | ⟨p, i, hfirst, heq, -⟩
  · rw [hzero] at hs
    cases hs
    exact h
  · rw [heq] at hs
    cases hs
    exact h.takeRun (Nat.zero_lt_of_lt hfirst.fits.lt) pages _

theorem PoolsReady.free (h : PoolsReady s) (a pages : Nat) : PoolsReady (s.free a pages) :=
  h.of_pool (pool_free s a pages)

end Ready

/-! ## The search for one page -/

/-- A search for one page stops at this frame: there is nothing in the pools before, and
    everything in front of it in this pool is in use. -/
def State.Next (s : State) (p : PoolId) (idx : Nat) : List PoolId → Prop
  | [] => False
  | q :: fallbacks =>
    (∃ i, s.FirstFit q 1 1 i ∧ q = p ∧ ((s.pool q).prevIdx + i) % s.numPageframes q = idx) ∨
      (∀ i, ¬ s.Fits q 1 1 i) ∧ s.Next p idx fallbacks

section Next

variable {s : State} {p : PoolId} {idx : Nat}

/-- The search for one page is the search for a run. -/
theorem next_iff_serves {chain : List PoolId} : s.Next p idx chain ↔ s.Serves 1 1 p idx chain := by
  induction chain with
  | nil => exact Iff.rfl
  | cons q fallbacks ih =>
    rw [State.Next, State.Serves, ih]

theorem allocFrom_of_next {chain : List PoolId} (h : s.Next p idx chain) :
    s.allocFrom 1 1 chain = some (s.takeRun p 1 idx) :=
  allocFrom_of_serves Nat.one_pos (next_iff_serves.mp h)

/-- The search stops somewhere, or nothing fits and the call returns 0. -/
theorem next_or_full (s : State) (chain : List PoolId) :
    (∃ p idx, s.Next p idx chain) ∨
      (∀ p ∈ chain, ∀ i, ¬ s.Fits p 1 1 i) ∧ s.allocFrom 1 1 chain = some (0, s) := by
  simp only [next_iff_serves]
  exact serves_or_full s 1 Nat.one_pos chain

/-- A run begins at a free frame. -/
theorem PoolsReady.serves_free (h : PoolsReady s) {pages alignment : Nat} {chain : List PoolId}
    (hpages : 0 < pages) (hserves : s.Serves pages alignment p idx chain) :
    s.status p idx = 0 := by
  have hlt := hserves.lt
  obtain ⟨-, i, hfirst, rfl⟩ := hserves.firstFit
  exact status_of_fits (j := 0) (h.prevIdx_lt p) (h.layout.numPageframes_lt p) hfirst.fits hpages
    hlt

/-- The search stops at a free frame. -/
theorem PoolsReady.next_free (h : PoolsReady s) {chain : List PoolId} (hnext : s.Next p idx chain) :
    idx < s.numPageframes p ∧ s.status p idx = 0 := by
  have hserves := next_iff_serves.mp hnext
  exact ⟨hserves.lt, h.serves_free Nat.one_pos hserves⟩

/-- A free frame fits, wherever the search begins. -/
theorem PoolsReady.fits_of_free (h : PoolsReady s) (hidx : idx < s.numPageframes p)
    (hfree : s.status p idx = 0) : ∃ i, s.Fits p 1 1 i := by
  have hprev := h.prevIdx_lt p
  have hnum : s.numPageframes p < 2 ^ 20 := h.layout.numPageframes_lt p
  have hdiv := Nat.div_add_mod (s.pool p).prevIdx (s.numPageframes p)
  have hmod : (s.pool p).prevIdx % s.numPageframes p < s.numPageframes p :=
    Nat.mod_lt _ (by omega)
  -- the way from the last frame that was handed out to this one, around the end if need be
  obtain ⟨i, hi, hsum⟩ : ∃ i < s.numPageframes p,
      ((s.pool p).prevIdx + i) % s.numPageframes p = idx := by
    by_cases hle : (s.pool p).prevIdx % s.numPageframes p ≤ idx
    · refine ⟨idx - (s.pool p).prevIdx % s.numPageframes p, by omega, ?_⟩
      have hsum : (s.pool p).prevIdx + (idx - (s.pool p).prevIdx % s.numPageframes p) =
          s.numPageframes p * ((s.pool p).prevIdx / s.numPageframes p) + idx := by omega
      rw [hsum, Nat.mul_add_mod, Nat.mod_eq_of_lt hidx]
    · refine ⟨idx + s.numPageframes p - (s.pool p).prevIdx % s.numPageframes p, by omega, ?_⟩
      have hsum : (s.pool p).prevIdx +
          (idx + s.numPageframes p - (s.pool p).prevIdx % s.numPageframes p) =
            s.numPageframes p * ((s.pool p).prevIdx / s.numPageframes p) +
              (s.numPageframes p + idx) := by omega
      rw [hsum, Nat.mul_add_mod, Nat.add_mod_left, Nat.mod_eq_of_lt hidx]
  refine ⟨i, hi, Nat.one_dvd _, ?_⟩
  intro j hj
  have hzero : j = 0 := by omega
  rw [hzero, Nat.add_zero, Nat.mod_eq_of_lt (b := 2 ^ 32) (by omega), hsum]
  exact hfree

/-- All pools are searched for high memory. -/
theorem mem_chain_hiMemPool (p : PoolId) : p ∈ PoolId.hiMemPool.chain := by
  cases p with
  | dmaPool => decide
  | defaultPool => decide
  | hiMemPool => decide

/-- Taking one frame: its address, and its mark. -/
theorem PoolsReady.takeRun_one (h : PoolsReady s) (hidx : idx < s.numPageframes p) :
    (s.takeRun p 1 idx).1 = (s.pool p).frameStart idx ∧
      (s.takeRun p 1 idx).2.status p idx = 1 := by
  obtain ⟨haddr, hstatus⟩ := takeRun_spec h.layout hidx (show idx + 1 ≤ _ from hidx)
  refine ⟨haddr, ?_⟩
  rw [hstatus p idx hidx, if_pos ⟨rfl, Nat.le_refl _, Nat.lt_succ_self _⟩]

/-- Frames begin at page boundaries. -/
theorem PoolsReady.frameStart_aligned (h : PoolsReady s) (hidx : idx < s.numPageframes p) :
    (s.pool p).frameStart idx % pageSize = 0 ∧ (s.pool p).frameStart idx < 2 ^ 32 := by
  have hbase := h.aligned p (by omega)
  have htop := h.layout.pool_top_lt p
  have hlt := Layout.frameStart_lt_top s.pool hidx
  simp only [PhysicalPool.frameStart, pageSize] at hbase hlt ⊢
  omega

end Next

end TimbOS.Native.Physical
