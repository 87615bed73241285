import TimbOS.ForStd.Transition
import TimbOS.Spec.PhysicalRuns

/-!
# Aligned allocations

The search of `PhysicalPool::alloc` begins at `_prev_idx`, looks at every position that is a
multiple of the alignment, and takes it modulo the size of the pool. If the alignment divides the
size, these are all aligned frames, whatever `_prev_idx` is, so that an aligned run of free frames
is found. If it does not, the positions behind the end of the pool are other frames, which are not
aligned. In any case frames are counted from the base of the pool.

## Key results

- `exists_fits_of_run`: the search comes to every aligned run
- `alloc_complete`: a call fails only if there is no such run
- `aligned_frame_iff`: the frames that the search takes for aligned
- `alignment_iff`: exactly which calls return aligned addresses
- `alignment_broken`: a pool that does not begin at a multiple of the alignment
-/

namespace TimbOS.Native.Physical

open ForStd Multiboot

/-! ## What can be found -/

/-- Pools that can be searched: they lie in the address space, the search begins in the pool, and
    the frame at address 0, which is the one that `alloc` cannot return, is in use. -/
structure Searchable (s : State) : Prop where
  top_le : ∀ p, (s.pool p).top ≤ 2 ^ 32
  prevIdx_lt : ∀ p, 0 < s.numPageframes p → (s.pool p).prevIdx < s.numPageframes p
  frameZero : ∀ p, 0 < s.numPageframes p → (s.pool p).base = 0 → s.Used p 0

/-- The pool contains `pages` consecutive free frames, the first index a multiple of `align`. -/
def State.HasRun (s : State) (p : PoolId) (pages align : Nat) : Prop :=
  ∃ first, align ∣ first ∧ first + pages ≤ s.numPageframes p ∧
    ∀ j < pages, s.status p (first + j) = 0

section Complete

variable {s s' : State} {p : PoolId} {pages align i : Nat}

theorem Searchable.numPageframes_le (h : Searchable s) (p : PoolId) :
    s.numPageframes p ≤ 2 ^ 20 := by
  have htop := h.top_le p
  simp only [PhysicalPool.top, PhysicalPool.frameStart, pageSize] at htop
  simp only [State.numPageframes]
  omega

/-- If the alignment divides the number of frames, the search comes to every aligned run. -/
theorem exists_fits_of_run (h : Searchable s) (hpages : 0 < pages)
    (hdvd : align ∣ s.numPageframes p) (hrun : s.HasRun p pages align) :
    ∃ i, s.Fits p pages align i := by
  obtain ⟨first, halign, hend, hfree⟩ := hrun
  have hprev := h.prevIdx_lt p (by omega)
  have hnum := h.numPageframes_le p
  -- the position of the first frame, which may lie behind the end of the pool
  obtain ⟨i, hi, hpos⟩ : ∃ i < s.numPageframes p, (s.pool p).prevIdx + i = first ∨
      (s.pool p).prevIdx + i = first + s.numPageframes p := by
    by_cases hle : (s.pool p).prevIdx ≤ first
    · exact ⟨first - (s.pool p).prevIdx, by omega, by omega⟩
    · exact ⟨first + s.numPageframes p - (s.pool p).prevIdx, by omega, by omega⟩
  refine ⟨i, hi, ?_, ?_⟩
  · rcases hpos with hpos | hpos
    · rw [hpos]
      exact halign
    · rw [hpos]
      exact Nat.dvd_add halign hdvd
  · intro j hj
    have hframe : ((s.pool p).prevIdx + i + j) % 2 ^ 32 % s.numPageframes p = first + j := by
      rw [Nat.mod_eq_of_lt (b := 2 ^ 32) (by omega)]
      rcases hpos with hpos | hpos
      · rw [hpos, Nat.mod_eq_of_lt (by omega)]
      · rw [hpos, Nat.add_right_comm, Nat.add_mod_right, Nat.mod_eq_of_lt (by omega)]
    rw [hframe]
    exact hfree j hj

/-- What a search finds has an address that is not 0. -/
theorem address_ne_zero (h : Searchable s) (hpages : 0 < pages) (hfits : s.Fits p pages align i) :
    (s.takeRun p pages (((s.pool p).prevIdx + i) % s.numPageframes p)).1 ≠ 0 := by
  have hlt := hfits.lt
  have hnum := h.numPageframes_le p
  have hprev := h.prevIdx_lt p (by omega)
  have hidx := Nat.mod_lt ((s.pool p).prevIdx + i) (Nat.zero_lt_of_lt hlt)
  have hfree := hfits.free 0 hpages
  rw [Nat.add_zero, Nat.mod_eq_of_lt (b := 2 ^ 32) (by omega)] at hfree
  generalize ((s.pool p).prevIdx + i) % s.numPageframes p = idx at hidx hfree ⊢
  have htop := h.top_le p
  have hend := Layout.frameStart_lt_top s.pool hidx
  simp only [State.takeRun, pool_fill, PhysicalPool.addressOf, add32]
  simp only [PhysicalPool.frameStart, pageSize] at hend ⊢
  intro hzero
  -- the address does not wrap around, so that it is the frame 0 of a pool at 0
  obtain ⟨hbase, rfl⟩ : (s.pool p).base = 0 ∧ idx = 0 := by omega
  exact h.frameZero p (by omega) hbase hfree

/-- A call on a pool with an aligned run succeeds, and does not ask the fallback. So the three
    functions return 0 only if no pool of their chain has such a run. -/
theorem alloc_complete (h : Searchable s) (hpages : 0 < pages) (halign : 0 < align) :
    (∀ p, align ∣ s.numPageframes p → s.HasRun p pages align →
      ∃ r, r.1 ≠ 0 ∧ ∀ fallbacks, s.allocFrom pages align (p :: fallbacks) = some r) ∧
    ∀ q s', s.allocPool q pages align = some (0, s') →
      ∀ p ∈ q.chain, align ∣ s.numPageframes p → ¬ s.HasRun p pages align := by
  constructor
  · intro p hdvd hrun
    obtain ⟨i, hfits⟩ := exists_fits_of_run h hpages hdvd hrun
    rcases search_spec s p pages halign with ⟨first, -, hfirst⟩ | ⟨-, hno⟩
    · exact ⟨_, address_ne_zero h hpages hfirst.fits, allocFrom_of_firstFit halign hfirst⟩
    · exact absurd hfits (hno i)
  · intro q s' hzero p hp hdvd hrun
    -- the first pool of the chain where anything fits would have served the call
    obtain ⟨i, hfits⟩ := exists_fits_of_run h hpages hdvd hrun
    rcases serves_or_full s pages halign q.chain with ⟨r, idx, hserves⟩ | ⟨hfull, -⟩
    · rw [State.allocPool, allocFrom_of_serves halign hserves] at hzero
      obtain ⟨-, k, hfirst, rfl⟩ := hserves.firstFit
      exact address_ne_zero h hpages hfirst.fits (congrArg Prod.fst (Option.some.inj hzero))
    · exact hfull p hp i hfits

end Complete

/-- A pool chain whose DMA pool has its frame 0 in use can be searched. -/
theorem searchable_of_layout {s : State} (L : Layout s.pool)
    (hprev : ∀ p, 0 < s.numPageframes p → (s.pool p).prevIdx < s.numPageframes p)
    (hdma : 0 < s.numPageframes .dmaPool) (hzero : s.Used .dmaPool 0) : Searchable s := by
  refine ⟨fun p => Nat.le_of_lt (L.pool_top_lt p), hprev, ?_⟩
  -- the other pools lie behind the frame 0
  have hfirst : pageSize ≤ (s.pool .dmaPool).top :=
    Nat.le_trans (Nat.le_add_left _ _) (Layout.frameStart_lt_top s.pool hdma)
  have hdefault : (s.pool .dmaPool).top ≤ (s.pool .defaultPool).base := L.gapStart_le .defaultPool
  have hhimem : (s.pool .defaultPool).top ≤ (s.pool .hiMemPool).base := L.gapStart_le .hiMemPool
  have htop : (s.pool .defaultPool).base ≤ (s.pool .defaultPool).top := Nat.le_add_right _ _
  simp only [pageSize] at hfirst
  intro p _ hbase
  cases p with
  | dmaPool => exact hzero
  | defaultPool => omega
  | hiMemPool => omega

/-- The pools of the small machine can be searched. -/
theorem small_searchable {s₀ : State} (h : init smallMap smallInfo (fun _ => 0) noPools 0x200000
    0x01002000 0x01002000 = some s₀) : Searchable s₀ := by
  obtain ⟨list, -, hpool, hused⟩ := init_eq (by decide) (Nat.le_refl _) (by decide) h
  have hnum : ∀ p, s₀.numPageframes p = poolPages 0x01002000 0x01002000 p := by
    intro p
    rw [State.numPageframes, hpool, numPageframes_bootPools]
  apply searchable_of_layout
  · rw [hpool]
    exact layout_bootPools _ (Nat.le_refl _) (by decide)
  · intro p hpos
    rw [hpool]
    exact hpos
  · rw [hnum]
    decide
  · -- the kernel is reserved from address 0 on
    exact (hused .dmaPool 0 (by decide)).mpr
      ⟨0, .inr ⟨0, by decide, rfl⟩, Nat.le_refl _, by decide⟩

/-- The buffer of the floppy driver: 16 pages of the DMA pool, at a multiple of 16 pages. -/
theorem alloc_complete_small : ∃ s₀, init smallMap smallInfo (fun _ => 0) noPools 0x200000
    0x01002000 0x01002000 = some s₀ ∧ ∃ r, r.1 ≠ 0 ∧
      ∀ fallbacks, s₀.allocFrom 16 16 (.dmaPool :: fallbacks) = some r := by
  obtain ⟨s₀, h⟩ := small_init
  have hpool := small_pool h
  refine ⟨s₀, h, (alloc_complete (small_searchable h) (by decide) (by decide)).1 .dmaPool ?_ ?_⟩
  · rw [State.numPageframes, hpool]
    decide
  · refine ⟨0x210, by decide, ?_, ?_⟩
    · rw [State.numPageframes, hpool]
      decide
    · intro j hj
      refine small_free h (p := .dmaPool) ?_ ?_
      · rw [show poolPages 0x01002000 0x01002000 .dmaPool = 0x1000 by decide]
        omega
      · rw [show (bootPools 0x200000 0x01002000 0x01002000 .dmaPool).frameStart (0x210 + j) =
          0 + (0x210 + j) * 0x1000 from rfl]
        omega

/-! ## What is aligned -/

/-- The frame at a position of the search has an aligned address: the base of the pool has one,
    or, behind the end of the pool, its base and its size leave the same remainder. -/
def State.PositionAligned (s : State) (p : PoolId) (align i : Nat) : Prop :=
  if (s.pool p).prevIdx + i < s.numPageframes p then
    align * pageSize ∣ (s.pool p).base
  else
    (s.pool p).base ≡ s.numPageframes p * pageSize [MOD align * pageSize]

/-- The position that serves a request is that of an aligned address. -/
def State.KeepsAlignment (s : State) (pages align : Nat) : List PoolId → Prop
  | [] => True
  | p :: fallbacks =>
    (∀ i, s.FirstFit p pages align i → s.PositionAligned p align i) ∧
    ((∀ i, ¬ s.Fits p pages align i) → s.KeepsAlignment pages align fallbacks)

section Aligned

variable {s : State} {p : PoolId} {pages align i : Nat}

/-- The frames that the search takes for aligned, exactly when they are. -/
theorem aligned_frame_iff (hprev : (s.pool p).prevIdx < s.numPageframes p)
    (hi : i < s.numPageframes p) (hdvd : align ∣ (s.pool p).prevIdx + i) :
    align * pageSize ∣ (s.pool p).frameStart (((s.pool p).prevIdx + i) % s.numPageframes p) ↔
      s.PositionAligned p align i := by
  have hbytes : align * pageSize ∣ ((s.pool p).prevIdx + i) * pageSize :=
    Nat.mul_dvd_mul_right hdvd pageSize
  rw [PhysicalPool.frameStart, State.PositionAligned]
  by_cases hlt : (s.pool p).prevIdx + i < s.numPageframes p
  · rw [if_pos hlt, Nat.mod_eq_of_lt hlt]
    exact Nat.dvd_add_left hbytes
  · -- the frame lies as far before the position as the pool is large
    rw [if_neg hlt]
    have hback : ((s.pool p).prevIdx + i) % s.numPageframes p * pageSize +
        s.numPageframes p * pageSize = ((s.pool p).prevIdx + i) * pageSize := by
      rw [Nat.mod_eq_sub_mod (by omega), Nat.mod_eq_of_lt (by omega), ← Nat.add_mul]
      congr 1
      omega
    have hzero : ((s.pool p).prevIdx + i) % s.numPageframes p * pageSize +
        s.numPageframes p * pageSize ≡ 0 [MOD align * pageSize] := by
      rw [hback]
      exact (Nat.modEq_zero_iff_dvd).mpr hbytes
    rw [← Nat.modEq_zero_iff_dvd]
    constructor
    · intro h
      apply Nat.ModEq.add_right_cancel'
        (((s.pool p).prevIdx + i) % s.numPageframes p * pageSize)
      rw [Nat.add_comm (s.numPageframes p * pageSize)]
      exact h.trans hzero.symm
    · intro h
      rw [Nat.add_comm]
      exact (h.add_left _).trans hzero

theorem keepsAlignment_iff (hprev : ∀ p, 0 < s.numPageframes p →
    (s.pool p).prevIdx < s.numPageframes p) (chain : List PoolId) :
    s.KeepsAlignment pages align chain ↔ ∀ p idx, s.Serves pages align p idx chain →
      align * pageSize ∣ (s.pool p).frameStart idx := by
  have hone : ∀ q i, s.FirstFit q pages align i →
      (align * pageSize ∣ (s.pool q).frameStart (((s.pool q).prevIdx + i) % s.numPageframes q) ↔
        s.PositionAligned q align i) := by
    intro q i hfirst
    have hlt := hfirst.fits.lt
    exact aligned_frame_iff (hprev q (by omega)) hlt hfirst.fits.aligned
  induction chain with
  | nil => exact ⟨fun _ _ _ h => h.elim, fun _ => trivial⟩
  | cons q fallbacks ih =>
    constructor
    · rintro ⟨hfirst, hrest⟩ p idx (⟨i, hi, rfl, rfl⟩ | ⟨hno, hserves⟩)
      · exact (hone q i hi).mpr (hfirst i hi)
      · exact ih.mp (hrest hno) p idx hserves
    · intro h
      refine ⟨fun i hi => (hone q i hi).mp (h q _ (.inl ⟨i, hi, rfl, rfl⟩)), fun hno => ?_⟩
      exact ih.mpr fun p idx hserves => h p idx (.inr ⟨hno, hserves⟩)

end Aligned

/-! ## All calls after `init` -/

/-- The allocator after `init`, with calls that pass a page at least and an alignment, and with
    blocks freed that need not have been allocated. -/
def requests (s₀ : State) : Machine State Op Nat Unit where
  init := fun s => s = s₀
  legal := fun _ op =>
    match op with
    | .alloc _ pages align => 0 < pages ∧ pages < 2 ^ 32 ∧ 0 < align ∧ align < 2 ^ 32
    | .free _ => True
  step := fun s op =>
    match op with
    | .alloc p pages align => (s.allocPool p pages align).elim (.error ()) .ok
    | .free b => .ok (0, s.free b.addr b.pages)

/-- What every call keeps, also one that is served by a run past the end of a pool. -/
structure Serviceable (s : State) : Prop where
  layout : Layout s.pool
  prevIdx_lt : ∀ p, 0 < s.numPageframes p → (s.pool p).prevIdx < s.numPageframes p

section Requests

variable {boot mem : Mem} {mbt : MultibootInfo} {pool : PoolId → PhysicalPool}
  {kernelStaticEnd kernelDynamicEnd himemEnd : Nat} {s₀ s : State}

theorem Serviceable.takeRun (h : Serviceable s) (p : PoolId) (pages idx : Nat) :
    Serviceable (s.takeRun p pages idx).2 := by
  refine ⟨h.layout.congr (takeRun_sameFrames s p pages idx), ?_⟩
  intro q hq
  rw [numPageframes_takeRun] at hq ⊢
  rw [takeRun_prevIdx]
  split
  · rename_i heq
    rw [← heq]
    exact Nat.mod_lt _ hq
  · exact h.prevIdx_lt q hq

theorem Serviceable.free (h : Serviceable s) (a pages : Nat) : Serviceable (s.free a pages) := by
  have hpool : (s.free a pages).pool = s.pool := pool_free s a pages
  constructor
  · rw [hpool]
    exact h.layout
  · simp only [State.numPageframes, hpool]
    exact h.prevIdx_lt

theorem Serviceable.init (hstatic : kernelStaticEnd < 2 ^ 32) (hle : kernelDynamicEnd ≤ himemEnd)
    (hend : himemEnd < 2 ^ 32)
    (h : init boot mbt mem pool kernelStaticEnd kernelDynamicEnd himemEnd = some s₀) :
    Serviceable s₀ := by
  obtain ⟨-, -, hpool, -⟩ := init_eq hstatic hle hend h
  constructor
  · rw [hpool]
    exact layout_bootPools kernelStaticEnd hle hend
  · intro p hp
    rw [hpool]
    exact hp

theorem reachable_serviceable (hstatic : kernelStaticEnd < 2 ^ 32)
    (hle : kernelDynamicEnd ≤ himemEnd) (hend : himemEnd < 2 ^ 32)
    (h : init boot mbt mem pool kernelStaticEnd kernelDynamicEnd himemEnd = some s₀)
    (hs : (requests s₀).Reachable s) : Serviceable s := by
  refine hs.invariant ?_ ?_
  · rintro s rfl
    exact Serviceable.init hstatic hle hend h
  · intro s op a s' hi hlegal hstep
    cases op with
    | alloc p pages align =>
      -- nothing changes if the call fails, and a run is taken if it does not
      rcases allocFrom_cases s pages hlegal.2.2.1 p.chain with hzero | ⟨q, i, -, heq, -⟩
      · simp only [requests, State.allocPool, hzero] at hstep
        cases hstep
        exact hi
      · simp only [requests, State.allocPool, heq] at hstep
        cases hstep
        exact hi.takeRun q pages _
    | free b =>
      cases hstep
      exact hi.free b.addr b.pages

/-- A call that is served returns the address of the frame. -/
theorem allocPool_of_serves (L : Layout s.pool) {p q : PoolId} {pages align idx : Nat}
    (halign : 0 < align) (h : s.Serves pages align q idx p.chain) :
    s.allocPool p pages align =
      some ((s.pool q).frameStart idx, (s.takeRun q pages idx).2) := by
  rw [State.allocPool, allocFrom_of_serves halign h]
  exact congrArg some (Prod.ext (takeRun_address L h.lt pages) rfl)

/-- In every state after `init` a call returns an aligned address, or 0, exactly if the position
    that serves it is that of an aligned address. -/
theorem alignment_iff (hstatic : kernelStaticEnd < 2 ^ 32) (hle : kernelDynamicEnd ≤ himemEnd)
    (hend : himemEnd < 2 ^ 32)
    (h : init boot mbt mem pool kernelStaticEnd kernelDynamicEnd himemEnd = some s₀)
    (hs : (requests s₀).Reachable s) (p : PoolId) {pages align : Nat}
    (hlegal : (requests s₀).legal s (.alloc p pages align)) :
    (∀ a s', s.allocPool p pages align = some (a, s') → a ≠ 0 → align * pageSize ∣ a) ↔
      s.KeepsAlignment pages align p.chain := by
  have hi := reachable_serviceable hstatic hle hend h hs
  have halign : 0 < align := hlegal.2.2.1
  rw [keepsAlignment_iff hi.prevIdx_lt]
  constructor
  · intro hall q idx hserves
    -- the call returns the address of this frame, and 0 is a multiple of everything
    have hcall := hall _ _ (allocPool_of_serves hi.layout halign hserves)
    by_cases hzero : (s.pool q).frameStart idx = 0
    · rw [hzero]
      exact Nat.dvd_zero _
    · exact hcall hzero
  · intro haligned a s' hcall ha
    rcases serves_or_full s pages halign p.chain with ⟨q, idx, hserves⟩ | ⟨-, hzero⟩
    · rw [allocPool_of_serves hi.layout halign hserves] at hcall
      cases hcall
      exact haligned q idx hserves
    · -- nothing fits anywhere, and the result is 0
      rw [State.allocPool, hzero] at hcall
      cases hcall
      exact absurd rfl ha

end Requests

/-! ## A pool at 16 MiB -/

/-- A page at a multiple of 16 MiB is found. -/
theorem alignment_small : ∃ s₀, init smallMap smallInfo (fun _ => 0) noPools 0x200000
    0x01002000 0x01002000 = some s₀ ∧ ∀ a s', s₀.allocPool .defaultPool 1 0x1000 = some (a, s') →
      a ≠ 0 → 0x1000 * pageSize ∣ a := by
  obtain ⟨s₀, h⟩ := small_init
  have hpool := small_pool h
  have hfirst := small_firstFit h 1 0x1000
  refine ⟨s₀, h, (alignment_iff (by decide) (Nat.le_refl _) (by decide) h (.init rfl)
    .defaultPool ⟨by decide, by decide, by decide, by decide⟩).mpr ⟨?_, ?_⟩⟩
  · intro i hi
    rw [← hfirst.unique hi, State.PositionAligned, State.numPageframes, hpool]
    decide
  · intro hno
    exact absurd hfirst.fits (hno 0)

/-- A page at a multiple of 32 MiB is found at 16 MiB, where the pool begins. -/
theorem alignment_broken : ¬ ∀ boot mbt mem pool kernelStaticEnd kernelDynamicEnd himemEnd s₀ s p
    pages align a s', kernelStaticEnd < 2 ^ 32 → kernelDynamicEnd ≤ himemEnd →
    himemEnd < 2 ^ 32 →
    init boot mbt mem pool kernelStaticEnd kernelDynamicEnd himemEnd = some s₀ →
    (requests s₀).Reachable s → (requests s₀).legal s (.alloc p pages align) →
    s.allocPool p pages align = some (a, s') → a ≠ 0 → align * pageSize ∣ a := by
  intro hclaim
  obtain ⟨s₀, h⟩ := small_init
  have hpool := small_pool h
  have hfirst := small_firstFit h 1 0x2000
  have hlegal : (requests s₀).legal s₀ (.alloc .defaultPool 1 0x2000) :=
    ⟨by decide, by decide, by decide, by decide⟩
  have hserves : s₀.Serves 1 0x2000 .defaultPool 0 (PoolId.chain .defaultPool) :=
    Or.inl ⟨0, hfirst, rfl, by rw [hpool]; exact Nat.zero_mod _⟩
  have hcall : s₀.allocPool .defaultPool 1 0x2000 =
      some (0x01000000, (s₀.takeRun .defaultPool 1 0).2) := by
    rw [allocPool_of_serves (Serviceable.init (by decide) (Nat.le_refl _) (by decide) h).layout
      (by decide) hserves, hpool]
    rfl
  have hdvd := hclaim _ _ _ _ _ _ _ s₀ s₀ .defaultPool 1 0x2000 _ _ (by decide) (Nat.le_refl _)
    (by decide) h (.init rfl) hlegal hcall (by decide)
  exact absurd hdvd (by decide)

end TimbOS.Native.Physical
