import TimbOS.ForStd.Transition
import TimbOS.Spec.PhysicalAlloc
import TimbOS.Spec.PhysicalReserve

/-!
# Runs of the page frame allocator

Calls in any order and of any size, on the pools that `init` leaves. As long as no call is
served by a run that passes the end of its pool, no frame is handed out twice.

## Key results

- `allocPool_granted`: one call
- `Inv.step`, `reachable_inv`: what every call keeps
- `alloc_exact`: every call of a run
- `run_leaves_pool`: a call that is served past the end of its pool
-/

namespace TimbOS.Native.Physical

open ForStd Multiboot

/-- A block of page frames: its address and their number. -/
structure Block where
  addr : Nat
  pages : Nat
  deriving DecidableEq, Repr

/-- The address of a frame of a block. -/
def Block.frame (b : Block) (i : Nat) : Nat := b.addr + i * pageSize

/-- Two blocks have no frame in common. -/
def Block.Disjoint (b c : Block) : Prop := ∀ i < b.pages, ∀ j < c.pages, b.frame i ≠ c.frame j

/-- The allocator and the blocks that it returned and that are not freed yet. -/
structure World where
  state : State
  live : List Block

inductive Op where
  /-- `alloc_dma`, `alloc` or `alloc_himem`, by the pool that is asked first. -/
  | alloc (p : PoolId) (pages align : Nat)
  | free (b : Block)

namespace World

def step (w : World) : Op → Except Unit (Nat × World)
  | .alloc p pages align =>
    match w.state.allocPool p pages align with
    | some (a, s) => .ok (a, ⟨s, if a = 0 then w.live else ⟨a, pages⟩ :: w.live⟩)
    | none => .error ()
  | .free b => .ok (0, ⟨w.state.free b.addr b.pages, w.live.erase b⟩)

/-- What callers promise: a page at least, and blocks that they own are freed. -/
def Callable (w : World) : Op → Prop
  | .alloc _ pages align => 0 < pages ∧ pages < 2 ^ 32 ∧ 0 < align ∧ align < 2 ^ 32
  | .free b => b ∈ w.live

/-- The call is not served by a run that passes the end of its pool. -/
def Inside (w : World) : Op → Prop
  | .alloc p pages align => w.state.StaysInside pages align p.chain
  | .free _ => True

end World

/-- The allocator from the state `s₀` on. -/
def machine (s₀ : State) : Machine World Op Nat Unit where
  init := fun w => w = ⟨s₀, []⟩
  legal := fun w op => w.Callable op ∧ w.Inside op
  step := World.step

/-- What a call that returns `a` has done: the frames from `a` on are frames of one pool, they
    were not in use, they are now, and no other word of the bitmaps has changed. -/
def Granted (w : World) (s : State) (a pages : Nat) : Prop :=
  ∃ p first, a = (w.state.pool p).addressOf first ∧
    (∀ j < pages, (w.state.pool p).base ≤ a + j * pageSize ∧
      a + j * pageSize < (w.state.pool p).limit) ∧
    (∀ j < pages, w.state.status p (first + j) = 0) ∧
    (∀ q k, k < w.state.numPageframes q → s.status q k =
      if q = p ∧ first ≤ k ∧ k < first + pages then 1 else w.state.status q k) ∧
    ∀ b ∈ w.live, Block.Disjoint ⟨a, pages⟩ b

/-! ## The invariant -/

/-- The block consists of frames of a pool, all of them in use. -/
def Held (s : State) (b : Block) : Prop :=
  ∃ p first, first + b.pages ≤ s.numPageframes p ∧ b.addr = (s.pool p).frameStart first ∧
    ∀ i < b.pages, s.Used p (first + i)

structure Inv (w : World) : Prop where
  layout : Layout w.state.pool
  prevIdx_lt : ∀ p, (w.state.pool p).prevIdx < 2 ^ 20
  held : ∀ b ∈ w.live, 0 < b.pages ∧ Held w.state b
  disjoint : w.live.Pairwise Block.Disjoint

theorem Block.Disjoint.symm {b c : Block} (h : b.Disjoint c) : c.Disjoint b :=
  fun i hi j hj heq => h j hj i hi heq.symm

section Step

variable {w : World}

/-- A frame of a block is the frame of a pool. -/
theorem Block.frame_eq {s : State} {p : PoolId} {first : Nat} {b : Block}
    (h : b.addr = (s.pool p).frameStart first) (i : Nat) :
    b.frame i = (s.pool p).frameStart (first + i) := by
  simp only [Block.frame, h, PhysicalPool.frameStart, pageSize]
  omega

/-- Blocks of the same frames are those of the same pool whose ranges meet. -/
theorem Layout.frameStart_unique {s : State} (L : Layout s.pool) {p q : PoolId} {i j : Nat}
    (hi : i < s.numPageframes p) (hj : j < s.numPageframes q)
    (h : (s.pool p).frameStart i = (s.pool q).frameStart j) : p = q ∧ i = j := by
  have hin := (L.inFrame_frameStart (p := p) hi hi).mpr ⟨rfl, rfl⟩
  have hin' := (L.inFrame_frameStart (p := q) hj hj).mpr ⟨rfl, rfl⟩
  rw [← h] at hin'
  exact L.inFrame_unique hi hj hin hin'

/-- A block of free frames shares no frame with a block that is held. -/
private theorem disjoint_of_free {s : State} (L : Layout s.pool) {p : PoolId} {first : Nat}
    {b c : Block} (hin : first + b.pages ≤ s.numPageframes p)
    (haddr : b.addr = (s.pool p).frameStart first)
    (hfree : ∀ i < b.pages, s.status p (first + i) = 0) (hc : Held s c) : b.Disjoint c := by
  obtain ⟨q, first', hin', haddr', hused⟩ := hc
  intro i hi j hj heq
  rw [Block.frame_eq haddr, Block.frame_eq haddr'] at heq
  obtain ⟨rfl, hidx⟩ := L.frameStart_unique (by omega) (by omega) heq
  have hu := hused j hj
  rw [← hidx] at hu
  exact hu (hfree i hi)

/-- What a call does whose run stays inside its pool. -/
theorem allocPool_granted (hi : Inv w) {p : PoolId} {pages align : Nat} (halign : 0 < align)
    (hin : w.state.StaysInside pages align p.chain) :
    ∃ a s, w.state.allocPool p pages align = some (a, s) ∧
      (∀ q, (w.state.pool q).SameFrames (s.pool q)) ∧
      (∀ q, (s.pool q).prevIdx < 2 ^ 20) ∧
      (a = 0 ∧ s = w.state ∨ ∃ q ∈ p.chain, ∃ first, first + pages ≤ w.state.numPageframes q ∧
        a = (w.state.pool q).frameStart first ∧
        (∀ j < pages, w.state.status q (first + j) = 0) ∧
        ∀ r k, k < w.state.numPageframes r → s.status r k =
          if r = q ∧ first ≤ k ∧ k < first + pages then 1 else w.state.status r k) := by
  rcases allocFrom_cases w.state pages halign p.chain with
    hzero | ⟨q, i, hfirst, heq, hstays, hmem⟩
  · exact ⟨0, w.state, hzero, fun q => ⟨rfl, rfl, rfl⟩, hi.prevIdx_lt, Or.inl ⟨rfl, rfl⟩⟩
  · have hend := hstays hin
    have hnum := hi.layout.numPageframes_lt q
    have hidx : ((w.state.pool q).prevIdx + i) % w.state.numPageframes q <
        w.state.numPageframes q := Nat.mod_lt _ (by have hlt := hfirst.fits.lt; omega)
    obtain ⟨haddr, hstatus⟩ := takeRun_spec hi.layout hidx hend
    refine ⟨(w.state.takeRun q pages _).1, (w.state.takeRun q pages _).2, heq,
      takeRun_sameFrames _ _ _ _, ?_, Or.inr ⟨q, hmem, _, hend, haddr, ?_, hstatus⟩⟩
    · intro r
      rw [takeRun_prevIdx]
      split
      · exact Nat.lt_trans (Nat.mod_lt _ (by omega)) hnum
      · exact hi.prevIdx_lt r
    · intro j hj
      exact status_of_fits (hi.prevIdx_lt q) hnum hfirst.fits hj (by omega)

/-- Blocks stay held as long as their pools stay the same and their frames in use. -/
theorem Held.mono {s s' : State} {b : Block} (h : Held s b)
    (hsame : ∀ q, (s.pool q).SameFrames (s'.pool q))
    (hused : ∀ q k, k < s.numPageframes q → (∃ i < b.pages, (s.pool q).frameStart k = b.frame i) →
      s.Used q k → s'.Used q k) : Held s' b := by
  obtain ⟨q, first, hin, haddr, hall⟩ := h
  obtain ⟨hbase, hnum, -⟩ := hsame q
  refine ⟨q, first, ?_, ?_, ?_⟩
  · rw [State.numPageframes, hnum]
    exact hin
  · rw [haddr, PhysicalPool.frameStart, PhysicalPool.frameStart, hbase]
  · intro i hi
    exact hused q (first + i) (by omega) ⟨i, hi, (Block.frame_eq haddr i).symm⟩ (hall i hi)

/-- A call of an allocation function keeps the invariant. -/
private theorem Inv.alloc (hi : Inv w) {p : PoolId} {pages align : Nat}
    (hc : w.Callable (.alloc p pages align)) (hin : w.Inside (.alloc p pages align)) :
    ∃ a w', w.step (.alloc p pages align) = .ok (a, w') ∧ Inv w' := by
  obtain ⟨hpages, -, halign, -⟩ := hc
  obtain ⟨a, s, heq, hsame, hprev, hcase⟩ := allocPool_granted hi halign hin
  refine ⟨a, _, by rw [World.step, heq], ?_⟩
  have hlayout := hi.layout.congr hsame
  rcases hcase with ⟨rfl, rfl⟩ | ⟨q, -, first, hend, haddr, hfree, hstatus⟩
  · exact ⟨hlayout, hprev, hi.held, hi.disjoint⟩
  · -- nothing that was in use is free now
    have hmono : ∀ r k, k < w.state.numPageframes r → w.state.Used r k → s.Used r k := by
      intro r k hk hu
      rw [State.Used, hstatus r k hk]
      split
      · exact one_ne_zero
      · exact hu
    have hold : ∀ b ∈ w.live, 0 < b.pages ∧ Held s b := by
      intro b hb
      obtain ⟨hpos, hheld⟩ := hi.held b hb
      exact ⟨hpos, hheld.mono hsame fun r k hk _ hu => hmono r k hk hu⟩
    by_cases hzero : a = 0
    · rw [if_pos hzero]
      exact ⟨hlayout, hprev, hold, hi.disjoint⟩
    · rw [if_neg hzero]
      refine ⟨hlayout, hprev, ?_, ?_⟩
      · intro b hb
        rcases List.mem_cons.mp hb with rfl | hb
        · obtain ⟨hbase, hnum, -⟩ := hsame q
          refine ⟨hpages, q, first, ?_, ?_, ?_⟩
          · rw [State.numPageframes, hnum]
            exact hend
          · rw [haddr, PhysicalPool.frameStart, PhysicalPool.frameStart, hbase]
          · intro j hj
            have hlt : j < pages := hj
            rw [State.Used, hstatus q (first + j) (by omega), if_pos ⟨rfl, by omega⟩]
            exact one_ne_zero
        · exact hold b hb
      · rw [List.pairwise_cons]
        refine ⟨?_, hi.disjoint⟩
        intro b hb
        exact disjoint_of_free hi.layout hend haddr hfree (hi.held b hb).2

/-- Freeing a block that is live keeps the invariant of the others. -/
theorem Inv.free {rest : List Block} (hi : Inv w) {b : Block} (hperm : w.live.Perm (b :: rest)) :
    Inv ⟨w.state.free b.addr b.pages, rest⟩ := by
  obtain ⟨-, p, first, hend, haddr, -⟩ := hi.held b (hperm.mem_iff.mpr List.mem_cons_self)
  have hpool : (w.state.free b.addr b.pages).pool = w.state.pool := pool_free _ _ _
  have hpair := (hperm.pairwise_iff fun h => Block.Disjoint.symm h).mp hi.disjoint
  obtain ⟨hfirst, hrest⟩ := List.pairwise_cons.mp hpair
  refine ⟨by rw [hpool]; exact hi.layout, by rw [hpool]; exact hi.prevIdx_lt, ?_, hrest⟩
  intro c hc
  obtain ⟨hpos, hheld⟩ := hi.held c (hperm.mem_iff.mpr (List.mem_cons_of_mem b hc))
  refine ⟨hpos, hheld.mono (fun q => by rw [hpool]; exact ⟨rfl, rfl, rfl⟩) ?_⟩
  rintro q k hk ⟨j, hj, hframe⟩ hu
  rw [State.Used, haddr, status_free hi.layout hend hk, if_neg]
  · exact hu
  · -- the frame is one of `c`, which shares none with `b`
    rintro ⟨rfl, hlow, hhigh⟩
    apply hfirst c hc (k - first) (by omega) j hj
    rw [← hframe, Block.frame_eq haddr]
    congr 1
    omega

theorem Inv.step (hi : Inv w) {op : Op} (hc : w.Callable op) (hin : w.Inside op) :
    ∃ a w', w.step op = .ok (a, w') ∧ Inv w' := by
  cases op with
  | alloc p pages align => exact hi.alloc hc hin
  | free b => exact ⟨0, _, rfl, hi.free (List.perm_cons_erase hc)⟩

end Step

section Boot

variable {boot mem : Mem} {mbt : MultibootInfo} {pool : PoolId → PhysicalPool}
  {kernelStaticEnd kernelDynamicEnd himemEnd : Nat} {s₀ : State} {w : World}

theorem Inv.init (hstatic : kernelStaticEnd < 2 ^ 32) (hle : kernelDynamicEnd ≤ himemEnd)
    (hend : himemEnd < 2 ^ 32)
    (h : init boot mbt mem pool kernelStaticEnd kernelDynamicEnd himemEnd = some s₀) :
    Inv ⟨s₀, []⟩ := by
  obtain ⟨list, -, hpool, -⟩ := init_eq hstatic hle hend h
  constructor
  · rw [hpool]
    exact layout_bootPools kernelStaticEnd hle hend
  · intro p
    rw [hpool]
    exact Nat.two_pow_pos 20
  · intro b hb
    cases hb
  · exact List.Pairwise.nil

theorem reachable_inv (hstatic : kernelStaticEnd < 2 ^ 32) (hle : kernelDynamicEnd ≤ himemEnd)
    (hend : himemEnd < 2 ^ 32)
    (h : Physical.init boot mbt mem pool kernelStaticEnd kernelDynamicEnd himemEnd = some s₀)
    (hw : (machine s₀).Reachable w) : Inv w := by
  refine hw.invariant ?_ ?_
  · rintro w rfl
    exact Inv.init hstatic hle hend h
  · intro w op a w' hi hl hs
    obtain ⟨a', w'', hstep, hi'⟩ := hi.step hl.1 hl.2
    rw [show (machine s₀).step w op = .ok (a', w'') from hstep] at hs
    cases hs
    exact hi'

/-- In every run from `init` on whose calls all stay inside their pools, a call returns, and if
    its result is not `0`, it got frames of one pool that nobody used. -/
theorem alloc_exact (hstatic : kernelStaticEnd < 2 ^ 32) (hle : kernelDynamicEnd ≤ himemEnd)
    (hend : himemEnd < 2 ^ 32)
    (h : Physical.init boot mbt mem pool kernelStaticEnd kernelDynamicEnd himemEnd = some s₀)
    (hw : (machine s₀).Reachable w) {p : PoolId} {pages align : Nat}
    (hl : (machine s₀).legal w (.alloc p pages align)) :
    ∃ a s, w.state.allocPool p pages align = some (a, s) ∧ (a ≠ 0 → Granted w s a pages) := by
  have hi := reachable_inv hstatic hle hend h hw
  obtain ⟨⟨hpages, -, halign, -⟩, hin⟩ := hl
  obtain ⟨a, s, heq, -, -, hcase⟩ := allocPool_granted hi halign hin
  refine ⟨a, s, heq, ?_⟩
  intro ha
  rcases hcase with ⟨rfl, -⟩ | ⟨q, -, first, hlast, haddr, hfree, hstatus⟩
  · exact absurd rfl ha
  · refine ⟨q, first, ?_, ?_, hfree, hstatus, ?_⟩
    · rw [hi.layout.addressOf_eq (by simp only [State.numPageframes] at hlast; omega)]
      exact haddr
    · intro j hj
      rw [hi.layout.limit_eq, haddr]
      simp only [PhysicalPool.top, PhysicalPool.frameStart, State.numPageframes,
        pageSize] at hlast ⊢
      omega
    · intro b hb
      exact disjoint_of_free (b := ⟨a, pages⟩) hi.layout hlast haddr hfree (hi.held b hb).2

end Boot

/-! ## A machine with two page frames above the DMA limit -/

/-- A memory that holds a memory map at `0x500`. -/
def mapMemory (bytes : List UInt8) : Mem := fun a => bytes.getD (a - 0x500) 0

/-- All memory up to 16 MiB and 8 KiB is available. -/
def smallMap : Mem := mapMemory
  [20, 0, 0, 0, 0, 0, 0, 0, 0, 0, 0, 0, 0x00, 0x20, 0x00, 0x01, 0, 0, 0, 0, 1, 0, 0, 0]

def smallInfo : MultibootInfo := ⟨infoMemMap, 24, 0x500⟩

/-- The static pools before `init`. -/
def noPools : PoolId → PhysicalPool := fun _ => ⟨0, 0, 0, 0⟩

theorem smallMap_entries : entries smallMap smallInfo = some [⟨20, 0, 0x01002000, 1⟩] := by
  decide +kernel

/-- `init` returns on the small machine, with a kernel that ends at 2 MiB. -/
theorem small_init : ∃ s₀, init smallMap smallInfo (fun _ => 0) noPools 0x200000 0x01002000
    0x01002000 = some s₀ := by
  refine init_returns _ _ (by decide) (Nat.le_refl _) (by decide) (by decide) smallMap_entries
    ?_ (by decide)
  intro entry hentry
  rw [List.mem_singleton.mp hentry]
  decide

theorem small_pool {s₀ : State} (h : init smallMap smallInfo (fun _ => 0) noPools 0x200000
    0x01002000 0x01002000 = some s₀) : s₀.pool = bootPools 0x200000 0x01002000 0x01002000 := by
  obtain ⟨-, -, hpool, -⟩ := init_eq (by decide) (Nat.le_refl _) (by decide) h
  exact hpool

theorem alloc_exact_small : ∃ s₀, init smallMap smallInfo (fun _ => 0) noPools 0x200000 0x01002000
    0x01002000 = some s₀ ∧ ∃ a s, s₀.allocPool .defaultPool 1 1 = some (a, s) ∧
      (a ≠ 0 → Granted ⟨s₀, []⟩ s a 1) := by
  obtain ⟨s₀, h⟩ := small_init
  refine ⟨s₀, h, ?_⟩
  have hcall : World.Callable ⟨s₀, []⟩ (.alloc .defaultPool 1 1) :=
    ⟨by decide, by decide, by decide, by decide⟩
  exact alloc_exact (by decide) (Nat.le_refl _) (by decide) h (.init rfl)
    ⟨hcall, staysInside_one s₀ 1 _⟩

/-- The frames of the small machine behind the kernel and the bitmaps are free after `init`. -/
theorem small_free {s₀ : State} (h : init smallMap smallInfo (fun _ => 0) noPools 0x200000
    0x01002000 0x01002000 = some s₀) {p : PoolId} {k : Nat}
    (hk : k < poolPages 0x01002000 0x01002000 p)
    (hbehind : 0x204008 ≤ (bootPools 0x200000 0x01002000 0x01002000 p).frameStart k) :
    s₀.status p k = 0 := by
  obtain ⟨list, hlist, hpool, hused⟩ := init_eq (by decide) (Nat.le_refl _) (by decide) h
  rw [smallMap_entries] at hlist
  cases hlist
  by_cases hzero : s₀.status p k = 0
  · exact hzero
  · obtain ⟨a, hreserved, hlow, -⟩ := (hused p k hk).mp hzero
    have hbase : 0x204008 ≤ a := Nat.le_trans hbehind hlow
    rcases hreserved with ⟨entry, hentry, heven, -⟩ | ⟨i, hi, rfl⟩
    · rw [List.mem_singleton.mp hentry] at heven
      exact absurd heven (by decide)
    · rw [show bitmapsEnd 0x200000 0x01002000 0x01002000 = 0x204008 by decide] at hi
      simp only [pageSize] at hi hbase
      omega

/-- Any request fits into the default pool of the small machine. -/
theorem small_firstFit {s₀ : State} (h : init smallMap smallInfo (fun _ => 0) noPools 0x200000
    0x01002000 0x01002000 = some s₀) (pages alignment : Nat) :
    s₀.FirstFit .defaultPool pages alignment 0 := by
  have hpool := small_pool h
  apply firstFit_of_free
  · rw [hpool]
    rfl
  · rw [State.numPageframes, hpool]
    decide
  · intro k hk
    rw [State.numPageframes, hpool] at hk
    exact small_free h hk (Nat.le_add_right_of_le (by decide))

/-- Three pages are served from a pool of two: the search comes back to the first one. -/
theorem run_leaves_pool : ∃ s₀, init smallMap smallInfo (fun _ => 0) noPools 0x200000 0x01002000
    0x01002000 = some s₀ ∧ findMemoryEnd smallMap smallInfo = some 0x01002000 ∧
      World.Callable ⟨s₀, []⟩ (.alloc .defaultPool 3 1) ∧
      ∃ a s, s₀.alloc 3 1 = some (a, s) ∧ a ≠ 0 ∧ ¬Granted ⟨s₀, []⟩ s a 3 := by
  obtain ⟨s₀, h⟩ := small_init
  have hpool := small_pool h
  have hend : findMemoryEnd smallMap smallInfo = some 0x01002000 := by
    rw [findMemoryEnd, iterateMmap_eq, smallMap_entries]
    rfl
  have hdefault : s₀.pool .defaultPool = bootPools 0x200000 0x01002000 0x01002000 .defaultPool := by
    rw [hpool]
  refine ⟨s₀, h, hend, ⟨by decide, by decide, by decide, by decide⟩, _, _,
    allocFrom_of_firstFit Nat.one_pos (small_firstFit h 3 1) _, ?_, ?_⟩
  · simp only [pool_fill, State.numPageframes, hdefault]
    decide
  · rintro ⟨p, first, -, hin, -⟩
    have hfirst := hin 0 (by decide)
    have hlast := hin 2 (by decide)
    simp only [pool_fill, State.numPageframes, hdefault, hpool] at hfirst hlast
    cases p with
    | dmaPool => exact absurd hfirst.2 (by decide)
    | defaultPool => exact absurd hlast.2 (by decide)
    | hiMemPool => exact absurd hfirst.1 (by decide)

end TimbOS.Native.Physical
