import TimbOS.Native.Pages
import TimbOS.Spec.PhysicalPage

/-!
# Owners of pages

An owner asks for a number of pages, once or until it gets some, and releases one page with
`mm::free_pages( addr )` in the end. An owner without pages passes a null pointer, and the page
at the physical address for that is released. The very first frame of the memory looks like no
page at all, so that its owner asks again.

## Key results

- `kernelPools_init`, `KernelPools.allocFrom`, `KernelPools.free`: the pools of every run
- `outcome_attempts`: what an owner has after some attempts to get pages
- `givesBack_attempts`: exactly when it gives back what it has
- `second_page_leaks`: two pages or more are not given back
-/

namespace TimbOS.Native.Physical

open ForStd Multiboot

/-! ## The pools of the kernel -/

/-- Pools that are ready, and the kernel sees all pages of the first two. -/
structure KernelPools (s : State) : Prop extends PoolsReady s where
  top_le : (s.pool .defaultPool).top ≤ kernelVirtualSizeMax

/-- `mm::init` hands over such pools. -/
theorem kernelPools_init {boot mem : Mem} {mbt : MultibootInfo} {pool : PoolId → PhysicalPool}
    {kernelStaticEnd himemEnd : Nat} {s : State} (hstatic : kernelStaticEnd < 2 ^ 32)
    (hend : himemEnd < 2 ^ 32)
    (h : init boot mbt mem pool kernelStaticEnd (kernelDynamicEnd himemEnd) himemEnd = some s) :
    KernelPools s := by
  refine ⟨ready_init hstatic hend h, ?_⟩
  obtain ⟨-, -, hpool, -⟩ := init_eq hstatic (kernelDynamicEnd_le himemEnd) hend h
  simp only [hpool, PhysicalPool.top, PhysicalPool.frameStart, bootPools, poolPages, poolMemory,
    dmaEnd, kernelDynamicEnd, dmaMemoryLimit, kernelVirtualSizeMax, pageSize]
  split <;> omega

section Kernel

variable {s s' : State} {p q : PoolId} {pages align idx : Nat}

theorem KernelPools.of_sameFrames (h : KernelPools s) (hready : PoolsReady s')
    (hsame : ∀ p, (s.pool p).SameFrames (s'.pool p)) : KernelPools s' := by
  refine ⟨hready, ?_⟩
  obtain ⟨hbase, hnum, -⟩ := hsame .defaultPool
  have htop := h.top_le
  simp only [PhysicalPool.top, PhysicalPool.frameStart, hbase, hnum] at htop ⊢
  exact htop

theorem KernelPools.takeRun (h : KernelPools s) (hidx : idx < s.numPageframes p) (pages : Nat) :
    KernelPools (s.takeRun p pages idx).2 :=
  h.of_sameFrames (h.toPoolsReady.takeRun (Nat.zero_lt_of_lt hidx) pages idx)
    (takeRun_sameFrames s p pages idx)

/-- Every allocation keeps them. -/
theorem KernelPools.allocFrom (h : KernelPools s) (halign : 0 < align) {chain : List PoolId}
    {a : Nat} (hs : s.allocFrom pages align chain = some (a, s')) : KernelPools s' := by
  rcases allocFrom_cases s pages halign chain with hzero | ⟨p, i, hfirst, heq, -⟩
  · rw [hzero] at hs
    cases hs
    exact h
  · rw [heq] at hs
    cases hs
    exact h.takeRun (Nat.mod_lt _ (Nat.zero_lt_of_lt hfirst.fits.lt)) pages

theorem KernelPools.free (h : KernelPools s) (a pages : Nat) : KernelPools (s.free a pages) := by
  refine ⟨h.toPoolsReady.free a pages, ?_⟩
  rw [pool_free]
  exact h.top_le

theorem chain_ne_hiMemPool (hp : p ≠ .hiMemPool) (hq : q ∈ p.chain) : q ≠ .hiMemPool := by
  rintro rfl
  cases p with
  | dmaPool => exact absurd hq (by decide)
  | defaultPool => exact absurd hq (by decide)
  | hiMemPool => exact hp rfl

/-- The kernel sees the frames of the first two pools. -/
theorem KernelPools.run_le (h : KernelPools s) (hq : q ≠ .hiMemPool)
    (hin : idx + pages ≤ s.numPageframes q) :
    (s.pool q).frameStart idx + pages * pageSize ≤ kernelVirtualSizeMax := by
  have htop := h.top_le
  have hgap := h.layout.gapStart_le .defaultPool
  have hbase : (s.pool .defaultPool).base ≤ (s.pool .defaultPool).top := Nat.le_add_right _ _
  have hend : (s.pool q).frameStart idx + pages * pageSize ≤ (s.pool q).top := by
    simp only [State.numPageframes] at hin
    simp only [PhysicalPool.top, PhysicalPool.frameStart, pageSize]
    omega
  simp only [gapStart] at hgap
  cases q with
  | dmaPool => omega
  | defaultPool => omega
  | hiMemPool => exact absurd rfl hq

/-- Pages that are not for high memory lie in the memory that the kernel sees. -/
theorem KernelPools.serves_lt (h : KernelPools s) (hp : p ≠ .hiMemPool)
    (hserves : s.Serves pages align q idx p.chain) :
    (s.pool q).frameStart idx < kernelVirtualSizeMax := by
  have hle := h.run_le (chain_ne_hiMemPool hp hserves.firstFit.1)
    (show idx + 1 ≤ s.numPageframes q from hserves.lt)
  simp only [pageSize] at hle
  omega

end Kernel

/-! ## Owners of pages -/

/-- The same frames are in use. -/
def SameMarks (s s' : State) : Prop :=
  ∀ p idx, idx < s.numPageframes p → (s'.Used p idx ↔ s.Used p idx)

/-- An owner at `addr`, which may be null, has obtained `pages` pages, among them the one at the
    physical address `a`. -/
def Obtained (pages addr a : Nat) : Prop :=
  addr ≠ 0 ∧ ∃ i < pages, a = Mm.kernelVirtualToPhysical addr + i * pageSize

/-- `mm::free_pages( addr )` releases the page at `a`: some pool is found for it. -/
def Released (s : State) (addr a : Nat) : Prop :=
  a = Mm.kernelVirtualToPhysical addr ∧ s.findPool a ≠ none

/-- A life cycle from `s` to `s'` leaves the marks as they were, and its owner of `pages` pages
    at `addr` has released what it obtained and nothing else. -/
def GivesBack (s s' : State) (pages addr : Nat) : Prop :=
  SameMarks s s' ∧ ∀ a, Obtained pages addr a ↔ Released s addr a

/-- The physical address for a null pointer. -/
def nullFrame : Nat := Mm.kernelVirtualToPhysical 0

/-- What it takes to give back everything: the owner is served with one page, or it has none,
    and no pool is found for the page that the null pointer stands for. The very first frame of
    the memory looks like no page at all. -/
def Keeps (s : State) (pages align : Nat) (p : PoolId) (asked : Prop) : Prop :=
  (asked ∧ pages = 1 ∧
      ∃ q idx, s.Serves pages align q idx p.chain ∧ (s.pool q).frameStart idx ≠ 0) ∨
    (asked → ∀ q idx, s.Serves pages align q idx p.chain →
        pages = 0 ∧ (s.pool q).frameStart idx = 0) ∧
      s.findPool nullFrame = none

/-- An attempt to get pages, unless there are some already. -/
def attempt (pages align : Nat) (p : PoolId) (x : Nat × State) : Nat × State :=
  if x.1 ≠ 0 then
    x
  else
    match x.2.allocPool p pages align with
    | some (a, s) => (Mm.virtualOrNull a, s)
    | none => x

section Owner

variable {s s' s₀ : State} {p q : PoolId} {pages align idx a addr : Nat}

theorem findPool_congr (hsame : ∀ p, (s.pool p).SameFrames (s'.pool p)) (a : Nat) :
    s'.findPool a = s.findPool a := by
  have hlimit : ∀ p, (s'.pool p).limit = (s.pool p).limit := by
    intro p
    obtain ⟨hbase, hnum, -⟩ := hsame p
    simp only [PhysicalPool.limit, PhysicalPool.size, hbase, hnum]
  simp only [State.findPool, hlimit]

theorem freePages_one (s : State) (addr : Nat) (haddr : Mm.kernelVirtualToPhysical addr < 2 ^ 32) :
    Mm.freePages s addr 1 = s.setFrame (Mm.kernelVirtualToPhysical addr) 0 := by
  rw [Mm.freePages, State.free, State.free, Nat.zero_mul, add32, Nat.add_zero,
    Nat.mod_eq_of_lt haddr]

/-- Addresses of pages that the kernel sees. -/
theorem virtual_spec (hpos : a ≠ 0) (hlt : a < kernelVirtualSizeMax) :
    Mm.virtualOrNull a = Mm.kernelPhysicalToVirtual a ∧ Mm.kernelPhysicalToVirtual a ≠ 0 ∧
      Mm.kernelVirtualToPhysical (Mm.kernelPhysicalToVirtual a) = a := by
  simp only [kernelVirtualSizeMax] at hlt
  simp only [Mm.virtualOrNull, if_pos hpos, Mm.kernelPhysicalToVirtual, Mm.kernelVirtualToPhysical,
    add32, sub32, kernelVirtualBase, true_and]
  omega

/-! ## What is released -/

/-- An owner without pages releases the page of the null pointer. -/
theorem givesBack_null (hmarks : SameMarks s₀ s) (hsame : ∀ p, (s₀.pool p).SameFrames (s.pool p)) :
    GivesBack s₀ (Mm.freePages s 0 1) pages 0 ↔ s₀.findPool nullFrame = none := by
  constructor
  · rintro ⟨-, hpages⟩
    by_contra hfound
    exact ((hpages nullFrame).mpr ⟨rfl, hfound⟩).1 rfl
  · intro hnone
    have hfree : Mm.freePages s 0 1 = s := by
      rw [freePages_one s 0 (by decide), State.setFrame]
      have hfind : s.findPool (Mm.kernelVirtualToPhysical 0) = none := by
        rw [findPool_congr hsame]
        exact hnone
      rw [hfind]
    refine ⟨by rw [hfree]; exact hmarks, fun a => ⟨?_, ?_⟩⟩
    · rintro ⟨haddr, -⟩
      exact absurd rfl haddr
    · rintro ⟨rfl, hfound⟩
      exact absurd hnone hfound

/-- An owner of pages releases one. -/
theorem released_iff (hpos : a ≠ 0) (hlt : a < kernelVirtualSizeMax)
    (hfound : s.findPool a ≠ none) : (∀ b, Obtained pages (Mm.kernelPhysicalToVirtual a) b ↔
      Released s (Mm.kernelPhysicalToVirtual a) b) ↔ pages = 1 := by
  obtain ⟨-, hne, hback⟩ := virtual_spec hpos hlt
  simp only [Obtained, Released, hback]
  constructor
  · intro h
    obtain ⟨-, i, hi, -⟩ := (h a).mpr ⟨rfl, hfound⟩
    by_contra hpages
    obtain ⟨hsecond, -⟩ := (h (a + 1 * pageSize)).mp ⟨hne, 1, by omega, rfl⟩
    simp only [pageSize] at hsecond
    omega
  · rintro rfl b
    constructor
    · rintro ⟨-, i, hi, rfl⟩
      obtain rfl : i = 0 := by omega
      rw [Nat.zero_mul, Nat.add_zero]
      exact ⟨rfl, hfound⟩
    · rintro ⟨rfl, -⟩
      exact ⟨hne, 0, Nat.one_pos, by rw [Nat.zero_mul, Nat.add_zero]⟩

/-- Freeing the page at the start of a frame leaves the marks of the other frames. -/
theorem used_freePages (h : KernelPools s) {r : PoolId} {k : Nat} (hidx : idx < s.numPageframes q)
    (ha : (s.pool q).frameStart idx = a) (hpos : a ≠ 0) (hlt : a < kernelVirtualSizeMax)
    (hk : k < s.numPageframes r) :
    (Mm.freePages s (Mm.kernelPhysicalToVirtual a) 1).Used r k ↔
      ¬ (r = q ∧ k = idx) ∧ s.Used r k := by
  obtain ⟨-, -, hback⟩ := virtual_spec hpos hlt
  have hword : a < 2 ^ 32 := Nat.lt_trans hlt (by decide)
  rw [freePages_one _ _ (by rw [hback]; exact hword), hback, State.Used, State.Used,
    h.layout.status_setFrame a 0 hk]
  have hin : (s.pool r).InFrame k a ↔ r = q ∧ k = idx := by
    rw [← ha]
    exact h.layout.inFrame_frameStart hidx hk
  by_cases hsame : r = q ∧ k = idx
  · rw [if_pos (hin.mpr hsame)]
    simp only [hsame, and_self, not_true_eq_false, false_and, iff_false]
    decide
  · rw [if_neg (mt hin.mp hsame)]
    simp only [hsame, not_false_eq_true, true_and]

/-- An owner that has been served gives back everything exactly if it has one page. -/
theorem givesBack_served (h : KernelPools s) (hp : p ≠ .hiMemPool)
    (hserves : s.Serves pages align q idx p.chain) (ha : (s.pool q).frameStart idx = a)
    (hpos : a ≠ 0) :
    GivesBack s (Mm.freePages (s.takeRun q pages idx).2 (Mm.kernelPhysicalToVirtual a) 1) pages
      (Mm.kernelPhysicalToVirtual a) ↔ pages = 1 := by
  have hidx := hserves.lt
  have hlt : a < kernelVirtualSizeMax := by
    rw [← ha]
    exact h.serves_lt hp hserves
  have hfound : s.findPool a ≠ none := by
    rw [(h.layout.findPool_eq hidx (a := a) ⟨by omega, by simp only [pageSize]; omega⟩).1]
    exact Option.some_ne_none q
  rw [GivesBack, released_iff hpos hlt hfound]
  constructor
  · rintro ⟨-, hpages⟩
    exact hpages
  · rintro rfl
    refine ⟨?_, rfl⟩
    intro r k hk
    -- the frame was free, is marked, and is free again
    have hfree := h.serves_free Nat.one_pos hserves
    have hstart : ((s.takeRun q 1 idx).2.pool q).frameStart idx = a :=
      ((takeRun_sameFrames s q 1 idx q).frameStart_eq idx).trans ha
    obtain ⟨-, hstatus⟩ := takeRun_spec h.layout hidx (show idx + 1 ≤ _ from hidx)
    rw [used_freePages (h.takeRun hidx 1) (by rw [numPageframes_takeRun]; exact hidx) hstart hpos
      hlt (by rw [numPageframes_takeRun]; exact hk), State.Used, State.Used, hstatus r k hk]
    by_cases hframe : r = q ∧ k = idx
    · obtain ⟨rfl, rfl⟩ := hframe
      simp only [hfree, and_self, not_true_eq_false, false_and, ne_eq]
    · rw [if_neg fun hin => hframe ⟨hin.1, by omega⟩]
      simp only [hframe, not_false_eq_true, true_and]

/-! ## Attempts to get pages -/

/-- What an owner has after some attempts that began in the state `s₀`. -/
inductive Outcome (s₀ : State) (pages align : Nat) (p : PoolId) : Nat × State → Prop
  | full (hno : ∀ q idx, ¬ s₀.Serves pages align q idx p.chain) : Outcome s₀ pages align p (0, s₀)
  | served {q : PoolId} {idx a addr : Nat} (hserves : s₀.Serves pages align q idx p.chain)
      (ha : (s₀.pool q).frameStart idx = a) (hpos : a ≠ 0)
      (haddr : Mm.kernelPhysicalToVirtual a = addr) :
      Outcome s₀ pages align p (addr, (s₀.takeRun q pages idx).2)
  /-- No pages at the very first frame: the owner asks again. -/
  | noPages {q : PoolId} {idx : Nat} {s : State} (hserves : s₀.Serves pages align q idx p.chain)
      (ha : (s₀.pool q).frameStart idx = 0) (hpages : pages = 0)
      (hagain : s.Serves pages align q idx p.chain) (hmarks : ∀ r k, s.status r k = s₀.status r k)
      (hpools : KernelPools s)
      (hsame : ∀ r, (s₀.pool r).SameFrames (s.pool r)) : Outcome s₀ pages align p (0, s)
  /-- Pages from the very first frame on: the owner takes them for none, and asks again. -/
  | lost {q : PoolId} {idx : Nat} {s : State} (hserves : s₀.Serves pages align q idx p.chain)
      (ha : (s₀.pool q).frameStart idx = 0) (hpages : 0 < pages) (hpools : KernelPools s)
      (hsame : ∀ r, (s₀.pool r).SameFrames (s.pool r)) (hused : s.Used q idx) :
      Outcome s₀ pages align p (0, s)
  | lostServed {q r : PoolId} {idx k a addr : Nat} {s : State}
      (hserves : s₀.Serves pages align q idx p.chain) (ha : (s₀.pool q).frameStart idx = 0)
      (hpages : 0 < pages) (hpools : KernelPools s)
      (hsame : ∀ r, (s₀.pool r).SameFrames (s.pool r)) (hk : k < s.numPageframes r)
      (hframe : (s.pool r).frameStart k = a) (hpos : a ≠ 0) (hlt : a < kernelVirtualSizeMax)
      (haddr : Mm.kernelPhysicalToVirtual a = addr) (hused : pages = 1 → s.Used q idx) :
      Outcome s₀ pages align p (addr, s)

theorem not_serves {chain : List PoolId} (hno : ∀ p ∈ chain, ∀ i, ¬ s.Fits p pages align i)
    (q : PoolId) (idx : Nat) : ¬ s.Serves pages align q idx chain := by
  intro hserves
  obtain ⟨hmem, i, hfirst, -⟩ := hserves.firstFit
  exact hno q hmem i hfirst.fits

theorem attempt_served (h : KernelPools s) (halign : 0 < align)
    (hserves : s.Serves pages align q idx p.chain) :
    attempt pages align p (0, s) =
      (Mm.virtualOrNull ((s.pool q).frameStart idx), (s.takeRun q pages idx).2) := by
  have haddr := takeRun_address h.layout hserves.lt pages
  simp only [attempt, State.allocPool, allocFrom_of_serves halign hserves, ne_eq, not_true_eq_false,
    if_false, haddr]

theorem attempt_full (halloc : s.allocFrom pages align p.chain = some (0, s)) :
    attempt pages align p (0, s) = (0, s) := by
  simp only [attempt, State.allocPool, halloc, ne_eq, not_true_eq_false, if_false, Mm.virtualOrNull]

theorem attempt_of_ne (haddr : addr ≠ 0) : attempt pages align p (addr, s) = (addr, s) := by
  rw [attempt, if_pos haddr]

/-- A run of no pages at the start of the memory is found again. -/
theorem serves_again {chain : List PoolId} (hserves : s.Serves 0 align q 0 chain) :
    (s.takeRun q 0 0).2.Serves 0 align q 0 chain := by
  have hprev := takeRun_prevIdx s q 0 0
  induction chain with
  | nil => exact hserves.elim
  | cons r fallbacks ih =>
    rcases hserves with ⟨i, hfirst, rfl, -⟩ | ⟨hno, hrest⟩
    · have hlt := hfirst.fits.lt
      have hstart : ((s.takeRun r 0 0).2.pool r).prevIdx = 0 := by
        rw [hprev, if_pos rfl]
        exact Nat.zero_mod _
      have hfits : (s.takeRun r 0 0).2.Fits r 0 align 0 := by
        refine ⟨by rw [numPageframes_takeRun]; omega, ?_, fun j hj => absurd hj (Nat.not_lt_zero j)⟩
        rw [hstart]
        exact Nat.dvd_zero _
      refine .inl ⟨0, ⟨hfits, fun i hi => absurd hi (Nat.not_lt_zero i)⟩, rfl, ?_⟩
      rw [hstart]
      exact Nat.zero_mod _
    · have hne : r ≠ q := by
        rintro rfl
        obtain ⟨-, i, hfirst, -⟩ := hrest.firstFit
        exact hno i hfirst.fits
      refine .inr ⟨?_, ih hrest⟩
      intro i hfits
      have hlt := hfits.lt
      have haligned := hfits.aligned
      rw [numPageframes_takeRun] at hlt
      rw [hprev, if_neg hne] at haligned
      exact hno i ⟨hlt, haligned, fun j hj => absurd hj (Nat.not_lt_zero j)⟩

/-- The first attempt. -/
theorem outcome_first (h : KernelPools s) (hp : p ≠ .hiMemPool) (halign : 0 < align)
    (hpages : pages < 2 ^ 20) : Outcome s pages align p (attempt pages align p (0, s)) := by
  rcases serves_or_full s pages halign p.chain with ⟨q, idx, hserves⟩ | ⟨hno, halloc⟩
  · rw [attempt_served h halign hserves]
    have hsame := takeRun_sameFrames s q pages idx
    by_cases ha : (s.pool q).frameStart idx = 0
    · rw [ha]
      rcases Nat.eq_zero_or_pos pages with rfl | hpos
      · have hidx : idx = 0 := by
          simp only [PhysicalPool.frameStart, pageSize] at ha
          omega
        subst hidx
        exact .noPages hserves ha rfl (serves_again hserves) (fun r k => status_takeRun s q 0 0 r k)
          (h.takeRun hserves.lt 0) hsame
      · refine .lost hserves ha hpos (h.takeRun hserves.lt pages) hsame ?_
        have hfirst := status_fill_at s q idx 1 hpos hpages
        rw [Nat.add_zero] at hfirst
        rw [State.Used, status_takeRun, hfirst]
        decide
    · rw [(virtual_spec ha (h.serves_lt hp hserves)).1]
      exact .served hserves rfl ha rfl
  · rw [attempt_full halloc]
    exact .full (not_serves hno)

/-- One more attempt. -/
theorem Outcome.attempt {x : Nat × State} (hx : Outcome s₀ pages align p x) (h : KernelPools s₀)
    (hp : p ≠ .hiMemPool) (halign : 0 < align) :
    Outcome s₀ pages align p (Physical.attempt pages align p x) := by
  cases hx with
  | full hno =>
    rcases serves_or_full s₀ pages halign p.chain with ⟨q, idx, hserves⟩ | ⟨-, halloc⟩
    · exact absurd hserves (hno q idx)
    · rw [attempt_full halloc]
      exact .full hno
  | served hserves ha hpos haddr =>
    rw [attempt_of_ne (haddr ▸ (virtual_spec hpos (ha ▸ h.serves_lt hp hserves)).2.1)]
    exact .served hserves ha hpos haddr
  | @noPages q idx s hserves ha hpages hagain hmarks hpools hsame =>
    subst hpages
    have hidx : idx = 0 := by
      simp only [PhysicalPool.frameStart, pageSize] at ha
      omega
    subst hidx
    have hstart : (s.pool q).frameStart 0 = 0 := (hsame q).frameStart_eq 0 ▸ ha
    rw [attempt_served hpools halign hagain, hstart]
    refine .noPages hserves ha rfl (serves_again hagain) ?_ (hpools.takeRun hagain.lt 0) ?_
    · intro r k
      exact (status_takeRun s q 0 0 r k).trans (hmarks r k)
    · exact fun r => (hsame r).trans (takeRun_sameFrames s q 0 0 r)
  | @lost q idx s hserves ha hpages hpools hsame hused =>
    rcases serves_or_full s pages halign p.chain with ⟨r, k, hagain⟩ | ⟨-, halloc⟩
    · -- another frame, since the first one is in use
      have hidx : idx < s.numPageframes q := by
        rw [State.numPageframes, (hsame q).2.1]
        exact hserves.lt
      have hother : ¬ (q = r ∧ idx = k) := by
        rintro ⟨rfl, rfl⟩
        exact hused (hpools.serves_free hpages hagain)
      have hpos : (s.pool r).frameStart k ≠ 0 := by
        intro hzero
        have hstart := (hsame q).frameStart_eq idx
        have hin : (s.pool q).InFrame idx ((s.pool r).frameStart k) := by
          rw [hzero]
          exact ⟨by omega, by simp only [pageSize]; omega⟩
        exact hother ((hpools.layout.inFrame_frameStart hagain.lt hidx).mp hin)
      have hlt := hpools.serves_lt hp hagain
      have hsame' := takeRun_sameFrames s r pages k
      rw [attempt_served hpools halign hagain, (virtual_spec hpos hlt).1]
      refine .lostServed hserves ha hpages (hpools.takeRun hagain.lt pages)
        (fun r' => (hsame r').trans (hsame' r')) ?_ ((hsame' r).frameStart_eq k) hpos hlt rfl ?_
      · rw [numPageframes_takeRun]
        exact hagain.lt
      · rintro rfl
        obtain ⟨-, hstatus⟩ := takeRun_spec hpools.layout hagain.lt (show k + 1 ≤ _ from hagain.lt)
        rw [State.Used, hstatus q idx hidx, if_neg fun hin => hother ⟨hin.1, by omega⟩]
        exact hused
    · rw [attempt_full halloc]
      exact .lost hserves ha hpages hpools hsame hused
  | lostServed hserves ha hpages hpools hsame hk hframe hpos hlt haddr hused =>
    rw [attempt_of_ne (haddr ▸ (virtual_spec hpos hlt).2.1)]
    exact .lostServed hserves ha hpages hpools hsame hk hframe hpos hlt haddr hused

theorem keeps_of_full (hno : ∀ q idx, ¬ s.Serves pages align q idx p.chain) :
    Keeps s pages align p True ↔ s.findPool nullFrame = none := by
  constructor
  · rintro (⟨-, -, q, idx, hserves, -⟩ | ⟨-, hnone⟩)
    · exact absurd hserves (hno q idx)
    · exact hnone
  · exact fun hnone => .inr ⟨fun _ q idx hserves => absurd hserves (hno q idx), hnone⟩

theorem keeps_of_serves (hserves : s.Serves pages align q idx p.chain)
    (ha : (s.pool q).frameStart idx = a) : Keeps s pages align p True ↔
      pages = 1 ∧ a ≠ 0 ∨ (pages = 0 ∧ a = 0) ∧ s.findPool nullFrame = none := by
  constructor
  · rintro (⟨-, hpages, r, k, hserves', hpos⟩ | ⟨hall, hnone⟩)
    · obtain ⟨rfl, rfl⟩ := hserves.unique hserves'
      exact .inl ⟨hpages, ne_of_eq_of_ne ha.symm hpos⟩
    · obtain ⟨hpages, hzero⟩ := hall trivial q idx hserves
      exact .inr ⟨⟨hpages, ha.symm.trans hzero⟩, hnone⟩
  · rintro (⟨hpages, hpos⟩ | ⟨⟨hpages, hzero⟩, hnone⟩)
    · exact .inl ⟨trivial, hpages, q, idx, hserves, ne_of_eq_of_ne ha hpos⟩
    · refine .inr ⟨fun _ r k hserves' => ?_, hnone⟩
      obtain ⟨rfl, rfl⟩ := hserves.unique hserves'
      exact ⟨hpages, ha.trans hzero⟩

/-- An owner with this outcome gives everything back exactly if the pools let it. -/
theorem Outcome.givesBack_iff (hx : Outcome s₀ pages align p (addr, s)) (h : KernelPools s₀)
    (hp : p ≠ .hiMemPool) :
    GivesBack s₀ (Mm.freePages s addr 1) pages addr ↔ Keeps s₀ pages align p True := by
  cases hx with
  | full hno =>
    rw [givesBack_null (fun r k hk => Iff.rfl) (fun r => ⟨rfl, rfl, rfl⟩), keeps_of_full hno]
  | served hserves ha hpos haddr =>
    rw [← haddr, givesBack_served h hp hserves ha hpos, keeps_of_serves hserves ha]
    simp only [hpos, ne_eq, not_false_eq_true, and_true, and_false, false_and, or_false]
  | noPages hserves ha hpages hagain hmarks hpools hsame =>
    rw [givesBack_null (fun r k hk => by rw [State.Used, State.Used, hmarks]) hsame,
      keeps_of_serves hserves ha, hpages]
    simp only [Nat.zero_ne_one, false_and, and_self, true_and, false_or]
  | @lost q idx s hserves ha hpages hpools hsame hused =>
    -- the run at address 0 counts as a failure and stays marked for ever
    refine iff_of_false ?_ (by rw [keeps_of_serves hserves ha]; omega)
    rintro ⟨hmarks, -⟩
    have hidx : idx < s.numPageframes q := by
      rw [State.numPageframes, (hsame q).2.1]
      exact hserves.lt
    have hstart : (s.pool q).frameStart idx = 0 := ((hsame q).frameStart_eq idx).trans ha
    have hnull : ¬ (s.pool q).InFrame idx (Mm.kernelVirtualToPhysical 0) := by
      rintro ⟨-, hlt⟩
      rw [hstart] at hlt
      exact absurd hlt (by decide)
    apply (hmarks q idx hserves.lt).mp _ (h.serves_free hpages hserves)
    rw [freePages_one s 0 (by decide), State.Used, hpools.layout.status_setFrame _ 0 hidx,
      if_neg hnull]
    exact hused
  | @lostServed q r idx k a addr s hserves ha hpages hpools hsame hk hframe hpos hlt haddr hused =>
    rw [← haddr]
    refine iff_of_false ?_ (by rw [keeps_of_serves hserves ha]; omega)
    rintro ⟨hmarks, hrelease⟩
    have hfound : s₀.findPool a ≠ none := by
      rw [← findPool_congr hsame, (hpools.layout.findPool_eq hk (a := a)
        ⟨by omega, by simp only [pageSize]; omega⟩).1]
      exact Option.some_ne_none r
    -- one page is freed, so that more than one cannot all have been
    have hone : pages = 1 := (released_iff hpos hlt hfound).mp hrelease
    have hidx : idx < s.numPageframes q := by
      rw [State.numPageframes, (hsame q).2.1]
      exact hserves.lt
    have hother : ¬ (q = r ∧ idx = k) := by
      rintro ⟨rfl, rfl⟩
      exact hpos (hframe.symm.trans (((hsame q).frameStart_eq idx).trans ha))
    apply (hmarks q idx hserves.lt).mp _ (h.serves_free hpages hserves)
    exact (used_freePages hpools hk hframe hpos hlt hidx).mpr ⟨hother, hused hone⟩

/-- Any number of attempts. -/
theorem outcome_attempts (h : KernelPools s) (hp : p ≠ .hiMemPool) (halign : 0 < align)
    (hpages : pages < 2 ^ 20) (n : Nat) :
    Outcome s pages align p ((attempt pages align p)^[n + 1] (0, s)) := by
  induction n with
  | zero => exact outcome_first h hp halign hpages
  | succ n ih =>
    rw [Function.iterate_succ_apply']
    exact ih.attempt h hp halign

/-- An owner gives back everything after any number of attempts exactly if the pools let it. -/
theorem givesBack_attempts (h : KernelPools s₀) (hp : p ≠ .hiMemPool) (halign : 0 < align)
    (hpages : pages < 2 ^ 20) {n : Nat} (hn : (attempt pages align p)^[n] (0, s₀) = (addr, s)) :
    GivesBack s₀ (Mm.freePages s addr 1) pages addr ↔ Keeps s₀ pages align p (0 < n) := by
  cases n with
  | zero =>
    cases hn
    rw [givesBack_null (fun r k hk => Iff.rfl) (fun r => ⟨rfl, rfl, rfl⟩)]
    simp only [Keeps, Nat.lt_irrefl, false_and, false_or, false_imp_iff, true_and]
  | succ n =>
    have houtcome := outcome_attempts h hp halign hpages n
    rw [hn] at houtcome
    rw [houtcome.givesBack_iff h hp, eq_true (Nat.succ_pos n)]

/-- Two pages or more are not given back: the second one stays in use. -/
theorem second_page_leaks (h : KernelPools s) (hpages : 2 ≤ pages) (hlt : pages < 2 ^ 20)
    (hserves : s.Serves pages align q idx p.chain) (hnext : idx + 1 < s.numPageframes q)
    (ha : (s.pool q).frameStart idx = a) (hpos : a ≠ 0) (hsize : a < kernelVirtualSizeMax) :
    ¬ SameMarks s (Mm.freePages (s.takeRun q pages idx).2 (Mm.kernelPhysicalToVirtual a) 1) := by
  intro hmarks
  have hfree : s.status q (idx + 1) = 0 := by
    obtain ⟨-, i, hfirst, rfl⟩ := hserves.firstFit
    exact status_of_fits (h.prevIdx_lt q) (h.layout.numPageframes_lt q) hfirst.fits
      (by omega : 1 < pages) hnext
  have hused : (s.takeRun q pages idx).2.Used q (idx + 1) := by
    rw [State.Used, status_takeRun, status_fill_at s q idx 1 (by omega : 1 < pages) hlt]
    decide
  apply (hmarks q (idx + 1) hnext).mp _ hfree
  have hstart : ((s.takeRun q pages idx).2.pool q).frameStart idx = a :=
    ((takeRun_sameFrames s q pages idx q).frameStart_eq idx).trans ha
  refine (used_freePages (h.takeRun hserves.lt pages)
    (by rw [numPageframes_takeRun]; exact hserves.lt) hstart hpos hsize
    (by rw [numPageframes_takeRun]; exact hnext)).mpr ⟨?_, hused⟩
  rintro ⟨-, heq⟩
  omega

end Owner

end TimbOS.Native.Physical
