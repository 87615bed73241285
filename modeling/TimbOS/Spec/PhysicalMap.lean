import TimbOS.Spec.PhysicalRuns

/-!
# Memory that is not available

`init` reserves the memory of the entries whose type has bit 0 clear, page size by page size
from the first byte of an entry on. A frame that an unavailable entry overlaps escapes if
the entry's type is odd, if none of the addresses falls into it, or if the 64-bit range
looks different when it is cut to 32 bits. A frame that is marked escapes if it lies behind
the end of another pool: a search that comes back to the first frames of that pool returns
a block that goes on behind its end.

## Key results

- `allocPool_runsOut`, `exists_runsOut`: which memory behind a pool is returned
- `unavailable_used_iff`: exactly when no frame escapes
- `odd_type_escapes`: a map with memory of type 3
-/

namespace TimbOS.Native.Physical

open ForStd Multiboot

/-- The byte at `a` belongs to an entry, by its 64-bit address and length. -/
def Covers (entry : MmapEntry) (a : Nat) : Prop := entry.addr ≤ a ∧ a < entry.addr + entry.len

/-- The frame overlaps an entry of the memory map that is not available memory. -/
def Unavailable (list : List MmapEntry) (pool : PoolId → PhysicalPool) (p : PoolId) (idx : Nat) :
    Prop :=
  idx < (pool p).numPageframes ∧ ∃ entry ∈ list, entry.type ≠ memoryAvailable ∧
    ∃ a, Covers entry a ∧ (pool p).InFrame idx a

/-- Every unavailable frame is in use, and no call returns a block with a byte in one. -/
def UnavailableUsed (list : List MmapEntry) (s : State) : Prop :=
  (∀ p idx, Unavailable list s.pool p idx → s.Used p idx) ∧
  ∀ q pages align a s', pages < 2 ^ 32 → align < 2 ^ 32 →
    s.allocPool q pages align = some (a, s') → a ≠ 0 →
    ∀ o < pages * pageSize, ∀ p idx, Unavailable list s.pool p idx →
      ¬(s.pool p).InFrame idx (add32 a o)

/-! ## The condition -/

/-- `init` reserves an address in the frame. -/
def FrameReserved (list : List MmapEntry) (kernelStaticEnd kernelDynamicEnd himemEnd : Nat)
    (p : PoolId) (idx : Nat) : Prop :=
  ∃ a, InitReserves list (bitmapsEnd kernelStaticEnd kernelDynamicEnd himemEnd) a ∧
    (bootPools kernelStaticEnd kernelDynamicEnd himemEnd p).InFrame idx a

/-- A search from the first frame on comes back from the last frame of the pool to at least
    `e + 1` first frames. A pool of free frames at address `0` returns nothing but `0`. -/
def PhysicalPool.RunsOut (pool : PhysicalPool) (used : Nat → Prop) (e : Nat) : Prop :=
  0 < pool.numPageframes ∧ ¬used (pool.numPageframes - 1) ∧
    (∀ j ≤ e, ¬used (j % pool.numPageframes)) ∧
    (pool.base ≠ 0 ∨ ∃ idx < pool.numPageframes, used idx)

/-- The addresses at which `init` reserves hit every unavailable frame. -/
def UnavailableHit (list : List MmapEntry)
    (kernelStaticEnd kernelDynamicEnd himemEnd : Nat) : Prop :=
  ∀ p idx, Unavailable list (bootPools kernelStaticEnd kernelDynamicEnd himemEnd) p idx →
    FrameReserved list kernelStaticEnd kernelDynamicEnd himemEnd p idx

/-- No frame is unavailable that lies behind the end of a pool and no further away from it than
    the search comes back. -/
def NoneBehind (list : List MmapEntry)
    (kernelStaticEnd kernelDynamicEnd himemEnd : Nat) : Prop :=
  ∀ p e, (bootPools kernelStaticEnd kernelDynamicEnd himemEnd p).RunsOut
      (FrameReserved list kernelStaticEnd kernelDynamicEnd himemEnd p) e →
    ∀ x < pageSize, ∀ p' idx,
      Unavailable list (bootPools kernelStaticEnd kernelDynamicEnd himemEnd) p' idx →
      ¬(bootPools kernelStaticEnd kernelDynamicEnd himemEnd p').InFrame idx
        (((bootPools kernelStaticEnd kernelDynamicEnd himemEnd p).frameStart
          (poolPages kernelDynamicEnd himemEnd p + e) + x) % 2 ^ 32)

section RunsOut

variable {s s' : State} {p q : PoolId} {pages align a e : Nat}

theorem PhysicalPool.RunsOut.mono {pool : PhysicalPool} {used : Nat → Prop} {e' : Nat}
    (h : pool.RunsOut used e) (hle : e' ≤ e) : pool.RunsOut used e' :=
  ⟨h.1, h.2.1, fun j hj => h.2.2.1 j (Nat.le_trans hj hle), h.2.2.2⟩

/-- Only the frames of the pool count. -/
theorem PhysicalPool.RunsOut.congr {pool : PhysicalPool} {used used' : Nat → Prop}
    (h : pool.RunsOut used e) (hiff : ∀ idx < pool.numPageframes, (used idx ↔ used' idx)) :
    pool.RunsOut used' e := by
  obtain ⟨hpos, hlast, hfirst, hzero⟩ := h
  refine ⟨hpos, ?_, ?_, ?_⟩
  · rw [← hiff _ (by omega)]
    exact hlast
  · intro j hj
    rw [← hiff _ (Nat.mod_lt _ hpos)]
    exact hfirst j hj
  · rcases hzero with hbase | ⟨idx, hidx, hused⟩
    · exact .inl hbase
    · exact .inr ⟨idx, hidx, (hiff idx hidx).mp hused⟩

theorem runsOut_iff {used : Nat → Prop} : (s.pool p).RunsOut used e ↔
    0 < s.numPageframes p ∧ ¬used (s.numPageframes p - 1) ∧
      (∀ j ≤ e, ¬used (j % s.numPageframes p)) ∧
      ((s.pool p).base ≠ 0 ∨ ∃ idx < s.numPageframes p, used idx) := Iff.rfl

/-- The frames that a search from the first frame on has looked at. -/
theorem State.Fits.unused {i j : Nat} (h : s.Fits p pages align i) (hprev : (s.pool p).prevIdx = 0)
    (hj : j < pages) (hlt : i + j < 2 ^ 32) : ¬s.Used p ((i + j) % s.numPageframes p) := by
  have hfree := h.free j hj
  rw [hprev, Nat.zero_add, Nat.mod_eq_of_lt hlt] at hfree
  exact fun hused => hused hfree

/-- A block ends before the search comes back to a frame that is in use. -/
theorem State.Fits.stops {i u : Nat} (h : s.Fits p pages align i) (hprev : (s.pool p).prevIdx = 0)
    (hnum : s.numPageframes p < 2 ^ 20) (hu : u < s.numPageframes p) (hused : s.Used p u) :
    i + pages ≤ s.numPageframes p + u := by
  have hlt := h.lt
  by_contra hlong
  apply h.unused hprev (show s.numPageframes p + u - i < pages by omega) (by omega)
  rw [show i + (s.numPageframes p + u - i) = s.numPageframes p + u by omega,
    Nat.add_mod_left, Nat.mod_eq_of_lt hu]
  exact hused

/-- A block that passes the last frame shows how far the search comes back. -/
theorem State.Fits.runsOut {i j u : Nat} (h : s.Fits p pages align i)
    (hprev : (s.pool p).prevIdx = 0) (hnum : s.numPageframes p < 2 ^ 20) (hj : j < pages)
    (hout : s.numPageframes p ≤ i + j) (hu : u < s.numPageframes p) (hused : s.Used p u) :
    (s.pool p).RunsOut (s.Used p) (i + j - s.numPageframes p) := by
  have hlt := h.lt
  have hstop := h.stops hprev hnum hu hused
  rw [runsOut_iff]
  refine ⟨by omega, ?_, ?_, .inr ⟨u, hu, hused⟩⟩
  · have hlast := h.unused hprev (show s.numPageframes p - 1 - i < pages by omega) (by omega)
    rw [show i + (s.numPageframes p - 1 - i) = s.numPageframes p - 1 by omega,
      Nat.mod_eq_of_lt (by omega)] at hlast
    exact hlast
  · intro k hk
    have hnext := h.unused hprev (show s.numPageframes p + k - i < pages by omega) (by omega)
    rw [show i + (s.numPageframes p + k - i) = s.numPageframes p + k by omega,
      Nat.add_mod_left] at hnext
    exact hnext

/-- In a pool of free frames a search comes back without an end. -/
theorem runsOut_of_free (hpos : 0 < s.numPageframes p)
    (hfree : ∀ k < s.numPageframes p, ¬s.Used p k) (hbase : (s.pool p).base ≠ 0) (e : Nat) :
    (s.pool p).RunsOut (s.Used p) e :=
  runsOut_iff.mpr ⟨hpos, hfree _ (by omega), fun _ _ => hfree _ (Nat.mod_lt _ hpos), .inl hbase⟩

/-- A page of a block is a frame of the pool that was not in use, or memory behind a pool whose
    search came back to its first frames. -/
theorem allocPool_runsOut (L : Layout s.pool) (hprev : ∀ p, (s.pool p).prevIdx = 0)
    (h : s.allocPool q pages align = some (a, s')) (ha : a ≠ 0) {j : Nat} (hj : j < pages) :
    ∃ p, (∃ idx < s.numPageframes p, ¬s.Used p idx ∧
        a + j * pageSize = (s.pool p).frameStart idx) ∨
      ∃ e, (s.pool p).RunsOut (s.Used p) e ∧ ∀ x,
        (a + j * pageSize + x) % 2 ^ 32 =
          ((s.pool p).frameStart (s.numPageframes p + e) + x) % 2 ^ 32 := by
  have halign : 0 < align := by
    rcases Nat.eq_zero_or_pos align with rfl | hpos
    · cases q <;> cases h
    · exact hpos
  rcases allocFrom_cases s pages halign q.chain with hzero | ⟨p, i, hfirst, heq, -⟩
  · rw [State.allocPool, hzero] at h
    cases h
    exact absurd rfl ha
  have hlt : i < s.numPageframes p := hfirst.fits.lt
  have hnum : s.numPageframes p < 2 ^ 20 := L.numPageframes_lt p
  rw [State.allocPool, heq, hprev, Nat.zero_add, Nat.mod_eq_of_lt hlt] at h
  have haddr : a = (s.pool p).frameStart i := by
    rw [← takeRun_address L hlt pages]
    exact (congrArg Prod.fst (Option.some.inj h)).symm
  refine ⟨p, ?_⟩
  by_cases hin : i + j < s.numPageframes p
  · refine .inl ⟨i + j, hin, ?_, ?_⟩
    · have hfree := hfirst.fits.unused (hprev p) hj (by omega)
      rwa [Nat.mod_eq_of_lt hin] at hfree
    · rw [haddr]
      simp only [PhysicalPool.frameStart]
      ring
  · refine .inr ?_
    by_cases hfull : ∃ u < s.numPageframes p, s.Used p u
    · obtain ⟨u, hu, hused⟩ := hfull
      refine ⟨i + j - s.numPageframes p,
        hfirst.fits.runsOut (hprev p) hnum hj (by omega) hu hused, fun x => ?_⟩
      rw [haddr, show s.numPageframes p + (i + j - s.numPageframes p) = i + j by omega]
      simp only [PhysicalPool.frameStart, pageSize]
      congr 1
      omega
    · -- the block begins with the first frame, and its pages go around the address space
      have hfree : ∀ k < s.numPageframes p, ¬s.Used p k := fun k hk hused => hfull ⟨k, hk, hused⟩
      have hzero := hfirst.unique (firstFit_of_free (hprev p) (by omega)
        (fun k hk => not_not.mp (hfree k hk)) pages align)
      have hbase : a = (s.pool p).base := by
        rw [haddr, hzero, PhysicalPool.frameStart, Nat.zero_mul, Nat.add_zero]
      obtain ⟨e, he⟩ : ∃ e, s.numPageframes p + e = j + 2 ^ 20 :=
        ⟨j + 2 ^ 20 - s.numPageframes p, by omega⟩
      refine ⟨e, runsOut_of_free (by omega) hfree (hbase ▸ ha) e, fun x => ?_⟩
      rw [hbase, he]
      simp only [PhysicalPool.frameStart, pageSize]
      omega

/-- The pool that is asked serves a call with the block that its search finds. -/
theorem allocPool_of_firstFit (L : Layout s.pool) (hprev : (s.pool p).prevIdx = 0)
    (halign : 0 < align) {i : Nat} (h : s.FirstFit p pages align i) :
    ∃ s', s.allocPool p pages align = some ((s.pool p).frameStart i, s') := by
  obtain ⟨fallbacks, hchain⟩ : ∃ fallbacks, p.chain = p :: fallbacks := by
    cases p <;> exact ⟨_, rfl⟩
  refine ⟨(s.takeRun p pages i).2, ?_⟩
  rw [State.allocPool, hchain, allocFrom_of_firstFit halign h, hprev, Nat.zero_add,
    Nat.mod_eq_of_lt h.fits.lt, ← takeRun_address L h.fits.lt pages]

/-- A request that is aligned to the last frame gets it, with the frames in front of the first
    one that is in use. -/
theorem firstFit_last {u : Nat} (hprev : (s.pool p).prevIdx = 0) (hnum : s.numPageframes p < 2 ^ 20)
    (hlast : ¬s.Used p (s.numPageframes p - 1)) (hu : u < s.numPageframes p) (hused : s.Used p u)
    (hbefore : ∀ k < u, ¬s.Used p k) :
    s.FirstFit p (u + 1) (s.numPageframes p - 1) (s.numPageframes p - 1) := by
  have hne : u ≠ s.numPageframes p - 1 := fun heq => hlast (heq ▸ hused)
  refine ⟨⟨by omega, ?_, ?_⟩, ?_⟩
  · rw [hprev, Nat.zero_add]
  · intro k hk
    rw [hprev, Nat.zero_add, Nat.mod_eq_of_lt (b := 2 ^ 32) (by omega)]
    by_contra hk'
    rcases Nat.eq_zero_or_pos k with rfl | hkpos
    · rw [Nat.add_zero, Nat.mod_eq_of_lt (by omega)] at hk'
      exact hlast hk'
    · rw [show s.numPageframes p - 1 + k = s.numPageframes p + (k - 1) by omega,
        Nat.add_mod_left, Nat.mod_eq_of_lt (by omega)] at hk'
      exact hbefore (k - 1) (by omega) hk'
  · -- the only aligned position before is the first frame, and there the run is too short
    intro i hi hfits
    have haligned := hfits.aligned
    rw [hprev, Nat.zero_add] at haligned
    have hi0 : i = 0 := Nat.eq_zero_of_dvd_of_lt haligned hi
    subst hi0
    apply hfits.unused hprev (Nat.lt_succ_self u) (by omega)
    rw [Nat.zero_add, Nat.mod_eq_of_lt hu]
    exact hused

/-- Memory behind such a pool is returned by some call. -/
theorem exists_runsOut (L : Layout s.pool) (hprev : (s.pool p).prevIdx = 0) (he : e < 2 ^ 20)
    (h : (s.pool p).RunsOut (s.Used p) e) :
    ∃ pages align a s' j, pages < 2 ^ 32 ∧ align < 2 ^ 32 ∧
      s.allocPool p pages align = some (a, s') ∧ a ≠ 0 ∧ j < pages ∧
      a + j * pageSize = (s.pool p).frameStart (s.numPageframes p + e) := by
  classical
  obtain ⟨hpos, hlast, hfirst, hzero⟩ := runsOut_iff.mp h
  have hnum : s.numPageframes p < 2 ^ 20 := L.numPageframes_lt p
  by_cases hfull : ∃ u, u < s.numPageframes p ∧ s.Used p u
  · -- as many pages as the search finds, from the last frame on
    obtain ⟨hu, hused⟩ := Nat.find_spec hfull
    have hbefore : ∀ k < Nat.find hfull, ¬s.Used p k := by
      intro k hk hk'
      exact Nat.find_min hfull hk ⟨by omega, hk'⟩
    generalize Nat.find hfull = u at hu hused hbefore
    have heu : e < u := by
      by_contra hle
      apply hfirst u (by omega)
      rw [Nat.mod_eq_of_lt hu]
      exact hused
    have hne : u ≠ s.numPageframes p - 1 := fun heq => hlast (heq ▸ hused)
    obtain ⟨s', hserve⟩ := allocPool_of_firstFit L hprev (by omega)
      (firstFit_last hprev hnum hlast hu hused hbefore)
    refine ⟨u + 1, s.numPageframes p - 1, _, s', e + 1, by omega, by omega, hserve, ?_,
      by omega, ?_⟩
    · simp only [PhysicalPool.frameStart, pageSize]
      omega
    · simp only [PhysicalPool.frameStart, pageSize]
      omega
  · -- a pool of free frames: the search never ends
    have hfree : ∀ k < s.numPageframes p, s.status p k = 0 :=
      fun k hk => by_contra fun hused => hfull ⟨k, hk, hused⟩
    obtain ⟨s', hserve⟩ := allocPool_of_firstFit L hprev Nat.one_pos
      (firstFit_of_free hprev hpos hfree (s.numPageframes p + e + 1) 1)
    refine ⟨s.numPageframes p + e + 1, 1, _, s', s.numPageframes p + e, by omega, by omega,
      hserve, ?_, by omega, ?_⟩
    · rcases hzero with hbase | ⟨u, hu, hused⟩
      · simp only [PhysicalPool.frameStart]
        omega
      · exact absurd ⟨u, hu, hused⟩ hfull
    · simp only [PhysicalPool.frameStart]
      omega

end RunsOut

/-- If `init` returns, then every frame that overlaps unavailable memory is in use and no call
    returns a byte of it, if and only if an address at which `init` reserves falls into each of
    these frames, and none of them lies behind a pool that a run can leave. -/
theorem unavailable_used_iff {boot mem : Mem} {mbt : MultibootInfo} {pool : PoolId → PhysicalPool}
    {kernelStaticEnd kernelDynamicEnd himemEnd : Nat} {s : State}
    (hstatic : kernelStaticEnd < 2 ^ 32) (hle : kernelDynamicEnd ≤ himemEnd)
    (hend : himemEnd < 2 ^ 32)
    (h : init boot mbt mem pool kernelStaticEnd kernelDynamicEnd himemEnd = some s) :
    ∃ list, entries boot mbt = some list ∧
      (UnavailableUsed list s ↔
        UnavailableHit list kernelStaticEnd kernelDynamicEnd himemEnd ∧
          NoneBehind list kernelStaticEnd kernelDynamicEnd himemEnd) := by
  obtain ⟨list, hlist, hpool, hused⟩ := init_eq hstatic hle hend h
  have L := layout_bootPools kernelStaticEnd hle hend
  rw [← hpool] at L
  have hprev : ∀ p, (s.pool p).prevIdx = 0 := by
    intro p
    rw [hpool]
    rfl
  have hnum : ∀ p, s.numPageframes p = poolPages kernelDynamicEnd himemEnd p := by
    intro p
    rw [State.numPageframes, hpool, numPageframes_bootPools]
  have hiff : ∀ p, ∀ idx < (s.pool p).numPageframes,
      (s.Used p idx ↔ FrameReserved list kernelStaticEnd kernelDynamicEnd himemEnd p idx) :=
    fun p idx hidx => hused p idx (hnum p ▸ hidx)
  refine ⟨list, hlist, ?_⟩
  constructor
  · rintro ⟨hall, hnone⟩
    constructor
    · intro p idx hun
      rw [← hpool] at hun
      exact (hiff p idx hun.1).mp (hall p idx hun)
    · intro p e hruns x hx p' idx hun hin
      rw [← hpool] at hruns hun hin
      rw [← hnum] at hin
      -- the addresses repeat after the whole address space
      have hsmall := (hruns.mono (Nat.mod_le e (2 ^ 20))).congr
        fun idx hidx => (hiff p idx hidx).symm
      obtain ⟨pages, align, a, s', j, hpages, halign, halloc, ha, hj, haddr⟩ :=
        exists_runsOut L (hprev p) (Nat.mod_lt _ (by decide)) hsmall
      apply hnone p pages align a s' hpages halign halloc ha (j * pageSize + x)
        (by simp only [pageSize] at hx ⊢; omega) p' idx hun
      have hsame : add32 a (j * pageSize + x) =
          ((s.pool p).frameStart (s.numPageframes p + e) + x) % 2 ^ 32 := by
        rw [add32, ← Nat.add_assoc, haddr]
        simp only [PhysicalPool.frameStart, pageSize]
        omega
      rw [hsame]
      exact hin
  · rintro ⟨hhit, hbehind⟩
    have hall : ∀ p idx, Unavailable list s.pool p idx → s.Used p idx := by
      intro p idx hun
      rw [hiff p idx hun.1]
      rw [hpool] at hun
      exact hhit p idx hun
    refine ⟨hall, ?_⟩
    intro q pages align a s' _ _ halloc ha o ho p' idx' hun hin
    have hpage : o = o / pageSize * pageSize + o % pageSize := (Nat.div_add_mod' o pageSize).symm
    have hx : o % pageSize < pageSize := Nat.mod_lt _ (by decide)
    have hj : o / pageSize < pages := (Nat.div_lt_iff_lt_mul (by decide)).mpr ho
    rw [add32, hpage, ← Nat.add_assoc] at hin
    generalize o / pageSize = j at hj hin
    generalize o % pageSize = x at hx hin
    obtain ⟨p, ⟨idx, hidx, hfree, haddr⟩ | ⟨e, hruns, haddr⟩⟩ :=
      allocPool_runsOut L hprev halloc ha hj
    · -- a frame of the pool is not in use, and so it is not unavailable
      have htop := Layout.frameStart_lt_top s.pool hidx
      have hlt := L.pool_top_lt p
      rw [haddr, Nat.mod_eq_of_lt (by omega)] at hin
      obtain ⟨rfl, rfl⟩ := L.inFrame_unique hun.1 hidx hin
        ⟨Nat.le_add_right _ _, Nat.add_lt_add_left hx _⟩
      exact hfree (hall _ _ hun)
    · have hreserved := hruns.congr (hiff p)
      rw [haddr] at hin
      rw [hnum, hpool] at hin
      rw [hpool] at hun hreserved
      exact hbehind p e hreserved x hx p' idx' hun hin

/-- Between two available ranges, the map has 64 KiB that are reserved, from `0x01FF0000` on. -/
def reservedMap : Mem := mapMemory
  [20, 0, 0, 0, 0, 0, 0, 0, 0, 0, 0, 0, 0x00, 0x00, 0xFF, 0x01, 0, 0, 0, 0, 1, 0, 0, 0,
   20, 0, 0, 0, 0x00, 0x00, 0xFF, 0x01, 0, 0, 0, 0, 0x00, 0x00, 0x01, 0x00, 0, 0, 0, 0, 2, 0, 0, 0,
   20, 0, 0, 0, 0x00, 0x00, 0x00, 0x02, 0, 0, 0, 0, 0x00, 0x00, 0x10, 0x00, 0, 0, 0, 0, 1, 0, 0, 0]

def reservedInfo : MultibootInfo := ⟨infoMemMap, 72, 0x500⟩

def reservedEntries : List MmapEntry :=
  [⟨20, 0, 0x01FF0000, 1⟩, ⟨20, 0x01FF0000, 0x10000, 2⟩, ⟨20, 0x02000000, 0x100000, 1⟩]

theorem reservedMap_entries : entries reservedMap reservedInfo = some reservedEntries := by
  decide +kernel

/-- The unavailable frames of that machine lie in the default pool. -/
theorem unavailable_reserved {p : PoolId} {idx : Nat}
    (h : Unavailable reservedEntries (bootPools 0x200000 0x02100000 0x02100000) p idx) :
    p = .defaultPool ∧ 0xFF0 ≤ idx ∧ idx < 0x1000 := by
  obtain ⟨hidx, entry, hentry, htype, a, ⟨hlow, hhigh⟩, hin⟩ := h
  -- only the second entry is not available memory
  have hone : entry = ⟨20, 0x01FF0000, 0x10000, 2⟩ := by
    simp only [reservedEntries, List.mem_cons, List.not_mem_nil, or_false] at hentry
    rcases hentry with rfl | rfl | rfl
    · exact absurd rfl htype
    · rfl
    · exact absurd rfl htype
  subst hone
  simp only [PhysicalPool.InFrame, PhysicalPool.frameStart, pageSize] at hlow hhigh hin
  cases p with
  | dmaPool =>
    rw [show (bootPools 0x200000 0x02100000 0x02100000 .dmaPool).base = 0 by decide] at hin
    rw [show (bootPools 0x200000 0x02100000 0x02100000 .dmaPool).numPageframes = 0x1000 by
      decide] at hidx
    omega
  | defaultPool =>
    rw [show (bootPools 0x200000 0x02100000 0x02100000 .defaultPool).base = 0x01000000 by
      decide] at hin
    exact ⟨rfl, by omega, by omega⟩
  | hiMemPool =>
    rw [show (bootPools 0x200000 0x02100000 0x02100000 .hiMemPool).numPageframes = 0 by
      decide] at hidx
    exact absurd hidx (Nat.not_lt_zero idx)

/-- The frames of the reserved range are reserved, and so is the first frame of the memory. -/
theorem frameReserved_reserved {idx : Nat} (hlow : 0xFF0 ≤ idx) (hhigh : idx < 0x1000) :
    FrameReserved reservedEntries 0x200000 0x02100000 0x02100000 .defaultPool idx := by
  refine ⟨0x01000000 + idx * pageSize, .inl ⟨⟨20, 0x01FF0000, 0x10000, 2⟩, by decide, rfl,
    idx - 0xFF0, ?_, ?_⟩, ?_⟩
  · simp only [pageSize]
    omega
  · simp only [pageSize]
    omega
  · rw [PhysicalPool.InFrame, PhysicalPool.frameStart,
      show (bootPools 0x200000 0x02100000 0x02100000 .defaultPool).base = 0x01000000 by decide]
    simp only [pageSize]
    omega

/-- On a machine with reserved memory, none of it is returned. -/
theorem unavailable_used_iff_small : ∃ s, init reservedMap reservedInfo (fun _ => 0) noPools
    0x200000 0x02100000 0x02100000 = some s ∧ UnavailableUsed reservedEntries s ∧
      Unavailable reservedEntries s.pool .defaultPool 0xFF0 := by
  obtain ⟨s, h⟩ : ∃ s, init reservedMap reservedInfo (fun _ => 0) noPools 0x200000 0x02100000
      0x02100000 = some s := by
    apply init_returns _ _ (by decide) (Nat.le_refl _) (by decide) (by decide) reservedMap_entries
    · decide
    · decide
  obtain ⟨list, hlist, hiff⟩ := unavailable_used_iff (by decide) (Nat.le_refl _) (by decide) h
  obtain ⟨-, -, hpool, -⟩ := init_eq (by decide) (Nat.le_refl _) (by decide) h
  rw [reservedMap_entries] at hlist
  cases hlist
  refine ⟨s, h, hiff.mpr ⟨?_, ?_⟩, ?_⟩
  · intro p idx hun
    obtain ⟨rfl, hlow, hhigh⟩ := unavailable_reserved hun
    exact frameReserved_reserved hlow hhigh
  · intro p e hruns x hx p' idx hun hin
    obtain ⟨rfl, hlow, hhigh⟩ := unavailable_reserved hun
    obtain ⟨hpos, -, hfirst, -⟩ := hruns
    cases p with
    | dmaPool =>
      -- the kernel begins in the first frame
      exact hfirst 0 (Nat.zero_le e) ⟨0, .inr ⟨0, by decide, rfl⟩, by decide⟩
    | defaultPool =>
      -- the search comes back to the frames in front of the reserved ones
      have he : e < 0xFF0 := by
        by_contra hge
        exact hfirst 0xFF0 (by omega) (frameReserved_reserved (by decide) (by decide))
      simp only [PhysicalPool.InFrame, PhysicalPool.frameStart,
        show (bootPools 0x200000 0x02100000 0x02100000 .defaultPool).base = 0x01000000 by decide,
        show poolPages 0x02100000 0x02100000 .defaultPool = 0x1100 by decide, pageSize] at hin hx
      omega
    | hiMemPool => exact absurd hpos (by decide)
  · rw [hpool]
    exact ⟨by decide, ⟨20, 0x01FF0000, 0x10000, 2⟩, by decide, by decide, 0x01FF0000,
      ⟨by decide, by decide⟩, by decide⟩

/-! ## Memory of type 3 -/

/-- Between two available ranges, the map has 64 KiB of type 3 (ACPI tables) from
    `0x01FF0000` on. -/
def acpiMap : Mem := mapMemory
  [20, 0, 0, 0, 0, 0, 0, 0, 0, 0, 0, 0, 0x00, 0x00, 0xFF, 0x01, 0, 0, 0, 0, 1, 0, 0, 0,
   20, 0, 0, 0, 0x00, 0x00, 0xFF, 0x01, 0, 0, 0, 0, 0x00, 0x00, 0x01, 0x00, 0, 0, 0, 0, 3, 0, 0, 0,
   20, 0, 0, 0, 0x00, 0x00, 0x00, 0x02, 0, 0, 0, 0, 0x00, 0x00, 0x10, 0x00, 0, 0, 0, 0, 1, 0, 0, 0]

def acpiInfo : MultibootInfo := ⟨infoMemMap, 72, 0x500⟩

def acpiEntries : List MmapEntry :=
  [⟨20, 0, 0x01FF0000, 1⟩, ⟨20, 0x01FF0000, 0x10000, 3⟩, ⟨20, 0x02000000, 0x100000, 1⟩]

theorem acpiMap_entries : entries acpiMap acpiInfo = some acpiEntries := by
  decide +kernel

/-- Memory of type 3 is not reserved. -/
theorem odd_type_escapes : ∃ s, init acpiMap acpiInfo (fun _ => 0) noPools 0x200000 0x02100000
    0x02100000 = some s ∧ findMemoryEnd acpiMap acpiInfo = some 0x02100000 ∧
      ∃ list, entries acpiMap acpiInfo = some list ∧ ¬UnavailableUsed list s := by
  have hodd : ∀ entry ∈ acpiEntries, ¬entry.type % 2 = 0 := by decide
  obtain ⟨s, h⟩ : ∃ s, init acpiMap acpiInfo (fun _ => 0) noPools 0x200000 0x02100000
      0x02100000 = some s :=
    init_returns _ _ (by decide) (Nat.le_refl _) (by decide) (by decide) acpiMap_entries
      (fun entry hentry heven => absurd heven (hodd entry hentry)) (by decide)
  obtain ⟨list, hlist, hpool, hused⟩ := init_eq (by decide) (Nat.le_refl _) (by decide) h
  rw [acpiMap_entries] at hlist
  cases hlist
  have hend : findMemoryEnd acpiMap acpiInfo = some 0x02100000 := by
    rw [findMemoryEnd, iterateMmap_eq, acpiMap_entries]
    rfl
  refine ⟨s, h, hend, acpiEntries, acpiMap_entries, ?_⟩
  rintro ⟨hall, -⟩
  -- the first page of the ACPI tables
  have hu := hall .defaultPool 0xFF0 (by
    rw [hpool]
    exact ⟨by decide, ⟨20, 0x01FF0000, 0x10000, 3⟩, by decide, by decide, 0x01FF0000,
      ⟨by decide, by decide⟩, by decide⟩)
  obtain ⟨a, hreserved, hlow, -⟩ := (hused .defaultPool 0xFF0 (by decide)).mp hu
  have hbase : 0x01000000 ≤ a := Nat.le_trans (Nat.le_add_right _ _) hlow
  rcases hreserved with ⟨entry, hentry, heven, -⟩ | ⟨k, hk, rfl⟩
  · exact hodd entry hentry heven
  · rw [show bitmapsEnd 0x200000 0x02100000 0x02100000 = 0x208400 by decide] at hk
    simp only [pageSize] at hk hbase
    omega

end TimbOS.Native.Physical
