import TimbOS.Spec.PhysicalInit

/-!
# What `mm::physical::init` reserves

A range is reserved at its start and then every page size further on. The frame that holds
such an address is marked; a frame that the range merely overlaps is not.

## Key results

- `reserveRange_eq`: the marks of one range
- `init_eq`: after `init`, the frames in use are those that hold a reserved address
-/

namespace TimbOS.Native.Physical

open ForStd Mem Multiboot

/-- The frame is in use. -/
def State.Used (s : State) (p : PoolId) (idx : Nat) : Prop := s.status p idx ≠ 0

/-- `reserve_range( start, size )` reserves the frame that holds `a`. -/
def RangeReserves (start size a : Nat) : Prop :=
  ∃ k, k * pageSize < size ∧ a = (start + k * pageSize) % 2 ^ 32

/-- `init` reserves the frame that holds `a`, for an entry of the memory map with an even type
    or for the kernel and the bitmaps, which end at `kernelEnd`. -/
def InitReserves (list : List MmapEntry) (kernelEnd a : Nat) : Prop :=
  (∃ entry ∈ list, entry.type % 2 = 0 ∧
    RangeReserves (entry.addr % 2 ^ 32) (entry.len % 2 ^ 32) a) ∨
  RangeReserves 0 kernelEnd a

section Reserve

variable {s s' : State} {p : PoolId} {idx : Nat}

theorem used_reserve (L : Layout s.pool) (hidx : idx < s.numPageframes p) (a : Nat) :
    (s.reserve a).Used p idx ↔ s.Used p idx ∨ (s.pool p).InFrame idx a := by
  unfold State.Used State.reserve
  rw [L.status_setFrame a 1 hidx]
  by_cases hin : (s.pool p).InFrame idx a <;> simp [hin]

/-- The loop of `reserve_range` from the counter `c * pageSize` on. What it reserves belongs to
    the range, and it reserves all that is left of it, even if the counter were to wrap around. -/
private theorem reserveRangeLoop_used {start size : Nat} (fuel c : Nat) (L : Layout s.pool)
    (h : State.reserveRangeLoop start size fuel (c * pageSize) s = some s') :
    s'.pool = s.pool ∧ ∀ p idx, idx < s.numPageframes p →
      (s.Used p idx → s'.Used p idx) ∧
      (s'.Used p idx → s.Used p idx ∨
        ∃ a, RangeReserves start size a ∧ (s.pool p).InFrame idx a) ∧
      ∀ k, c ≤ k → k * pageSize < size →
        (s.pool p).InFrame idx ((start + k * pageSize) % 2 ^ 32) → s'.Used p idx := by
  induction fuel generalizing s c with
  | zero =>
    rw [State.reserveRangeLoop] at h
    cases h
  | succ fuel ih =>
    rw [State.reserveRangeLoop] at h
    by_cases hlt : c * pageSize < size
    · rw [if_pos hlt] at h
      have hreserve : add32 start (c * pageSize) = (start + c * pageSize) % 2 ^ 32 := rfl
      have hpool : (s.reserve (add32 start (c * pageSize))).pool = s.pool := pool_setFrame _ _ _
      -- the counter wraps around after 2 ^ 20 pages, but it never skips one that is left
      obtain ⟨c', hc', hnext⟩ : ∃ c', add32 (c * pageSize) pageSize = c' * pageSize ∧
          (∀ k, c < k → k * pageSize < size → c' ≤ k) := by
        refine ⟨(c + 1) % 2 ^ 20, ?_, ?_⟩
        · simp only [add32, pageSize]
          omega
        · intro k _ _
          have hmod := Nat.mod_le (c + 1) (2 ^ 20)
          omega
      rw [hc'] at h
      obtain ⟨hpool', hused⟩ := ih c' (by rw [hpool]; exact L) h
      refine ⟨hpool'.trans hpool, ?_⟩
      intro p idx hidx
      obtain ⟨hkeep, hsound, hall⟩ := hused p idx (by rw [State.numPageframes, hpool]; exact hidx)
      rw [hpool] at hsound hall
      rw [used_reserve L hidx, hreserve] at hkeep hsound
      refine ⟨fun hu => hkeep (Or.inl hu), ?_, ?_⟩
      · intro hu
        rcases hsound hu with (hu' | hin) | hrest
        · exact Or.inl hu'
        · exact Or.inr ⟨_, ⟨c, hlt, rfl⟩, hin⟩
        · exact Or.inr hrest
      · intro k hck hk hin
        -- this round reserves the address at `c`, the rest of the loop those behind it
        rcases Nat.eq_or_lt_of_le hck with rfl | hck
        · exact hkeep (Or.inr hin)
        · exact hall k (hnext k hck hk) hk hin
    · rw [if_neg hlt] at h
      cases h
      refine ⟨rfl, ?_⟩
      intro p idx _
      refine ⟨fun hu => hu, fun hu => Or.inl hu, ?_⟩
      intro k hck hk _
      have hmul := Nat.mul_le_mul_right pageSize hck
      omega

/-- A range that is reserved marks the frames that hold its addresses, and no others. -/
theorem reserveRange_eq (L : Layout s.pool) {start size : Nat}
    (h : s.reserveRange start size = some s') :
    s'.pool = s.pool ∧ ∀ p idx, idx < s.numPageframes p →
      (s'.Used p idx ↔ s.Used p idx ∨
        ∃ a, RangeReserves start size a ∧ (s.pool p).InFrame idx a) := by
  have hloop : State.reserveRangeLoop start size (2 ^ 20 + 1) (0 * pageSize) s = some s' := by
    rw [Nat.zero_mul]
    exact h
  obtain ⟨hpool, hused⟩ := reserveRangeLoop_used _ _ L hloop
  refine ⟨hpool, ?_⟩
  intro p idx hidx
  obtain ⟨hkeep, hsound, hall⟩ := hused p idx hidx
  refine ⟨hsound, ?_⟩
  rintro (hu | ⟨a, ⟨k, hk, rfl⟩, hin⟩)
  · exact hkeep hu
  · exact hall k (Nat.zero_le k) hk hin

/-- The frames that one entry of the memory map marks. -/
theorem reserveEntry_eq (L : Layout s.pool) {entry : MmapEntry}
    (h : reserveEntry entry s = some s') :
    s'.pool = s.pool ∧ ∀ p idx, idx < s.numPageframes p →
      (s'.Used p idx ↔ s.Used p idx ∨ entry.type % 2 = 0 ∧
        ∃ a, RangeReserves (entry.addr % 2 ^ 32) (entry.len % 2 ^ 32) a ∧
          (s.pool p).InFrame idx a) := by
  have hbit : entry.type &&& memoryAvailable = entry.type % 2 := Nat.and_one_is_mod _
  rw [reserveEntry, hbit] at h
  by_cases heven : entry.type % 2 = 0
  · rw [if_pos heven] at h
    obtain ⟨hpool, hused⟩ := reserveRange_eq L h
    refine ⟨hpool, ?_⟩
    intro p idx hidx
    rw [hused p idx hidx, and_iff_right heven]
  · rw [if_neg heven] at h
    cases h
    refine ⟨rfl, ?_⟩
    intro p idx _
    constructor
    · exact Or.inl
    · rintro (hu | ⟨heven', -⟩)
      · exact hu
      · exact absurd heven' heven

/-- The frames that the entries of the memory map mark, in whatever order they come. -/
theorem reserveEntries_eq (list : List MmapEntry) (L : Layout s.pool)
    (h : list.foldlM (fun s entry => reserveEntry entry s) s = some s') :
    s'.pool = s.pool ∧ ∀ p idx, idx < s.numPageframes p →
      (s'.Used p idx ↔ s.Used p idx ∨ ∃ entry ∈ list, entry.type % 2 = 0 ∧
        ∃ a, RangeReserves (entry.addr % 2 ^ 32) (entry.len % 2 ^ 32) a ∧
          (s.pool p).InFrame idx a) := by
  induction list generalizing s with
  | nil =>
    cases h
    refine ⟨rfl, ?_⟩
    intro p idx _
    simp
  | cons entry list ih =>
    rw [List.foldlM_cons] at h
    cases hfirst : reserveEntry entry s with
    | none =>
      rw [hfirst] at h
      cases h
    | some s₁ =>
      rw [hfirst] at h
      obtain ⟨hpool₁, hused₁⟩ := reserveEntry_eq L hfirst
      obtain ⟨hpool, hused⟩ := ih (by rw [hpool₁]; exact L) h
      refine ⟨hpool.trans hpool₁, ?_⟩
      intro p idx hidx
      rw [hused p idx (by rw [State.numPageframes, hpool₁]; exact hidx), hused₁ p idx hidx, hpool₁,
        or_assoc]
      simp only [List.mem_cons, exists_eq_or_imp]

/-- The frames in use after the memory map and the kernel are reserved, if none was before. -/
theorem reserveAll_eq {boot : Mem} {mbt : MultibootInfo} {kernelEnd : Nat} {s₀ s₁ : State}
    (L : Layout s₀.pool) (hzero : ∀ p idx, idx < s₀.numPageframes p → ¬s₀.Used p idx)
    (hwalk : iterateMmap boot mbt reserveEntry s₀ = some s₁)
    (hlast : s₁.reserveRange 0 kernelEnd = some s) :
    ∃ list, entries boot mbt = some list ∧ s.pool = s₀.pool ∧
      ∀ p idx, idx < s₀.numPageframes p →
        (s.Used p idx ↔ ∃ a, InitReserves list kernelEnd a ∧ (s₀.pool p).InFrame idx a) := by
  rw [iterateMmap_eq] at hwalk
  obtain ⟨list, hlist, hfold⟩ := Option.bind_eq_some_iff.mp hwalk
  obtain ⟨hpool₁, hused₁⟩ := reserveEntries_eq list L hfold
  obtain ⟨hpool₂, hused₂⟩ := reserveRange_eq (by rw [hpool₁]; exact L) hlast
  refine ⟨list, hlist, hpool₂.trans hpool₁, ?_⟩
  intro p idx hidx
  rw [hused₂ p idx (by rw [State.numPageframes, hpool₁]; exact hidx), hused₁ p idx hidx, hpool₁]
  constructor
  · rintro ((hused | ⟨entry, hentry, heven, a, ha, hin⟩) | ⟨a, ha, hin⟩)
    · exact absurd hused (hzero p idx hidx)
    · exact ⟨a, Or.inl ⟨entry, hentry, heven, ha⟩, hin⟩
    · exact ⟨a, Or.inr ha, hin⟩
  · rintro ⟨a, ⟨entry, hentry, heven, ha⟩ | ha, hin⟩
    · exact Or.inl (Or.inr ⟨entry, hentry, heven, a, ha, hin⟩)
    · exact Or.inr ⟨a, ha, hin⟩

end Reserve

/-- The steps of an `init` that returns. -/
theorem init_some {boot mem : Mem} {mbt : MultibootInfo} {pool : PoolId → PhysicalPool}
    {kernelStaticEnd kernelDynamicEnd himemEnd : Nat} {s : State}
    (h : init boot mbt mem pool kernelStaticEnd kernelDynamicEnd himemEnd = some s) :
    ∃ s₁, iterateMmap boot mbt reserveEntry
        (setup mem pool kernelStaticEnd kernelDynamicEnd himemEnd).1 = some s₁ ∧
      s₁.reserveRange 0 (setup mem pool kernelStaticEnd kernelDynamicEnd himemEnd).2 = some s := by
  unfold init at h
  by_cases hzero : himemEnd = 0
  · rw [if_pos hzero] at h
    cases h
  · rw [if_neg hzero] at h
    generalize setup mem pool kernelStaticEnd kernelDynamicEnd himemEnd = r at h ⊢
    exact Option.bind_eq_some_iff.mp h

/-- The loop of `reserve_range` ends, unless the last page of the address space belongs to the
    range. -/
theorem reserveRange_returns (s : State) (start size : Nat)
    (hsize : size ≤ 2 ^ 32 - pageSize) : ∃ s', s.reserveRange start size = some s' := by
  have hloop : ∀ fuel i s, i < 2 ^ 32 → size ≤ i + fuel * pageSize →
      ∃ s', State.reserveRangeLoop start size (fuel + 1) i s = some s' := by
    intro fuel
    induction fuel with
    | zero =>
      intro i s _ hle
      rw [State.reserveRangeLoop, if_neg (by omega)]
      exact ⟨s, rfl⟩
    | succ fuel ih =>
      intro i s hi hle
      simp only [pageSize] at hle hsize
      rw [State.reserveRangeLoop]
      by_cases hlt : i < size
      · -- the counter stays below the range, which ends a page before it would wrap around
        have hnext : add32 i pageSize = i + pageSize := by
          simp only [add32, pageSize]
          omega
        rw [if_pos hlt, hnext]
        exact ih _ _ (by simp only [pageSize]; omega) (by simp only [pageSize]; omega)
      · rw [if_neg hlt]
        exact ⟨s, rfl⟩
  apply hloop (2 ^ 20) 0 s (by decide)
  simp only [pageSize] at hsize ⊢
  omega

/-- `init` returns if there is memory, the memory map ends, and no range that is reserved
    contains the last page of the address space. -/
theorem init_returns {boot : Mem} {mbt : MultibootInfo} (mem : Mem) (pool : PoolId → PhysicalPool)
    {kernelStaticEnd kernelDynamicEnd himemEnd : Nat} {list : List MmapEntry}
    (hstatic : kernelStaticEnd < 2 ^ 32) (hle : kernelDynamicEnd ≤ himemEnd)
    (hend : himemEnd < 2 ^ 32) (hsome : himemEnd ≠ 0) (hlist : entries boot mbt = some list)
    (hlen : ∀ entry ∈ list, entry.type % 2 = 0 → entry.len % 2 ^ 32 ≤ 2 ^ 32 - pageSize)
    (hkernel : bitmapsEnd kernelStaticEnd kernelDynamicEnd himemEnd ≤ 2 ^ 32 - pageSize) :
    ∃ s, init boot mbt mem pool kernelStaticEnd kernelDynamicEnd himemEnd = some s := by
  -- the entries one by one, from any state
  have hfold : ∀ (list : List MmapEntry) (s : State),
      (∀ entry ∈ list, entry.type % 2 = 0 → entry.len % 2 ^ 32 ≤ 2 ^ 32 - pageSize) →
      ∃ s', list.foldlM (fun s entry => reserveEntry entry s) s = some s' := by
    intro list
    induction list with
    | nil =>
      intro s _
      exact ⟨s, rfl⟩
    | cons entry list ih =>
      intro s hlen
      have hone : ∃ s₁, reserveEntry entry s = some s₁ := by
        have hbit : entry.type &&& memoryAvailable = entry.type % 2 := Nat.and_one_is_mod _
        rw [reserveEntry, hbit]
        by_cases heven : entry.type % 2 = 0
        · rw [if_pos heven]
          exact reserveRange_returns s _ _ (hlen entry List.mem_cons_self heven)
        · rw [if_neg heven]
          exact ⟨s, rfl⟩
      obtain ⟨s₁, hs₁⟩ := hone
      rw [List.foldlM_cons, hs₁]
      exact ih s₁ fun e he => hlen e (List.mem_cons_of_mem _ he)
  have hkernel' := setup_staticEnd mem pool hstatic hle hend
  unfold init
  rw [if_neg hsome]
  generalize setup mem pool kernelStaticEnd kernelDynamicEnd himemEnd = r at hkernel' ⊢
  obtain ⟨s₁, hs₁⟩ := hfold list r.1 hlen
  obtain ⟨s, hs⟩ := reserveRange_returns s₁ 0 r.2 (by rw [hkernel']; exact hkernel)
  refine ⟨s, ?_⟩
  show (iterateMmap boot mbt reserveEntry r.1).bind (fun s => s.reserveRange 0 r.2) = some s
  rw [iterateMmap_eq, hlist, Option.bind_some, hs₁, Option.bind_some]
  exact hs

/-- If `init` returns, then the pools are those of `bootPools`, and a frame is in use if and only
    if it holds an address at which `init` reserves. -/
theorem init_eq {boot mem : Mem} {mbt : MultibootInfo} {pool : PoolId → PhysicalPool}
    {kernelStaticEnd kernelDynamicEnd himemEnd : Nat} {s : State}
    (hstatic : kernelStaticEnd < 2 ^ 32) (hle : kernelDynamicEnd ≤ himemEnd)
    (hend : himemEnd < 2 ^ 32)
    (h : init boot mbt mem pool kernelStaticEnd kernelDynamicEnd himemEnd = some s) :
    ∃ list, entries boot mbt = some list ∧
      s.pool = bootPools kernelStaticEnd kernelDynamicEnd himemEnd ∧
      ∀ p idx, idx < poolPages kernelDynamicEnd himemEnd p →
        (s.Used p idx ↔ ∃ a,
          InitReserves list (bitmapsEnd kernelStaticEnd kernelDynamicEnd himemEnd) a ∧
          (bootPools kernelStaticEnd kernelDynamicEnd himemEnd p).InFrame idx a) := by
  obtain ⟨s₁, hwalk, hlast⟩ := init_some h
  have hpool := setup_pool mem pool hstatic hle hend
  have hpages : ∀ p, (setup mem pool kernelStaticEnd kernelDynamicEnd himemEnd).1.numPageframes p =
      poolPages kernelDynamicEnd himemEnd p := by
    intro p
    rw [State.numPageframes, hpool, numPageframes_bootPools]
  rw [setup_staticEnd mem pool hstatic hle hend] at hlast
  obtain ⟨list, hlist, hsame, hused⟩ := reserveAll_eq
    (by rw [hpool]; exact layout_bootPools kernelStaticEnd hle hend)
    (by
      intro p idx hidx hused
      rw [hpages] at hidx
      exact hused (status_setup mem pool hstatic hle hend hidx)) hwalk hlast
  refine ⟨list, hlist, hsame.trans hpool, ?_⟩
  intro p idx hidx
  have hp := hused p idx (by rw [hpages]; exact hidx)
  rw [hpool] at hp
  exact hp

end TimbOS.Native.Physical
