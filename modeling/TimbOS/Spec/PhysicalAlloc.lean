import TimbOS.Spec.PhysicalLayout

/-!
# Allocating and freeing page frames

The search of `PhysicalPool::alloc` looks at the frames of a run modulo the size of the
pool, but the loop that marks the run does not come back to the start. A run that passes
the end of the pool is therefore accepted, and marked, beyond the end.

## Key results

- `firstAligned_spec`, `search_spec`: the search finds the first position that fits
- `allocFrom_cases`, `serves_or_full`: which pool serves a call
- `status_of_fits`: the frames of a run are free as far as the pool goes
- `takeRun_spec`, `status_free`: a run inside the pool is marked, and freed again
-/

namespace TimbOS.Native.Physical

open ForStd Mem

/-! ## The search -/

/-- The position `i` of a search serves a request: it is below the size of the pool and
    aligned, and the frames from there on are free, modulo the size of the pool. -/
structure State.Fits (s : State) (p : PoolId) (pages alignment i : Nat) : Prop where
  lt : i < s.numPageframes p
  aligned : alignment ∣ (s.pool p).prevIdx + i
  free : s.runFree p pages i

/-- The position that serves a request, in the order of the search. -/
structure State.FirstFit (s : State) (p : PoolId) (pages alignment i : Nat) : Prop where
  fits : s.Fits p pages alignment i
  first : ∀ i' < i, ¬s.Fits p pages alignment i'

/-- A request stays inside the pool that serves it: the run that the search finds does not pass
    the end of the pool. -/
def State.StaysInside (s : State) (pages alignment : Nat) : List PoolId → Prop
  | [] => True
  | p :: fallbacks =>
    (∀ i, s.FirstFit p pages alignment i →
      ((s.pool p).prevIdx + i) % s.numPageframes p + pages ≤ s.numPageframes p) ∧
    ((∀ i, ¬s.Fits p pages alignment i) → s.StaysInside pages alignment fallbacks)

/-- The loop stops at the first aligned position. -/
theorem firstAligned_spec (prevIdx : Nat) {alignment : Nat} (halign : 0 < alignment) :
    alignment ∣ prevIdx + firstAligned prevIdx alignment alignment 0 ∧
      ∀ i < firstAligned prevIdx alignment alignment 0, ¬alignment ∣ prevIdx + i := by
  have hloop : ∀ fuel i, (∀ i' < i, ¬alignment ∣ prevIdx + i') →
      (∃ i', i ≤ i' ∧ i' < i + fuel ∧ alignment ∣ prevIdx + i') →
      alignment ∣ prevIdx + firstAligned prevIdx alignment fuel i ∧
        ∀ i' < firstAligned prevIdx alignment fuel i, ¬alignment ∣ prevIdx + i' := by
    -- induction on the fuel; some aligned position is still ahead within it
    intro fuel
    induction fuel with
    | zero =>
      intro i _ hsome
      obtain ⟨i', h₁, h₂, -⟩ := hsome
      omega
    | succ fuel ih =>
      intro i hnone hsome
      rw [firstAligned]
      by_cases hdvd : alignment ∣ prevIdx + i
      · rw [if_neg (not_not.mpr (by rw [Nat.add_comm]; exact Nat.mod_eq_zero_of_dvd hdvd))]
        exact ⟨hdvd, hnone⟩
      · rw [if_pos (by
          intro hmod
          rw [Nat.add_comm] at hmod
          exact hdvd (Nat.dvd_of_mod_eq_zero hmod))]
        apply ih (i + 1)
        · intro i' hi'
          rcases Nat.lt_succ_iff_lt_or_eq.mp hi' with hlt | rfl
          · exact hnone i' hlt
          · exact hdvd
        · obtain ⟨i', h₁, h₂, h₃⟩ := hsome
          have hne : i' ≠ i := by
            rintro rfl
            exact hdvd h₃
          exact ⟨i', by omega, by omega, h₃⟩
  apply hloop
  · intro i' hi'
    omega
  · -- the next multiple of the alignment is fewer than `alignment` steps away
    have hlt := Nat.mod_lt prevIdx halign
    by_cases hzero : prevIdx % alignment = 0
    · exact ⟨0, by omega, by omega, Nat.dvd_of_mod_eq_zero hzero⟩
    · refine ⟨alignment - prevIdx % alignment, by omega, by omega, ?_⟩
      have hdiv := Nat.div_add_mod prevIdx alignment
      refine ⟨prevIdx / alignment + 1, ?_⟩
      rw [Nat.mul_add, Nat.mul_one]
      omega

/-- Aligned positions are an alignment apart. -/
private theorem aligned_gap {prevIdx alignment i i' : Nat} (hi : alignment ∣ prevIdx + i)
    (hi' : alignment ∣ prevIdx + i') (hlt : i < i') : i + alignment ≤ i' := by
  have hdvd : alignment ∣ i' - i := by
    have h := Nat.dvd_sub hi' hi
    rwa [show prevIdx + i' - (prevIdx + i) = i' - i by omega] at h
  have hle := Nat.le_of_dvd (by omega) hdvd
  omega

section Search

variable {s : State} {p : PoolId} {pages alignment : Nat}

variable (s p pages) in
/-- The search from an aligned position on. -/
private theorem findRun_spec (halign : 0 < alignment) (fuel : Nat) {i : Nat}
    (hi : alignment ∣ (s.pool p).prevIdx + i) (hfuel : s.numPageframes p < fuel + i) :
    (∃ r, s.findRun p pages alignment fuel i = some r ∧ s.Fits p pages alignment r ∧
      ∀ i', i ≤ i' → i' < r → ¬s.Fits p pages alignment i') ∨
    s.findRun p pages alignment fuel i = none ∧ ∀ i', i ≤ i' → ¬s.Fits p pages alignment i' := by
  induction fuel generalizing i with
  | zero =>
    refine Or.inr ⟨rfl, ?_⟩
    intro i' hi' hfits
    have hlt := hfits.lt
    omega
  | succ fuel ih =>
    rw [State.findRun]
    by_cases hlt : i < s.numPageframes p
    · rw [if_pos hlt]
      by_cases hfree : s.runFree p pages i
      · rw [if_pos hfree]
        refine Or.inl ⟨i, rfl, ⟨hlt, hi, hfree⟩, ?_⟩
        intro i' h₁ h₂
        omega
      · rw [if_neg hfree]
        have hnext : alignment ∣ (s.pool p).prevIdx + (i + alignment) := by
          rw [← Nat.add_assoc]
          exact Nat.dvd_add hi (Nat.dvd_refl _)
        -- no position between this one and the next is aligned
        have hskip : ∀ i', i ≤ i' → i' < i + alignment → ¬s.Fits p pages alignment i' := by
          intro i' h₁ h₂ hfits
          rcases Nat.eq_or_lt_of_le h₁ with rfl | hlt'
          · exact hfree hfits.free
          · have hgap := aligned_gap hi hfits.aligned hlt'
            omega
        have hsplit : ∀ i', i ≤ i' → i' < i + alignment ∨ i + alignment ≤ i' := by
          intro i' _
          omega
        rcases ih hnext (by omega) with ⟨r, hr, hfits, hfirst⟩ | ⟨hnone, hno⟩
        · refine Or.inl ⟨r, hr, hfits, ?_⟩
          intro i' h₁ h₂
          rcases hsplit i' h₁ with hin | hout
          · exact hskip i' h₁ hin
          · exact hfirst i' hout h₂
        · refine Or.inr ⟨hnone, ?_⟩
          intro i' h₁
          rcases hsplit i' h₁ with hin | hout
          · exact hskip i' h₁ hin
          · exact hno i' hout
    · rw [if_neg hlt]
      refine Or.inr ⟨rfl, ?_⟩
      intro i' h₁ hfits
      have hlt' := hfits.lt
      omega

variable (s p pages) in
/-- The search of `alloc` finds the first position that fits, if there is one. -/
theorem search_spec (halign : 0 < alignment) :
    (∃ i, s.findRun p pages alignment ((s.pool p).numPageframes + 1)
        (firstAligned (s.pool p).prevIdx alignment alignment 0) = some i ∧
      s.FirstFit p pages alignment i) ∨
    s.findRun p pages alignment ((s.pool p).numPageframes + 1)
        (firstAligned (s.pool p).prevIdx alignment alignment 0) = none ∧
      ∀ i, ¬s.Fits p pages alignment i := by
  obtain ⟨hdvd, hbefore⟩ := firstAligned_spec (s.pool p).prevIdx halign
  have hlow : ∀ i < firstAligned (s.pool p).prevIdx alignment alignment 0,
      ¬s.Fits p pages alignment i := by
    intro i hi hfits
    exact hbefore i hi hfits.aligned
  rcases findRun_spec s p pages halign ((s.pool p).numPageframes + 1) hdvd
    (by simp only [State.numPageframes]; omega) with ⟨r, hr, hfits, hfirst⟩ | ⟨hnone, hno⟩
  · refine Or.inl ⟨r, hr, hfits, ?_⟩
    intro i hi
    rcases Nat.lt_or_ge i (firstAligned (s.pool p).prevIdx alignment alignment 0) with hlt | hge
    · exact hlow i hlt
    · exact hfirst i hge hi
  · refine Or.inr ⟨hnone, ?_⟩
    intro i
    rcases Nat.lt_or_ge i (firstAligned (s.pool p).prevIdx alignment alignment 0) with hlt | hge
    · exact hlow i hlt
    · exact hno i hge

variable (s pages) in
/-- A call returns `0`, because nothing fits, or what the first pool gives where something does. -/
theorem allocFrom_cases (halign : 0 < alignment) (chain : List PoolId) :
    s.allocFrom pages alignment chain = some (0, s) ∨
    ∃ p i, s.FirstFit p pages alignment i ∧
      s.allocFrom pages alignment chain =
        some (s.takeRun p pages (((s.pool p).prevIdx + i) % s.numPageframes p)) ∧
      (s.StaysInside pages alignment chain →
        ((s.pool p).prevIdx + i) % s.numPageframes p + pages ≤ s.numPageframes p) ∧
      p ∈ chain := by
  induction chain with
  | nil => exact Or.inl rfl
  | cons p fallbacks ih =>
    rw [State.allocFrom, if_neg (by omega)]
    rcases search_spec s p pages halign with ⟨i, hi, hfirst⟩ | ⟨hnone, hno⟩
    · simp only [hi]
      exact Or.inr ⟨p, i, hfirst, rfl, fun hstays => hstays.1 i hfirst, List.mem_cons_self⟩
    · simp only [hnone]
      rcases ih with hzero | ⟨q, i, hfirst, heq, hin, hmem⟩
      · exact Or.inl hzero
      · exact Or.inr ⟨q, i, hfirst, heq, fun hstays => hin (hstays.2 hno),
          List.mem_cons_of_mem p hmem⟩

theorem State.FirstFit.unique {i i' : Nat} (h : s.FirstFit p pages alignment i)
    (h' : s.FirstFit p pages alignment i') : i = i' := by
  rcases Nat.lt_trichotomy i i' with hlt | heq | hlt
  · exact absurd h.fits (h'.first i hlt)
  · exact heq
  · exact absurd h'.fits (h.first i' hlt)

/-- In a pool of free frames, a search from the first frame on ends there. -/
theorem firstFit_of_free (hprev : (s.pool p).prevIdx = 0) (hpos : 0 < s.numPageframes p)
    (hfree : ∀ k < s.numPageframes p, s.status p k = 0) (pages alignment : Nat) :
    s.FirstFit p pages alignment 0 := by
  refine ⟨⟨hpos, ?_, ?_⟩, fun i hi => absurd hi (Nat.not_lt_zero i)⟩
  · rw [hprev]
    exact Nat.dvd_zero alignment
  · intro j _
    exact hfree _ (Nat.mod_lt _ hpos)

/-- The first pool of a chain serves a call if anything fits there. -/
theorem allocFrom_of_firstFit (halign : 0 < alignment) {i : Nat}
    (h : s.FirstFit p pages alignment i) (fallbacks : List PoolId) :
    s.allocFrom pages alignment (p :: fallbacks) =
      some (s.takeRun p pages (((s.pool p).prevIdx + i) % s.numPageframes p)) := by
  rw [State.allocFrom, if_neg (by omega)]
  rcases search_spec s p pages halign with ⟨i', hi', hfirst⟩ | ⟨-, hno⟩
  · simp only [hi', hfirst.unique h]
    rfl
  · exact absurd h.fits (hno i)

/-- A request is served with the run at this frame: nothing fits in the pools before. -/
def State.Serves (s : State) (pages alignment : Nat) (p : PoolId) (idx : Nat) :
    List PoolId → Prop
  | [] => False
  | q :: fallbacks =>
    (∃ i, s.FirstFit q pages alignment i ∧ q = p ∧
        ((s.pool q).prevIdx + i) % s.numPageframes q = idx) ∨
      (∀ i, ¬ s.Fits q pages alignment i) ∧ s.Serves pages alignment p idx fallbacks

section Serves

variable {idx : Nat} {chain : List PoolId}

theorem State.Serves.firstFit (h : s.Serves pages alignment p idx chain) :
    p ∈ chain ∧ ∃ i, s.FirstFit p pages alignment i ∧
      ((s.pool p).prevIdx + i) % s.numPageframes p = idx := by
  induction chain with
  | nil => exact h.elim
  | cons q fallbacks ih =>
    rcases h with ⟨i, hfirst, rfl, hidx⟩ | ⟨-, hrest⟩
    · exact ⟨List.mem_cons_self, i, hfirst, hidx⟩
    · obtain ⟨hmem, hfits⟩ := ih hrest
      exact ⟨List.mem_cons_of_mem q hmem, hfits⟩

theorem State.Serves.lt (h : s.Serves pages alignment p idx chain) : idx < s.numPageframes p := by
  obtain ⟨-, i, hfirst, rfl⟩ := h.firstFit
  exact Nat.mod_lt _ (Nat.zero_lt_of_lt hfirst.fits.lt)

theorem State.Serves.unique {q : PoolId} {k : Nat} (h : s.Serves pages alignment p idx chain)
    (h' : s.Serves pages alignment q k chain) : p = q ∧ idx = k := by
  induction chain with
  | nil => exact h.elim
  | cons r fallbacks ih =>
    rcases h with ⟨i, hfirst, rfl, rfl⟩ | ⟨hno, hrest⟩
    · rcases h' with ⟨i', hfirst', rfl, rfl⟩ | ⟨hno, -⟩
      · rw [hfirst.unique hfirst']
        exact ⟨rfl, rfl⟩
      · exact absurd hfirst.fits (hno i)
    · rcases h' with ⟨i', hfirst', -⟩ | ⟨-, hrest'⟩
      · exact absurd hfirst'.fits (hno i')
      · exact ih hrest hrest'

theorem allocFrom_of_serves (halign : 0 < alignment) (h : s.Serves pages alignment p idx chain) :
    s.allocFrom pages alignment chain = some (s.takeRun p pages idx) := by
  induction chain with
  | nil => exact h.elim
  | cons q fallbacks ih =>
    rcases h with ⟨i, hfirst, rfl, rfl⟩ | ⟨hno, hrest⟩
    · exact allocFrom_of_firstFit halign hfirst fallbacks
    · -- nothing fits in the first pool, so the fallback serves the call
      rw [State.allocFrom, if_neg (by omega), ← ih hrest]
      rcases search_spec s q pages halign with ⟨i, -, hfirst⟩ | ⟨hnone, -⟩
      · exact absurd hfirst.fits (hno i)
      · simp only [hnone]

variable (s pages) in
/-- A request is served, or nothing fits and the call returns 0. -/
theorem serves_or_full (halign : 0 < alignment) (chain : List PoolId) :
    (∃ p idx, s.Serves pages alignment p idx chain) ∨
      (∀ p ∈ chain, ∀ i, ¬ s.Fits p pages alignment i) ∧
        s.allocFrom pages alignment chain = some (0, s) := by
  induction chain with
  | nil => exact .inr ⟨nofun, rfl⟩
  | cons q fallbacks ih =>
    rcases search_spec s q pages halign with ⟨i, -, hfirst⟩ | ⟨hnone, hno⟩
    · exact .inl ⟨q, _, .inl ⟨i, hfirst, rfl, rfl⟩⟩
    · rcases ih with ⟨p, idx, hserves⟩ | ⟨hall, heq⟩
      · exact .inl ⟨p, idx, .inr ⟨hno, hserves⟩⟩
      · refine .inr ⟨?_, ?_⟩
        · intro p hp
          cases hp with
          | head => exact hno
          | tail _ hp => exact hall p hp
        · rw [State.allocFrom, if_neg (by omega), ← heq]
          simp only [hnone]

end Serves

/-- A single page never passes the end of a pool. -/
theorem staysInside_one (s : State) (alignment : Nat) (chain : List PoolId) :
    s.StaysInside 1 alignment chain := by
  induction chain with
  | nil => trivial
  | cons p fallbacks ih =>
    refine ⟨?_, fun _ => ih⟩
    intro i hfirst
    have hlt := hfirst.fits.lt
    exact Nat.mod_lt _ (by omega)

/-- The frames of a run are free, up to the end of the pool. -/
theorem status_of_fits {i j : Nat} (hprev : (s.pool p).prevIdx < 2 ^ 20)
    (hnum : s.numPageframes p < 2 ^ 20) (h : s.Fits p pages alignment i) (hj : j < pages)
    (hin : ((s.pool p).prevIdx + i) % s.numPageframes p + j < s.numPageframes p) :
    s.status p (((s.pool p).prevIdx + i) % s.numPageframes p + j) = 0 := by
  have hlt := h.lt
  have hfree := h.free j hj
  rw [Nat.mod_eq_of_lt (b := 2 ^ 32) (by omega), Nat.add_mod,
    Nat.mod_eq_of_lt (a := j) (by omega), Nat.mod_eq_of_lt (b := s.numPageframes p) hin] at hfree
  exact hfree

end Search

/-! ## Runs inside a pool -/

section Run

variable {s : State} {p : PoolId}

theorem takeRun_sameFrames (s : State) (p : PoolId) (pages idx : Nat) (q : PoolId) :
    (s.pool q).SameFrames ((s.takeRun p pages idx).2.pool q) := by
  simp only [State.takeRun, State.setPool, pool_fill]
  by_cases hq : q = p
  · subst hq
    rw [if_pos rfl]
    exact ⟨rfl, rfl, rfl⟩
  · rw [if_neg hq]
    exact ⟨rfl, rfl, rfl⟩

theorem numPageframes_takeRun (s : State) (p : PoolId) (pages idx : Nat) (q : PoolId) :
    (s.takeRun p pages idx).2.numPageframes q = s.numPageframes q :=
  (takeRun_sameFrames s p pages idx q).2.1

theorem takeRun_prevIdx (s : State) (p : PoolId) (pages idx : Nat) (q : PoolId) :
    ((s.takeRun p pages idx).2.pool q).prevIdx =
      if q = p then (idx + pages) % 2 ^ 32 % s.numPageframes p else (s.pool q).prevIdx := by
  simp only [State.takeRun, State.setPool, pool_fill]
  by_cases hq : q = p
  · rw [if_pos hq, if_pos hq]
    rfl
  · rw [if_neg hq, if_neg hq]

theorem takeRun_address (L : Layout s.pool) {idx : Nat} (hidx : idx < s.numPageframes p)
    (pages : Nat) : (s.takeRun p pages idx).1 = (s.pool p).frameStart idx := by
  simp only [State.takeRun, pool_fill]
  exact L.addressOf_eq hidx

theorem status_takeRun (s : State) (p : PoolId) (pages idx : Nat) (q : PoolId) (k : Nat) :
    (s.takeRun p pages idx).2.status q k = (s.fill p idx 1 pages).status q k := by
  simp only [State.takeRun]
  apply status_setPool
  rfl

/-- Every word of a loop over frames is set, also behind the end of the pool. -/
theorem status_fill_at (s : State) (p : PoolId) (idx v : Nat) {j count : Nat} (hj : j < count)
    (hlt : count < 2 ^ 20) : (s.fill p idx v count).status p (idx + j) = v % 2 ^ 32 := by
  induction count with
  | zero => exact absurd hj (Nat.not_lt_zero j)
  | succ count ih =>
    have hpool : (s.fill p idx v count).pool = s.pool := pool_fill s p idx v count
    simp only [State.fill, State.setStatus, State.status, hpool] at ih ⊢
    rcases Nat.lt_succ_iff_lt_or_eq.mp hj with hj' | rfl
    · rw [load32_store32_apart _ _ (apart_of_le (by omega) (by omega)).symm]
      exact ih hj' (by omega)
    · exact load32_store32_same _ _ _

/-- Taking a run inside a pool returns its address and marks exactly its frames. -/
theorem takeRun_spec (L : Layout s.pool) {pages idx : Nat} (hidx : idx < s.numPageframes p)
    (hin : idx + pages ≤ s.numPageframes p) :
    (s.takeRun p pages idx).1 = (s.pool p).frameStart idx ∧
    ∀ q k, k < s.numPageframes q → (s.takeRun p pages idx).2.status q k =
      if q = p ∧ idx ≤ k ∧ k < idx + pages then 1 else s.status q k := by
  constructor
  · exact takeRun_address L hidx pages
  · intro q k hk
    have hfill := L.status_fill 1 hin hk
    rw [show 1 % 2 ^ 32 = 1 from rfl] at hfill
    rw [status_takeRun, hfill]

/-- The address of a frame lies in this frame only. -/
theorem Layout.inFrame_frameStart (L : Layout s.pool) {q : PoolId} {i k : Nat}
    (hi : i < s.numPageframes p) (hk : k < s.numPageframes q) :
    (s.pool q).InFrame k ((s.pool p).frameStart i) ↔ q = p ∧ k = i := by
  have hself : (s.pool p).InFrame i ((s.pool p).frameStart i) :=
    ⟨Nat.le_refl _, Nat.lt_add_of_pos_right (by decide)⟩
  constructor
  · intro hin
    exact L.inFrame_unique hk hi hin hself
  · rintro ⟨rfl, rfl⟩
    exact hself

/-- Freeing a run inside a pool clears exactly the marks of its frames. -/
theorem status_free (L : Layout s.pool) {pages first : Nat}
    (hin : first + pages ≤ s.numPageframes p) {q : PoolId} {k : Nat}
    (hk : k < s.numPageframes q) :
    (s.free ((s.pool p).frameStart first) pages).status q k =
      if q = p ∧ first ≤ k ∧ k < first + pages then 0 else s.status q k := by
  induction pages with
  | zero =>
    rw [if_neg (by omega)]
    rfl
  | succ pages ih =>
    have hpool := pool_free s ((s.pool p).frameStart first) pages
    -- the address of the last page does not wrap around inside a pool
    have haddr : add32 ((s.pool p).frameStart first) (pages * pageSize) =
        (s.pool p).frameStart (first + pages) := by
      have htop := L.pool_top_lt p
      have hnext : first + pages < (s.pool p).numPageframes := by
        simp only [State.numPageframes] at hin
        omega
      have hlt := Layout.frameStart_lt_top s.pool hnext
      simp only [PhysicalPool.frameStart, add32, pageSize] at hlt ⊢
      omega
    rw [State.free, haddr, Layout.status_setFrame (by rw [hpool]; exact L) _ _
      (by rw [State.numPageframes, hpool]; exact hk), ih (by omega), hpool]
    by_cases hlast : q = p ∧ k = first + pages
    · rw [if_pos ((L.inFrame_frameStart (by omega) hk).mpr hlast), if_pos ⟨hlast.1, by omega⟩,
        Nat.zero_mod]
    · rw [if_neg fun h => hlast ((L.inFrame_frameStart (by omega) hk).mp h)]
      by_cases hrun : q = p ∧ first ≤ k ∧ k < first + pages
      · rw [if_pos hrun, if_pos ⟨hrun.1, by omega⟩]
      · rw [if_neg hrun, if_neg]
        intro h
        by_cases hk' : k < first + pages
        · exact hrun ⟨h.1, h.2.1, hk'⟩
        · exact hlast ⟨h.1, by omega⟩

end Run

end TimbOS.Native.Physical
