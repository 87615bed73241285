import TimbOS.Native.Physical

/-!
# The layout of the page frame pools

`mm::physical::init` puts the pools one after the other into memory, with gaps of less than
a page, and their bitmaps one after the other behind the kernel. As long as nobody uses an
index past the end of a pool, each status word belongs to one frame. An address in a gap
has the index `0xFFFFF`, whose word lies past all the bitmaps.

## Key results

- `Layout`: what the pools of `init` look like
- `status_setFrame`, `status_fill`: what changes in the bitmaps
-/

namespace TimbOS.Native.Physical

open ForStd Mem

namespace PhysicalPool

/-- Where a frame begins, without wrap-around. -/
def frameStart (pool : PhysicalPool) (idx : Nat) : Nat := pool.base + idx * pageSize

/-- Where a pool ends, without wrap-around. -/
def top (pool : PhysicalPool) : Nat := pool.frameStart pool.numPageframes

/-- The byte at `a` belongs to a frame. -/
def InFrame (pool : PhysicalPool) (idx a : Nat) : Prop :=
  pool.frameStart idx ≤ a ∧ a < pool.frameStart idx + pageSize

instance (pool : PhysicalPool) (idx a : Nat) : Decidable (pool.InFrame idx a) :=
  inferInstanceAs (Decidable (_ ∧ _))

/-- Two pools differ in their `_prev_idx` at most. -/
def SameFrames (pool pool' : PhysicalPool) : Prop :=
  pool'.base = pool.base ∧ pool'.numPageframes = pool.numPageframes ∧ pool'.bitmap = pool.bitmap

namespace SameFrames

variable {pool pool' pool'' : PhysicalPool}

theorem trans (h : pool.SameFrames pool') (h' : pool'.SameFrames pool'') :
    pool.SameFrames pool'' :=
  ⟨h'.1.trans h.1, h'.2.1.trans h.2.1, h'.2.2.trans h.2.2⟩

theorem frameStart_eq (h : pool.SameFrames pool') (idx : Nat) :
    pool'.frameStart idx = pool.frameStart idx := by
  rw [frameStart, h.1]
  rfl

end SameFrames

end PhysicalPool

/-- Where the pool before `p` ends. -/
def gapStart (pool : PoolId → PhysicalPool) : PoolId → Nat
  | .dmaPool => 0
  | .defaultPool => (pool .dmaPool).top
  | .hiMemPool => (pool .defaultPool).top

/-- The index of an address in the gap before a pool. -/
def gapIndex : Nat := 0xFFFFF

/-- Pools in the order of their addresses, with bitmaps that do not overlap. -/
structure Layout (pool : PoolId → PhysicalPool) : Prop where
  base_dmaPool : (pool .dmaPool).base = 0
  gapStart_le : ∀ p, gapStart pool p ≤ (pool p).base
  lt_gapStart : ∀ p, (pool p).base < gapStart pool p + pageSize
  top_lt : (pool .hiMemPool).top < 2 ^ 32
  /-- No two frames share a byte of the bitmaps. -/
  words : ∀ p q i j, i < (pool p).numPageframes → j < (pool q).numPageframes →
    (p = q → i ≠ j) → Apart ((pool p).bitmap + 4 * i) ((pool q).bitmap + 4 * j)
  /-- The word of an address in a gap belongs to no frame. -/
  stray : ∀ p q j, gapStart pool p < (pool p).base → j < (pool q).numPageframes →
    Apart ((pool p).bitmap + 4 * gapIndex) ((pool q).bitmap + 4 * j)

/-! ## What the operations do to the pools -/

section Pool

variable (s : State) (p : PoolId)

@[simp] theorem pool_setStatus (idx v : Nat) : (s.setStatus p idx v).pool = s.pool := rfl

@[simp] theorem pool_fill (idx v count : Nat) : (s.fill p idx v count).pool = s.pool := by
  induction count with
  | zero => rfl
  | succ count ih => exact ih

@[simp] theorem pool_setFrame (a v : Nat) : (s.setFrame a v).pool = s.pool := by
  unfold State.setFrame
  split <;> rfl

@[simp] theorem pool_free (a pages : Nat) : (s.free a pages).pool = s.pool := by
  induction pages with
  | zero => rfl
  | succ pages ih =>
    rw [State.free, pool_setFrame]
    exact ih

@[simp] theorem pool_setPool_same (pool : PhysicalPool) : (s.setPool p pool).pool p = pool :=
  if_pos rfl

theorem pool_setPool_ne (pool : PhysicalPool) {q : PoolId} (hq : q ≠ p) :
    (s.setPool p pool).pool q = s.pool q := if_neg hq

theorem status_setPool (pool : PhysicalPool) (h : pool.bitmap = (s.pool p).bitmap) (q : PoolId)
    (idx : Nat) : (s.setPool p pool).status q idx = s.status q idx := by
  by_cases hq : q = p
  · subst hq
    simp only [State.status, pool_setPool_same, h]
    rfl
  · simp only [State.status, pool_setPool_ne s p pool hq]
    rfl

end Pool

/-! ## Frames and addresses -/

namespace Layout

variable {pool pool' : PoolId → PhysicalPool} {s : State}

/-- The layout does not depend on where the next search starts. -/
theorem congr (L : Layout pool) (h : ∀ p, (pool p).SameFrames (pool' p)) : Layout pool' := by
  have hbase : ∀ p, (pool' p).base = (pool p).base := fun p => (h p).1
  have hnum : ∀ p, (pool' p).numPageframes = (pool p).numPageframes := fun p => (h p).2.1
  have hbitmap : ∀ p, (pool' p).bitmap = (pool p).bitmap := fun p => (h p).2.2
  have htop : ∀ p, (pool' p).top = (pool p).top := by
    intro p
    simp only [PhysicalPool.top, PhysicalPool.frameStart, hbase, hnum]
  have hgap : ∀ p, gapStart pool' p = gapStart pool p := by
    intro p
    cases p with
    | dmaPool => rfl
    | defaultPool => exact htop _
    | hiMemPool => exact htop _
  constructor
  · rw [hbase]
    exact L.base_dmaPool
  · intro p
    rw [hbase, hgap]
    exact L.gapStart_le p
  · intro p
    rw [hbase, hgap]
    exact L.lt_gapStart p
  · rw [htop]
    exact L.top_lt
  · intro p q i j hi hj
    rw [hnum] at hi hj
    rw [hbitmap, hbitmap]
    exact L.words p q i j hi hj
  · intro p q j hgapp hj
    rw [hbase, hgap] at hgapp
    rw [hnum] at hj
    rw [hbitmap, hbitmap]
    exact L.stray p q j hgapp hj

/-- The tops of the pools in terms of what the pools hold. -/
private theorem tops (L : Layout pool) :
    (pool .dmaPool).base = 0 ∧
    (pool .dmaPool).top = (pool .dmaPool).numPageframes * pageSize ∧
    (pool .dmaPool).top ≤ (pool .defaultPool).base ∧
    (pool .defaultPool).base < (pool .dmaPool).top + pageSize ∧
    (pool .defaultPool).top = (pool .defaultPool).base +
      (pool .defaultPool).numPageframes * pageSize ∧
    (pool .defaultPool).top ≤ (pool .hiMemPool).base ∧
    (pool .hiMemPool).base < (pool .defaultPool).top + pageSize ∧
    (pool .hiMemPool).top = (pool .hiMemPool).base +
      (pool .hiMemPool).numPageframes * pageSize ∧
    (pool .hiMemPool).top < 2 ^ 32 := by
  refine ⟨L.base_dmaPool, ?_, L.gapStart_le .defaultPool, L.lt_gapStart .defaultPool, rfl,
    L.gapStart_le .hiMemPool, L.lt_gapStart .hiMemPool, rfl, L.top_lt⟩
  simp only [PhysicalPool.top, PhysicalPool.frameStart, L.base_dmaPool, Nat.zero_add]

theorem pool_top_lt (L : Layout pool) (p : PoolId) : (pool p).top < 2 ^ 32 := by
  have h := L.tops
  cases p <;> omega

theorem numPageframes_lt (L : Layout pool) (p : PoolId) : (pool p).numPageframes < 2 ^ 20 := by
  have h := L.pool_top_lt p
  simp only [PhysicalPool.top, PhysicalPool.frameStart, pageSize] at h
  omega

/-- `limit()` does not wrap around. -/
theorem limit_eq (L : Layout pool) (p : PoolId) : (pool p).limit = (pool p).top := by
  have h := L.pool_top_lt p
  simp only [PhysicalPool.limit, PhysicalPool.size, PhysicalPool.top, PhysicalPool.frameStart,
    add32, pageSize] at h ⊢
  omega

theorem frameStart_lt_top (pool : PoolId → PhysicalPool) {p : PoolId} {idx : Nat}
    (hidx : idx < (pool p).numPageframes) :
    (pool p).frameStart idx + pageSize ≤ (pool p).top := by
  simp only [PhysicalPool.top, PhysicalPool.frameStart, pageSize]
  omega

/-- `address_of(idx)` does not wrap around. -/
theorem addressOf_eq (L : Layout pool) {p : PoolId} {idx : Nat}
    (hidx : idx < (pool p).numPageframes) :
    (pool p).addressOf idx = (pool p).frameStart idx := by
  have h := L.pool_top_lt p
  have hlt := frameStart_lt_top pool hidx
  simp only [PhysicalPool.addressOf, PhysicalPool.frameStart, add32, pageSize] at hlt ⊢
  omega

/-- `find_pool` and `index_of` find the frame of an address. -/
theorem findPool_eq (L : Layout s.pool) {p : PoolId} {idx a : Nat}
    (hidx : idx < s.numPageframes p) (ha : (s.pool p).InFrame idx a) :
    s.findPool a = some p ∧ (s.pool p).indexOf a = idx := by
  have htop := L.pool_top_lt p
  have hle : (s.pool p).frameStart idx + pageSize ≤ (s.pool p).top := frameStart_lt_top s.pool hidx
  obtain ⟨h₁, h₂⟩ := ha
  constructor
  · have hfirst : (s.pool p).base ≤ (s.pool p).frameStart idx := Nat.le_add_right _ _
    have h := L.tops
    unfold State.findPool
    rw [L.limit_eq, L.limit_eq, L.limit_eq]
    cases p with
    | dmaPool => rw [if_pos (by omega)]
    | defaultPool => rw [if_neg (by omega), if_pos (by omega)]
    | hiMemPool => rw [if_neg (by omega), if_neg (by omega), if_pos (by omega)]
  · have ha : a < 2 ^ 32 := by omega
    simp only [PhysicalPool.frameStart, pageSize] at h₁ h₂
    simp only [PhysicalPool.indexOf, pageSize]
    rw [sub32_eq (by omega) ha]
    omega

/-- An address that some pool is found for lies in a frame of it, or in the gap before. -/
theorem findPool_cases (L : Layout s.pool) {p : PoolId} {a : Nat}
    (h : s.findPool a = some p) :
    (∃ idx < s.numPageframes p, (s.pool p).InFrame idx a) ∨
      gapStart s.pool p < (s.pool p).base ∧ (s.pool p).indexOf a = gapIndex := by
  have htops := L.tops
  have hgap := L.gapStart_le p
  have hlt := L.lt_gapStart p
  -- the three comparisons of `find_pool`, from the DMA pool on
  have hwhere : gapStart s.pool p ≤ a ∧ a < (s.pool p).top := by
    unfold State.findPool at h
    rw [L.limit_eq, L.limit_eq, L.limit_eq] at h
    split at h
    · cases h
      exact ⟨Nat.zero_le _, by assumption⟩
    · split at h
      · cases h
        exact ⟨Nat.le_of_not_lt (by assumption), by assumption⟩
      · split at h
        · cases h
          exact ⟨Nat.le_of_not_lt (by assumption), by assumption⟩
        · cases h
  obtain ⟨hlow, hhigh⟩ := hwhere
  have htop := L.pool_top_lt p
  -- below the base of the pool `index_of` wraps around
  by_cases hbase : (s.pool p).base ≤ a
  · apply Or.inl
    simp only [PhysicalPool.top, PhysicalPool.frameStart, pageSize] at hhigh
    refine ⟨(a - (s.pool p).base) / pageSize, ?_, ?_, ?_⟩
    · simp only [State.numPageframes, pageSize]
      omega
    · simp only [PhysicalPool.frameStart, pageSize]
      omega
    · simp only [PhysicalPool.frameStart, pageSize]
      omega
  · refine Or.inr ⟨by omega, ?_⟩
    simp only [PhysicalPool.indexOf, sub32, gapIndex, pageSize] at hlt ⊢
    have hle : (s.pool p).base ≤ (s.pool p).top := Nat.le_add_right _ _
    omega

/-- An address lies in one frame at most. -/
theorem inFrame_unique (L : Layout s.pool) {p q : PoolId} {i j a : Nat}
    (hi : i < s.numPageframes p) (hj : j < s.numPageframes q)
    (hp : (s.pool p).InFrame i a) (hq : (s.pool q).InFrame j a) : p = q ∧ i = j := by
  obtain ⟨hfind, hindex⟩ := L.findPool_eq hi hp
  obtain ⟨hfind', hindex'⟩ := L.findPool_eq hj hq
  rw [hfind] at hfind'
  cases hfind'
  exact ⟨rfl, hindex.symm.trans hindex'⟩

/-! ## Marks -/

/-- Setting the word of one frame leaves those of the others alone. -/
theorem status_setStatus (L : Layout s.pool) {p q : PoolId} {i k : Nat} (v : Nat)
    (hi : i < s.numPageframes p) (hk : k < s.numPageframes q) :
    (s.setStatus p i v).status q k =
      if q = p ∧ k = i then v % 2 ^ 32 else s.status q k := by
  by_cases hsame : q = p ∧ k = i
  · obtain ⟨rfl, rfl⟩ := hsame
    rw [if_pos ⟨rfl, rfl⟩]
    exact load32_store32_same _ _ _
  · rw [if_neg hsame]
    apply load32_store32_apart
    exact L.words p q i k hi hk fun hpq hik => hsame ⟨hpq.symm, hik.symm⟩

/-- A loop over consecutive frames of a pool sets exactly their words. -/
theorem status_fill (L : Layout s.pool) {p q : PoolId} {idx k : Nat} (v : Nat) {count : Nat}
    (hidx : idx + count ≤ s.numPageframes p) (hk : k < s.numPageframes q) :
    (s.fill p idx v count).status q k =
      if q = p ∧ idx ≤ k ∧ k < idx + count then v % 2 ^ 32 else s.status q k := by
  induction count with
  | zero =>
    rw [if_neg (by omega)]
    rfl
  | succ count ih =>
    have L' : Layout (s.fill p idx v count).pool := by
      rw [pool_fill]
      exact L
    have hnum : ∀ r, (s.fill p idx v count).numPageframes r = s.numPageframes r := by
      intro r
      rw [State.numPageframes, pool_fill]
      rfl
    rw [State.fill, L'.status_setStatus v (by rw [hnum]; omega) (by rw [hnum]; exact hk),
      ih (by omega)]
    by_cases hlast : q = p ∧ k = idx + count
    · rw [if_pos hlast, if_pos ⟨hlast.1, by omega⟩]
    · rw [if_neg hlast]
      by_cases hin : q = p ∧ idx ≤ k ∧ k < idx + count
      · rw [if_pos hin, if_pos ⟨hin.1, by omega⟩]
      · rw [if_neg hin, if_neg]
        intro h
        by_cases hk' : k < idx + count
        · exact hin ⟨h.1, h.2.1, hk'⟩
        · exact hlast ⟨h.1, by omega⟩

/-- Setting the frame at an address sets the word of the frame that holds the address, if there
    is one, and no other. -/
theorem status_setFrame (L : Layout s.pool) {q : PoolId} {k : Nat} (a v : Nat)
    (hk : k < s.numPageframes q) :
    (s.setFrame a v).status q k =
      if (s.pool q).InFrame k a then v % 2 ^ 32 else s.status q k := by
  by_cases hin : (s.pool q).InFrame k a
  · obtain ⟨hfind, hindex⟩ := L.findPool_eq hk hin
    unfold State.setFrame
    rw [if_pos hin, hfind]
    simp only [hindex]
    rw [L.status_setStatus v hk hk, if_pos ⟨rfl, rfl⟩]
  · rw [if_neg hin]
    unfold State.setFrame
    cases hfind : s.findPool a with
    | none => rfl
    | some p =>
      show (s.setStatus p ((s.pool p).indexOf a) v).status q k = s.status q k
      rcases L.findPool_cases hfind with ⟨idx, hidx, hframe⟩ | ⟨hgap, hindex⟩
      · rw [(L.findPool_eq hidx hframe).2, L.status_setStatus v hidx hk, if_neg]
        rintro ⟨rfl, rfl⟩
        exact hin hframe
      · rw [hindex]
        exact load32_store32_apart _ _ (L.stray p q k hgap hk)

end Layout

end TimbOS.Native.Physical
