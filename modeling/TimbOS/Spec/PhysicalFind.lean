import TimbOS.Spec.PhysicalRuns

/-!
# The pool of an address

`find_pool` compares an address with the ends of the pools only. A pool ends with its last whole
page, and the next one begins where the memory of the first ends, so that an incomplete page
before `kernel_dynamic_end` belongs to no pool. An address there is taken for one of the pool
behind it, and its index wraps around.

## Key results

- `init_bounds`: the base and the size of the pools, for all memory sizes
- `indexOf_addressOf`: the index of a frame's address
- `find_pool_iff`: exactly which addresses are looked up correctly
- `find_pool_gap`: an address behind the last whole page
-/

namespace TimbOS.Native.Physical

open ForStd Mem Multiboot

/-! ## The pools for all memory sizes -/

/-- The bytes of a pool. Those of the high memory wrap around if this ends before it begins. -/
def poolBytes (kernelDynamicEnd himemEnd : Nat) : PoolId → Nat
  | .dmaPool => dmaEnd kernelDynamicEnd
  | .defaultPool => kernelDynamicEnd - dmaEnd kernelDynamicEnd
  | .hiMemPool => sub32 himemEnd kernelDynamicEnd

/-- Where the pools begin and how many frames they have. -/
def PoolBounds (kernelDynamicEnd himemEnd : Nat) (pool : PoolId → PhysicalPool) : Prop :=
  ∀ p, (pool p).base = (poolMemory kernelDynamicEnd himemEnd p).1 ∧
    (pool p).numPageframes = poolBytes kernelDynamicEnd himemEnd p / pageSize

section Bounds

variable {s s' : State} {kernelStaticEnd kernelDynamicEnd himemEnd : Nat}

theorem pool_reserveRange {start size : Nat} (h : s.reserveRange start size = some s') :
    s'.pool = s.pool := by
  have hloop : ∀ fuel i s, State.reserveRangeLoop start size fuel i s = some s' →
      s'.pool = s.pool := by
    intro fuel
    induction fuel with
    | zero =>
      intro i s h
      cases h
    | succ fuel ih =>
      intro i s h
      rw [State.reserveRangeLoop] at h
      split at h
      · -- a step changes words of the bitmaps only
        rw [ih _ _ h]
        exact pool_setFrame s _ 1
      · cases h
        rfl
  have hrun : State.reserveRangeLoop start size (2 ^ 20 + 1) 0 s = some s' := h
  exact hloop (2 ^ 20 + 1) 0 s hrun

theorem pool_reserveEntries {list : List MmapEntry}
    (h : list.foldlM (fun s entry => reserveEntry entry s) s = some s') : s'.pool = s.pool := by
  induction list generalizing s with
  | nil =>
    cases h
    rfl
  | cons entry list ih =>
    rw [List.foldlM_cons] at h
    obtain ⟨s₁, hentry, hrest⟩ := Option.bind_eq_some_iff.mp h
    rw [ih hrest]
    unfold reserveEntry at hentry
    split at hentry
    · exact pool_reserveRange hentry
    · cases hentry
      rfl

/-- The pools of `setup`, whatever the high memory. -/
private theorem setup_initPool (mem : Mem) (pool : PoolId → PhysicalPool) (himemEnd : Nat)
    (hstatic : kernelStaticEnd < 2 ^ 32) (hdyn : kernelDynamicEnd < 2 ^ 32) :
    ∃ b₁ b₂ b₃, (setup mem pool kernelStaticEnd kernelDynamicEnd himemEnd).1 =
      (((⟨mem, pool⟩ : State).initPool .dmaPool 0 (dmaEnd kernelDynamicEnd / pageSize) b₁).initPool
        .defaultPool (dmaEnd kernelDynamicEnd)
        ((kernelDynamicEnd - dmaEnd kernelDynamicEnd) / pageSize) b₂).initPool
        .hiMemPool kernelDynamicEnd (sub32 himemEnd kernelDynamicEnd / pageSize) b₃ := by
  obtain ⟨hdefault, hstart, hstart'⟩ := setup_sizes hdyn
  unfold setup
  simp only [dmaPoolSize_eq, hdefault, hstart, hstart', linearAlloc_eq hstatic,
    linearAlloc_eq (add32_lt _ _)]
  exact ⟨_, _, _, rfl⟩

theorem setup_bounds (mem : Mem) (pool : PoolId → PhysicalPool) (himemEnd : Nat)
    (hstatic : kernelStaticEnd < 2 ^ 32) (hdyn : kernelDynamicEnd < 2 ^ 32) :
    PoolBounds kernelDynamicEnd himemEnd
      (setup mem pool kernelStaticEnd kernelDynamicEnd himemEnd).1.pool := by
  obtain ⟨b₁, b₂, b₃, hsetup⟩ := setup_initPool mem pool himemEnd hstatic hdyn
  intro p
  rw [hsetup]
  simp only [State.initPool, pool_fill, State.setPool]
  cases p <;> exact ⟨rfl, rfl⟩

/-- `init` keeps the bounds that it has set up. -/
theorem init_bounds {boot mem : Mem} {mbt : MultibootInfo} {pool : PoolId → PhysicalPool}
    (hstatic : kernelStaticEnd < 2 ^ 32) (hdyn : kernelDynamicEnd < 2 ^ 32)
    (h : init boot mbt mem pool kernelStaticEnd kernelDynamicEnd himemEnd = some s) :
    PoolBounds kernelDynamicEnd himemEnd s.pool := by
  obtain ⟨s₁, hwalk, hlast⟩ := init_some h
  rw [iterateMmap_eq] at hwalk
  obtain ⟨list, -, hfold⟩ := Option.bind_eq_some_iff.mp hwalk
  rw [pool_reserveRange hlast, pool_reserveEntries hfold]
  exact setup_bounds mem pool himemEnd hstatic hdyn

end Bounds

/-! ## Looking up an address -/

/-- `find_pool` gives the pool that holds the address, or none, the address has an index in this
    pool, and a frame of a pool has its own index. -/
structure State.LooksUp (s : State) (a : Nat) : Prop where
  found : ∀ p, s.findPool a = some p ↔ (s.pool p).base ≤ a ∧ a < (s.pool p).limit
  index_lt : ∀ p, s.findPool a = some p → (s.pool p).indexOf a < s.numPageframes p
  index_eq : ∀ p i, i < s.numPageframes p → (s.pool p).indexOf ((s.pool p).addressOf i) = i

/-- The address lies between the last whole page before `kernel_dynamic_end` and this end, and
    before the end of the pool behind it. -/
def InGap (kernelDynamicEnd himemEnd a : Nat) : Prop :=
  kernelDynamicEnd - kernelDynamicEnd % pageSize ≤ a ∧ a < kernelDynamicEnd ∧
    (kernelDynamicEnd ≤ dmaMemoryLimit ∨
      kernelDynamicEnd + poolBytes kernelDynamicEnd himemEnd .hiMemPool / pageSize * pageSize <
        2 ^ 32)

instance (kernelDynamicEnd himemEnd a : Nat) : Decidable (InGap kernelDynamicEnd himemEnd a) :=
  inferInstanceAs (Decidable (_ ∧ _ ∧ _))

section Find

variable {s : State} {kernelDynamicEnd himemEnd a : Nat}

theorem poolBytes_lt (hdyn : kernelDynamicEnd < 2 ^ 32) (himemEnd : Nat) (p : PoolId) :
    poolBytes kernelDynamicEnd himemEnd p < 2 ^ 32 := by
  cases p with
  | dmaPool => exact Nat.lt_of_le_of_lt (Nat.min_le_right _ _) hdyn
  | defaultPool => exact Nat.lt_of_le_of_lt (Nat.sub_le _ _) hdyn
  | hiMemPool => exact sub32_lt himemEnd kernelDynamicEnd

theorem PoolBounds.numPageframes_lt (h : PoolBounds kernelDynamicEnd himemEnd s.pool)
    (hdyn : kernelDynamicEnd < 2 ^ 32) (p : PoolId) : s.numPageframes p < 2 ^ 20 := by
  have hbytes := poolBytes_lt hdyn himemEnd p
  rw [State.numPageframes, (h p).2, pageSize]
  omega

theorem PoolBounds.base_lt (h : PoolBounds kernelDynamicEnd himemEnd s.pool)
    (hdyn : kernelDynamicEnd < 2 ^ 32) (p : PoolId) : (s.pool p).base < 2 ^ 32 := by
  rw [(h p).1]
  cases p with
  | dmaPool => exact Nat.two_pow_pos 32
  | defaultPool => exact Nat.lt_of_le_of_lt (Nat.min_le_right _ _) hdyn
  | hiMemPool => exact hdyn

/-- The index of a frame's address is that of the frame, also where the address wraps around. -/
theorem indexOf_addressOf {pool : PhysicalPool} {i : Nat} (hbase : pool.base < 2 ^ 32)
    (hi : i < 2 ^ 20) : pool.indexOf (pool.addressOf i) = i := by
  simp only [PhysicalPool.indexOf, PhysicalPool.addressOf, add32, sub32, pageSize]
  omega

/-- An address between the base and the limit has an index in the pool. -/
theorem indexOf_lt {pool : PhysicalPool} (hnum : pool.numPageframes < 2 ^ 20)
    (hlow : pool.base ≤ a) (hhigh : a < pool.limit) : pool.indexOf a < pool.numPageframes := by
  simp only [PhysicalPool.limit, PhysicalPool.size, PhysicalPool.indexOf, add32, sub32,
    pageSize] at hhigh ⊢
  omega

/-- The bounds in numbers. -/
private theorem PoolBounds.limits (h : PoolBounds kernelDynamicEnd himemEnd s.pool)
    (hdyn : kernelDynamicEnd < 2 ^ 32) :
    (s.pool .dmaPool).base = 0 ∧
    (s.pool .dmaPool).limit = dmaEnd kernelDynamicEnd / pageSize * pageSize ∧
    (s.pool .defaultPool).base = dmaEnd kernelDynamicEnd ∧
    (s.pool .defaultPool).limit = dmaEnd kernelDynamicEnd +
      (kernelDynamicEnd - dmaEnd kernelDynamicEnd) / pageSize * pageSize ∧
    (s.pool .hiMemPool).base = kernelDynamicEnd ∧
    (s.pool .hiMemPool).limit = (kernelDynamicEnd +
      poolBytes kernelDynamicEnd himemEnd .hiMemPool / pageSize * pageSize) % 2 ^ 32 := by
  have hbytes := poolBytes_lt hdyn himemEnd .hiMemPool
  have hdma : dmaEnd kernelDynamicEnd ≤ kernelDynamicEnd := Nat.min_le_right _ _
  obtain ⟨hbase₁, hnum₁⟩ := h .dmaPool
  obtain ⟨hbase₂, hnum₂⟩ := h .defaultPool
  obtain ⟨hbase₃, hnum₃⟩ := h .hiMemPool
  -- only the end of the last pool can pass the end of the address space
  refine ⟨hbase₁, ?_, hbase₂, ?_, hbase₃, ?_⟩
  · rw [PhysicalPool.limit, PhysicalPool.size, hbase₁, hnum₁]
    simp only [poolMemory, poolBytes, add32, pageSize]
    omega
  · rw [PhysicalPool.limit, PhysicalPool.size, hbase₂, hnum₂]
    simp only [poolMemory, poolBytes, add32, pageSize]
    omega
  · rw [PhysicalPool.limit, PhysicalPool.size, hbase₃, hnum₃]
    simp only [poolMemory, add32, pageSize]
    omega

/-- In the gap the pool behind it is found. -/
private theorem PoolBounds.findPool_gap (h : PoolBounds kernelDynamicEnd himemEnd s.pool)
    (hdyn : kernelDynamicEnd < 2 ^ 32) (hgap : InGap kernelDynamicEnd himemEnd a) :
    ∃ p, s.findPool a = some p ∧ a < (s.pool p).base := by
  obtain ⟨-, hlimit₁, hbase₂, hlimit₂, hbase₃, hlimit₃⟩ := h.limits hdyn
  obtain ⟨hlow, hhigh, hlast⟩ := hgap
  simp only [dmaEnd, dmaMemoryLimit, pageSize] at hlow hlast hlimit₁ hbase₂ hlimit₂ hlimit₃
  unfold State.findPool
  by_cases hsmall : kernelDynamicEnd ≤ 0x01000000
  · refine ⟨.defaultPool, ?_, by omega⟩
    rw [if_neg (by omega), if_pos (by omega)]
  · refine ⟨.hiMemPool, ?_, by omega⟩
    rw [if_neg (by omega), if_neg (by omega), if_pos (by omega)]

/-- Where the pools lie in order, and no address before a pool is taken for one of its own, the
    pool is found that holds the address. -/
private theorem findPool_iff (hzero : (s.pool .dmaPool).base = 0)
    (h₁₂ : (s.pool .dmaPool).limit ≤ (s.pool .defaultPool).base)
    (h₂ : (s.pool .defaultPool).base ≤ (s.pool .defaultPool).limit)
    (h₂₃ : (s.pool .defaultPool).limit ≤ (s.pool .hiMemPool).base)
    (hdefault : (s.pool .dmaPool).limit ≤ a → a < (s.pool .defaultPool).limit →
      (s.pool .defaultPool).base ≤ a)
    (hhimem : (s.pool .defaultPool).limit ≤ a → a < (s.pool .hiMemPool).limit →
      (s.pool .hiMemPool).base ≤ a) (p : PoolId) :
    s.findPool a = some p ↔ (s.pool p).base ≤ a ∧ a < (s.pool p).limit := by
  unfold State.findPool
  split
  · cases p <;> simp only [Option.some.injEq, reduceCtorEq, true_iff, false_iff] <;> omega
  · split
    · cases p <;> simp only [Option.some.injEq, reduceCtorEq, true_iff, false_iff] <;> omega
    · split
      · cases p <;> simp only [Option.some.injEq, reduceCtorEq, true_iff, false_iff] <;> omega
      · cases p <;> simp only [reduceCtorEq, false_iff] <;> omega

/-- Outside the gap the pool is found that holds the address. -/
private theorem PoolBounds.findPool_iff (h : PoolBounds kernelDynamicEnd himemEnd s.pool)
    (hdyn : kernelDynamicEnd < 2 ^ 32) (hgap : ¬ InGap kernelDynamicEnd himemEnd a) (p : PoolId) :
    s.findPool a = some p ↔ (s.pool p).base ≤ a ∧ a < (s.pool p).limit := by
  obtain ⟨hbase₁, hlimit₁, hbase₂, hlimit₂, hbase₃, hlimit₃⟩ := h.limits hdyn
  have hbytes := poolBytes_lt hdyn himemEnd .hiMemPool
  simp only [InGap] at hgap
  simp only [dmaEnd, dmaMemoryLimit, pageSize] at hgap hlimit₁ hbase₂ hlimit₂ hlimit₃
  apply Physical.findPool_iff hbase₁
  · omega
  · omega
  · omega
  · -- below the DMA limit the default pool is empty and begins behind the gap
    intro hlow hhigh
    omega
  · -- if the high memory wraps around, it ends below the gap
    intro hlow hhigh
    omega

/-- Exactly the addresses outside the gap are looked up correctly. -/
theorem find_pool_iff {boot mem : Mem} {mbt : MultibootInfo} {pool : PoolId → PhysicalPool}
    {kernelStaticEnd : Nat} (hstatic : kernelStaticEnd < 2 ^ 32) (hdyn : kernelDynamicEnd < 2 ^ 32)
    (h : init boot mbt mem pool kernelStaticEnd kernelDynamicEnd himemEnd = some s) (a : Nat) :
    s.LooksUp a ↔ ¬ InGap kernelDynamicEnd himemEnd a := by
  have hbounds := init_bounds hstatic hdyn h
  constructor
  · intro hlooks hgap
    -- the pool that is found begins behind the address
    obtain ⟨p, hfind, hbefore⟩ := hbounds.findPool_gap hdyn hgap
    exact absurd ((hlooks.found p).mp hfind).1 (Nat.not_le_of_lt hbefore)
  · intro hgap
    have hfound := hbounds.findPool_iff hdyn hgap
    refine ⟨hfound, ?_, ?_⟩
    · intro p hfind
      obtain ⟨hlow, hhigh⟩ := (hfound p).mp hfind
      exact indexOf_lt (hbounds.numPageframes_lt hdyn p) hlow hhigh
    · intro p i hi
      exact indexOf_addressOf (hbounds.base_lt hdyn p)
        (Nat.lt_trans hi (hbounds.numPageframes_lt hdyn p))

end Find

/-! ## A memory that ends within a page -/

/-- On the small machine all addresses are looked up correctly, such as the one at 16 MiB. -/
theorem find_pool_small : ∃ s₀, init smallMap smallInfo (fun _ => 0) noPools 0x200000 0x01002000
    0x01002000 = some s₀ ∧ s₀.LooksUp 0x01000000 := by
  obtain ⟨s₀, h⟩ := small_init
  exact ⟨s₀, h, (find_pool_iff (by decide) (by decide) h _).mpr (by decide)⟩

/-- All memory up to 16 MiB and 2 KiB is available. -/
def oddMap : Mem := mapMemory
  [20, 0, 0, 0, 0, 0, 0, 0, 0, 0, 0, 0, 0x00, 0x08, 0x00, 0x01, 0, 0, 0, 0, 1, 0, 0, 0]

theorem oddMap_entries : entries oddMap smallInfo = some [⟨20, 0, 0x01000800, 1⟩] := by
  decide +kernel

/-- The address at 16 MiB belongs to no frame, but a pool is found for it. -/
theorem find_pool_gap : ¬ ∀ boot mbt mem pool kernelStaticEnd kernelDynamicEnd himemEnd s a,
    kernelStaticEnd < 2 ^ 32 → kernelDynamicEnd < 2 ^ 32 → himemEnd < 2 ^ 32 → a < 2 ^ 32 →
    init boot mbt mem pool kernelStaticEnd kernelDynamicEnd himemEnd = some s →
    s.LooksUp a := by
  intro hclaim
  obtain ⟨s, h⟩ : ∃ s, init oddMap smallInfo (fun _ => 0) noPools 0x200000 0x01000800 0x01000800 =
      some s := by
    refine init_returns _ _ (by decide) (Nat.le_refl _) (by decide) (by decide) oddMap_entries
      ?_ (by decide)
    intro entry hentry
    rw [List.mem_singleton.mp hentry]
    decide
  have hlooks := hclaim _ _ _ _ _ _ _ s 0x01000000 (by decide) (by decide) (by decide) (by decide) h
  exact (find_pool_iff (by decide) (by decide) h _).mp hlooks (by decide)

end TimbOS.Native.Physical
