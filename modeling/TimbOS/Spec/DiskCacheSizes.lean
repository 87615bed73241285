import TimbOS.Spec.DiskCacheLocks

/-!
# Is a buffer large enough for its blocks?

The length of a buffer is a 32-bit product, and the number of its pages comes from a 32-bit sum.
When one of them wraps around, the buffer gets too few pages, or none at all, and the device is
told to read all the blocks into it.

## Key results

- `fits_pages_iff`: for which sizes the number of pages is right
- `passed_step`: what a call passes to the device
- `no_reads_iff`: the buffers that never pass anything
- `reads_fit_iff`: exactly when every read of a run fits into the pages
-/

namespace TimbOS.Native.DiskCacheBuffer

open ForStd

/-! ## Pages for a size -/

/-- The number of pages that are asked for, for blocks of a total size. -/
def pagesFor (size : Nat) : Nat := Mm.calcRequiredPageCount (size % 2 ^ 32)

theorem fits_pages_iff (size : Nat) :
    size ≤ pagesFor size * pageSize ↔ size + pageSize ≤ 2 ^ 32 := by
  have hpages : pagesFor size * pageSize ≤ sub32 (add32 (size % 2 ^ 32) pageSize) 1 :=
    Nat.div_mul_le_self _ _
  have hsub := sub32_lt (add32 (size % 2 ^ 32) pageSize) 1
  rcases Nat.lt_or_ge (2 ^ 32) (size + pageSize) with hlarge | hsmall
  · refine iff_of_false ?_ (Nat.not_le_of_lt hlarge)
    -- the product or the sum has wrapped around
    intro hfits
    have hword : size % 2 ^ 32 = size := Nat.mod_eq_of_lt (by omega)
    simp only [hword, add32, sub32, pageSize] at hpages hlarge hfits
    omega
  · refine iff_of_true ?_ hsmall
    have hword : size % 2 ^ 32 = size := Nat.mod_eq_of_lt (by simp only [pageSize] at hsmall; omega)
    simp only [pagesFor, Mm.calcRequiredPageCount, hword, add32, sub32, pageSize] at hsmall ⊢
    omega

/-! ## Buffers with their pages -/

/-- A buffer, and how many pages were asked for when it got the ones at `_buffer`. -/
structure Paged where
  cache : DiskCacheBuffer
  pages : Nat

/-- A call `_pDevice->read( _first_block, _block_count, _buffer )`, with the number of blocks and
    the number of pages at `_buffer`. -/
structure Passed where
  blockCount : Nat
  pages : Nat
  deriving DecidableEq, Repr

/-- The device stays within the pages. -/
def Passed.Fits (blockSize : Nat) (p : Passed) : Prop :=
  p.blockCount * blockSize ≤ p.pages * pageSize

/-- The number of pages after a `lock`, which asks for pages if there are none. -/
def lockPages (w : Paged) : Nat :=
  if w.cache.status = .dcbNotPresent ∧ w.cache.buffer = 0 then
    Mm.calcRequiredPageCount w.cache.length
  else
    w.pages

/-- What a call passes to the device. Only `lock` does. -/
def passed (w : Paged) : Call → List Passed
  | .lock env => (w.cache.lockReads env).map fun r => ⟨r.2, lockPages w⟩
  | .unlock => []
  | .free => []

/-- The buffer after a call. -/
def afterCall (w : Paged) : Call → Paged
  | .lock env => ⟨(w.cache.lock env).2, lockPages w⟩
  | .unlock => ⟨w.cache.unlock, w.pages⟩
  | .free => ⟨w.cache.free.2.2, w.pages⟩

/-- Any calls in any order, with what they pass to the device. -/
def pagedMachine : Machine Paged Call (List Passed) Empty where
  init := fun _ => True
  legal := fun _ _ => True
  step := fun w call => .ok (passed w call, afterCall w call)

/-- A new buffer, with the pages that it has asked for. -/
def newPaged (env : DiskCacheEnvironment) (blockSize firstBlock blockCount : Nat) (load : Bool) :
    Paged :=
  ⟨construct env blockSize firstBlock blockCount load,
    if load then pagesFor (blockCount * blockSize) else 0⟩

/-- What the constructor passes to the device. -/
def constructPassed (env : DiskCacheEnvironment) (blockSize firstBlock blockCount : Nat)
    (load : Bool) : List Passed :=
  (constructReads env blockSize firstBlock blockCount load).map fun r =>
    ⟨r.2, pagesFor (blockCount * blockSize)⟩

section Sizes

variable {env : DiskCacheEnvironment} {blockSize firstBlock blockCount size : Nat} {load : Bool}
  {w w' : Paged} {call : Call} {t : List (Call × List Passed)} {p : Passed}

/-- A buffer for some blocks of a total size. What it has at `_buffer` are the pages for them. -/
structure SizeInv (blockCount size : Nat) (w : Paged) : Prop where
  count : w.cache.blockCount = blockCount
  length : w.cache.length = size % 2 ^ 32
  pages : w.cache.buffer ≠ 0 → w.pages = pagesFor size

theorem construct_frame (env : DiskCacheEnvironment) (blockSize firstBlock blockCount : Nat)
    (load : Bool) :
    (construct env blockSize firstBlock blockCount load).blockCount = blockCount ∧
      (construct env blockSize firstBlock blockCount load).length =
        (blockCount * blockSize) % 2 ^ 32 := by
  rw [construct]
  split
  · simp only
    split
    · exact ⟨rfl, rfl⟩
    · exact ⟨rfl, rfl⟩
  · exact ⟨rfl, rfl⟩

theorem sizeInv_new : SizeInv blockCount (blockCount * blockSize)
    (newPaged env blockSize firstBlock blockCount load) := by
  obtain ⟨hcount, hlength⟩ := construct_frame env blockSize firstBlock blockCount load
  refine ⟨hcount, hlength, ?_⟩
  intro hbuffer
  cases load with
  | false => exact absurd rfl hbuffer
  | true => simp only [newPaged, if_true]

theorem unlock_frame (c : DiskCacheBuffer) :
    c.unlock.blockCount = c.blockCount ∧ c.unlock.length = c.length ∧
      c.unlock.buffer = c.buffer ∧ c.unlock.status = c.status := by
  -- the counter is the only field that differs
  obtain ⟨firstBlock, blockCount, length, lockCount, buffer, status⟩ := c
  exact ⟨rfl, rfl, rfl, rfl⟩

/-- Pages that are there after `lock` were there before, if the blocks were present. -/
theorem lock_frame (env : DiskCacheEnvironment) (c : DiskCacheBuffer) :
    (c.lock env).2.blockCount = c.blockCount ∧ (c.lock env).2.length = c.length ∧
      (c.status = .dcbPresent → (c.lock env).2.buffer = c.buffer) := by
  obtain ⟨firstBlock, blockCount, length, lockCount, buffer, status⟩ := c
  rcases lock_cases env ⟨firstBlock, blockCount, length, lockCount, buffer, status⟩ with
    ⟨-, h⟩ | ⟨hstatus, -, b, -, h⟩ | ⟨hstatus, -, b, h⟩
  · rw [h]
    exact ⟨rfl, rfl, fun _ => rfl⟩
  · rw [h]
    refine ⟨rfl, rfl, fun hpresent => ?_⟩
    cases hstatus.symm.trans hpresent
  · rw [h]
    refine ⟨rfl, rfl, fun hpresent => ?_⟩
    cases hstatus.symm.trans hpresent

theorem free_frame (c : DiskCacheBuffer) :
    c.free.2.2.blockCount = c.blockCount ∧ c.free.2.2.length = c.length ∧
      (c.free.2.2.buffer = c.buffer ∨ c.free.2.2.buffer = 0) := by
  rw [free]
  split
  · exact ⟨rfl, rfl, .inl rfl⟩
  · exact ⟨rfl, rfl, .inr rfl⟩

theorem SizeInv.lockPages_eq (h : SizeInv blockCount size w)
    (hload : w.cache.status = .dcbNotPresent) : lockPages w = pagesFor size := by
  unfold lockPages
  by_cases hbuffer : w.cache.buffer = 0
  · rw [if_pos ⟨hload, hbuffer⟩, h.length, pagesFor]
  · rw [if_neg fun hboth => hbuffer hboth.2, h.pages hbuffer]

theorem passed_step (h : SizeInv blockCount size w) (hp : p ∈ passed w call) :
    p = ⟨blockCount, pagesFor size⟩ := by
  cases call with
  | lock env =>
    obtain ⟨r, hr, rfl⟩ := List.mem_map.mp hp
    unfold lockReads at hr
    split at hr
    · rename_i hload
      rw [List.mem_singleton.mp hr, h.lockPages_eq hload.1, h.count]
    · cases hr
  | unlock => cases hp
  | free => cases hp

theorem SizeInv.step (h : SizeInv blockCount size w) :
    SizeInv blockCount size (afterCall w call) := by
  cases call with
  | lock env =>
    simp only [afterCall]
    obtain ⟨hcount, hlength, hkept⟩ := lock_frame env w.cache
    refine ⟨hcount.trans h.count, hlength.trans h.length, ?_⟩
    intro hbuffer
    cases hstatus : w.cache.status with
    | dcbNotPresent => exact h.lockPages_eq hstatus
    | dcbPresent =>
      -- nothing is loaded, and the pages stay
      rw [hkept hstatus] at hbuffer
      rw [lockPages, hstatus, if_neg fun hboth => DiskCacheBufferStatus.noConfusion hboth.1]
      exact h.pages hbuffer
  | unlock =>
    simp only [afterCall]
    obtain ⟨hcount, hlength, hkept, -⟩ := unlock_frame w.cache
    refine ⟨hcount.trans h.count, hlength.trans h.length, ?_⟩
    rw [hkept]
    exact h.pages
  | free =>
    simp only [afterCall]
    obtain ⟨hcount, hlength, hkept⟩ := free_frame w.cache
    refine ⟨hcount.trans h.count, hlength.trans h.length, ?_⟩
    intro hbuffer
    rcases hkept with hkept | hnone
    · rw [hkept] at hbuffer
      exact h.pages hbuffer
    · exact absurd hnone hbuffer

theorem SizeInv.run (h : SizeInv blockCount size w) (hrun : pagedMachine.Run w t w') :
    SizeInv blockCount size w' ∧ ∀ x ∈ t, ∀ p ∈ x.2, p = ⟨blockCount, pagesFor size⟩ := by
  apply hrun.invariant (P := fun t w' =>
    SizeInv blockCount size w' ∧ ∀ x ∈ t, ∀ p ∈ x.2, p = ⟨blockCount, pagesFor size⟩)
  · exact ⟨h, fun x hx => absurd hx List.not_mem_nil⟩
  · rintro t w₁ call reads w₂ - ⟨hinv, hall⟩ - hs
    cases hs
    refine ⟨hinv.step, ?_⟩
    intro x hx p hp
    rcases List.mem_append.mp hx with hx | hx
    · exact hall x hx p hp
    · rw [List.mem_singleton.mp hx] at hp
      exact passed_step hinv hp

/-! ## Buffers without pages -/

/-- Nothing is loaded, and there are no pages. -/
def Bare (w : Paged) : Prop := w.cache.status = .dcbNotPresent ∧ w.cache.buffer = 0

/-- The allocator has no pages for a `lock`. -/
def Denied (pages : Nat) (call : Call) : Prop := ∀ env, call = .lock env → env.allocPages pages = 0

theorem constructPassed_eq_nil_iff :
    constructPassed env blockSize firstBlock blockCount load = [] ↔
      (load = true → env.allocPages (pagesFor (blockCount * blockSize)) = 0) := by
  rw [constructPassed, List.map_eq_nil_iff, constructReads, pagesFor]
  split
  · rename_i hload
    exact iff_of_false (List.cons_ne_nil _ _) fun h => hload.2 (h hload.1)
  · rename_i hload
    refine iff_of_true rfl fun h => ?_
    by_contra hpages
    exact hload ⟨h, hpages⟩

/-- A constructor that passes nothing leaves the buffer bare. -/
theorem bare_new (h : constructPassed env blockSize firstBlock blockCount load = []) :
    Bare (newPaged env blockSize firstBlock blockCount load) := by
  cases load with
  | false => exact ⟨rfl, rfl⟩
  | true =>
    have hpages := constructPassed_eq_nil_iff.mp h rfl
    rw [pagesFor] at hpages
    simp only [newPaged, construct, if_true, Bare, hpages, ne_eq, not_true_eq_false, false_and,
      if_false, and_self]

theorem bare_step (h : SizeInv blockCount size w) (hbare : Bare w) :
    (passed w call = [] ↔ Denied (pagesFor size) call) ∧
      (passed w call = [] → Bare (afterCall w call)) := by
  cases call with
  | lock env =>
    -- without a buffer, `lock` reads only if it gets pages
    have hnil : passed w (.lock env) = [] ↔ env.allocPages (pagesFor size) = 0 := by
      rw [passed, List.map_eq_nil_iff, lockReads, h.length, hbare.1, hbare.2, ← pagesFor]
      simp
    refine ⟨hnil.trans ?_, ?_⟩
    · constructor
      · rintro hzero env' heq
        cases heq
        exact hzero
      · intro hdenied
        exact hdenied env rfl
    · intro hpassed
      have hzero := hnil.mp hpassed
      rw [pagesFor, ← h.length] at hzero
      obtain ⟨hstatus, hbuffer⟩ := hbare
      simp only [Bare, afterCall, lock, hstatus, hbuffer, if_true, hzero, ne_eq, not_true_eq_false,
        false_and, if_false, and_self]
  | unlock =>
    refine ⟨iff_of_true rfl ?_, fun _ => ?_⟩
    · intro env heq
      cases heq
    · obtain ⟨-, -, hbuffer, hstatus⟩ := unlock_frame w.cache
      simp only [Bare, afterCall, hbuffer, hstatus]
      exact hbare
  | free =>
    refine ⟨iff_of_true rfl ?_, fun _ => ?_⟩
    · intro env heq
      cases heq
    · simp only [Bare, afterCall, free]
      split
      · exact hbare
      · exact ⟨rfl, rfl⟩

/-- From a bare buffer on, nothing is passed as long as every `lock` is denied its pages. -/
theorem no_reads_iff (h : SizeInv blockCount size w) (hbare : Bare w)
    (hrun : pagedMachine.Run w t w') :
    (∀ x ∈ t, x.2 = []) ↔ ∀ x ∈ t, Denied (pagesFor size) x.1 := by
  have hinv : SizeInv blockCount size w' ∧
      ((∀ x ∈ t, x.2 = []) ↔ ∀ x ∈ t, Denied (pagesFor size) x.1) ∧
      ((∀ x ∈ t, x.2 = []) → Bare w') := by
    apply hrun.invariant (P := fun t w' => SizeInv blockCount size w' ∧
      ((∀ x ∈ t, x.2 = []) ↔ ∀ x ∈ t, Denied (pagesFor size) x.1) ∧
      ((∀ x ∈ t, x.2 = []) → Bare w'))
    · exact ⟨h, by simp, fun _ => hbare⟩
    · rintro t w₁ call reads w₂ - ⟨hinv, hiff, hempty⟩ - hs
      cases hs
      refine ⟨hinv.step, ?_, ?_⟩
      · simp only [List.forall_mem_append, List.forall_mem_singleton, ← hiff]
        constructor
        · intro hall
          exact ⟨hall.1, (bare_step hinv (hempty hall.1)).1.mp hall.2⟩
        · intro hall
          exact ⟨hall.1, (bare_step hinv (hempty hall.1)).1.mpr hall.2⟩
      · simp only [List.forall_mem_append, List.forall_mem_singleton]
        intro hall
        exact (bare_step hinv (hempty hall.1)).2 hall.2
  exact hinv.2.1

end Sizes

/-- No attempt to get the pages succeeds, neither of the constructor nor of a `lock`. -/
structure NeverGranted (env : DiskCacheEnvironment) (load : Bool) (pages : Nat)
    (t : List (Call × List Passed)) : Prop where
  constructor : load = true → env.allocPages pages = 0
  calls : ∀ x ∈ t, Denied pages x.1

/-- In a run of calls of a new buffer, all reads fit into the pages exactly if the size of the
    blocks leaves room for a page below `2 ^ 32`, or if there are never pages to read into. -/
theorem reads_fit_iff (env : DiskCacheEnvironment) (blockSize firstBlock blockCount : Nat)
    (load : Bool) {w' : Paged} {t : List (Call × List Passed)}
    (h : pagedMachine.Run (newPaged env blockSize firstBlock blockCount load) t w') :
    ((∀ p ∈ constructPassed env blockSize firstBlock blockCount load, p.Fits blockSize) ∧
        ∀ x ∈ t, ∀ p ∈ x.2, p.Fits blockSize) ↔
      blockCount * blockSize + pageSize ≤ 2 ^ 32 ∨
        NeverGranted env load (pagesFor (blockCount * blockSize)) t := by
  have hsize : SizeInv blockCount (blockCount * blockSize)
      (newPaged env blockSize firstBlock blockCount load) := sizeInv_new
  have hnew : ∀ p ∈ constructPassed env blockSize firstBlock blockCount load,
      p = ⟨blockCount, pagesFor (blockCount * blockSize)⟩ := by
    intro p hp
    obtain ⟨r, hr, rfl⟩ := List.mem_map.mp hp
    unfold constructReads at hr
    split at hr
    · rw [List.mem_singleton.mp hr]
    · cases hr
  obtain ⟨-, hcalls⟩ := hsize.run h
  have hfits : Passed.Fits blockSize ⟨blockCount, pagesFor (blockCount * blockSize)⟩ ↔
      blockCount * blockSize + pageSize ≤ 2 ^ 32 := fits_pages_iff (blockCount * blockSize)
  rw [← hfits]
  constructor
  · rintro ⟨hfirst, hlater⟩
    by_cases hnone : constructPassed env blockSize firstBlock blockCount load = [] ∧
        ∀ x ∈ t, x.2 = []
    · exact .inr ⟨constructPassed_eq_nil_iff.mp hnone.1,
        (no_reads_iff hsize (bare_new hnone.1) h).mp hnone.2⟩
    · -- something is passed, and it fits
      left
      by_contra hlarge
      apply hnone
      constructor
      · apply List.eq_nil_iff_forall_not_mem.mpr
        intro p hp
        exact hlarge (hnew p hp ▸ hfirst p hp)
      · intro x hx
        apply List.eq_nil_iff_forall_not_mem.mpr
        intro p hp
        exact hlarge (hcalls x hx p hp ▸ hlater x hx p hp)
  · rintro (hfit | hnever)
    · constructor
      · intro p hp
        rw [hnew p hp]
        exact hfit
      · intro x hx p hp
        rw [hcalls x hx p hp]
        exact hfit
    · have hfirst : constructPassed env blockSize firstBlock blockCount load = [] :=
        constructPassed_eq_nil_iff.mpr hnever.constructor
      have hlater := (no_reads_iff hsize (bare_new hfirst) h).mpr hnever.calls
      constructor
      · intro p hp
        rw [hfirst] at hp
        cases hp
      · intro x hx p hp
        rw [hlater x hx] at hp
        cases hp

/-! ## Two requests -/

/-- The first 8 blocks of a device are loaded, locked, unlocked, freed and loaded again. -/
def reloading : List (Call × List Passed) :=
  [(.lock reliable, [⟨8, 1⟩]), (.lock reliable, []), (.unlock, []), (.free, []),
    (.lock reliable, [⟨8, 1⟩])]

theorem reloading_run : ∃ w, pagedMachine.Run (newPaged reliable 512 0 8 false) reloading w :=
  ⟨_, .cons trivial rfl (.cons trivial rfl (.cons trivial rfl (.cons trivial rfl
    (.cons trivial rfl .nil))))⟩

/-- Both reads fit into the page that they get. -/
theorem reads_fit_iff_eight : ∃ w,
    pagedMachine.Run (newPaged reliable 512 0 8 false) reloading w ∧
      ∀ x ∈ reloading, ∀ p ∈ x.2, p.Fits 512 := by
  obtain ⟨w, hrun⟩ := reloading_run
  exact ⟨w, hrun, ((reads_fit_iff reliable 512 0 8 false hrun).mpr (.inl (by decide))).2⟩

/-- A request for `2 ^ 23 + 1` blocks gets a single page. -/
theorem buffer_overrun : ¬ ∀ (env : DiskCacheEnvironment) (blockSize firstBlock blockCount : Nat)
    (load : Bool), blockSize < 2 ^ 32 → blockCount < 2 ^ 32 →
    ∀ p ∈ constructPassed env blockSize firstBlock blockCount load, p.Fits blockSize := by
  intro h
  have hfits := h reliable 512 0 (2 ^ 23 + 1) true (by decide) (by decide)
    ⟨2 ^ 23 + 1, pagesFor ((2 ^ 23 + 1) * 512)⟩ (by decide)
  have hsmall := (fits_pages_iff ((2 ^ 23 + 1) * 512)).mp hfits
  exact absurd hsmall (by decide)

end TimbOS.Native.DiskCacheBuffer
