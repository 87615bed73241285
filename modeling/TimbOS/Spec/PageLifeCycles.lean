import TimbOS.Spec.FloppyDma
import TimbOS.Spec.PageOwners

/-!
# Who gives pages back

A buffer of the disk cache and a floppy drive get as many pages as they need and give back one.
Both are owners of pages in the sense of `Spec.PageOwners`: a buffer asks when it loads its
blocks and with each `lock()` until it has pages, a drive asks once.

## Key results

- `useWith_eq`: the calls of a client as attempts to get pages
- `pages_given_back_iff`: the life cycles that leave the pools as they were
- `cylinder_leaks`: one that does not
-/

namespace TimbOS.Native.Physical

open ForStd Multiboot

/-! ## Buffers of the disk cache -/

section Buffer

open DiskCacheBuffer

/-- A call of a client, with what the device answers. -/
inductive BufferCall where
  | lock (read : Nat → Nat → Bool)
  | unlock

def BufferCall.run : BufferCall → WithPools → WithPools
  | .lock read, w => lockWith read w
  | .unlock, w => unlockWith w

/-- Some calls one after the other. -/
def useWith (calls : List BufferCall) (w : WithPools) : WithPools :=
  calls.foldl (fun w call => call.run w) w

/-- The number of calls that ask for pages if there are none. -/
def lockCalls : List BufferCall → Nat
  | [] => 0
  | .lock _ :: calls => lockCalls calls + 1
  | .unlock :: calls => lockCalls calls

variable {s : State} {w : WithPools} {read : Nat → Nat → Bool}

/-- `mm::alloc_pages` is an attempt of an owner without pages. -/
theorem attempt_default (s : State) (pages : Nat) (read : Nat → Nat → Bool) :
    attempt pages 1 .defaultPool (0, s) =
      ((environment s read).allocPages pages, poolsAfter s pages) := by
  simp only [attempt, environment, poolsAfter, Mm.allocPages, State.alloc, ne_eq, not_true_eq_false,
    if_false]
  cases s.allocPool .defaultPool pages 1 with
  | none => rfl
  | some r => rfl

/-- What is present has pages. -/
def PresentHasPages (c : DiskCacheBuffer) : Prop := c.status = .dcbPresent → c.buffer ≠ 0

/-- A `lock` is one more attempt to get pages. -/
theorem lockWith_eq (hpresent : PresentHasPages w.cache) (read : Nat → Nat → Bool) :
    ((lockWith read w).cache.buffer, (lockWith read w).pools) =
        attempt (Mm.calcRequiredPageCount w.cache.length) 1 .defaultPool (w.cache.buffer, w.pools) ∧
      (lockWith read w).cache.length = w.cache.length ∧
      PresentHasPages (lockWith read w).cache := by
  obtain ⟨⟨firstBlock, blockCount, length, lockCount, buffer, status⟩, pools⟩ := w
  cases status with
  | dcbPresent =>
    have hbuffer : buffer ≠ 0 := hpresent rfl
    simp only [lockWith, lock, reduceCtorEq, false_and, if_false, attempt_of_ne hbuffer, true_and]
    exact fun _ => hbuffer
  | dcbNotPresent =>
    by_cases hbuffer : buffer = 0
    · subst hbuffer
      rw [attempt_default pools _ read]
      simp only [lockWith, lock, if_true, and_self]
      split
      · rename_i hloaded
        exact ⟨rfl, rfl, fun _ => hloaded.1⟩
      · exact ⟨rfl, rfl, fun h => DiskCacheBufferStatus.noConfusion h⟩
    · simp only [lockWith, lock, hbuffer, if_false, and_false, attempt_of_ne hbuffer]
      split
      · exact ⟨rfl, rfl, fun _ => hbuffer⟩
      · exact ⟨rfl, rfl, fun h => DiskCacheBufferStatus.noConfusion h⟩

/-- Only the lock count changes. -/
theorem unlockWith_eq (hpresent : PresentHasPages w.cache) :
    (unlockWith w).cache.buffer = w.cache.buffer ∧ (unlockWith w).pools = w.pools ∧
      (unlockWith w).cache.length = w.cache.length ∧ PresentHasPages (unlockWith w).cache := by
  obtain ⟨⟨firstBlock, blockCount, length, lockCount, buffer, status⟩, pools⟩ := w
  simp only [unlockWith, unlock, PresentHasPages] at hpresent ⊢
  exact ⟨trivial, trivial, trivial, hpresent⟩

/-- The constructor makes an attempt if it loads the blocks. -/
theorem constructWith_eq (s : State) (read : Nat → Nat → Bool)
    (blockSize firstBlock blockCount : Nat) (load : Bool) :
    let w := constructWith s read blockSize firstBlock blockCount load
    w.cache.length = (blockCount * blockSize) % 2 ^ 32 ∧ PresentHasPages w.cache ∧
      (w.cache.buffer, w.pools) =
        (attempt (Mm.calcRequiredPageCount w.cache.length) 1 .defaultPool)^[load.toNat] (0, s) := by
  cases load with
  | false => exact ⟨rfl, fun h => DiskCacheBufferStatus.noConfusion h, rfl⟩
  | true =>
    simp only [constructWith, construct, if_true, Bool.toNat_true, Function.iterate_one]
    split
    · rename_i hloaded
      refine ⟨rfl, fun _ => hloaded.1, ?_⟩
      rw [attempt_default s _ read]
    · refine ⟨rfl, fun h => DiskCacheBufferStatus.noConfusion h, ?_⟩
      rw [attempt_default s _ read]

theorem useWith_cons (call : BufferCall) (calls : List BufferCall) (w : WithPools) :
    useWith (call :: calls) w = useWith calls (call.run w) := List.foldl_cons ..

/-- Each `lock` of a life cycle is an attempt. -/
theorem useWith_eq (calls : List BufferCall) (hpresent : PresentHasPages w.cache) :
    ((useWith calls w).cache.buffer, (useWith calls w).pools) =
        (attempt (Mm.calcRequiredPageCount w.cache.length) 1 .defaultPool)^[lockCalls calls]
          (w.cache.buffer, w.pools) ∧
      (useWith calls w).cache.length = w.cache.length := by
  induction calls generalizing w with
  | nil => exact ⟨rfl, rfl⟩
  | cons call calls ih =>
    cases call with
    | unlock =>
      obtain ⟨hbuffer, hpools, hlength, hpresent'⟩ := unlockWith_eq hpresent
      have hrest := ih hpresent'
      rw [hbuffer, hpools, hlength] at hrest
      rw [lockCalls, useWith_cons]
      exact hrest
    | lock read =>
      obtain ⟨hstep, hlength, hpresent'⟩ := lockWith_eq hpresent read
      obtain ⟨hrest, hlength'⟩ := ih (w := lockWith read w) hpresent'
      rw [hlength] at hrest hlength'
      refine ⟨?_, hlength'⟩
      rw [hstep] at hrest
      rw [lockCalls, Function.iterate_succ_apply, useWith_cons]
      exact hrest

/-- A buffer that has asked for pages. -/
theorem lockCalls_pos_iff (calls : List BufferCall) :
    0 < lockCalls calls ↔ ∃ read, .lock read ∈ calls := by
  induction calls with
  | nil => simp [lockCalls]
  | cons call calls ih =>
    cases call with
    | lock read => exact iff_of_true (Nat.succ_pos _) ⟨read, List.mem_cons_self⟩
    | unlock =>
      rw [lockCalls, ih]
      simp

/-- A new buffer can be freed at once. -/
theorem freeWith_constructWith (s : State) (read : Nat → Nat → Bool)
    (blockSize firstBlock blockCount : Nat) (load : Bool) :
    ∃ w', freeWith (constructWith s read blockSize firstBlock blockCount load) = (true, w') := by
  obtain ⟨w, hw⟩ : ∃ w, w = constructWith s read blockSize firstBlock blockCount load := ⟨_, rfl⟩
  have hcount : w.cache.lockCount = 0 := by
    simp only [hw, constructWith, construct]
    split
    · split <;> rfl
    · rfl
  have hlocked : ¬ w.cache.locked = true := by
    rw [locked, hcount]
    decide
  rw [← hw, freeWith, DiskCacheBuffer.free, if_neg hlocked]
  exact ⟨_, rfl⟩

/-- A `free()` that succeeds releases one page. -/
theorem freeWith_true {w' : WithPools} (h : freeWith w = (true, w')) :
    w'.pools = Mm.freePages w.pools w.cache.buffer 1 := by
  unfold freeWith free at h
  by_cases hlocked : w.cache.locked = true
  · simp only [if_pos hlocked, Prod.mk.injEq, Bool.false_eq_true, false_and] at h
  · simp only [if_neg hlocked, Prod.mk.injEq, true_and] at h
    rw [← h]

theorem calcRequiredPageCount_lt (size : Nat) : Mm.calcRequiredPageCount size < 2 ^ 20 := by
  have hlt : sub32 (add32 size pageSize) 1 < 2 ^ 32 := Nat.mod_lt _ (Nat.two_pow_pos 32)
  simp only [Mm.calcRequiredPageCount, pageSize] at hlt ⊢
  omega

/-- The life cycle of a buffer. -/
theorem buffer_givesBack_iff (h : KernelPools s) {blockSize firstBlock blockCount : Nat}
    {load : Bool} {calls : List BufferCall} {w' : WithPools}
    (hw : w = useWith calls (constructWith s read blockSize firstBlock blockCount load))
    (hfree : freeWith w = (true, w')) :
    GivesBack s w'.pools (Mm.calcRequiredPageCount w.cache.length) w.cache.buffer ↔
      Keeps s (Mm.calcRequiredPageCount ((blockCount * blockSize) % 2 ^ 32)) 1 .defaultPool
        (load = true ∨ ∃ read, .lock read ∈ calls) := by
  obtain ⟨hlength, hpresent, hfirst⟩ := constructWith_eq s read blockSize firstBlock blockCount load
  obtain ⟨huse, hlength'⟩ := useWith_eq calls hpresent
  rw [← hw] at huse hlength'
  rw [hlength] at hfirst huse hlength'
  rw [hfirst, ← Function.iterate_add_apply] at huse
  have hasked : 0 < lockCalls calls + load.toNat ↔ load = true ∨ ∃ read, .lock read ∈ calls := by
    rw [← lockCalls_pos_iff]
    cases load with
    | false => simp
    | true => simp
  rw [freeWith_true hfree, hlength', givesBack_attempts h (by decide) Nat.one_pos
    (calcRequiredPageCount_lt _) huse.symm, hasked]

end Buffer

/-! ## Floppy drives -/

section Drive

open Floppy

variable {s s' : State} {type : FloppyDriveType} {cache : CylCache}

/-- The constructor of a drive is one attempt. -/
theorem allocCache_attempt (h : FloppyDrive.allocCache s type = some (cache, s')) :
    attempt (FloppyDrive.cachePageCount type) 16 .dmaPool (0, s) = (cache.address, s') := by
  simp only [FloppyDrive.allocCache, Mm.allocPagesDma, State.allocDma, Option.bind_eq_bind,
    Option.pure_def] at h
  simp only [attempt, ne_eq, not_true_eq_false, if_false]
  cases halloc : s.allocPool .dmaPool (FloppyDrive.cachePageCount type) 16 with
  | none =>
    rw [halloc] at h
    cases h
  | some r =>
    simp only [halloc, Option.bind_some, Option.some.injEq, Prod.mk.injEq] at h
    obtain ⟨rfl, rfl⟩ := h
    rfl

/-- The life cycle of a drive. -/
theorem drive_givesBack_iff (h : KernelPools s)
    (hcache : FloppyDrive.allocCache s type = some (cache, s')) :
    GivesBack s (FloppyDrive.destroy s' cache) (FloppyDrive.cachePageCount type) cache.address ↔
      Keeps s (FloppyDrive.cachePageCount type) 16 .dmaPool True := by
  have hattempt := allocCache_attempt hcache
  have hpages : FloppyDrive.cachePageCount type < 2 ^ 20 := calcRequiredPageCount_lt _
  rw [FloppyDrive.destroy, givesBack_attempts (n := 1) h (by decide) (by decide) hpages hattempt,
    eq_true Nat.one_pos]

end Drive

/-- The life cycles of buffers and drives leave the pools as they were, and release what they
    obtained, exactly if the owner was served with one page, or with none while no pool is
    found for the null pointer. -/
theorem pages_given_back_iff {s : State} (h : KernelPools s) :
    (∀ read blockSize firstBlock blockCount load calls w w',
      w = useWith calls
        (DiskCacheBuffer.constructWith s read blockSize firstBlock blockCount load) →
      DiskCacheBuffer.freeWith w = (true, w') →
      (GivesBack s w'.pools (Mm.calcRequiredPageCount w.cache.length) w.cache.buffer ↔
        Keeps s (Mm.calcRequiredPageCount ((blockCount * blockSize) % 2 ^ 32)) 1 .defaultPool
          (load = true ∨ ∃ read, .lock read ∈ calls))) ∧
    ∀ type cache s', Floppy.FloppyDrive.allocCache s type = some (cache, s') →
      (GivesBack s (Floppy.FloppyDrive.destroy s' cache) (Floppy.FloppyDrive.cachePageCount type)
          cache.address ↔
        Keeps s (Floppy.FloppyDrive.cachePageCount type) 16 .dmaPool True) :=
  ⟨fun _ _ _ _ _ _ _ _ hw hfree => buffer_givesBack_iff h hw hfree,
    fun _ _ _ hcache => drive_givesBack_iff h hcache⟩

/-! ## On the small machine -/

theorem small_kernelPools {s₀ : State} (h : init smallMap smallInfo (fun _ => 0) noPools 0x200000
    0x01002000 0x01002000 = some s₀) : KernelPools s₀ := by
  have hinit : init smallMap smallInfo (fun _ => 0) noPools 0x200000 (kernelDynamicEnd 0x01002000)
      0x01002000 = some s₀ := h
  exact kernelPools_init (by decide) (by decide) hinit

/-- A buffer of 8 blocks has one page and gives it back. -/
theorem pages_given_back_small : ∃ s₀, init smallMap smallInfo (fun _ => 0) noPools 0x200000
    0x01002000 0x01002000 = some s₀ ∧ ∃ w w',
      w = useWith [] (DiskCacheBuffer.constructWith s₀ (fun _ _ => true) 512 0 8 true) ∧
        DiskCacheBuffer.freeWith w = (true, w') ∧
        GivesBack s₀ w'.pools (Mm.calcRequiredPageCount w.cache.length) w.cache.buffer := by
  obtain ⟨s₀, h⟩ := small_init
  have hpool := small_pool h
  obtain ⟨w', hfree⟩ := freeWith_constructWith s₀ (fun _ _ => true) 512 0 8 true
  refine ⟨s₀, h, _, w', rfl, hfree, ?_⟩
  rw [(pages_given_back_iff (small_kernelPools h)).1 _ _ _ _ _ [] _ w' rfl hfree]
  refine .inl ⟨.inl rfl, by decide, .defaultPool, _, .inl ⟨0, small_firstFit h 1 1, rfl, rfl⟩, ?_⟩
  rw [State.numPageframes, hpool]
  decide

/-- The drive of the 1.44M type has five pages, and gives back the first one. -/
theorem cylinder_leaks : ∃ s₀, init smallMap smallInfo (fun _ => 0) noPools 0x200000
    0x01002000 0x01002000 = some s₀ ∧ ∃ cache s',
      Floppy.FloppyDrive.allocCache s₀ .floppyDrive1_44M = some (cache, s') ∧
        ¬ SameMarks s₀ (Floppy.FloppyDrive.destroy s' cache) := by
  obtain ⟨s₀, h⟩ := small_init
  have hpools := small_kernelPools h
  have hpool := small_pool h
  have hnum : s₀.numPageframes .dmaPool = 2 ^ 12 := by
    rw [State.numPageframes, hpool]
    decide
  obtain ⟨a, s, halloc, ha⟩ := FloppyIo.small_allocDma h (by decide : 0 < 5) (by decide : 5 ≤ 16)
  obtain ⟨i, hfirst, -⟩ := FloppyIo.allocDma_some halloc ha
  have haligned := hfirst.fits.aligned
  have hserves : s₀.Serves 5 16 .dmaPool (((s₀.pool .dmaPool).prevIdx + i) % 2 ^ 12)
      PoolId.dmaPool.chain := .inl ⟨i, hfirst, rfl, by rw [hnum]⟩
  have hrun := Option.some.inj ((allocFrom_of_serves (by decide) hserves).symm.trans halloc)
  have hstart := takeRun_address hpools.layout hserves.lt 5
  rw [hrun] at hstart
  refine ⟨s₀, h, _, s, FloppyIo.allocCache_eq (show s₀.allocDma
    (Floppy.FloppyDrive.cachePageCount .floppyDrive1_44M) 16 = some (a, s) from halloc) ha, ?_⟩
  -- an aligned run is not the last frame of the pool
  have hleaks := second_page_leaks hpools (by decide) (by decide) hserves (by rw [hnum]; omega)
    hstart.symm ha (hstart ▸ hpools.serves_lt (by decide) hserves)
  rw [hrun] at hleaks
  exact hleaks

end TimbOS.Native.Physical
