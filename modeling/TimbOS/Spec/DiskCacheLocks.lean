import TimbOS.ForStd.Transition
import TimbOS.Native.DiskCache

/-!
# Who holds a buffer of the disk cache

The clients of a buffer are counted from outside: one more for every pointer that `lock`
returns, one less for every `unlock`. The counter of the buffer follows them as long as no
`lock` has to load the blocks first, since this way of locking does not count.

## Key results

- `step_counted`, `step_uncounted`: what one call does to the two counters
- `balanced_iff`: exactly in which runs the buffer knows whether it is held
- `load_on_lock`: a run in which it does not
-/

namespace TimbOS.Native.DiskCacheBuffer

open ForStd

/-! ## Buffers and their clients -/

/-- A call of a client, with the answers that it gets from outside. -/
inductive Call where
  | lock (env : DiskCacheEnvironment)
  | unlock
  | free

/-- What a call returns; for `free` also what it releases. -/
inductive Answer where
  | pointer (p : Nat)
  | nothing
  | freed (ok : Bool) (released : Option Nat)

/-- A buffer, and the number of pointers from `lock` that were not unlocked. -/
structure World where
  cache : DiskCacheBuffer
  held : Nat

/-- A buffer as a machine. Every `unlock` balances a `lock` that returned a pointer. -/
def machine : Machine World Call Answer Empty where
  init := fun w => w.held = 0 ∧ ∃ env blockSize firstBlock blockCount load,
    w.cache = construct env blockSize firstBlock blockCount load
  legal := fun w call => call = .unlock → 0 < w.held
  step := fun w call =>
    match call with
    | .lock env =>
      let (p, cache) := w.cache.lock env
      .ok (.pointer p, ⟨cache, if p ≠ 0 then w.held + 1 else w.held⟩)
    | .unlock => .ok (.nothing, ⟨w.cache.unlock, w.held - 1⟩)
    | .free =>
      let (ok, released, cache) := w.cache.free
      .ok (.freed ok released, ⟨cache, w.held⟩)

/-- The buffer knows whether it is held. So `free` releases nothing then, and succeeds
    otherwise. -/
structure Balanced (w : World) : Prop where
  locked : w.cache.locked = true ↔ 0 < w.held
  held : 0 < w.held → w.cache.free = (false, none, w.cache)
  free : w.held = 0 → w.cache.free.1 = true

/-- The blocks cannot be loaded, for lack of pages or since the device fails. -/
def LoadFails (env : DiskCacheEnvironment) (c : DiskCacheBuffer) : Prop :=
  c.buffer = 0 ∧ env.allocPages (Mm.calcRequiredPageCount c.length) = 0 ∨
    env.read c.firstBlock c.blockCount = false

/-- A call that the counter can follow: `lock` finds the blocks loaded and room in the
    counter, or it fails. -/
def Counted (w : World) : Call → Prop
  | .lock env =>
    match w.cache.status with
    | .dcbPresent => w.cache.lockCount ≠ 2 ^ 32 - 1
    | .dcbNotPresent => LoadFails env w.cache
  | _ => True

/-! ## The invariant -/

/-- The counter follows the clients. Blocks that are not loaded are not locked. -/
structure Follows (w : World) : Prop where
  count : w.cache.lockCount = w.held
  word : w.cache.lockCount < 2 ^ 32
  present : w.cache.status = .dcbPresent → w.cache.buffer ≠ 0
  notPresent : w.cache.status = .dcbNotPresent → w.cache.lockCount = 0

variable {w w' w'' : World} {call : Call} {answer : Answer}

theorem Follows.balanced (h : Follows w) : Balanced w where
  locked := by rw [locked, h.count, decide_eq_true_eq]
  held := by
    intro hheld
    rw [DiskCacheBuffer.free, if_pos]
    rw [locked, h.count, decide_eq_true_eq]
    exact hheld
  free := by
    intro hheld
    rw [DiskCacheBuffer.free, if_neg]
    rw [locked, h.count, decide_eq_true_eq]
    omega

theorem follows_construct (env : DiskCacheEnvironment) (blockSize firstBlock blockCount : Nat)
    (load : Bool) : Follows ⟨construct env blockSize firstBlock blockCount load, 0⟩ := by
  have hword : 0 < 2 ^ 32 := Nat.two_pow_pos 32
  cases load with
  | false => exact ⟨rfl, hword, nofun, fun _ => rfl⟩
  | true =>
    rw [construct, if_pos rfl]
    simp only
    split
    · rename_i hloaded
      exact ⟨rfl, hword, fun _ => hloaded.1, nofun⟩
    · exact ⟨rfl, hword, nofun, fun _ => rfl⟩

/-- The three ways of `lock`: counted, loaded without being counted, and failed. -/
theorem lock_cases (env : DiskCacheEnvironment) (c : DiskCacheBuffer) :
    (c.status = .dcbPresent ∧
      c.lock env = (c.buffer, { c with lockCount := add32 c.lockCount 1 })) ∨
    (c.status = .dcbNotPresent ∧ ¬ LoadFails env c ∧
      ∃ b, b ≠ 0 ∧ c.lock env = (b, { c with buffer := b, status := .dcbPresent })) ∨
    (c.status = .dcbNotPresent ∧ LoadFails env c ∧
      ∃ b, c.lock env = (0, { c with buffer := b })) := by
  obtain ⟨firstBlock, blockCount, length, lockCount, buffer, status⟩ := c
  cases status with
  | dcbPresent => exact .inl ⟨rfl, rfl⟩
  | dcbNotPresent =>
    right
    -- not loaded: with or without memory from an earlier attempt
    simp only [lock, LoadFails, true_and]
    by_cases hbuffer : buffer = 0
    · simp only [if_pos hbuffer]
      by_cases hload : env.allocPages (Mm.calcRequiredPageCount length) ≠ 0 ∧
          env.read firstBlock blockCount = true
      · rw [if_pos hload]
        refine .inl ⟨?_, _, hload.1, rfl⟩
        rintro (hfail | hfail)
        · exact hload.1 hfail.2
        · rw [hload.2] at hfail
          exact nomatch hfail
      · rw [if_neg hload]
        refine .inr ⟨?_, _, rfl⟩
        by_cases hpages : env.allocPages (Mm.calcRequiredPageCount length) = 0
        · exact .inl ⟨hbuffer, hpages⟩
        · exact .inr (Bool.eq_false_iff.mpr fun hread => hload ⟨hpages, hread⟩)
    · simp only [if_neg hbuffer]
      by_cases hload : buffer ≠ 0 ∧ env.read firstBlock blockCount = true
      · rw [if_pos hload]
        refine .inl ⟨?_, _, hbuffer, rfl⟩
        rintro (hfail | hfail)
        · exact hbuffer hfail.1
        · rw [hload.2] at hfail
          exact nomatch hfail
      · rw [if_neg hload]
        exact .inr ⟨.inr (Bool.eq_false_iff.mpr fun hread => hload ⟨hbuffer, hread⟩), _, rfl⟩

/-- A call that the counter can follow. -/
theorem step_counted (h : Follows w) (hl : machine.legal w call) (hc : Counted w call)
    (hs : machine.step w call = .ok (answer, w')) : Follows w' := by
  have hword : 0 < 2 ^ 32 := Nat.two_pow_pos 32
  obtain ⟨cache, held⟩ := w
  obtain ⟨hcount, hlt, hpresent, hnotPresent⟩ := h
  simp only at hcount hlt hpresent hnotPresent
  cases call with
  | lock env =>
    simp only [machine, Except.ok.injEq, Prod.mk.injEq] at hs
    obtain ⟨-, rfl⟩ := hs
    obtain ⟨hstatus, hlock⟩ | ⟨hstatus, hloads, b, hb, hlock⟩ | ⟨hstatus, hfails, b, hlock⟩ :=
      lock_cases env cache
    · -- the only place where both counters move
      have hroom : cache.lockCount ≠ 2 ^ 32 - 1 := by
        simp only [Counted, hstatus] at hc
        exact hc
      have hadd : add32 cache.lockCount 1 = cache.lockCount + 1 := by
        simp only [add32]
        omega
      rw [hlock, hadd]
      simp only [if_pos (hpresent hstatus)]
      refine ⟨?_, ?_, fun _ => hpresent hstatus, ?_⟩
      · rw [hcount]
      · show cache.lockCount + 1 < 2 ^ 32
        omega
      · intro hnot
        rw [hstatus] at hnot
        exact nomatch hnot
    · simp only [Counted, hstatus] at hc
      exact absurd hc hloads
    · rw [hlock]
      simp only [ne_eq, not_true_eq_false, if_false]
      refine ⟨hcount, hlt, ?_, hnotPresent⟩
      intro hpres
      rw [hstatus] at hpres
      exact nomatch hpres
  | unlock =>
    -- clients unlock only what they hold, so the counter does not wrap around
    have hheld : 0 < held := hl rfl
    simp only [machine, unlock, Except.ok.injEq, Prod.mk.injEq] at hs
    obtain ⟨-, rfl⟩ := hs
    have hsub : sub32 cache.lockCount 1 = cache.lockCount - 1 := sub32_eq (by omega) hlt
    rw [hsub]
    refine ⟨?_, ?_, hpresent, ?_⟩
    · rw [hcount]
    · show cache.lockCount - 1 < 2 ^ 32
      omega
    · intro hnot
      -- blocks that are not loaded would not be locked
      have hzero := hnotPresent hnot
      omega
  | free =>
    simp only [machine, Except.ok.injEq, Prod.mk.injEq] at hs
    obtain ⟨-, rfl⟩ := hs
    rw [free]
    split
    · exact ⟨hcount, hlt, hpresent, hnotPresent⟩
    · -- nobody holds the buffer, so the count is zero
      rename_i hlocked
      refine ⟨hcount, hlt, nofun, ?_⟩
      intro _
      rw [locked, decide_eq_true_eq] at hlocked
      show cache.lockCount = 0
      omega

/-- A `lock` that the counter cannot follow leaves a client that the buffer does not know. -/
theorem step_uncounted (h : Follows w) (hc : ¬ Counted w call)
    (hs : machine.step w call = .ok (answer, w')) : ¬ Balanced w' := by
  obtain ⟨cache, held⟩ := w
  obtain ⟨hcount, hlt, hpresent, hnotPresent⟩ := h
  simp only at hcount hlt hpresent hnotPresent
  intro hbalanced
  cases call with
  | lock env =>
    simp only [machine, Except.ok.injEq, Prod.mk.injEq] at hs
    obtain ⟨-, rfl⟩ := hs
    obtain ⟨hstatus, hlock⟩ | ⟨hstatus, hloads, b, hb, hlock⟩ | ⟨hstatus, hfails, b, hlock⟩ :=
      lock_cases env cache
    · -- the counter is at its end and begins again at zero
      have hfull : cache.lockCount = 2 ^ 32 - 1 := by
        simp only [Counted, hstatus, ne_eq, not_not] at hc
        exact hc
      have hadd : add32 cache.lockCount 1 = 0 := by
        simp only [add32]
        omega
      have hlocked := hbalanced.locked
      rw [hlock, hadd] at hlocked
      simp only [if_pos (hpresent hstatus), locked] at hlocked
      have hheld := hlocked.mpr (Nat.succ_pos held)
      exact nomatch hheld
    · -- the count is still zero
      have hlocked := hbalanced.locked
      rw [hlock] at hlocked
      simp only [if_pos hb, locked, hnotPresent hstatus] at hlocked
      have hheld := hlocked.mpr (Nat.succ_pos held)
      exact nomatch hheld
    · simp only [Counted, hstatus] at hc
      exact hc hfails
  | unlock => exact hc trivial
  | free => exact hc trivial

/-! ## Runs -/

theorem follows_init (h : machine.init w) : Follows w := by
  obtain ⟨cache, held⟩ := w
  obtain ⟨hheld, env, blockSize, firstBlock, blockCount, load, hcache⟩ := h
  simp only at hheld hcache
  rw [hheld, hcache]
  exact follows_construct env blockSize firstBlock blockCount load

/-- The buffer knows in every state of a run whether it is held, exactly when the counter can
    follow every call of the run. -/
theorem balanced_iff {t : List (Call × Answer)} (hw : machine.init w) (h : machine.Run w t w') :
    (∀ t₁ t₂ w₁, t = t₁ ++ t₂ → machine.Run w t₁ w₁ → Balanced w₁) ↔
      ∀ t₁ t₂ w₁ call answer, t = t₁ ++ (call, answer) :: t₂ → machine.Run w t₁ w₁ →
        Counted w₁ call := by
  apply h.forall_prefix_iff (follows_init hw)
  · intro w hfollows
    exact hfollows.balanced
  · intro w call answer w' hfollows hl hc hs
    exact step_counted hfollows hl hc hs
  · intro w call answer w' hfollows _ hc hs
    exact step_uncounted hfollows hc hs

/-- There are always pages, at one address, and the device never fails. -/
def reliable : DiskCacheEnvironment := ⟨fun _ => 0xC0100000, fun _ _ => true⟩

/-- A new buffer for the first 8 blocks of a device, and the same after one `lock`. -/
def newWorld (load : Bool) : World := ⟨construct reliable 512 0 8 load, 0⟩

def lockedWorld (lockCount : Nat) : World := ⟨⟨0, 8, 4096, lockCount, 0xC0100000, .dcbPresent⟩, 1⟩

theorem newWorld_init (load : Bool) : machine.init (newWorld load) :=
  ⟨rfl, reliable, 512, 0, 8, load, rfl⟩

/-- Two clients lock a buffer. It cannot be freed before both have unlocked it. -/
def twoClients : List (Call × Answer) :=
  [(.lock reliable, .pointer 0xC0100000), (.lock reliable, .pointer 0xC0100000),
    (.free, .freed false none), (.unlock, .nothing), (.unlock, .nothing),
    (.free, .freed true (some 0xC0100000))]

theorem twoClients_run : ∃ w, machine.Run (newWorld true) twoClients w := by
  refine ⟨_, .cons ?_ rfl (.cons ?_ rfl (.cons ?_ rfl (.cons ?_ rfl (.cons ?_ rfl (.cons ?_ rfl
    .nil)))))⟩
  · intro h
    cases h
  · intro h
    cases h
  · intro h
    cases h
  · intro _
    decide
  · intro _
    decide
  · intro h
    cases h

/-- A buffer that was loaded at construction follows both clients. -/
theorem balanced_iff_twoClients : ∃ w, machine.Run (newWorld true) twoClients w ∧
    ∀ t₁ t₂ w₁, twoClients = t₁ ++ t₂ → machine.Run (newWorld true) t₁ w₁ → Balanced w₁ := by
  obtain ⟨w, hrun⟩ := twoClients_run
  refine ⟨w, hrun, (balanced_iff (newWorld_init true) hrun).mpr ?_⟩
  intro t₁ t₂ w₁ call answer ht hrun₁
  rcases t₁ with _ | ⟨x, t₁⟩
  · cases ht
    rw [hrun₁.unique .nil]
    show (0 : Nat) ≠ 2 ^ 32 - 1
    decide
  · obtain ⟨rfl, hrest⟩ := List.cons.inj ht
    rcases t₁ with _ | ⟨y, t₁⟩
    · cases hrest
      have hfirst : machine.Run (newWorld true) [(.lock reliable, .pointer 0xC0100000)]
          (lockedWorld 1) := .snoc .nil nofun rfl
      rw [hrun₁.unique hfirst]
      show (1 : Nat) ≠ 2 ^ 32 - 1
      decide
    · -- nothing is locked afterwards
      obtain ⟨-, hlater⟩ := List.cons.inj hrest
      have hmem : (call, answer) ∈ t₁ ++ (call, answer) :: t₂ :=
        List.mem_append_right t₁ List.mem_cons_self
      rw [show t₁ ++ (call, answer) :: t₂ = _ from hlater.symm] at hmem
      cases call with
      | lock env => simp at hmem
      | unlock => trivial
      | free => trivial

/-- A buffer that is loaded by `lock` is not locked, and `free` takes its pages away. -/
theorem load_on_lock : ¬ ∀ (w w' : World) (t : List (Call × Answer)), machine.init w →
    machine.Run w t w' → Balanced w' := by
  intro h
  have hrun : machine.Run (newWorld false) [(.lock reliable, .pointer 0xC0100000)]
      (lockedWorld 0) := .snoc .nil nofun rfl
  have hbalanced := h _ _ _ (newWorld_init false) hrun
  have hheld := hbalanced.held (by decide)
  exact nomatch hheld

end TimbOS.Native.DiskCacheBuffer
