import TimbOS.ForStd.Transition
import TimbOS.Native.Floppy

/-!
# The cylinder cache of the floppy drive

A failed `read_cyl` leaves its cylinder's number in the cache index, next to whatever
bytes it left in the cache. A read that starts in that cylinder then takes these bytes
for the disk's. Reads that start elsewhere are right.

## Key results

- `readBlock_eq`: one block
- `readLoop_eq`: a whole read
- `read_exact`: runs in which no read starts in a cylinder that has just failed
- `retry_returns_garbage`: a run with a retry
-/

namespace TimbOS.Native.Floppy

open ForStd

/-- A successful `read_cyl` leaves the bytes of the cylinder. A failed one may leave
    anything. -/
def Reliable {σ : Type} (controller : FloppyController σ) (disk : Nat → Nat → UInt8) : Prop :=
  ∀ s cylinder, (controller.readCyl s cylinder).1 = 0 →
    (controller.readCyl s cylinder).2.1 = disk cylinder

/-- The bytes of a block on a disk given by cylinder and offset. -/
def blockBytes (type : FloppyDriveType) (disk : Nat → Nat → UInt8) (block : Nat) : List UInt8 :=
  (List.range FloppyDrive.blockSize).map fun k =>
    disk (block / FloppyDrive.sectorsPerCyl type)
      ((block % FloppyDrive.sectorsPerCyl type) * FloppyDrive.blockSize + k)

/-- The bytes of `count` blocks from block `first` on, by 32-bit block numbers. -/
def diskBytes (type : FloppyDriveType) (disk : Nat → Nat → UInt8) (first count : Nat) :
    List UInt8 :=
  (List.range count).flatMap fun i => blockBytes type disk ((first + i) % 2 ^ 32)

/-- The cylinder of the last call of `read_cyl`, if the call failed. -/
def lastFailed (calls : List CylCall) : Option Nat :=
  match calls.getLast? with
  | some call => if call.error = 0 then none else some call.cylinder
  | none => none

theorem lastFailed_concat (calls : List CylCall) (call : CylCall) :
    lastFailed (calls ++ [call]) = if call.error = 0 then none else some call.cylinder := by
  rw [lastFailed, List.getLast?_concat]

/-! ## The invariant -/

/-- The cache holds the cylinder of its index, unless nothing was read yet or the last
    `read_cyl` failed, which was for that very cylinder then. -/
structure CacheInv (disk : Nat → Nat → UInt8) (calls : List CylCall) (d : FloppyDrive) : Prop where
  valid : lastFailed calls = none →
    d.cachedCylIndex = 2 ^ 32 - 1 ∨ d.cylCache = disk d.cachedCylIndex
  failed : ∀ c, lastFailed calls = some c → d.cachedCylIndex = c

section Read

variable {σ : Type} {controller : FloppyController σ} {disk : Nat → Nat → UInt8}
  {calls : List CylCall} {d : FloppyDrive}

/-- The number of a cylinder with sectors is never the index of an empty cache. -/
theorem cylinder_ne_empty {type : FloppyDriveType} (htype : 0 < FloppyDrive.sectorsPerCyl type)
    {block : Nat} (hblock : block < 2 ^ 32) :
    block / FloppyDrive.sectorsPerCyl type ≠ 2 ^ 32 - 1 := by
  have hmany : 2 ≤ FloppyDrive.sectorsPerCyl type := by
    cases type with
    | floppyDrive1_2M => decide
    | floppyDrive1_44M => decide
    | _ => exact absurd htype (by decide)
  have hmul := Nat.div_mul_le_self block (FloppyDrive.sectorsPerCyl type)
  have htwo := Nat.mul_le_mul_left (block / FloppyDrive.sectorsPerCyl type) hmany
  omega

/-- Loading a cylinder other than the one that has just failed: without an error, the cache
    holds it and no failure is left. -/
theorem loadCylinder_eq (hctl : Reliable controller disk) (h : CacheInv disk calls d) (s : σ)
    {cylinder : Nat} (hcylinder : cylinder ≠ 2 ^ 32 - 1)
    (hfresh : lastFailed calls ≠ some cylinder) :
    ∃ error d' s' new, d.loadCylinder controller s cylinder = (error, d', s', new) ∧
      d'.type = d.type ∧ CacheInv disk (calls ++ new) d' ∧
      (error = 0 → d'.cylCache = disk cylinder ∧ lastFailed (calls ++ new) = none) := by
  unfold FloppyDrive.loadCylinder
  by_cases hhit : cylinder = d.cachedCylIndex
  · -- no failure is left to spoil the cache
    have hnone : lastFailed calls = none := by
      cases hl : lastFailed calls with
      | none => rfl
      | some c =>
        rw [hhit, hl, h.failed c hl] at hfresh
        exact absurd rfl hfresh
    rw [if_neg (not_not.mpr hhit)]
    refine ⟨0, d, s, [], rfl, rfl, ?_, ?_⟩
    · rw [List.append_nil]
      exact h
    · intro _
      rw [List.append_nil, hhit]
      exact ⟨(h.valid hnone).resolve_left (hhit ▸ hcylinder), hnone⟩
  · rw [if_pos hhit]
    have hrel := hctl s cylinder
    generalize controller.readCyl s cylinder = answer at hrel ⊢
    obtain ⟨error, data, s'⟩ := answer
    refine ⟨error, _, s', _, rfl, rfl, ?_, ?_⟩
    · constructor
      · intro hnone
        rw [lastFailed_concat] at hnone
        by_cases herror : error = 0
        · exact Or.inr (hrel herror)
        · rw [if_neg herror] at hnone
          cases hnone
      · intro c hc
        rw [lastFailed_concat] at hc
        by_cases herror : error = 0
        · rw [if_pos herror] at hc
          cases hc
        · rw [if_neg herror] at hc
          exact Option.some.inj hc
    · intro herror
      rw [lastFailed_concat, if_pos herror]
      exact ⟨hrel herror, rfl⟩

/-- A block outside the cylinder that has just failed: success delivers its bytes and
    leaves no failure behind. -/
theorem readBlock_eq (hctl : Reliable controller disk)
    (htype : 0 < FloppyDrive.sectorsPerCyl d.type) (h : CacheInv disk calls d) (s : σ)
    {block : Nat} (hblock : block < 2 ^ 32)
    (hfresh : lastFailed calls ≠ some (block / FloppyDrive.sectorsPerCyl d.type)) :
    ∃ r, d.readBlock controller s block = .ok r ∧ r.drive.type = d.type ∧
      CacheInv disk (calls ++ r.calls) r.drive ∧
      (r.ok = true →
        r.bytes = blockBytes d.type disk block ∧ lastFailed (calls ++ r.calls) = none) := by
  obtain ⟨error, d', s', new, hload, htype', hinv, hok⟩ :=
    loadCylinder_eq hctl h s (cylinder_ne_empty htype hblock) hfresh
  unfold FloppyDrive.readBlock
  rw [if_neg (by omega)]
  simp only [hload]
  by_cases herror : error = 0
  · rw [if_pos herror]
    obtain ⟨hcache, hnone⟩ := hok herror
    refine ⟨_, rfl, htype', hinv, ?_⟩
    intro _
    refine ⟨?_, hnone⟩
    simp only [hcache, blockBytes]
  · rw [if_neg herror]
    exact ⟨_, rfl, htype', hinv, fun hfalse => nomatch hfalse⟩

/-- The loop of `read`. Only its first block can meet a cylinder that failed before. -/
theorem readLoop_eq (hctl : Reliable controller disk)
    (htype : 0 < FloppyDrive.sectorsPerCyl d.type) (h : CacheInv disk calls d) (s : σ)
    (first n i : Nat)
    (hfresh : n = 0 ∨ lastFailed calls ≠
      some ((first + i) % 2 ^ 32 / FloppyDrive.sectorsPerCyl d.type)) :
    ∃ r, FloppyDrive.readLoop controller first n i d s = .ok r ∧ r.drive.type = d.type ∧
      CacheInv disk (calls ++ r.calls) r.drive ∧
      (r.ok = true → r.bytes =
        (List.range' i n).flatMap fun k => blockBytes d.type disk ((first + k) % 2 ^ 32)) := by
  induction n generalizing calls d s i with
  | zero =>
    refine ⟨_, rfl, rfl, ?_, fun _ => rfl⟩
    rw [List.append_nil]
    exact h
  | succ n ih =>
    have hfresh := hfresh.resolve_left (Nat.succ_ne_zero n)
    have hlt : (first + i) % 2 ^ 32 < 2 ^ 32 := Nat.mod_lt _ (by decide)
    obtain ⟨r, hread, htype', hinv, hok⟩ := readBlock_eq hctl htype h s hlt hfresh
    rw [FloppyDrive.readLoop, hread]
    simp only [bind, Except.bind]
    cases hr : r.ok with
    -- the loop ends at the first block that fails
    | false =>
      rw [if_neg (by decide)]
      refine ⟨r, rfl, htype', hinv, ?_⟩
      intro htrue
      rw [hr] at htrue
      cases htrue
    | true =>
      obtain ⟨hbytes, hnone⟩ := hok hr
      -- after a block that was read, no cylinder is the one that failed last
      obtain ⟨rest, hrest, htype'', hinv', hok'⟩ := ih (htype'.symm ▸ htype) hinv r.controller
        (i + 1) (Or.inr (by rw [hnone]; exact fun hx => nomatch hx))
      rw [if_pos rfl, hrest]
      refine ⟨_, rfl, htype''.trans htype', ?_, ?_⟩
      · rw [← List.append_assoc]
        exact hinv'
      · intro hall
        show r.bytes ++ rest.bytes = _
        rw [hbytes, hok' hall, htype', List.range'_succ, List.flatMap_cons]

end Read

/-! ## Runs -/

/-- A drive, its controller, and the calls of `read_cyl` so far. -/
structure World (σ : Type) where
  drive : FloppyDrive
  controller : σ
  calls : List CylCall

/-- `read( first, count, buffer )` -/
structure ReadOp where
  first : Nat
  count : Nat

/-- The result, and the bytes that reached the buffer. -/
structure Answer where
  ok : Bool
  bytes : List UInt8

/-- The drive as a machine, for reads that `legal` admits. -/
def machine {σ : Type} (controller : FloppyController σ) (legal : World σ → ReadOp → Prop) :
    Machine (World σ) ReadOp Answer Fault where
  init := fun w => w.calls = [] ∧ ∃ type cache,
    (type = .floppyDrive1_2M ∨ type = .floppyDrive1_44M) ∧ w.drive = .construct type cache
  legal := legal
  step := fun w op => do
    let r ← w.drive.read controller w.controller op.first op.count
    .ok (⟨r.ok, r.bytes⟩, ⟨r.drive, r.controller, w.calls ++ r.calls⟩)

/-- The read does not start in the cylinder whose `read_cyl`, the last one called, failed. -/
def NotRetried {σ : Type} (w : World σ) (op : ReadOp) : Prop :=
  op.count = 0 ∨ lastFailed w.calls ≠
    some (op.first % 2 ^ 32 / FloppyDrive.sectorsPerCyl w.drive.type)

section Runs

variable {σ : Type} {controller : FloppyController σ} {disk : Nat → Nat → UInt8}
  {w w' : World σ} {op : ReadOp}

/-- What holds of the drive as long as no cylinder is retried at once. -/
structure WorldInv (disk : Nat → Nat → UInt8) (w : World σ) : Prop where
  sectors : 0 < FloppyDrive.sectorsPerCyl w.drive.type
  cache : CacheInv disk w.calls w.drive

theorem WorldInv.step (legal : World σ → ReadOp → Prop) (hctl : Reliable controller disk)
    (h : WorldInv disk w) (hl : NotRetried w op) :
    ∃ o w', (machine controller legal).step w op = .ok (o, w') ∧ WorldInv disk w' ∧
      (o.ok = true → o.bytes = diskBytes w.drive.type disk op.first op.count) := by
  obtain ⟨r, hread, htype, hcache, hok⟩ := readLoop_eq hctl h.sectors h.cache w.controller op.first
    op.count 0 hl
  refine ⟨⟨r.ok, r.bytes⟩, ⟨r.drive, r.controller, w.calls ++ r.calls⟩, ?_, ⟨?_, hcache⟩, ?_⟩
  · have hrun : w.drive.read controller w.controller op.first op.count = .ok r := hread
    simp only [machine, hrun, bind, Except.bind]
  · rw [htype]
    exact h.sectors
  · intro htrue
    rw [diskBytes, List.range_eq_range']
    exact hok htrue

/-- In every run in which no read starts in a cylinder that has just failed, a read that
    returns true has delivered the bytes of the disk. -/
theorem read_exact (hctl : Reliable controller disk)
    (hw : (machine controller NotRetried).Reachable w) (hl : NotRetried w op) :
    ∃ o w', (machine controller NotRetried).step w op = .ok (o, w') ∧
      (o.ok = true → o.bytes = diskBytes w.drive.type disk op.first op.count) := by
  have hinv : WorldInv disk w := by
    apply hw.invariant
    · rintro w ⟨hcalls, type, cache, htype, hdrive⟩
      refine ⟨?_, ?_⟩
      · rw [hdrive]
        rcases htype with rfl | rfl
        · show 0 < FloppyDrive.sectorsPerCyl .floppyDrive1_2M
          decide
        · show 0 < FloppyDrive.sectorsPerCyl .floppyDrive1_44M
          decide
      · rw [hcalls, hdrive]
        exact ⟨fun _ => Or.inl rfl, fun c hc => nomatch hc⟩
    · intro w op o w' hinv hl hs
      obtain ⟨o₂, w₂, hstep, hinv', _⟩ := WorldInv.step NotRetried hctl hinv hl
      rw [hs] at hstep
      cases hstep
      exact hinv'
  obtain ⟨o, w', hstep, _, hok⟩ := WorldInv.step NotRetried hctl hinv hl
  exact ⟨o, w', hstep, hok⟩

end Runs

/-! ## A controller that fails once -/

/-- The first call fails and clears the cache, the others read a disk full of ones. -/
def failOnce : FloppyController Bool where
  readCyl := fun failed _ => if failed then (0, fun _ => 1, true) else (-1, fun _ => 0, true)

theorem failOnce_reliable : Reliable failOnce fun _ _ => 1 := by
  intro failed cylinder herror
  cases failed with
  | true => rfl
  | false =>
    have hminus : (-1 : Int) = 0 := herror
    cases hminus

def freshWorld (failed : Bool) : World Bool :=
  ⟨.construct .floppyDrive1_44M fun _ => 0, failed, []⟩

theorem freshWorld_init (failed : Bool) (legal : World Bool → ReadOp → Prop) :
    (machine failOnce legal).init (freshWorld failed) :=
  ⟨rfl, _, _, Or.inr rfl, rfl⟩

/-- Two cylinders in one read, from a controller whose failure is behind it. -/
theorem read_exact_fresh : ∃ o w',
    (machine failOnce NotRetried).step (freshWorld true) ⟨30, 12⟩ = .ok (o, w') ∧
      (o.ok = true → o.bytes = diskBytes .floppyDrive1_44M (fun _ _ => 1) 30 12) :=
  read_exact failOnce_reliable (.init (freshWorld_init true NotRetried)) (Or.inr (by decide))

/-- The world after the first read of cylinder 0 failed. -/
def failedWorld : World Bool := ⟨⟨.floppyDrive1_44M, fun _ => 0, 0⟩, true, [⟨0, -1⟩]⟩

theorem failedWorld_reachable : (machine failOnce fun _ _ => True).Reachable failedWorld :=
  .step (i := ⟨0, 1⟩) (o := ⟨false, []⟩) (.init (freshWorld_init false _)) trivial rfl

/-- The next read of the cylinder returns true with the cleared cache. -/
theorem failedWorld_step : (machine failOnce fun _ _ => True).step failedWorld ⟨0, 1⟩ =
    .ok (⟨true, (List.range FloppyDrive.blockSize).map fun _ => 0⟩, failedWorld) := by
  simp [machine, failedWorld, FloppyDrive.read, FloppyDrive.readLoop, FloppyDrive.readBlock,
    FloppyDrive.loadCylinder, FloppyDrive.sectorsPerCyl, bind, Except.bind]

/-- A cylinder retried after a failure is not read, and the read returns true. -/
theorem retry_returns_garbage : ¬ ∀ (controller : FloppyController Bool)
    (disk : Nat → Nat → UInt8) (w w' : World Bool) (op : ReadOp) (o : Answer),
    Reliable controller disk → (machine controller fun _ _ => True).Reachable w →
    (machine controller fun _ _ => True).step w op = .ok (o, w') → o.ok = true →
    o.bytes = diskBytes w.drive.type disk op.first op.count := by
  intro h
  have hbytes := h _ _ _ _ _ _ failOnce_reliable failedWorld_reachable failedWorld_step rfl
  -- every byte is a zero and should be a one
  simp only [diskBytes, List.range_one, List.flatMap_singleton, blockBytes,
    List.map_inj_left] at hbytes
  have hfirst := hbytes 0 (List.mem_range.mpr (by decide))
  cases hfirst

end TimbOS.Native.Floppy
