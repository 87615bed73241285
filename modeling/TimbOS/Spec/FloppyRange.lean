import TimbOS.Native.DevManager

/-!
# Reads behind the end of the disk

`read` does not compare the range with `block_count()`, and divides by the number of sectors in a
cylinder, which is 0 for three types of drives. A range behind the end is refused only if the
controller refuses a cylinder, and not again when the same cylinder is asked for next.

## Key results

- `readBlock_spec`: one block
- `readLoop_spec`: a whole read succeeds if the controller delivers what the cache does not hold
- `disciplined_iff`: exactly when a read keeps to the blocks of the drive
- `range_not_checked`: a division by zero, and a read behind the end
-/

namespace TimbOS.Native.Floppy

open FloppyDrive

section Range

variable {σ : Type} {controller : FloppyController σ} {d : FloppyDrive} {s : σ}
  {first count n i block : Nat}

/-- A read does not divide by zero. -/
def DividesSafely (controller : FloppyController σ) (d : FloppyDrive) (s : σ)
    (first count : Nat) : Prop :=
  ∃ r, d.read controller s first count = .ok r

/-- A read of blocks behind the last one returns false. -/
def RefusesBehind (controller : FloppyController σ) (d : FloppyDrive) (s : σ)
    (first count : Nat) : Prop :=
  ∀ r, d.read controller s first count = .ok r → blockCount d.type < first + count → r.ok = false

/-- The cylinders of the blocks from the `i`-th on, by 32-bit block numbers. -/
def cylinders (type : FloppyDriveType) (first i n : Nat) : List Nat :=
  (List.range' i n).map fun k => (first + k) % 2 ^ 32 / sectorsPerCyl type

/-- The cylinders that have to be loaded, one after the other. -/
def missing : Nat → List Nat → List Nat
  | _, [] => []
  | cached, cylinder :: rest =>
    if cylinder ≠ cached then cylinder :: missing cylinder rest else missing cylinder rest

/-- The error codes of the controller for some cylinders, one after the other. -/
def errors (controller : FloppyController σ) : σ → List Nat → List Int
  | _, [] => []
  | s, cylinder :: rest =>
    (controller.readCyl s cylinder).1 ::
      errors controller (controller.readCyl s cylinder).2.2 rest

/-- The controller fails for a cylinder of the range that is not in the cache when its turn
    comes. -/
def RangeFails (controller : FloppyController σ) (d : FloppyDrive) (s : σ)
    (first count : Nat) : Prop :=
  ∃ error ∈ errors controller s (missing d.cachedCylIndex (cylinders d.type first 0 count)),
    error ≠ 0

/-- A block comes from the cache, or from the controller. -/
theorem readBlock_spec (controller : FloppyController σ) (htype : 0 < sectorsPerCyl d.type)
    (s : σ) (block : Nat) :
    ∃ r, d.readBlock controller s block = .ok r ∧ r.drive.type = d.type ∧
      r.drive.cachedCylIndex = block / sectorsPerCyl d.type ∧
      if block / sectorsPerCyl d.type ≠ d.cachedCylIndex then
        (r.ok = true ↔ (controller.readCyl s (block / sectorsPerCyl d.type)).1 = 0) ∧
          r.controller = (controller.readCyl s (block / sectorsPerCyl d.type)).2.2
      else
        r.ok = true ∧ r.controller = s := by
  unfold readBlock loadCylinder
  rw [if_neg (Nat.ne_of_gt htype)]
  by_cases hmiss : block / sectorsPerCyl d.type ≠ d.cachedCylIndex
  · simp only [if_pos hmiss]
    by_cases herror : (controller.readCyl s (block / sectorsPerCyl d.type)).1 = 0
    · exact ⟨_, if_pos herror, rfl, rfl, iff_of_true rfl herror, rfl⟩
    · exact ⟨_, if_neg herror, rfl, rfl, iff_of_false Bool.false_ne_true herror, rfl⟩
  · simp only [if_neg hmiss]
    exact ⟨_, if_pos trivial, rfl, (not_not.mp hmiss).symm, rfl, rfl⟩

theorem readLoop_spec (controller : FloppyController σ) (htype : 0 < sectorsPerCyl d.type)
    (s : σ) (first n i : Nat) :
    ∃ r, readLoop controller first n i d s = .ok r ∧
      (r.ok = true ↔ ∀ error ∈ errors controller s
        (missing d.cachedCylIndex (cylinders d.type first i n)), error = 0) := by
  induction n generalizing d s i with
  | zero =>
    refine ⟨_, rfl, iff_of_true rfl ?_⟩
    intro error herror
    cases herror
  | succ n ih =>
    obtain ⟨r, hread, hsame, hcached, hcase⟩ :=
      readBlock_spec controller htype s ((first + i) % 2 ^ 32)
    obtain ⟨rest, hrest, hok⟩ := ih (hsame ▸ htype) r.controller (i + 1)
    rw [hsame, hcached] at hok
    have hcylinders : cylinders d.type first i (n + 1) =
        (first + i) % 2 ^ 32 / sectorsPerCyl d.type :: cylinders d.type first (i + 1) n := rfl
    rw [readLoop, hread, hcylinders, missing]
    simp only [bind, Except.bind]
    -- a block of the cached cylinder makes no call of the controller
    by_cases hmiss : (first + i) % 2 ^ 32 / sectorsPerCyl d.type ≠ d.cachedCylIndex
    · rw [if_pos hmiss] at hcase ⊢
      rw [errors, List.forall_mem_cons, ← hcase.1, ← hcase.2, ← hok]
      cases hr : r.ok with
      | false => exact ⟨r, rfl, by simp [hr]⟩
      | true =>
        rw [if_pos rfl, hrest]
        exact ⟨_, rfl, by simp⟩
    · rw [if_neg hmiss] at hcase ⊢
      rw [← hcase.2, ← hok, if_pos hcase.1, hrest]
      exact ⟨_, rfl, Iff.rfl⟩

/-- Only two types of drives have sectors. -/
theorem sectorsPerCyl_pos_iff (type : FloppyDriveType) :
    0 < sectorsPerCyl type ↔ type = .floppyDrive1_2M ∨ type = .floppyDrive1_44M := by
  cases type <;> decide

/-- The other types fail at the first block. -/
theorem not_dividesSafely (htype : ¬ 0 < sectorsPerCyl d.type) (hcount : 1 ≤ count) :
    ¬ DividesSafely controller d s first count := by
  rintro ⟨r, hread⟩
  obtain ⟨n, rfl⟩ := Nat.exists_eq_add_of_le' hcount
  rw [FloppyDrive.read, readLoop, readBlock, if_pos (Nat.eq_zero_of_not_pos htype)] at hread
  cases hread

end Range

/-- A read of at least one block keeps to the blocks of the drive exactly if the drive has
    sectors, and the range ends with the last block or the controller fails for one of its
    cylinders. -/
theorem disciplined_iff {σ : Type} (controller : FloppyController σ) (d : FloppyDrive) (s : σ)
    (first count : Nat) (hcount : 1 ≤ count) :
    DividesSafely controller d s first count ∧ RefusesBehind controller d s first count ↔
      (d.type = .floppyDrive1_2M ∨ d.type = .floppyDrive1_44M) ∧
        (first + count ≤ blockCount d.type ∨ RangeFails controller d s first count) := by
  rw [← sectorsPerCyl_pos_iff]
  by_cases htype : 0 < sectorsPerCyl d.type
  · obtain ⟨r, hread, hok⟩ := readLoop_spec controller htype s first count 0
    have hfails : RangeFails controller d s first count ↔ r.ok = false := by
      rw [← Bool.not_eq_true, hok, RangeFails]
      push Not
      rfl
    rw [and_iff_right htype, hfails, and_iff_right ⟨r, hread⟩]
    constructor
    · intro h
      by_cases hend : first + count ≤ blockCount d.type
      · exact .inl hend
      · exact .inr (h r hread (Nat.lt_of_not_le hend))
    · rintro h r' hread' hbehind
      cases hread.symm.trans hread'
      exact h.resolve_left (Nat.not_le_of_lt hbehind)
  · -- a drive without sectors divides by zero
    constructor
    · intro h
      exact absurd h.1 (not_dividesSafely htype hcount)
    · intro h
      exact absurd h.1 htype

/-! ## Drives that `floppy_probe` constructs -/

/-- No disk is in the drive. -/
def noDisk : FloppyController Unit where
  readCyl := fun _ _ => (-1, fun _ => 0, ())

/-- A drive that has just been constructed, with nothing in its cache. -/
def newDrive (type : FloppyDriveType) : FloppyDrive := .construct type fun _ => 0

theorem disciplined_iff_last :
    DividesSafely noDisk (newDrive .floppyDrive1_44M) () 2879 1 ∧
        RefusesBehind noDisk (newDrive .floppyDrive1_44M) () 2879 1 ↔
      ((newDrive .floppyDrive1_44M).type = .floppyDrive1_2M ∨
          (newDrive .floppyDrive1_44M).type = .floppyDrive1_44M) ∧
        (2879 + 1 ≤ blockCount (newDrive .floppyDrive1_44M).type ∨
          RangeFails noDisk (newDrive .floppyDrive1_44M) () 2879 1) :=
  disciplined_iff noDisk (newDrive .floppyDrive1_44M) () 2879 1 (by decide)

/-- A 720k drive divides by zero, and a 1.44M drive accepts the first block behind the last one
    when it is asked for it a second time. -/
theorem range_not_checked :
    (¬ ∀ (driveTypes : UInt8) (mgr : DeviceManager),
      ∀ type ∈ (floppyProbe driveTypes 0xD0000010 0xD0000030 mgr).2,
        DividesSafely noDisk (newDrive type) () 0 1) ∧
    ¬ ∀ (driveTypes : UInt8) (mgr : DeviceManager),
      ∀ type ∈ (floppyProbe driveTypes 0xD0000010 0xD0000030 mgr).2, ∀ first count r,
        (newDrive type).read noDisk () first count = .ok r →
        RefusesBehind noDisk r.drive r.controller first count := by
  constructor
  · intro h
    have hsafe := h 0x30 .empty .floppyDrive720k List.mem_cons_self
    exact not_dividesSafely (by decide) (by decide) hsafe
  · intro h
    have hfirst : (newDrive .floppyDrive1_44M).read noDisk () 2880 1 =
        .ok ⟨false, [], ⟨.floppyDrive1_44M, fun _ => 0, 80⟩, (), [⟨80, -1⟩]⟩ := rfl
    have hrefuses := h 0x40 .empty .floppyDrive1_44M List.mem_cons_self 2880 1 _ hfirst
    exact absurd (hrefuses _ rfl (by decide)) (by decide)

end TimbOS.Native.Floppy
