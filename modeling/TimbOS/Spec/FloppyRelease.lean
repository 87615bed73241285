import TimbOS.Spec.FloppyFrame

/-!
# The motor is released

Calibrating, seeking and transferring turn the motor on, try several times, and have many ways to
return. Each of them ends with a call of `floppy_motor` that leaves the motor to the timer, or
comes right after a seek that has done so.

## Key results

- `calibrateLoop_releases`, `seekLoop_releases`, `doTrackLoop_releases`: the loops
- `motor_released`: the motor state and the ticks after every operation that returns
-/

namespace TimbOS.Native.FloppyIo

open ForStd

section Release

variable {σ α : Type} {hw : Hardware σ} {base : Nat} {P : Driver σ → Prop}

/-- The timer will switch the motor off in 300 ticks. -/
def Released (d : Driver σ) : Prop := d.motorState = .wait ∧ d.motorTicks = 300

instance : IsPreorder (Driver σ) fun _ _ => True where
  refl := fun _ => trivial
  trans := fun _ _ _ _ _ => trivial

/-- Whatever the program does from a state with `P` on, it returns with the motor released. -/
abbrev Releases (P : Driver σ → Prop) (x : FloppyM σ α) : Prop :=
  Runs P (fun _ _ => True) (fun _ d => Released d) x

/-- Only what comes last matters. -/
theorem Releases.after {β : Type} {x : FloppyM σ α} {f : α → FloppyM σ β}
    (hf : ∀ a, Releases (fun _ => True) (f a)) : Releases P (x >>= f) := by
  have hx : Runs P (fun _ _ => True) (fun _ _ => True) x := by
    intro d _
    cases x.run d with
    | ok a d' => exact ⟨trivial, trivial⟩
    | error stop d' => trivial
  exact hx.bind hf

theorem Releases.ite {c : Prop} [Decidable c] {x y : FloppyM σ α} (hx : Releases P x)
    (hy : Releases P y) : Releases P (if c then x else y) :=
  Runs.ite (fun _ => hx) fun _ => hy

/-- The end of an operation. -/
theorem release_releases (a : Int) :
    Releases P (do floppyMotor hw base false; return a : FloppyM σ Int) := by
  intro d _
  exact ⟨trivial, rfl, rfl⟩

/-! ## Operations -/

theorem calibrateLoop_releases (n : Nat) : Releases P (calibrateLoop hw base n) := by
  induction n generalizing P with
  | zero => exact release_releases (-1)
  | succ n ih =>
    exact .after fun _ => .after fun _ => .after fun _ => .after fun _ =>
      .ite ih (.ite (release_releases 0) ih)

theorem floppyCalibrate_releases : Releases P (floppyCalibrate hw base) :=
  .after fun _ => calibrateLoop_releases 10

theorem seekLoop_releases (cyli head n : Nat) : Releases P (seekLoop hw base cyli head n) := by
  induction n generalizing P with
  | zero => exact release_releases (-1)
  | succ n ih =>
    exact .after fun _ => .after fun _ => .after fun _ => .after fun _ => .after fun _ =>
      .ite ih (.ite (release_releases 0) ih)

theorem floppySeek_releases (cyli head : Nat) : Releases P (floppySeek hw base cyli head) :=
  .after fun _ => seekLoop_releases cyli head 10

theorem doTrackLoop_releases (cmd : UInt8) (cyl : Nat) (dir : FloppyDir) (dmaBuffer n : Nat) :
    Releases P (doTrackLoop hw base cmd cyl dir dmaBuffer n) := by
  induction n generalizing P with
  | zero => exact release_releases (-1)
  | succ n ih =>
    -- a transfer succeeds, gives up because of write protection, or is tried again
    have htransfer : Releases (fun _ => True)
        (transfer hw base cmd cyl (doTrackLoop hw base cmd cyl dir dmaBuffer n)) :=
      .after fun _ => .after fun _ => .after fun _ =>
        .ite (release_releases 0) (.ite (release_releases (-2)) ih)
    exact .after fun _ => .after fun _ => htransfer

/-- A seek that fails has released the motor, and nothing is done after it. -/
theorem floppyDoTrack_releases (cyl : Nat) (dir : FloppyDir) (dmaBuffer : Nat) :
    Releases P (floppyDoTrack hw base cyl dir dmaBuffer) := by
  have hfailed : Releases Released (pure (-1) : FloppyM σ Int) := Runs.pure fun _ h => h
  have hloop : Releases Released (doTrackLoop hw base (transferCmd dir) cyl dir dmaBuffer 20) :=
    doTrackLoop_releases (transferCmd dir) cyl dir dmaBuffer 20
  exact (floppySeek_releases cyl 0).bind fun _ => Releases.ite hfailed
    ((floppySeek_releases cyl 1).bind fun _ => Releases.ite hfailed hloop)

end Release

/-- Every operation that returns, whatever the controller answers, leaves the motor waiting for
    the timer. -/
theorem motor_released {σ : Type} (hw : Hardware σ) (base : Nat) (d d' : Driver σ) (error : Int) :
    ((floppyCalibrate hw base).run d = .ok error d' → Released d') ∧
    (∀ cyli head, (floppySeek hw base cyli head).run d = .ok error d' → Released d') ∧
    ∀ cyl dir dmaBuffer,
      (floppyDoTrack hw base cyl dir dmaBuffer).run d = .ok error d' → Released d' := by
  refine ⟨?_, ?_, ?_⟩
  · intro h
    exact (Runs.ok (P := fun _ => True) floppyCalibrate_releases trivial h).2
  · intro cyli head h
    exact (Runs.ok (P := fun _ => True) (floppySeek_releases cyli head) trivial h).2
  · intro cyl dir dmaBuffer h
    exact (Runs.ok (P := fun _ => True) (floppyDoTrack_releases cyl dir dmaBuffer) trivial h).2

/-- A drive that does not leave cylinder 0 is tried again until no tries are left. -/
theorem seekLoop_lost (n : Nat) (d : Driver Unit) :
    ∃ d', (seekLoop readyHardware floppyBase 1 0 n).run d = .ok (-1) d' := by
  induction n generalizing d with
  | zero => exact ⟨d.release, release_ready d (-1)⟩
  | succ n ih =>
    obtain ⟨d', hrest⟩ := ih (d.addWrites [⟨0x3f5, 15⟩, ⟨0x3f5, 0⟩, ⟨0x3f5, 1⟩, ⟨0x3f5, 8⟩])
    refine ⟨d', ?_⟩
    rw [seekLoop, run_bind_ok (floppyWriteCmd_ready d _), run_bind_ok (floppyWriteCmd_ready _ _),
      run_bind_ok (floppyWriteCmd_ready _ _), run_bind_ok (irqWait_ready _),
      run_bind_ok (floppyCheckInterrupt_ready _)]
    simp only [addWrites_addWrites]
    rw [if_neg (by decide), if_neg (by decide)]
    exact hrest

/-- A transfer from a cylinder that the drive does not find. -/
theorem motor_released_lost : ∃ d', (floppyDoTrack readyHardware floppyBase 1 .read 0).run
    startDriver = .ok (-1) d' ∧ Released d' := by
  obtain ⟨d', hseek⟩ := seekLoop_lost 10 (startMotor readyHardware startDriver)
  have hrun : (floppyDoTrack readyHardware floppyBase 1 .read 0).run startDriver = .ok (-1) d' := by
    rw [floppyDoTrack, floppySeek, bind_assoc, run_bind_ok (floppyMotor_on startDriver),
      run_bind_ok hseek, if_pos (by decide)]
    rfl
  exact ⟨d', hrun, (motor_released readyHardware floppyBase startDriver d' (-1)).2.2 1 .read 0 hrun⟩

end TimbOS.Native.FloppyIo
