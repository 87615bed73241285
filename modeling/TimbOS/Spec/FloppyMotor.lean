import TimbOS.ForStd.Transition
import TimbOS.Spec.FloppyFrame

/-!
# The motor state and the digital output register

`floppy_motor` turns the motor on only if the motor state is off. The state follows the
register as long as `floppy_reset`, which writes the register behind the back of the state, is
called with the motor off, and the motor is not switched off twice.

## Key results

- `NoDor`: what calibrating, seeking and transferring do once the motor state is not off
- `matches_iff`: the runs in which state and register always agree
- `commands_with_motor`: in these, all commands are written with the motor on
- `reset_while_waiting`: a second reset
-/

namespace TimbOS.Native.FloppyIo

open ForStd

/-! ## What was written to the ports -/

/-- The last value that was written to the digital output register. -/
def dorValue (writes : List PortWrite) : UInt8 :=
  writes.foldl (fun value w => if w.port = floppyBase + floppyDor then w.value else value) 0

/-- The motor of drive A is on. -/
def MotorRuns (writes : List PortWrite) : Prop := dorValue writes &&& 0x10 ≠ 0

instance (writes : List PortWrite) : Decidable (MotorRuns writes) :=
  inferInstanceAs (Decidable (_ ≠ _))

/-- `new` continues `old`, and every write after `old` satisfies `p`, with what was written
    before it. -/
def Continues (p : List PortWrite → PortWrite → Prop) (old new : List PortWrite) : Prop :=
  old <+: new ∧ ∀ before w, before ++ [w] <+: new → ¬ before ++ [w] <+: old → p before w

/-- No write goes to the digital output register. -/
abbrev NoDor : List PortWrite → List PortWrite → Prop :=
  Continues fun _ w => w.port ≠ floppyBase + floppyDor

/-- Every byte for the controller is written while the motor runs. -/
abbrev CommandsRun : List PortWrite → List PortWrite → Prop :=
  Continues fun before w => w.port = floppyBase + floppyFifo → MotorRuns before

section Writes

variable {p : List PortWrite → PortWrite → Prop} {old mid new : List PortWrite} {w : PortWrite}

theorem Continues.refl (old : List PortWrite) : Continues p old old :=
  ⟨List.prefix_refl old, fun _ _ h hnot => absurd h hnot⟩

theorem Continues.trans (h : Continues p old mid) (h' : Continues p mid new) :
    Continues p old new := by
  refine ⟨h.1.trans h'.1, ?_⟩
  intro before w hnew hold
  by_cases hmid : before ++ [w] <+: mid
  · exact h.2 before w hmid hold
  · exact h'.2 before w hnew hmid

theorem Continues.concat (h : p old w) : Continues p old (old ++ [w]) := by
  refine ⟨List.prefix_append old [w], ?_⟩
  intro before w' hnew hold
  rcases List.prefix_concat_iff.mp hnew with heq | hpre
  · obtain ⟨rfl, hw⟩ := List.append_inj' heq rfl
    cases List.singleton_inj.mp hw
    exact h
  · exact absurd hpre hold

theorem dorValue_concat (writes : List PortWrite) (w : PortWrite) :
    dorValue (writes ++ [w]) =
      if w.port = floppyBase + floppyDor then w.value else dorValue writes := by
  rw [dorValue, List.foldl_append]
  rfl

/-- Without a write to it the register keeps its value, all the time. -/
theorem NoDor.dorValue_eq (h : NoDor old new) : dorValue new = dorValue old := by
  obtain ⟨⟨rest, rfl⟩, hall⟩ := h
  induction rest using List.reverseRecOn with
  | nil => rw [List.append_nil]
  | append_singleton rest w ih =>
    rw [← List.append_assoc] at hall ⊢
    have hlast : ¬ old ++ rest ++ [w] <+: old := by
      intro hle
      have := hle.length_le
      simp at this
    rw [dorValue_concat, if_neg (hall _ w (List.prefix_refl _) hlast)]
    apply ih
    intro before w' hpre
    exact hall before w' (hpre.trans (List.prefix_append _ _))

/-- Started with the motor on, everything is written with the motor on. -/
theorem NoDor.commandsRun (h : NoDor old new) (hruns : MotorRuns old) : CommandsRun old new := by
  refine ⟨h.1, ?_⟩
  intro before w hnew hold _
  have hbefore : NoDor old before := by
    have hle : before <+: new := (List.prefix_append _ _).trans hnew
    have hlen : old.length ≤ before.length := by
      by_contra hlt
      exact hold (List.prefix_of_prefix_length_le hnew h.1 (by simp; omega))
    exact ⟨List.prefix_of_prefix_length_le h.1 hle hlen,
      fun before' w' hpre => h.2 before' w' (hpre.trans hle)⟩
  rw [MotorRuns, hbefore.dorValue_eq]
  exact hruns

end Writes

/-! ## Programs that leave the register alone -/

section Quiet

variable {σ : Type} {hw : Hardware σ} {α : Type} {P : MotorState → Prop}

instance (p : List PortWrite → PortWrite → Prop) : IsPreorder (List PortWrite) (Continues p) where
  refl := fun _ => .refl _
  trans := fun _ _ _ h h' => .trans h h'

/-- The motor state is not off. -/
def Started (m : MotorState) : Prop := m ≠ .off

/-- Once the motor state is not off, the program does not write the digital output register,
    and does not turn the state off. -/
abbrev Quiet (x : FloppyM σ α) : Prop := Frame Started NoDor x

theorem allowsCommands_noDor : AllowsCommands NoDor := by
  intro l value
  have hport : floppyBase + floppyFifo ≠ floppyBase + floppyDor := by decide
  exact Continues.concat hport

theorem allowsMotor_started : AllowsMotor Started NoDor where
  on := MotorState.noConfusion
  wait := MotorState.noConfusion
  start := fun h => absurd rfl h

theorem outportb_quiet {port : Nat} {value : UInt8} (hport : port ≠ floppyBase + floppyDor) :
    Frame P NoDor (outportb hw port value) :=
  outportb_frame fun _ => .concat hport

theorem floppyDmaInit_quiet (dir : FloppyDir) (buffer : Nat) :
    Frame P NoDor (floppyDmaInit hw dir buffer) := by
  apply Runs.ite
  · intro _
    exact Runs.throw _
  · intro _
    exact (outportb_quiet (by decide)).bind fun _ => (outportb_quiet (by decide)).bind fun _ =>
      (outportb_quiet (by decide)).bind fun _ => (outportb_quiet (by decide)).bind fun _ =>
      (outportb_quiet (by decide)).bind fun _ => (outportb_quiet (by decide)).bind fun _ =>
      (outportb_quiet (by decide)).bind fun _ => (outportb_quiet (by decide)).bind fun _ =>
      (outportb_quiet (by decide)).bind fun _ => outportb_quiet (by decide)

/-! ## Operations that begin with the motor -/

/-- The program turns the motor on, and then leaves the register alone. -/
structure Operates (hw : Hardware σ) (x : FloppyM σ α) : Prop where
  starts : ∀ d, x.run d = x.run (startMotor hw d)
  quiet : Quiet x

theorem startMotor_started (d : Driver σ) : Started (startMotor hw d).motorState := by
  unfold startMotor
  split <;> exact MotorState.noConfusion

theorem startMotor_startMotor (d : Driver σ) :
    startMotor hw (startMotor hw d) = startMotor hw d := by
  have hstate : (startMotor hw d).motorState = .on := by
    unfold startMotor
    split <;> rfl
  rw [startMotor, if_neg (startMotor_started d), ← hstate]

theorem operates_floppyMotor : Operates hw (floppyMotor hw floppyBase true) where
  starts := by
    intro d
    rw [floppyMotor_on, floppyMotor_on, startMotor_startMotor]
  quiet := floppyMotor_on_frame allowsMotor_started

theorem Operates.bind {β : Type} {x : FloppyM σ α} {f : α → FloppyM σ β} (hx : Operates hw x)
    (hf : ∀ a, Quiet (f a)) : Operates hw (x >>= f) where
  starts := fun d => run_bind_congr (hx.starts d)
  quiet := hx.quiet.bind hf

theorem operates_floppyCalibrate : Operates hw (floppyCalibrate hw floppyBase) :=
  operates_floppyMotor.bind fun _ => calibrateLoop_frame allowsCommands_noDor allowsMotor_started 10

theorem operates_floppySeek (cyli head : Nat) : Operates hw (floppySeek hw floppyBase cyli head) :=
  operates_floppyMotor.bind fun _ =>
    seekLoop_frame allowsCommands_noDor allowsMotor_started cyli head 10

theorem operates_floppyDoTrack (cyl : Nat) (dir : FloppyDir) (dmaBuffer : Nat) :
    Operates hw (floppyDoTrack hw floppyBase cyl dir dmaBuffer) :=
  (operates_floppySeek cyl 0).bind fun _ => .ite (.pure _) ((operates_floppySeek cyl 1).quiet.bind
    fun _ => .ite (.pure _) (doTrackLoop_frame allowsCommands_noDor allowsMotor_started
      (floppyDmaInit_quiet _ _) _ _ 20))

/-- The motor state and the register agree. -/
def Matches (d : Driver σ) : Prop := Started d.motorState ↔ MotorRuns d.writes

theorem startMotor_matches {d : Driver σ} (h : Matches d) : Matches (startMotor hw d) := by
  unfold startMotor
  by_cases hoff : d.motorState = .off
  · rw [if_pos hoff]
    refine ⟨fun _ => ?_, fun _ => MotorState.noConfusion⟩
    rw [MotorRuns, dorValue_concat, if_pos rfl]
    decide
  · rw [if_neg hoff]
    exact ⟨fun _ => h.mp hoff, fun _ => MotorState.noConfusion⟩

theorem startMotor_commandsRun (d : Driver σ) :
    CommandsRun d.writes (startMotor hw d).writes := by
  unfold startMotor
  split
  · exact Continues.concat fun hport => absurd hport (by decide)
  · exact Continues.refl d.writes

variable {x : FloppyM σ α} {d d' : Driver σ}

/-- An operation that begins with matching state and register writes all its commands with the
    motor on. -/
theorem Operates.commandsRun (h : Operates hw x) (hm : Matches d) :
    CommandsRun d.writes (after x d).writes := by
  rw [after_congr (h.starts d)]
  have hmatches : Matches (startMotor hw d) := startMotor_matches hm
  have hruns := hmatches.mp (startMotor_started d)
  have hquiet : NoDor (startMotor hw d).writes (after x (startMotor hw d)).writes :=
    h.quiet.after (startMotor_started d)
  exact (startMotor_commandsRun d).trans (hquiet.commandsRun hruns)

theorem Operates.matches {a : α} (h : Operates hw x) (hm : Matches d) (hx : x.run d = .ok a d') :
    Matches d' := by
  rw [h.starts d] at hx
  obtain ⟨hdor, hstarted⟩ := h.quiet.ok (startMotor_started d) hx
  have hmatches : Matches (startMotor hw d) := startMotor_matches hm
  have hruns := hmatches.mp (startMotor_started d)
  refine ⟨fun _ => ?_, fun _ => hstarted⟩
  rw [MotorRuns, NoDor.dorValue_eq hdor]
  exact hruns

/-! ## Reset -/

/-- The first part of `floppy_reset` does not change the motor state, and the register turns
    the motor off. -/
theorem resetController_spec (hx : (resetController hw floppyBase).run d = .ok () d') :
    d'.motorState = d.motorState ∧ ¬ MotorRuns d'.writes := by
  obtain ⟨_, d₁, h₁, hx⟩ := run_bind_eq_ok hx
  obtain ⟨_, d₂, h₂, hx⟩ := run_bind_eq_ok hx
  cases h₁
  cases h₂
  have hquiet : Frame (fun m => m = d.motorState) NoDor (do
      irqWait hw
      let _ ← floppyCheckInterrupt hw floppyBase
      outportb hw (floppyBase + floppyCcr) 0x00
      floppyWriteCmd hw floppyBase cmdSpecify
      floppyWriteCmd hw floppyBase 0xdf
      floppyWriteCmd hw floppyBase 0x02) :=
    irqWait_frame.bind fun _ => (floppyCheckInterrupt_frame allowsCommands_noDor).bind fun _ =>
      (outportb_quiet (by decide)).bind fun _ =>
      (floppyWriteCmd_frame allowsCommands_noDor _).bind fun _ =>
      (floppyWriteCmd_frame allowsCommands_noDor _).bind fun _ =>
      floppyWriteCmd_frame allowsCommands_noDor _
  obtain ⟨hdor, hstate⟩ := hquiet.ok (by rfl) hx
  refine ⟨hstate, ?_⟩
  rw [MotorRuns, NoDor.dorValue_eq hdor, dorValue_concat, if_pos rfl]
  decide

/-- `floppy_reset` in its two parts. -/
theorem floppyReset_ok {a : Int} (hx : (floppyReset hw floppyBase).run d = .ok a d') :
    ∃ d₁ error, (resetController hw floppyBase).run d = .ok () d₁ ∧
      (floppyCalibrate hw floppyBase).run d₁ = .ok error d' := by
  obtain ⟨_, d₁, h₁, hx⟩ := run_bind_eq_ok hx
  obtain ⟨error, d₂, h₂, hx⟩ := run_bind_eq_ok hx
  refine ⟨d₁, error, h₁, ?_⟩
  split at hx <;>
  · cases hx
    exact h₂

end Quiet

/-! ## Runs of operations -/

/-- The operations of the driver. -/
inductive Operation where
  | reset
  | calibrate
  | seek (cyli head : Nat)
  | doTrack (cyl : Nat) (dir : FloppyDir) (dmaBuffer : Nat)
  | motor (onoff : Bool)
  | motorKill
  deriving DecidableEq, Repr

section Run

variable {σ : Type} (hw : Hardware σ)

def Operation.program : Operation → FloppyM σ Unit
  | .reset => do let _ ← floppyReset hw floppyBase
  | .calibrate => do let _ ← floppyCalibrate hw floppyBase
  | .seek cyli head => do let _ ← floppySeek hw floppyBase cyli head
  | .doTrack cyl dir dmaBuffer => do let _ ← floppyDoTrack hw floppyBase cyl dir dmaBuffer
  | .motor onoff => floppyMotor hw floppyBase onoff
  | .motorKill => floppyMotorKill hw floppyBase

/-- The driver from the start of the kernel on, with one operation after the other. A run ends
    when an operation does not return. -/
def machine : Machine (Driver σ) Operation Unit Stop where
  init := fun d => d.motorState = .off ∧ d.motorTicks = 0 ∧ d.writes = []
  legal := fun _ _ => True
  step := fun d op =>
    match (op.program hw).run d with
    | .ok _ d' => .ok ((), d')
    | .error stop _ => .error stop

/-- Every command byte that the operation writes when it calibrates, seeks or transfers is
    written with the motor on, whether the operation returns or not. The other commands of
    `floppy_reset` do not count. -/
def Operation.CommandsWithMotor (op : Operation) (d : Driver σ) : Prop :=
  match op with
  | .reset => ∀ d₁, (resetController hw floppyBase).run d = .ok () d₁ →
      CommandsRun d₁.writes (after (floppyCalibrate hw floppyBase) d₁).writes
  | .calibrate => CommandsRun d.writes (after (floppyCalibrate hw floppyBase) d).writes
  | .seek cyli head => CommandsRun d.writes (after (floppySeek hw floppyBase cyli head) d).writes
  | .doTrack cyl dir dmaBuffer =>
      CommandsRun d.writes (after (floppyDoTrack hw floppyBase cyl dir dmaBuffer) d).writes
  | .motor _ => True
  | .motorKill => True

/-- The state of the motor in which the operation may begin: `floppy_reset` only when it is off,
    and turning it off only when it is not. -/
def Operation.Safe (op : Operation) (d : Driver σ) : Prop :=
  match op with
  | .reset => d.motorState = .off
  | .motor false => d.motorState ≠ .off
  | _ => True

/-- The operations of a run begin in the right state of the motor. -/
def StepsSafe (d : Driver σ) (t : List (Operation × Unit)) : Prop :=
  ∀ t₁ t₂ d₁ op o, t = t₁ ++ (op, o) :: t₂ → (machine hw).Run d t₁ d₁ → op.Safe d₁

variable {hw} {d d' : Driver σ} {op : Operation} {t : List (Operation × Unit)}

theorem matches_init (h : (machine hw).init d) : Matches d := by
  obtain ⟨hoff, -, hnone⟩ := h
  rw [Matches, Started, hoff, hnone]
  decide

theorem step_of_run (h : (op.program hw).run d = .ok () d') :
    (machine hw).step d op = .ok ((), d') := by
  simp only [machine, h]

theorem run_of_step {o : Unit} (h : (machine hw).step d op = .ok (o, d')) :
    (op.program hw).run d = .ok () d' := by
  simp only [machine] at h
  cases hrun : (op.program hw).run d with
  | ok u d₁ =>
    rw [hrun] at h
    cases h
    rfl
  | error stop d₁ =>
    rw [hrun] at h
    cases h

/-- `floppy_reset` leaves the motor state on hold. -/
theorem floppyReset_matches {a : Int} (hx : (floppyReset hw floppyBase).run d = .ok a d') :
    Matches d' ↔ d.motorState = .off := by
  obtain ⟨d₁, error, hreset, hcal⟩ := floppyReset_ok hx
  obtain ⟨hstate, hruns⟩ := resetController_spec hreset
  constructor
  · intro hm
    by_contra hstarted
    -- the register is not written again
    obtain ⟨hdor, hstarted'⟩ := operates_floppyCalibrate.quiet.ok (by rw [hstate]; exact hstarted)
      hcal
    apply hruns
    rw [MotorRuns, ← NoDor.dorValue_eq hdor]
    exact hm.mp hstarted'
  · intro hoff
    apply operates_floppyCalibrate.matches _ hcal
    exact ⟨fun hstarted => absurd (hstate.trans hoff) hstarted, fun h => absurd h hruns⟩

/-- An operation that begins in the right state of the motor keeps state and register together,
    and no other one does. -/
theorem step_matches (hm : Matches d) (hx : (op.program hw).run d = .ok () d') :
    Matches d' ↔ op.Safe d := by
  cases op with
  | reset =>
    obtain ⟨_, _, h₁, h₂⟩ := run_bind_eq_ok hx
    cases h₂
    exact floppyReset_matches h₁
  | calibrate =>
    obtain ⟨_, _, h₁, h₂⟩ := run_bind_eq_ok hx
    cases h₂
    exact iff_of_true (operates_floppyCalibrate.matches hm h₁) trivial
  | seek cyli head =>
    obtain ⟨_, _, h₁, h₂⟩ := run_bind_eq_ok hx
    cases h₂
    exact iff_of_true ((operates_floppySeek cyli head).matches hm h₁) trivial
  | doTrack cyl dir dmaBuffer =>
    obtain ⟨_, _, h₁, h₂⟩ := run_bind_eq_ok hx
    cases h₂
    exact iff_of_true ((operates_floppyDoTrack cyl dir dmaBuffer).matches hm h₁) trivial
  -- a command to turn the motor off only waits, and is right only if the motor was on
  | motor onoff =>
    cases onoff with
    | true => exact iff_of_true (operates_floppyMotor.matches hm hx) trivial
    | false =>
      cases hx
      constructor
      · intro hm'
        exact hm.mpr (hm'.mp MotorState.noConfusion)
      · intro hstarted
        exact ⟨fun _ => hm.mp hstarted, fun _ => MotorState.noConfusion⟩
  -- the register is written, and the state set, whatever they were
  | motorKill =>
    cases hx
    refine iff_of_true ⟨fun h => absurd rfl h, fun h => ?_⟩ trivial
    rw [MotorRuns, dorValue_concat, if_pos rfl] at h
    exact absurd h (by decide)

/-- State and register agree all through a run exactly when each operation begins in the right
    state of the motor. -/
theorem matches_iff (hinit : (machine hw).init d) (h : (machine hw).Run d t d') :
    (∀ t₁ t₂ d₁, t = t₁ ++ t₂ → (machine hw).Run d t₁ d₁ → Matches d₁) ↔ StepsSafe hw d t := by
  apply Machine.Run.forall_prefix_iff (matches_init hinit) (fun _ hm => hm)
  · intro d₁ op o d₂ hm _ hsafe hs
    exact (step_matches hm (run_of_step hs)).mpr hsafe
  · intro d₁ op o d₂ hm _ hsafe hs hm'
    exact hsafe ((step_matches hm (run_of_step hs)).mp hm')
  · exact h

/-- An operation that begins in the right state of the motor, with matching state and register,
    writes its commands with the motor on. -/
theorem Operation.commandsWithMotor (hm : Matches d) (hsafe : op.Safe d) :
    op.CommandsWithMotor hw d := by
  cases op with
  | reset =>
    intro d₁ hreset
    obtain ⟨hstate, hruns⟩ := resetController_spec hreset
    apply operates_floppyCalibrate.commandsRun
    exact ⟨fun hstarted => absurd (hstate.trans hsafe) hstarted, fun h => absurd h hruns⟩
  | calibrate => exact operates_floppyCalibrate.commandsRun hm
  | seek cyli head => exact (operates_floppySeek cyli head).commandsRun hm
  | doTrack cyl dir dmaBuffer => exact (operates_floppyDoTrack cyl dir dmaBuffer).commandsRun hm
  | motor onoff => exact trivial
  | motorKill => exact trivial

/-- In a run whose operations begin in the right state of the motor, the next one too, all
    commands are written with the motor on. -/
theorem commands_with_motor (hinit : (machine hw).init d) (h : (machine hw).Run d t d')
    (hsteps : StepsSafe hw d t) (hsafe : op.Safe d') : op.CommandsWithMotor hw d' :=
  op.commandsWithMotor ((matches_iff hinit h).mpr hsteps t [] d' (List.append_nil t).symm h) hsafe

end Run

/-! ## A second reset -/

/-- The driver after the first `floppy_reset`. -/
def resetDriver : Driver Unit :=
  ⟨(), .wait, 300, resetWrites ++ [⟨0x3f2, 0x1c⟩] ++ calibrateWrites⟩

theorem floppyReset_ready : (floppyReset readyHardware floppyBase).run startDriver =
    .ok 0 resetDriver := by
  rw [floppyReset, run_bind_ok (resetController_ready _), run_bind_ok (floppyCalibrate_ready _),
    if_neg (by decide)]
  rfl

theorem resetDriver_run : (machine readyHardware).Run startDriver [(.reset, ())] resetDriver := by
  have hreset : (Operation.program readyHardware .reset).run startDriver = .ok () resetDriver := by
    rw [Operation.program, run_bind_ok floppyReset_ready]
    rfl
  exact .snoc (t := []) .nil trivial (step_of_run hreset)

theorem commands_with_motor_ready :
    Operation.CommandsWithMotor readyHardware (.seek 1 0) resetDriver := by
  refine commands_with_motor (d := startDriver) ⟨rfl, rfl, rfl⟩ resetDriver_run ?_ trivial
  intro t₁ t₂ d₁ op o ht hrun
  cases t₁ with
  | nil =>
    cases ht
    cases hrun.unique .nil
    rfl
  | cons x t₁ => simp at ht

/-- A second `floppy_reset` stops the motor, but the state says that the motor is still
    running, so `floppy_calibrate` does not turn it on. -/
theorem reset_while_waiting : ¬ ∀ (d d' : Driver Unit) (t : List (Operation × Unit))
    (op : Operation), (machine readyHardware).init d → (machine readyHardware).Run d t d' →
      op.CommandsWithMotor readyHardware d' := by
  intro h
  have hreset := h startDriver resetDriver _ .reset ⟨rfl, rfl, rfl⟩ resetDriver_run
  obtain ⟨-, hall⟩ := hreset _ (resetController_ready resetDriver)
  rw [after_ok (floppyCalibrate_ready _)] at hall
  have hmotor := hall (resetDriver.writes ++ resetWrites) ⟨0x3f5, 7⟩
    (by decide) (by decide) (by decide)
  exact absurd hmotor (by decide)

end TimbOS.Native.FloppyIo
