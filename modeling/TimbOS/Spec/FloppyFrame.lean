import TimbOS.ForStd.Program
import TimbOS.Native.FloppyIo

/-!
# What the floppy driver's functions keep

Most properties of the driver are about the state of the motor and what is written to the
ports. `Frame P W` says that a program keeps the property `P` of the motor state, and that what
was written before and after it is related by `W`. This holds of every function as soon as `P`
and `W` allow the few things that the functions do.

## Key results

- `floppySeek_frame`, `floppyDoTrack_frame`: the operations
- `floppyCalibrate_ready`: an operation on a controller that is always ready
-/

namespace TimbOS.Native.FloppyIo

open ForStd

section Frame

variable {σ : Type} {hw : Hardware σ} {α : Type} {P : MotorState → Prop}
  {W : List PortWrite → List PortWrite → Prop}

/-- The writes of two states are related. -/
def Writes (W : List PortWrite → List PortWrite → Prop) (d d' : Driver σ) : Prop :=
  W d.writes d'.writes

instance [IsPreorder (List PortWrite) W] : IsPreorder (Driver σ) (Writes W) where
  refl := fun d => refl_of W d.writes
  trans := fun _ _ _ h h' => trans_of W h h'

/-- From a motor state with `P` on, the program writes along `W`, and returns in a motor state
    with `P`. -/
def Frame (P : MotorState → Prop) (W : List PortWrite → List PortWrite → Prop)
    (x : FloppyM σ α) : Prop :=
  Runs (fun d => P d.motorState) (Writes W) (fun _ d => P d.motorState) x

/-- Bytes for the controller may be written. -/
def AllowsCommands (W : List PortWrite → List PortWrite → Prop) : Prop :=
  ∀ l value, W l (l ++ [⟨floppyBase + floppyFifo, value⟩])

/-- `floppy_motor` may be called. -/
structure AllowsMotor (P : MotorState → Prop) (W : List PortWrite → List PortWrite → Prop) :
    Prop where
  on : P .on
  wait : P .wait
  start : P .off → ∀ l, W l (l ++ [⟨floppyBase + floppyDor, 0x1c⟩])

/-! ## Rules -/

theorem Frame.ite {c : Prop} [Decidable c] {x y : FloppyM σ α} (hx : Frame P W x)
    (hy : Frame P W y) : Frame P W (if c then x else y) :=
  Runs.ite (fun _ => hx) fun _ => hy

theorem outportb_frame {port : Nat} {value : UInt8} (h : ∀ l, W l (l ++ [⟨port, value⟩])) :
    Frame P W (outportb hw port value) := by
  apply Runs.of_run
  intro d hd
  exact .inl ⟨_, _, rfl, h d.writes, hd⟩

variable [IsPreorder (List PortWrite) W]

theorem Frame.bind {β : Type} {x : FloppyM σ α} {f : α → FloppyM σ β} (hx : Frame P W x)
    (hf : ∀ a, Frame P W (f a)) : Frame P W (x >>= f) :=
  Runs.bind hx hf

theorem Frame.pure (a : α) : Frame P W (pure a : FloppyM σ α) := Runs.pure fun _ h => h

theorem inportb_frame (port : Nat) : Frame P W (inportb hw port) := by
  apply Runs.of_run
  intro d hd
  exact .inl ⟨_, _, rfl, refl_of W d.writes, hd⟩

theorem irqWait_frame : Frame P W (irqWait hw) := by
  apply Runs.of_run
  intro d hd
  cases hwait : hw.irqWait d.hardware with
  | none =>
    have hrun : (irqWait hw).run d = .error .noInterrupt d := by
      simp only [irqWait, EStateM.run, hwait]
    exact .inr ⟨_, _, hrun, refl_of W d.writes⟩
  | some s =>
    have hrun : (irqWait hw).run d = .ok () { d with hardware := s } := by
      simp only [irqWait, EStateM.run, hwait]
    exact .inl ⟨_, _, hrun, refl_of W d.writes, hd⟩

theorem floppyReadData_frame : Frame P W (floppyReadData hw floppyBase) := by
  have hloop : ∀ n, Frame P W (readDataLoop hw floppyBase n) := by
    intro n
    induction n with
    | zero => exact Runs.throw _
    | succ n ih => exact (inportb_frame _).bind fun msr => .ite (inportb_frame _) ih
  exact hloop 600

theorem readTransferResult_frame : Frame P W (readTransferResult hw floppyBase) :=
  floppyReadData_frame.bind fun _ => floppyReadData_frame.bind fun _ =>
    floppyReadData_frame.bind fun _ => floppyReadData_frame.bind fun _ =>
    floppyReadData_frame.bind fun _ => floppyReadData_frame.bind fun _ =>
    floppyReadData_frame.bind fun _ => .pure _

/-! ## Functions that write commands -/

section Commands

variable (hc : AllowsCommands W)
include hc

theorem floppyWriteCmd_frame (cmd : UInt8) : Frame P W (floppyWriteCmd hw floppyBase cmd) := by
  have hloop : ∀ n, Frame P W (writeCmdLoop hw floppyBase cmd n) := by
    intro n
    induction n with
    | zero => exact Runs.throw _
    | succ n ih =>
      exact (inportb_frame _).bind fun msr => .ite (outportb_frame fun l => hc l cmd) ih
  exact hloop 600

theorem floppyCheckInterrupt_frame : Frame P W (floppyCheckInterrupt hw floppyBase) :=
  (floppyWriteCmd_frame hc _).bind fun _ => floppyReadData_frame.bind fun _ =>
    floppyReadData_frame.bind fun _ => .pure _

theorem writeTransferCmd_frame (cmd : UInt8) (cyl : Nat) :
    Frame P W (writeTransferCmd hw floppyBase cmd cyl) :=
  (floppyWriteCmd_frame hc _).bind fun _ => (floppyWriteCmd_frame hc _).bind fun _ =>
    (floppyWriteCmd_frame hc _).bind fun _ => (floppyWriteCmd_frame hc _).bind fun _ =>
    (floppyWriteCmd_frame hc _).bind fun _ => (floppyWriteCmd_frame hc _).bind fun _ =>
    (floppyWriteCmd_frame hc _).bind fun _ => (floppyWriteCmd_frame hc _).bind fun _ =>
    floppyWriteCmd_frame hc _

end Commands

/-! ## The motor -/

/-- What `floppy_motor` does when it is told to turn the motor on. -/
def startMotor (hw : Hardware σ) (d : Driver σ) : Driver σ :=
  if d.motorState = .off then
    { d with
      hardware := hw.outportb d.hardware (floppyBase + floppyDor) 0x1c
      motorState := .on
      writes := d.writes ++ [⟨floppyBase + floppyDor, 0x1c⟩] }
  else
    { d with motorState := .on }

theorem floppyMotor_on (d : Driver σ) :
    (floppyMotor hw floppyBase true).run d = .ok () (startMotor hw d) := by
  obtain ⟨hardware, motorState, motorTicks, writes⟩ := d
  cases motorState <;> rfl

theorem floppyMotor_off (d : Driver σ) :
    (floppyMotor hw floppyBase false).run d =
      .ok () { d with motorTicks := 300, motorState := .wait } := rfl

omit [IsPreorder (List PortWrite) W] in
theorem floppyMotor_on_frame [Std.Refl W] (hm : AllowsMotor P W) :
    Frame P W (floppyMotor hw floppyBase true) := by
  apply Runs.of_run
  intro d hd
  rw [floppyMotor_on, startMotor]
  by_cases hoff : d.motorState = .off
  · rw [if_pos hoff]
    rw [hoff] at hd
    exact .inl ⟨_, _, rfl, hm.start hd d.writes, hm.on⟩
  · rw [if_neg hoff]
    exact .inl ⟨_, _, rfl, refl_of W d.writes, hm.on⟩

/-- The end of an operation: the motor may stop, and a result is returned. -/
theorem release_frame (hm : AllowsMotor P W) (a : Int) :
    Frame P W (do floppyMotor hw floppyBase false; return a : FloppyM σ Int) := by
  have hoff : Frame P W (floppyMotor hw floppyBase false) := by
    apply Runs.of_run
    intro d hd
    exact .inl ⟨_, _, floppyMotor_off d, refl_of W d.writes, hm.wait⟩
  exact hoff.bind fun _ => .pure a

/-! ## Operations -/

section Operations

variable (hc : AllowsCommands W) (hm : AllowsMotor P W)
include hc hm

theorem calibrateLoop_frame (n : Nat) : Frame P W (calibrateLoop hw floppyBase n) := by
  induction n with
  | zero => exact release_frame hm (-1)
  | succ n ih =>
    exact (floppyWriteCmd_frame hc _).bind fun _ => (floppyWriteCmd_frame hc _).bind fun _ =>
      irqWait_frame.bind fun _ => (floppyCheckInterrupt_frame hc).bind fun _ =>
      .ite ih (.ite (release_frame hm 0) ih)

theorem seekLoop_frame (cyli head n : Nat) : Frame P W (seekLoop hw floppyBase cyli head n) := by
  induction n with
  | zero => exact release_frame hm (-1)
  | succ n ih =>
    exact (floppyWriteCmd_frame hc _).bind fun _ => (floppyWriteCmd_frame hc _).bind fun _ =>
      (floppyWriteCmd_frame hc _).bind fun _ => irqWait_frame.bind fun _ =>
      (floppyCheckInterrupt_frame hc).bind fun _ => .ite ih (.ite (release_frame hm 0) ih)

theorem floppySeek_frame (cyli head : Nat) : Frame P W (floppySeek hw floppyBase cyli head) :=
  (floppyMotor_on_frame hm).bind fun _ => seekLoop_frame hc hm cyli head 10

theorem transfer_frame (cmd : UInt8) (cyl : Nat) {retry : FloppyM σ Int}
    (hretry : Frame P W retry) : Frame P W (transfer hw floppyBase cmd cyl retry) :=
  (writeTransferCmd_frame hc _ _).bind fun _ => irqWait_frame.bind fun _ =>
    readTransferResult_frame.bind fun _ =>
    .ite (release_frame hm 0) (.ite (release_frame hm (-2)) hretry)

variable {dir : FloppyDir} {dmaBuffer : Nat} (hdma : Frame P W (floppyDmaInit hw dir dmaBuffer))
include hdma

theorem doTrackLoop_frame (cmd : UInt8) (cyl n : Nat) :
    Frame P W (doTrackLoop hw floppyBase cmd cyl dir dmaBuffer n) := by
  induction n with
  | zero => exact release_frame hm (-1)
  | succ n ih =>
    exact (floppyMotor_on_frame hm).bind fun _ => hdma.bind fun _ => transfer_frame hc hm _ _ ih

theorem floppyDoTrack_frame (cyl : Nat) :
    Frame P W (floppyDoTrack hw floppyBase cyl dir dmaBuffer) :=
  (floppySeek_frame hc hm cyl 0).bind fun _ => .ite (.pure _) ((floppySeek_frame hc hm cyl 1).bind
    fun _ => .ite (.pure _) (doTrackLoop_frame hc hm hdma _ _ 20))

end Operations

end Frame

/-! ## A controller that is always ready -/

/-- Every command is taken at once and succeeds. -/
def readyHardware : Hardware Unit where
  inportb := fun _ port => (if port = floppyBase + floppyMsr then 0x80 else 0, ())
  outportb := fun _ _ _ => ()
  irqWait := fun _ => some ()

/-- The driver at the start of the kernel. -/
def startDriver : Driver Unit := ⟨(), .off, 0, []⟩

section Ready

variable (d : Driver Unit)

/-- The driver after some writes. -/
def Driver.addWrites (d : Driver Unit) (writes : List PortWrite) : Driver Unit :=
  { d with writes := d.writes ++ writes }

theorem addWrites_addWrites (writes writes' : List PortWrite) :
    (d.addWrites writes).addWrites writes' = d.addWrites (writes ++ writes') := by
  simp only [Driver.addWrites, List.append_assoc]

theorem outportb_ready (port : Nat) (value : UInt8) :
    (outportb readyHardware port value).run d = .ok () (d.addWrites [⟨port, value⟩]) := rfl

theorem irqWait_ready : (irqWait readyHardware).run d = .ok () d := rfl

theorem msr_ready : (inportb readyHardware (floppyBase + floppyMsr)).run d = .ok 0x80 d := rfl

theorem floppyWriteCmd_ready (cmd : UInt8) :
    (floppyWriteCmd readyHardware floppyBase cmd).run d = .ok () (d.addWrites [⟨0x3f5, cmd⟩]) := by
  rw [floppyWriteCmd, writeCmdLoop, run_bind_ok (msr_ready d), if_pos (by decide)]
  rfl

theorem floppyReadData_ready : (floppyReadData readyHardware floppyBase).run d = .ok 0 d := by
  rw [floppyReadData, readDataLoop, run_bind_ok (msr_ready d), if_pos (by decide)]
  rfl

theorem floppyCheckInterrupt_ready :
    (floppyCheckInterrupt readyHardware floppyBase).run d =
      .ok (0, 0) (d.addWrites [⟨0x3f5, 8⟩]) := by
  rw [floppyCheckInterrupt, run_bind_ok (floppyWriteCmd_ready d _),
    run_bind_ok (floppyReadData_ready _), run_bind_ok (floppyReadData_ready _)]
  rfl

/-- What one try of `floppy_calibrate` writes. -/
def calibrateWrites : List PortWrite := [⟨0x3f5, 7⟩, ⟨0x3f5, 0⟩, ⟨0x3f5, 8⟩]

/-- The driver when an operation has ended. -/
def Driver.release (d : Driver Unit) : Driver Unit :=
  { d with motorTicks := 300, motorState := .wait }

theorem release_ready (a : Int) :
    (do floppyMotor readyHardware floppyBase false; return a : FloppyM Unit Int).run d =
      .ok a d.release := rfl

theorem calibrateLoop_ready (n : Nat) :
    (calibrateLoop readyHardware floppyBase (n + 1)).run d =
      .ok 0 (d.addWrites calibrateWrites).release := by
  rw [calibrateLoop, run_bind_ok (floppyWriteCmd_ready d _), run_bind_ok (floppyWriteCmd_ready _ _),
    run_bind_ok (irqWait_ready _), run_bind_ok (floppyCheckInterrupt_ready _)]
  simp only [addWrites_addWrites]
  rw [if_neg (by decide), if_pos trivial, release_ready]
  rfl

theorem floppyCalibrate_ready :
    (floppyCalibrate readyHardware floppyBase).run d =
      .ok 0 ((startMotor readyHardware d).addWrites calibrateWrites).release := by
  rw [floppyCalibrate, run_bind_ok (floppyMotor_on d), calibrateLoop_ready]

/-- What one try of `floppy_seek` writes for cylinder 0. -/
def seekWrites (head : Nat) : List PortWrite :=
  [⟨0x3f5, 15⟩, ⟨0x3f5, .ofNat (head <<< 2)⟩, ⟨0x3f5, 0⟩, ⟨0x3f5, 8⟩]

theorem seekLoop_ready (head n : Nat) :
    (seekLoop readyHardware floppyBase 0 head (n + 1)).run d =
      .ok 0 (d.addWrites (seekWrites head)).release := by
  rw [seekLoop, run_bind_ok (floppyWriteCmd_ready d _), run_bind_ok (floppyWriteCmd_ready _ _),
    run_bind_ok (floppyWriteCmd_ready _ _), run_bind_ok (irqWait_ready _),
    run_bind_ok (floppyCheckInterrupt_ready _)]
  simp only [addWrites_addWrites]
  rw [if_neg (by decide), if_pos (by decide), release_ready]
  rfl

theorem floppySeek_ready (head : Nat) :
    (floppySeek readyHardware floppyBase 0 head).run d =
      .ok 0 ((startMotor readyHardware d).addWrites (seekWrites head)).release := by
  rw [floppySeek, run_bind_ok (floppyMotor_on d), seekLoop_ready]

/-- What `floppy_reset` writes before it calibrates the drive. -/
def resetWrites : List PortWrite :=
  [⟨0x3f2, 0x00⟩, ⟨0x3f2, 0x0c⟩, ⟨0x3f5, 8⟩, ⟨0x3f7, 0x00⟩, ⟨0x3f5, 3⟩, ⟨0x3f5, 0xdf⟩,
    ⟨0x3f5, 0x02⟩]

theorem resetController_ready :
    (resetController readyHardware floppyBase).run d = .ok () (d.addWrites resetWrites) := by
  rw [resetController, run_bind_ok (outportb_ready d _ _), run_bind_ok (outportb_ready _ _ _),
    run_bind_ok (irqWait_ready _), run_bind_ok (floppyCheckInterrupt_ready _),
    run_bind_ok (outportb_ready _ _ _), run_bind_ok (floppyWriteCmd_ready _ _),
    run_bind_ok (floppyWriteCmd_ready _ _), floppyWriteCmd_ready]
  simp only [addWrites_addWrites]
  rfl

end Ready

end TimbOS.Native.FloppyIo
