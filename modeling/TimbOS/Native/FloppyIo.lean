import Mathlib

/-!
# The floppy controller

The functions of `floppy.cpp` that talk to the controller. The hardware is a parameter: it
answers reads from ports as it likes, and an interrupt may never come. The driver's state has
the variables of the motor, and records every write to a port.

A program of this module either returns or stops, because of a `panic` or in `irq_wait`. The
messages to the console and `timer_sleep`, which only counts, are left out.
-/

namespace TimbOS.Native.FloppyIo

/-! ## Ports -/

/-- `floppy_base`, the only address that a controller is created with. -/
def floppyBase : Nat := 0x03f0

/-- `FLOPPY_DOR`: digital output register -/
def floppyDor : Nat := 2

/-- `FLOPPY_MSR`: master status register -/
def floppyMsr : Nat := 4

/-- `FLOPPY_FIFO`: data and commands -/
def floppyFifo : Nat := 5

/-- `FLOPPY_CCR`: configuration control register -/
def floppyCcr : Nat := 7

/-- A controller, the DMA unit and the interrupt line, with states `σ`. -/
structure Hardware (σ : Type) where
  inportb : σ → Nat → UInt8 × σ
  outportb : σ → Nat → UInt8 → σ
  /-- The loop of `irq_wait`, which does not end if no interrupt comes. -/
  irqWait : σ → Option σ

inductive MotorState where
  /-- `floppy_motor_off` -/
  | off
  /-- `floppy_motor_on` -/
  | on
  /-- `floppy_motor_wait` -/
  | wait
  deriving DecidableEq, Repr

structure PortWrite where
  port : Nat
  value : UInt8
  deriving DecidableEq, Repr

/-- What the functions change. -/
structure Driver (σ : Type) where
  hardware : σ
  /-- `floppy_motor_state` -/
  motorState : MotorState
  /-- `floppy_motor_ticks` -/
  motorTicks : Int
  /-- All writes to ports so far, the last one at the end. -/
  writes : List PortWrite

/-- The calls of `panic`. Those for an invalid direction cannot be reached. -/
inductive Panic where
  /-- `"floppy_write_cmd: timeout"` -/
  | writeCmdTimeout
  /-- `"floppy_read_data: timeout"` -/
  | readDataTimeout
  /-- `"floppy_dma_init: static buffer problem\n"` -/
  | staticBufferProblem
  deriving DecidableEq, Repr

/-- What can stop a function. -/
inductive Stop where
  | panic (p : Panic)
  | noInterrupt
  deriving DecidableEq, Repr

abbrev FloppyM (σ α : Type) := EStateM Stop (Driver σ) α

section Programs

variable {σ : Type} (hw : Hardware σ)

/-- `inportb( port )` -/
def inportb (port : Nat) : FloppyM σ UInt8 := fun d =>
  let (value, s) := hw.inportb d.hardware port
  .ok value { d with hardware := s }

/-- `outportb( port, value )` -/
def outportb (port : Nat) (value : UInt8) : FloppyM σ Unit := fun d =>
  .ok () { d with
    hardware := hw.outportb d.hardware port value
    writes := d.writes ++ [⟨port, value⟩] }

/-- `irq_wait()` -/
def irqWait : FloppyM σ Unit := fun d =>
  match hw.irqWait d.hardware with
  | some s => .ok () { d with hardware := s }
  | none => .error .noInterrupt d

variable (base : Nat)

/-! ## Commands and results -/

/-- The loop of `floppy_write_cmd`. -/
def writeCmdLoop (cmd : UInt8) : Nat → FloppyM σ Unit
  | 0 => throw (.panic .writeCmdTimeout)
  | n + 1 => do
    let msr ← inportb hw (base + floppyMsr)
    if 0x80 &&& msr ≠ 0 then
      outportb hw (base + floppyFifo) cmd
    else
      writeCmdLoop cmd n

/-- `floppy_write_cmd( base, cmd )` -/
def floppyWriteCmd (cmd : UInt8) : FloppyM σ Unit := writeCmdLoop hw base cmd 600

/-- The loop of `floppy_read_data`. -/
def readDataLoop : Nat → FloppyM σ UInt8
  | 0 => throw (.panic .readDataTimeout)
  | n + 1 => do
    let msr ← inportb hw (base + floppyMsr)
    if 0x80 &&& msr ≠ 0 then
      inportb hw (base + floppyFifo)
    else
      readDataLoop n

/-- `floppy_read_data( base )` -/
def floppyReadData : FloppyM σ UInt8 := readDataLoop hw base 600

/-- `CMD_SPECIFY` -/
def cmdSpecify : UInt8 := 3

/-- `CMD_WRITE_DATA` -/
def cmdWriteData : UInt8 := 5

/-- `CMD_READ_DATA` -/
def cmdReadData : UInt8 := 6

/-- `CMD_RECALIBRATE` -/
def cmdRecalibrate : UInt8 := 7

/-- `CMD_SENSE_INTERRUPT` -/
def cmdSenseInterrupt : UInt8 := 8

/-- `CMD_SEEK` -/
def cmdSeek : UInt8 := 15

/-- `floppy_check_interrupt( base, st0, cyl )`: `st0` and `cyl`. -/
def floppyCheckInterrupt : FloppyM σ (UInt8 × UInt8) := do
  floppyWriteCmd hw base cmdSenseInterrupt
  let st0 ← floppyReadData hw base
  let cyl ← floppyReadData hw base
  return (st0, cyl)

/-! ## The motor -/

/-- `floppy_motor( base, onoff )` -/
def floppyMotor (onoff : Bool) : FloppyM σ Unit := do
  let d ← get
  if onoff then
    if d.motorState = .off then
      -- need to turn on
      outportb hw (base + floppyDor) 0x1c
    modify fun d => { d with motorState := .on }
  else
    modify fun d => { d with motorTicks := 300, motorState := .wait }

/-- `floppy_motor_kill( base )` -/
def floppyMotorKill : FloppyM σ Unit := do
  outportb hw (base + floppyDor) 0x0c
  modify fun d => { d with motorState := .off }

/-! ## Moving the head -/

/-- The loop of `floppy_calibrate`, with `n` tries left. -/
def calibrateLoop : Nat → FloppyM σ Int
  | 0 => do
    floppyMotor hw base false
    return -1
  | n + 1 => do
    floppyWriteCmd hw base cmdRecalibrate
    floppyWriteCmd hw base 0
    irqWait hw
    let (st0, cyl) ← floppyCheckInterrupt hw base
    if st0 &&& 0xC0 ≠ 0 then
      calibrateLoop n
    else if cyl = 0 then
      floppyMotor hw base false
      return 0
    else
      calibrateLoop n

/-- `floppy_calibrate( base )` -/
def floppyCalibrate : FloppyM σ Int := do
  floppyMotor hw base true
  calibrateLoop hw base 10

/-- The part of `floppy_reset` before it calibrates the drive. -/
def resetController : FloppyM σ Unit := do
  outportb hw (base + floppyDor) 0x00
  outportb hw (base + floppyDor) 0x0C
  irqWait hw
  let _ ← floppyCheckInterrupt hw base
  outportb hw (base + floppyCcr) 0x00
  floppyWriteCmd hw base cmdSpecify
  floppyWriteCmd hw base 0xdf
  floppyWriteCmd hw base 0x02

/-- `floppy_reset( base )` -/
def floppyReset : FloppyM σ Int := do
  resetController hw base
  let error ← floppyCalibrate hw base
  if error ≠ 0 then
    return -1
  else
    return 0

/-- The loop of `floppy_seek`, with `n` tries left. -/
def seekLoop (cyli head : Nat) : Nat → FloppyM σ Int
  | 0 => do
    floppyMotor hw base false
    return -1
  | n + 1 => do
    floppyWriteCmd hw base cmdSeek
    floppyWriteCmd hw base (.ofNat (head <<< 2))
    floppyWriteCmd hw base (.ofNat cyli)
    irqWait hw
    let (st0, cyl) ← floppyCheckInterrupt hw base
    if st0 &&& 0xC0 ≠ 0 then
      seekLoop cyli head n
    else if cyl.toNat = cyli then
      floppyMotor hw base false
      return 0
    else
      seekLoop cyli head n

/-- `floppy_seek( base, cyli, head )` -/
def floppySeek (cyli head : Nat) : FloppyM σ Int := do
  floppyMotor hw base true
  seekLoop hw base cyli head 10

/-! ## Transfers -/

/-- `floppy_dir` -/
inductive FloppyDir where
  | read
  | write
  deriving DecidableEq, Repr

/-- `FLOPPY_DMALEN` -/
def floppyDmalen : Nat := 0x4800

/-- The `i`-th byte of a `long` in memory. -/
def byteOf (l i : Nat) : UInt8 := .ofNat (l >>> (8 * i))

/-- `floppy_dma_init( dir, floppy_dmabuf_physical )` -/
def floppyDmaInit (dir : FloppyDir) (floppyDmabufPhysical : Nat) : FloppyM σ Unit :=
  let a := floppyDmabufPhysical
  let c := floppyDmalen - 1
  if a >>> 24 ≠ 0 ∨ c >>> 16 ≠ 0 ∨ ((a &&& 0xffff) + c) >>> 16 ≠ 0 then
    throw (.panic .staticBufferProblem)
  else do
    let mode := match dir with
      | .read => 0x46
      | .write => 0x4a
    outportb hw 0x0a 0x06
    outportb hw 0x0c 0xff
    outportb hw 0x04 (byteOf a 0)
    outportb hw 0x04 (byteOf a 1)
    outportb hw 0x81 (byteOf a 2)
    outportb hw 0x0c 0xff
    outportb hw 0x05 (byteOf c 0)
    outportb hw 0x05 (byteOf c 1)
    outportb hw 0x0b mode
    outportb hw 0x0a 0x02

/-- The command bytes of a transfer. -/
def writeTransferCmd (cmd : UInt8) (cyl : Nat) : FloppyM σ Unit := do
  floppyWriteCmd hw base cmd
  floppyWriteCmd hw base 0
  floppyWriteCmd hw base (.ofNat cyl)
  floppyWriteCmd hw base 0
  floppyWriteCmd hw base 1
  floppyWriteCmd hw base 2
  floppyWriteCmd hw base 18
  floppyWriteCmd hw base 0x1b
  floppyWriteCmd hw base 0xff

/-- The result bytes of a transfer: `st0`, `st1`, `st2` and `bps`. -/
def readTransferResult : FloppyM σ (UInt8 × UInt8 × UInt8 × UInt8) := do
  let st0 ← floppyReadData hw base
  let st1 ← floppyReadData hw base
  let st2 ← floppyReadData hw base
  -- cylinder, head and sector are not looked at
  let _ ← floppyReadData hw base
  let _ ← floppyReadData hw base
  let _ ← floppyReadData hw base
  let bps ← floppyReadData hw base
  return (st0, st1, st2, bps)

/-- `error`, from the result bytes. -/
def transferError (st0 st1 st2 bps : UInt8) : Nat :=
  -- write protection comes last
  if st1 &&& 0x02 ≠ 0 then 2
  else if st0 &&& 0xC0 ≠ 0 ∨ st1 &&& 0x80 ≠ 0 ∨ st0 &&& 0x08 ≠ 0 ∨ st1 &&& 0x20 ≠ 0 ∨
      st1 &&& 0x10 ≠ 0 ∨ st1 &&& 0x04 ≠ 0 ∨ (st1 ||| st2) &&& 0x01 ≠ 0 ∨ st2 &&& 0x40 ≠ 0 ∨
      st2 &&& 0x20 ≠ 0 ∨ st2 &&& 0x10 ≠ 0 ∨ st2 &&& 0x04 ≠ 0 ∨ st2 &&& 0x02 ≠ 0 ∨ bps ≠ 0x2 then 1
  else 0

/-- A try of `floppy_do_track` from the command on. `retry` is the next try. -/
def transfer (cmd : UInt8) (cyl : Nat) (retry : FloppyM σ Int) : FloppyM σ Int := do
  writeTransferCmd hw base cmd cyl
  irqWait hw
  let (st0, st1, st2, bps) ← readTransferResult hw base
  let error := transferError st0 st1 st2 bps
  if error = 0 then
    floppyMotor hw base false
    return 0
  else if error > 1 then
    floppyMotor hw base false
    return -2
  else
    retry

/-- The loop of `floppy_do_track`, with `n` tries left. -/
def doTrackLoop (cmd : UInt8) (cyl : Nat) (dir : FloppyDir) (dmaBuffer : Nat) :
    Nat → FloppyM σ Int
  | 0 => do
    floppyMotor hw base false
    return -1
  | n + 1 => do
    floppyMotor hw base true
    floppyDmaInit hw dir dmaBuffer
    transfer hw base cmd cyl (doTrackLoop cmd cyl dir dmaBuffer n)

/-- The command of a transfer, with the flags for multitrack and MFM mode. -/
def transferCmd : FloppyDir → UInt8
  | .read => cmdReadData ||| 0xC0
  | .write => cmdWriteData ||| 0xC0

/-- `floppy_do_track( base, cyl, dir, dma_buffer )` -/
def floppyDoTrack (cyl : Nat) (dir : FloppyDir) (dmaBuffer : Nat) : FloppyM σ Int := do
  -- seek both heads
  let error ← floppySeek hw base cyl 0
  if error ≠ 0 then
    return -1
  else
    let error ← floppySeek hw base cyl 1
    if error ≠ 0 then
      return -1
    else
      doTrackLoop hw base (transferCmd dir) cyl dir dmaBuffer 20

/-- `FloppyController::read_cyl( cyl_index, dma_buffer )` -/
def readCyl (cylIndex dmaBuffer : Nat) : FloppyM σ Int :=
  floppyDoTrack hw base cylIndex .read dmaBuffer

end Programs

end TimbOS.Native.FloppyIo
