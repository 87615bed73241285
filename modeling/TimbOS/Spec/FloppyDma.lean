import TimbOS.Native.Pages
import TimbOS.Spec.FloppyFrame
import TimbOS.Spec.PhysicalRuns

/-!
# The transfers of the floppy drive

`floppy_dma_init` always programs `FLOPPY_DMALEN` bytes, whatever the drive is. A cylinder of
the 1.44M drive has as many, but the buffer of the 1.2M drive has four pages, which are less.

## Key results

- `dmaTransfers`: what the writes to the ports of the DMA controller program
- `readCyl_transfers`: the transfers of `read_cyl`
- `transfersInside_iff`: the drives whose transfers stay in the buffer
- `transfer_leaves_buffer`: one that does not
-/

namespace TimbOS.Native.FloppyIo

open ForStd Physical Floppy

/-! ## The DMA controller -/

/-- The registers of channel 2 and the transfers that it was ready for so far, by address and
    length. -/
structure DmaChannel where
  /-- The next byte is a high byte. -/
  flipFlop : Bool
  address : Nat
  count : Nat
  page : Nat
  transfers : List (Nat × Nat)
  deriving DecidableEq, Repr

namespace DmaChannel

/-- Replace the low or the high byte of a 16-bit register. -/
def setByte (register : Nat) (high : Bool) (value : UInt8) : Nat :=
  if high then register % 256 + value.toNat * 256 else register / 256 * 256 + value.toNat

def write (c : DmaChannel) (w : PortWrite) : DmaChannel :=
  match w.port with
  | 0x04 => { c with address := setByte c.address c.flipFlop w.value, flipFlop := !c.flipFlop }
  | 0x05 => { c with count := setByte c.count c.flipFlop w.value, flipFlop := !c.flipFlop }
  | 0x0c => { c with flipFlop := false }
  | 0x81 => { c with page := w.value.toNat }
  -- without the mask the channel serves the next request
  | 0x0a =>
    if w.value = 0x02 then
      { c with transfers := c.transfers ++ [(c.page * 2 ^ 16 + c.address, c.count + 1)] }
    else
      c
  | _ => c

end DmaChannel

/-- The channel after some writes to ports. -/
def dmaChannel (writes : List PortWrite) : DmaChannel :=
  writes.foldl DmaChannel.write ⟨false, 0, 0, 0, []⟩

def dmaTransfers (writes : List PortWrite) : List (Nat × Nat) := (dmaChannel writes).transfers

theorem dmaChannel_append (writes writes' : List PortWrite) :
    dmaChannel (writes ++ writes') = writes'.foldl DmaChannel.write (dmaChannel writes) :=
  List.foldl_append ..

/-- New transfers satisfy `p`. -/
def Transfers (p : Nat × Nat → Prop) (old new : List PortWrite) : Prop :=
  ∃ more, dmaTransfers new = dmaTransfers old ++ more ∧ ∀ t ∈ more, p t

instance (p : Nat × Nat → Prop) : IsPreorder (List PortWrite) (Transfers p) where
  refl := fun _ => ⟨[], (List.append_nil _).symm, fun _ h => absurd h List.not_mem_nil⟩
  trans := by
    rintro l₁ l₂ l₃ ⟨more, h, hp⟩ ⟨more', h', hp'⟩
    refine ⟨more ++ more', ?_, ?_⟩
    · rw [h', h, List.append_assoc]
    · intro t ht
      rcases List.mem_append.mp ht with ht | ht
      · exact hp t ht
      · exact hp' t ht

/-! ## The functions of the driver -/

/-- `floppy_dma_init` takes the buffer: it lies below 16 MiB, and the transfer does not cross a
    64 KiB boundary. -/
def DmaBufferOk (buffer : Nat) : Prop :=
  buffer < 2 ^ 24 ∧ buffer % 2 ^ 16 + floppyDmalen ≤ 2 ^ 16

instance (buffer : Nat) : Decidable (DmaBufferOk buffer) := inferInstanceAs (Decidable (_ ∧ _))

/-- The check of `floppy_dma_init`. -/
theorem dmaCheck_iff (a : Nat) :
    (a >>> 24 ≠ 0 ∨ (floppyDmalen - 1) >>> 16 ≠ 0 ∨
      ((a &&& 0xffff) + (floppyDmalen - 1)) >>> 16 ≠ 0) ↔ ¬ DmaBufferOk a := by
  have hand : a &&& 0xffff = a % 2 ^ 16 := Nat.and_two_pow_sub_one_eq_mod a 16
  rw [hand]
  simp only [DmaBufferOk, floppyDmalen, Nat.shiftRight_eq_div_pow]
  omega

/-- The writes of `floppy_dma_init`. -/
def dmaWrites (dir : FloppyDir) (a : Nat) : List PortWrite :=
  [⟨0x0a, 0x06⟩, ⟨0x0c, 0xff⟩, ⟨0x04, byteOf a 0⟩, ⟨0x04, byteOf a 1⟩, ⟨0x81, byteOf a 2⟩,
    ⟨0x0c, 0xff⟩, ⟨0x05, 0xff⟩, ⟨0x05, 0x47⟩,
    ⟨0x0b, match dir with | .read => 0x46 | .write => 0x4a⟩, ⟨0x0a, 0x02⟩]

/-- They program one transfer, whatever was in the registers before. -/
theorem dmaTransfers_dmaWrites (dir : FloppyDir) {a : Nat} (ha : a < 2 ^ 24)
    (writes : List PortWrite) :
    dmaTransfers (writes ++ dmaWrites dir a) = dmaTransfers writes ++ [(a, floppyDmalen)] := by
  have haddr :
      (byteOf a 2).toNat * 2 ^ 16 + ((byteOf a 0).toNat + (byteOf a 1).toNat * 256) = a := by
    simp only [byteOf, UInt8.toNat_ofNat', Nat.shiftRight_eq_div_pow]
    omega
  rw [dmaTransfers, dmaChannel_append, dmaTransfers]
  generalize dmaChannel writes = c
  have hlow : ∀ register : Nat, (register / 256 * 256 + (byteOf a 0).toNat) % 256 =
      (byteOf a 0).toNat := by
    intro register
    have := (byteOf a 0).toNat_lt
    omega
  simp only [dmaWrites, List.foldl_cons, List.foldl_nil, DmaChannel.write, DmaChannel.setByte]
  simp [hlow, floppyDmalen]
  omega

section Frames

variable {σ : Type} {hw : Hardware σ} {p : Nat × Nat → Prop} {dir : FloppyDir} {a : Nat}

theorem allowsCommands_transfers : AllowsCommands (Transfers p) := by
  intro l value
  refine ⟨[], ?_, fun _ h => absurd h List.not_mem_nil⟩
  rw [dmaTransfers, dmaChannel_append, List.append_nil]
  rfl

theorem allowsMotor_transfers : AllowsMotor (fun _ => True) (Transfers p) where
  on := trivial
  wait := trivial
  start := by
    intro _ l
    refine ⟨[], ?_, fun _ h => absurd h List.not_mem_nil⟩
    rw [dmaTransfers, dmaChannel_append, List.append_nil]
    rfl

/-- The driver after some writes to ports. -/
def Driver.outputs (hw : Hardware σ) (d : Driver σ) (writes : List PortWrite) : Driver σ :=
  writes.foldl (fun d w =>
    { d with hardware := hw.outportb d.hardware w.port w.value, writes := d.writes ++ [w] }) d

theorem writes_outputs (d : Driver σ) (writes : List PortWrite) :
    (d.outputs hw writes).writes = d.writes ++ writes := by
  induction writes generalizing d with
  | nil => exact (List.append_nil _).symm
  | cons w writes ih =>
    rw [Driver.outputs, List.foldl_cons]
    apply (ih _).trans
    rw [List.append_assoc, List.singleton_append]

/-- `floppy_dma_init` with a buffer that it takes. -/
theorem floppyDmaInit_ok (hok : DmaBufferOk a) (d : Driver σ) :
    (floppyDmaInit hw dir a).run d = .ok () (d.outputs hw (dmaWrites dir a)) := by
  unfold floppyDmaInit
  dsimp only
  rw [if_neg (mt (dmaCheck_iff a).mp (not_not.mpr hok))]
  rfl

theorem floppyDmaInit_frame :
    Frame (fun _ => True) (Transfers fun t => t = (a, floppyDmalen) ∧ DmaBufferOk a)
      (floppyDmaInit hw dir a) := by
  apply Runs.of_run
  intro d _
  by_cases hok : DmaBufferOk a
  · refine .inl ⟨_, _, floppyDmaInit_ok hok d, ⟨[(a, floppyDmalen)], ?_, ?_⟩, trivial⟩
    · rw [writes_outputs]
      exact dmaTransfers_dmaWrites dir hok.1 _
    · intro t ht
      exact ⟨List.mem_singleton.mp ht, hok⟩
  · refine .inr ⟨.panic .staticBufferProblem, d, ?_, refl_of (Transfers _) d.writes⟩
    unfold floppyDmaInit
    dsimp only
    rw [if_pos ((dmaCheck_iff a).mpr hok)]
    rfl

/-- All transfers of `read_cyl` go to the buffer, and have the same length. -/
theorem readCyl_transfers (cyl : Nat) (d : Driver σ) :
    Transfers (fun t => t = (a, floppyDmalen) ∧ DmaBufferOk a) d.writes
      (after (readCyl hw floppyBase cyl a) d).writes :=
  (floppyDoTrack_frame allowsCommands_transfers allowsMotor_transfers floppyDmaInit_frame cyl).after
    trivial

end Frames

/-! ## The buffer of a drive -/

section Buffer

/-- A transfer of `pages` pages from `start` on: it stays in the pages, lies below 16 MiB and
    does not cross a 64 KiB boundary. -/
structure TransferInside (start pages : Nat) (t : Nat × Nat) : Prop where
  start_le : start ≤ t.1
  le_end : t.1 + t.2 ≤ start + pages * pageSize
  le_limit : t.1 + t.2 ≤ dmaMemoryLimit
  same_64k : t.1 / 2 ^ 16 = (t.1 + t.2 - 1) / 2 ^ 16

/-- Every `read_cyl` into the buffer, on any hardware and in any state of the driver, programs
    transfers inside the pages at `start` only. -/
def TransfersInside (start pages buffer : Nat) : Prop :=
  ∀ (σ : Type) (hw : Hardware σ) (d : Driver σ) (cyl : Nat),
    Transfers (TransferInside start pages) d.writes
      (after (readCyl hw floppyBase cyl buffer) d).writes

variable {a pages : Nat}

/-- A transfer that `floppy_dma_init` programs is inside pages that are large enough. -/
theorem transferInside_iff (hok : DmaBufferOk a) :
    TransferInside a pages (a, floppyDmalen) ↔ floppyDmalen ≤ pages * pageSize := by
  obtain ⟨hlimit, hcross⟩ := hok
  constructor
  · intro h
    have := h.le_end
    omega
  · intro hle
    simp only [floppyDmalen] at hcross hle
    constructor
    · exact Nat.le_refl _
    · simp only [floppyDmalen]
      omega
    · simp only [floppyDmalen, dmaMemoryLimit]
      omega
    · simp only [floppyDmalen]
      omega

/-- What a try of `floppy_do_track` has programmed stays programmed. -/
theorem doTrackLoop_programs (hok : DmaBufferOk a) {σ : Type} {hw : Hardware σ} (cmd : UInt8)
    (cyl : Nat) (dir : FloppyDir) (n : Nat) (d : Driver σ) :
    (a, floppyDmalen) ∈ dmaTransfers
      (after (doTrackLoop hw floppyBase cmd cyl dir a (n + 1)) d).writes := by
  have hrun : (doTrackLoop hw floppyBase cmd cyl dir a (n + 1)).run d =
      (transfer hw floppyBase cmd cyl (doTrackLoop hw floppyBase cmd cyl dir a n)).run
        ((startMotor hw d).outputs hw (dmaWrites dir a)) := by
    rw [doTrackLoop, run_bind_ok (floppyMotor_on d), run_bind_ok (floppyDmaInit_ok hok _)]
  have hprogrammed : (a, floppyDmalen) ∈
      dmaTransfers ((startMotor hw d).outputs hw (dmaWrites dir a)).writes := by
    rw [writes_outputs, dmaTransfers_dmaWrites dir hok.1]
    exact List.mem_append_right _ (List.mem_singleton.mpr rfl)
  have hframe : Frame (fun _ => True) (Transfers fun t => t = (a, floppyDmalen) ∧ DmaBufferOk a)
      (transfer hw floppyBase cmd cyl (doTrackLoop hw floppyBase cmd cyl dir a n)) :=
    transfer_frame allowsCommands_transfers allowsMotor_transfers cmd cyl
      (doTrackLoop_frame allowsCommands_transfers allowsMotor_transfers floppyDmaInit_frame cmd cyl
        n)
  obtain ⟨more, hmore, -⟩ :=
    hframe.after (s := (startMotor hw d).outputs hw (dmaWrites dir a)) trivial
  rw [after_congr hrun, hmore]
  exact List.mem_append_left _ hprogrammed

/-- On a controller that is always ready `read_cyl` reaches `floppy_dma_init`. -/
theorem readCyl_programs (hok : DmaBufferOk a) :
    (a, floppyDmalen) ∈ dmaTransfers
      (after (readCyl readyHardware floppyBase 0 a) startDriver).writes := by
  have hrun : (readCyl readyHardware floppyBase 0 a).run startDriver =
      (doTrackLoop readyHardware floppyBase (transferCmd .read) 0 .read a (19 + 1)).run
        ((startMotor readyHardware ((startMotor readyHardware startDriver).addWrites
          (seekWrites 0)).release).addWrites (seekWrites 1)).release := by
    rw [readCyl, floppyDoTrack, run_bind_ok (floppySeek_ready _ _), if_neg (by decide),
      run_bind_ok (floppySeek_ready _ _), if_neg (by decide)]
  rw [after_congr hrun]
  exact doTrackLoop_programs hok _ _ _ _ _

/-- The transfers stay in the buffer when this has room for all of `FLOPPY_DMALEN`, or when
    `floppy_dma_init` does not take it. -/
theorem transfersInside_buffer : TransfersInside a pages a ↔
    floppyDmalen ≤ pages * pageSize ∨ ¬ DmaBufferOk a := by
  constructor
  · intro h
    by_cases hok : DmaBufferOk a
    · obtain ⟨more, hmore, hinside⟩ := h Unit readyHardware startDriver 0
      have hmem := readCyl_programs hok
      rw [hmore] at hmem
      exact .inl ((transferInside_iff hok).mp (hinside _ hmem))
    · exact .inr hok
  · intro h σ hw d cyl
    have htransfers : Transfers (fun t => t = (a, floppyDmalen) ∧ DmaBufferOk a) d.writes
        (after (readCyl hw floppyBase cyl a) d).writes := readCyl_transfers cyl d
    obtain ⟨more, hmore, heach⟩ := htransfers
    refine ⟨more, hmore, ?_⟩
    intro t ht
    obtain ⟨rfl, hok⟩ := heach t ht
    exact (transferInside_iff hok).mpr (h.resolve_right (not_not.mpr hok))

end Buffer

/-! ## The drives -/

section Drive

variable {s s' : State} {type : FloppyDriveType} {pages a : Nat}

/-- Where `alloc_dma` finds pages. -/
theorem allocDma_some (h : s.allocDma pages 16 = some (a, s')) (ha : a ≠ 0) :
    ∃ i, s.FirstFit .dmaPool pages 16 i ∧
      a = (s.pool .dmaPool).addressOf
        (((s.pool .dmaPool).prevIdx + i) % s.numPageframes .dmaPool) := by
  rcases search_spec s .dmaPool pages (by decide : 0 < 16) with ⟨i, -, hfirst⟩ | ⟨hnone, -⟩
  · cases (allocFrom_of_firstFit (by decide) hfirst []).symm.trans h
    refine ⟨i, hfirst, ?_⟩
    simp only [pool_fill]
  · have hzero : s.allocDma pages 16 = some (0, s) := by
      simp only [State.allocDma, State.allocPool, PoolId.chain, State.allocFrom, hnone]
      rfl
    cases hzero.symm.trans h
    exact absurd rfl ha

theorem allocCache_eq (h : s.allocDma (FloppyDrive.cachePageCount type) 16 = some (a, s'))
    (ha : a ≠ 0) :
    FloppyDrive.allocCache s type = some (⟨Mm.kernelPhysicalToVirtual a, a⟩, s') := by
  have hlt : a < 2 ^ 32 := by
    obtain ⟨i, -, rfl⟩ := allocDma_some h ha
    exact Nat.mod_lt _ (by decide)
  have hback : Mm.kernelVirtualToPhysical (Mm.kernelPhysicalToVirtual a) = a := by
    simp only [Mm.kernelVirtualToPhysical, Mm.kernelPhysicalToVirtual, add32, sub32,
      kernelVirtualBase]
    omega
  simp only [FloppyDrive.allocCache, Mm.allocPagesDma, h, Mm.virtualOrNull, if_pos ha,
    Option.bind_eq_bind, Option.bind_some, pure, hback]

/-- The drive of the 1.44M type has room for a transfer, the other drive with sectors has
    not. -/
theorem dmalen_le_iff (htype : FloppyDrive.sectorsPerCyl type ≠ 0) :
    floppyDmalen ≤ FloppyDrive.cachePageCount type * pageSize ↔ type = .floppyDrive1_44M := by
  cases type with
  | floppyDrive1_2M => decide
  | floppyDrive1_44M => decide
  | _ => exact absurd rfl htype

/-- A drive that has got its pages programs transfers inside them only, exactly if it is of the
    1.44M type or `floppy_dma_init` does not take the buffer. -/
theorem transfersInside_iff (htype : FloppyDrive.sectorsPerCyl type ≠ 0)
    (h : s.allocDma (FloppyDrive.cachePageCount type) 16 = some (a, s')) (ha : a ≠ 0) :
    ∃ cache, FloppyDrive.allocCache s type = some (cache, s') ∧
      (TransfersInside a (FloppyDrive.cachePageCount type) cache.physical ↔
        type = .floppyDrive1_44M ∨ ¬ DmaBufferOk a) := by
  refine ⟨_, allocCache_eq h ha, ?_⟩
  rw [← dmalen_le_iff htype]
  exact transfersInside_buffer

/-- Pools as `mm::init` builds them for at least 16 MiB hand out buffers that `floppy_dma_init`
    takes. -/
theorem dmaBufferOk_of_alloc (L : Layout s.pool) (hnum : s.numPageframes .dmaPool = 2 ^ 12)
    (h : s.allocDma pages 16 = some (a, s')) (ha : a ≠ 0) : DmaBufferOk a := by
  obtain ⟨i, hfirst, rfl⟩ := allocDma_some h ha
  have haligned := hfirst.fits.aligned
  rw [L.addressOf_eq (by rw [← State.numPageframes, hnum]; exact Nat.mod_lt _ (by decide)), hnum]
  simp only [DmaBufferOk, PhysicalPool.frameStart, L.base_dmaPool, floppyDmalen, pageSize]
  omega

end Drive

/-- On the small machine there is room for a cylinder. -/
theorem small_allocDma {s₀ : State} (h : init smallMap smallInfo (fun _ => 0) noPools 0x200000
    0x01002000 0x01002000 = some s₀) {pages : Nat} (hpos : 0 < pages) (hle : pages ≤ 16) :
    ∃ a s, s₀.allocDma pages 16 = some (a, s) ∧ a ≠ 0 := by
  obtain ⟨list, -, hpool, hused⟩ := init_eq (by decide) (Nat.le_refl _) (by decide) h
  have hdma : s₀.pool .dmaPool = bootPools 0x200000 0x01002000 0x01002000 .dmaPool := by
    rw [hpool]
  have hnum : s₀.numPageframes .dmaPool = 2 ^ 12 := by
    rw [State.numPageframes, hdma]
    decide
  -- the last frames of the pool are free
  have hfits : s₀.Fits .dmaPool pages 16 4080 := by
    refine ⟨by rw [hnum]; decide, by rw [hdma]; decide, ?_⟩
    intro j hj
    have hidx : ((s₀.pool .dmaPool).prevIdx + 4080 + j) % 2 ^ 32 % 2 ^ 12 = 4080 + j := by
      rw [hdma]
      show (0 + 4080 + j) % 2 ^ 32 % 2 ^ 12 = 4080 + j
      omega
    rw [hnum, hidx]
    apply small_free h
    · show 4080 + j < 2 ^ 12
      omega
    · show 0x204008 ≤ 0 + (4080 + j) * pageSize
      simp only [pageSize]
      omega
  rcases search_spec s₀ .dmaPool pages (by decide : 0 < 16) with ⟨i, -, hfirst⟩ | ⟨-, hno⟩
  · refine ⟨_, _, allocFrom_of_firstFit (by decide) hfirst [], ?_⟩
    simp only [pool_fill, hnum]
    intro hzero
    have hlt : ((s₀.pool .dmaPool).prevIdx + i) % 2 ^ 12 < 2 ^ 12 := Nat.mod_lt _ (by decide)
    have hfirstFrame : ((s₀.pool .dmaPool).prevIdx + i) % s₀.numPageframes .dmaPool = 0 := by
      rw [hnum]
      rw [hdma] at hzero hlt ⊢
      simp only [PhysicalPool.addressOf, bootPools, poolMemory, add32, pageSize] at hzero hlt ⊢
      omega
    -- the first frame belongs to the kernel
    have hfree := status_of_fits (j := 0) (by rw [hdma]; decide) (by rw [hnum]; decide)
      hfirst.fits hpos (by rw [hfirstFrame, hnum]; decide)
    rw [hfirstFrame] at hfree
    refine absurd hfree ((hused .dmaPool 0 (by decide)).mpr ⟨0, Or.inr ⟨0, ?_, rfl⟩, by decide⟩)
    decide
  · exact absurd hfits (hno 4080)

theorem transfersInside_iff_small : ∃ s₀, init smallMap smallInfo (fun _ => 0) noPools 0x200000
    0x01002000 0x01002000 = some s₀ ∧ ∃ a s cache,
      FloppyDrive.allocCache s₀ .floppyDrive1_44M = some (cache, s) ∧
        TransfersInside a 5 cache.physical := by
  obtain ⟨s₀, h⟩ := small_init
  obtain ⟨a, s, halloc, ha⟩ := small_allocDma h (by decide : 0 < 5) (by decide : 5 ≤ 16)
  obtain ⟨cache, hcache, hiff⟩ := transfersInside_iff
    (by decide : FloppyDrive.sectorsPerCyl .floppyDrive1_44M ≠ 0) halloc ha
  exact ⟨s₀, h, a, s, cache, hcache, hiff.mpr (.inl rfl)⟩

/-- The 1.2M drive has four pages, and a transfer writes half of the fifth. -/
theorem transfer_leaves_buffer : ¬ ∀ (s s' : State) (type : FloppyDriveType) (a : Nat)
    (cache : CylCache), FloppyDrive.sectorsPerCyl type ≠ 0 →
    s.allocDma (FloppyDrive.cachePageCount type) 16 = some (a, s') → a ≠ 0 →
    FloppyDrive.allocCache s type = some (cache, s') →
      TransfersInside a (FloppyDrive.cachePageCount type) cache.physical := by
  intro hclaim
  obtain ⟨s₀, h⟩ := small_init
  have hpool := small_pool h
  obtain ⟨a, s, halloc, ha⟩ := small_allocDma h (by decide : 0 < 4) (by decide : 4 ≤ 16)
  have hok : DmaBufferOk a := by
    apply dmaBufferOk_of_alloc _ _ halloc ha
    · rw [hpool]
      exact layout_bootPools 0x200000 (Nat.le_refl _) (by decide)
    · rw [State.numPageframes, hpool]
      decide
  have hinside := hclaim s₀ s .floppyDrive1_2M a _ (by decide) halloc ha (allocCache_eq halloc ha)
  rcases transfersInside_buffer.mp hinside with hle | hno
  · exact absurd hle (by decide)
  · exact hno hok

end TimbOS.Native.FloppyIo
