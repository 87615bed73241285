import TimbOS.ForStd.TimeSharing
import TimbOS.Spec.Exceptions
import TimbOS.Spec.SchedulerRing
import TimbOS.Spec.TaskFrame

/-!
# Virtual processors

Every task runs as if it had a processor to itself. Below, there is one processor, and interrupts
move its registers between frames on kernel stacks.

## Key results

- `Represents.irq`, `Represents.newTask`, `Represents.execute`, `Represents.pageFault`: what one
  input does to the processors
- `virtual_processors`: every run of the kernel is one of the processors
- `resumed_exactly`: a task goes on with the registers that it had
-/

namespace TimbOS.Native.System

open ForStd ForStd.I386 ForStd.Mem InterruptStubs Scheduler

/-! ## The machine -/

/-- The stack that the kernel starts with, in `loader.s`. -/
structure BootStack where
  low : Nat
  high : Nat

/-- What happens next. -/
inductive Input where
  /-- The program that runs changes registers and memory. -/
  | execute (regs : Regs) (m : Mem)
  /-- `new_task( user_stack, entry )`, where `mm::alloc_pages` returns `page`. -/
  | newTask (userStack entry page : Nat)
  /-- An interrupt request on one of the lines. -/
  | irq (line : Fin 16) (i : Interrupt)
  | pageFault (i : Interrupt)

def step (env : Environment) (s : System) : Input → Except Stop (Unit × System)
  | .execute regs m => .ok ((), { s with regs := regs, kernel := s.kernel.withMem m })
  | .newTask userStack entry page =>
    .ok ((), { s with
      kernel := { s.kernel with scheduler := newTask s.kernel.scheduler userStack entry page } })
  | .irq _ i => (interrupt env s i).map ((), ·)
  | .pageFault i => (interrupt env s i).map ((), ·)

/-- The page that `new_task` allocates. -/
def OnStack (task : Task) (a : Nat) : Prop := task.kernelStack - 4096 ≤ a ∧ a < task.kernelStack

def OnStacks (s : System) (a : Nat) : Prop :=
  ∃ task ∈ s.kernel.scheduler.taskList, OnStack task a

def OnBoot (boot : BootStack) (a : Nat) : Prop := boot.low ≤ a ∧ a < boot.high

/-- Registers of a task: not in ring 0, and with segments that it may use. -/
structure UserRegs (env : Environment) (r : Regs) : Prop where
  cpl : 0 < r.cpl
  segments : SegmentsStay (dpl env) r

/-- Registers of the kernel before the first task, with room for an interrupt on its stack. -/
structure BootRegs (boot : BootStack) (r : Regs) : Prop where
  cpl : r.cpl = 0
  low : boot.low + 4096 ≤ r.esp.toNat
  high : r.esp.toNat ≤ boot.high

/-- A page that can be the kernel stack of a new task. -/
structure StackPage (boot : BootStack) (s : System) (page : Nat) : Prop where
  ne_zero : page ≠ 0
  aligned : page % 4096 = 0
  lt : page + 4096 < 2 ^ 32
  notBoot : page + 4096 ≤ boot.low ∨ boot.high ≤ page
  fresh : ∀ task ∈ s.kernel.scheduler.taskList, task.kernelStack ≠ page + 4096

/-- A page fault that the kernel repairs, and not by a page that is a stack. -/
structure Repaired (env : Environment) (boot : BootStack) (s : System) (i : Interrupt) :
    Prop where
  vector : i.vector.toNat = 14
  fits : Fits i
  mapped : ∃ paging, Paging.pagingHandleFault s.paging env.entries (errorWord i) i.cr2 =
    some (true, paging)
  elsewhere : ∀ a, OnStacks s a ∨ OnBoot boot a → a / 4096 ≠ i.cr2 / 4096 ∧ a < 0xFFC00000

/-- The compiled functions of the kernel fit on a stack with the frame. -/
def Shallow (i : Interrupt) : Prop := i.leftovers.depth + CpuState.size ≤ 4096

/-- Programs keep their ring and do not write to the kernel stacks of tasks. -/
def Legal (env : Environment) (boot : BootStack) (s : System) : Input → Prop
  | .execute regs m =>
    (∀ a, OnStacks s a → m a = s.mem a) ∧
      if s.kernel.scheduler.current = none then BootRegs boot regs else UserRegs env regs
  | .newTask _ _ page => StackPage boot s page
  | .irq line i => i.vector.toNat = 32 + line.val ∧ i.errorCode = none ∧ Shallow i
  | .pageFault i => Repaired env boot s i ∧ Shallow i

def machine (env : Environment) (boot : BootStack) : Machine System Input Unit Stop where
  init := fun s => s.kernel.scheduler.taskList = [] ∧ BootRegs boot s.regs
  legal := Legal env boot
  step := step env

/-- A handler that gives back the frame it gets, and leaves the tasks and their stacks alone. -/
structure Quiet (boot : BootStack) (handler : Irq.HandlerProc) : Prop where
  frame : ∀ k r, (handler k r).2 = r
  taskList : ∀ k r, (handler k r).1.scheduler.taskList = k.scheduler.taskList
  current : ∀ k r, (handler k r).1.scheduler.current = k.scheduler.current
  esp0 : ∀ k r, (handler k r).1.scheduler.esp0 = k.scheduler.esp0
  mem : ∀ k r a, (∃ task ∈ k.scheduler.taskList, OnStack task a) ∨ OnBoot boot a →
    (handler k r).1.scheduler.mem a = k.scheduler.mem a

/-! ## The model -/

/-- A processor for each program, and the memory that they share. -/
abbrev Processors := TimeSharing Regs Mem

/-- What `new_task` sets in the registers of a task. The other registers can be anything. -/
structure Initial (userStack entry : Nat) (r : Regs) : Prop where
  eip : r.eip = .ofNat 32 entry
  esp : r.esp = .ofNat 32 (userStack + 4096)
  eflags : r.eflags = 0x202
  cs : r.cs = 0x1B
  ss : r.ss = 0x23
  data : ∀ x : Sreg, r.getSeg x = 0x23

/-- What the inputs do to the processors. Only two of the interrupt requests let another program
    run, and the second one only if the program that runs has 0 in `eax`. -/
inductive Step (v : Processors) : Input → Processors → Prop
  | execute (regs : Regs) (m : Mem) : Step v (.execute regs m) (v.execute regs m)
  | newTask {userStack entry page : Nat} {r : Regs} (h : Initial userStack entry r) :
      Step v (.newTask userStack entry page) (v.create r)
  | turn {line : Fin 16} {i : Interrupt} (h : line = 0 ∨ line = 3 ∧ v.running.eax = 0) :
      Step v (.irq line i) v.turn
  | device {line : Fin 16} {i : Interrupt} (m : Mem) (h : line = 1 ∨ line = 6) :
      Step v (.irq line i) (v.device m)
  | idle {line : Fin 16} {i : Interrupt} (h : line ≠ 0 ∧ line ≠ 1 ∧ line ≠ 6)
      (hyield : line = 3 → v.running.eax ≠ 0) : Step v (.irq line i) v
  | pageFault {i : Interrupt} (m : Mem)
      (h : ∀ a, a / 4096 ≠ i.cr2 / 4096 → a < 0xFFC00000 → m a = v.shared a) :
      Step v (.pageFault i) (v.device m)

/-- Memory that interrupts use: the kernel stacks, and the boot stack below the stack pointer of
    the program on it. -/
def Scratch (boot : BootStack) (s : System) (a : Nat) : Prop :=
  OnStacks s a ∨
    boot.low ≤ a ∧ a < (if s.kernel.scheduler.current = none then s.regs.esp.toNat else boot.high)

/-- The processors are all there: one in the registers, and the others in frames at the ends of
    the kernel stacks. -/
structure Represents (env : Environment) (boot : BootStack) (s : System) (v : Processors) :
    Prop where
  current : s.kernel.scheduler.current = v.current
  length : s.kernel.scheduler.taskList.length = v.tasks.length
  regs : s.regs = v.running
  tasks : ∀ r ∈ v.tasks, UserRegs env r
  bootRegs : v.current = none → BootRegs boot s.regs
  stack : ∀ task ∈ s.kernel.scheduler.taskList, 4096 < task.kernelStack ∧
    task.kernelStack < 2 ^ 32 ∧ task.kernelStack % 4096 = 0 ∧
    (task.kernelStack ≤ boot.low ∨ boot.high + 4096 ≤ task.kernelStack)
  distinct : (s.kernel.scheduler.taskList.map Task.kernelStack).Nodup
  esp0 : ∀ j task, v.current = some j → s.kernel.scheduler.taskList[j]? = some task →
    s.kernel.scheduler.esp0 = task.kernelStack
  suspended : ∀ j task r, v.current ≠ some j → s.kernel.scheduler.taskList[j]? = some task →
    v.tasks[j]? = some r →
      task.cpuState + CpuState.size = task.kernelStack ∧ HasContext s.mem task.cpuState r
  shared : ∀ a, ¬ Scratch boot s a → s.mem a = v.shared a

/-! ## The stack for interrupts -/

section Area

variable {env : Environment} {boot : BootStack} {s : System} {v : Processors} {i : Interrupt}

theorem Represents.current_lt (h : Represents env boot s v) {j : Nat} (hj : v.current = some j) :
    j < v.tasks.length := by
  rw [← h.length]
  apply s.kernel.scheduler.current_lt
  rw [h.current, hj]

theorem Represents.running_eq (h : Represents env boot s v) {j : Nat} (hj : v.current = some j) :
    v.tasks[j]? = some s.regs := by
  have hget := List.getElem?_eq_getElem (h.current_lt hj)
  rw [hget, h.regs, TimeSharing.running_of_current hj hget]

theorem Represents.userRegs (h : Represents env boot s v) {j : Nat} (hj : v.current = some j) :
    UserRegs env s.regs :=
  h.tasks _ (List.mem_of_getElem? (h.running_eq hj))

/-- Every program has segments that it may use. -/
theorem Represents.segments (h : Represents env boot s v) : SegmentsStay (dpl env) s.regs := by
  cases hc : v.current with
  | none => exact segmentsStay_of_cpl (h.bootRegs hc).cpl
  | some j => exact (h.userRegs hc).segments

theorem Represents.task (h : Represents env boot s v) {j : Nat} (hj : v.current = some j) :
    ∃ task, s.kernel.scheduler.taskList[j]? = some task := by
  have hlt := h.current_lt hj
  rw [← h.length] at hlt
  exact ⟨_, List.getElem?_eq_getElem hlt⟩

theorem Represents.task_eq (h : Represents env boot s v) {j k : Nat} {task task' : Task}
    (hj : s.kernel.scheduler.taskList[j]? = some task)
    (hk : s.kernel.scheduler.taskList[k]? = some task')
    (heq : task.kernelStack = task'.kernelStack) : j = k := by
  have hjlt := (List.getElem?_eq_some_iff.mp hj).1
  apply (List.getElem?_inj (by rw [List.length_map]; exact hjlt) h.distinct).mp
  rw [List.getElem?_map, List.getElem?_map, hj, hk, Option.map_some, Option.map_some, heq]

/-- The stack that an interrupt uses. No other program has anything there. -/
structure Area (boot : BootStack) (s : System) (v : Processors) (low : Nat) : Prop where
  room : low + 4096 ≤ (kernelStart s).regs.esp.toNat
  scratch : ∀ a, low ≤ a → a < (kernelStart s).regs.esp.toNat → Scratch boot s a
  others : ∀ j task, v.current ≠ some j → s.kernel.scheduler.taskList[j]? = some task →
    ∀ a, OnStack task a → a < low ∨ (kernelStart s).regs.esp.toNat ≤ a
  frame : ∀ j task, v.current = some j → s.kernel.scheduler.taskList[j]? = some task →
    frameOf s + CpuState.size = task.kernelStack ∧ frameSize s.regs = CpuState.size

/-- The stack of a task, as the processor finds it. -/
theorem Represents.esp_task (h : Represents env boot s v) {j : Nat} {task : Task}
    (hj : v.current = some j) (htask : s.kernel.scheduler.taskList[j]? = some task) :
    (kernelStart s).regs.esp.toNat = task.kernelStack := by
  have hlt := (h.stack task (List.mem_of_getElem? htask)).2.1
  rw [kernelStart, if_pos (h.userRegs hj).cpl]
  show (BitVec.ofNat 32 s.kernel.scheduler.esp0).toNat = _
  rw [h.esp0 j task hj htask, BitVec.toNat_ofNat, Nat.mod_eq_of_lt hlt]

theorem Represents.area (h : Represents env boot s v) : ∃ low, Area boot s v low := by
  cases hc : v.current with
  | none =>
    have hboot := h.bootRegs hc
    have hstart : kernelStart s = ⟨s.regs, s.mem⟩ := if_neg (by rw [hboot.cpl]; decide)
    refine ⟨boot.low, ?_, ?_, ?_, ?_⟩
    · rw [hstart]
      exact hboot.low
    · intro a hlow ha
      rw [hstart] at ha
      right
      rw [h.current, hc, if_pos rfl]
      exact ⟨hlow, ha⟩
    · intro j task _ htask a ha
      rw [hstart]
      have hstack := h.stack task (List.mem_of_getElem? htask)
      have hhigh := hboot.high
      obtain ⟨hle, hlt⟩ := ha
      dsimp only
      omega
    · intro j task hj
      rw [hc] at hj
      cases hj
  | some j =>
    obtain ⟨task, htask⟩ := h.task hc
    have hmem := List.mem_of_getElem? htask
    obtain ⟨hlow, hlt, haligned, hboot⟩ := h.stack task hmem
    have hesp := h.esp_task hc htask
    refine ⟨task.kernelStack - 4096, ?_, ?_, ?_, ?_⟩
    · rw [hesp]
      omega
    · intro a hle ha
      rw [hesp] at ha
      exact .inl ⟨task, hmem, hle, ha⟩
    · intro k task' hk htask' a ha
      -- both stacks are pages
      have hother := h.stack task' (List.mem_of_getElem? htask')
      have hne : task'.kernelStack ≠ task.kernelStack := by
        intro heq
        apply hk
        rw [hc, h.task_eq htask' htask heq]
      obtain ⟨hle, halt⟩ := ha
      rw [hesp]
      omega
    · intro k task' hk htask'
      rw [hc] at hk
      cases hk
      rw [htask] at htask'
      cases htask'
      have hsize : frameSize s.regs = CpuState.size := if_pos (h.userRegs hc).cpl
      refine ⟨?_, hsize⟩
      rw [frameOf, hesp, hsize, Nat.sub_add_cancel]
      simp only [CpuState.size]
      omega

theorem frameSize_le (r : Regs) : frameSize r ≤ CpuState.size := by
  rw [frameSize]
  split <;> decide

theorem Area.hroom {low : Nat} (h : Area boot s v low) :
    frameSize s.regs + 4 ≤ (kernelStart s).regs.esp.toNat := by
  have hsize := frameSize_le s.regs
  have hroom := h.room
  simp only [CpuState.size] at hsize
  omega

variable (env) in
/-- What an interrupt leaves alone. -/
theorem Area.unchanged {low a : Nat} (h : Area boot s v low) (hv : i.vector.toNat < 48)
    (herr : i.errorCode.isSome = (decide (i.vector.toNat < 32) && withErrorCode i.vector.toNat))
    (hshallow : Shallow i) (ha : a < low ∨ (kernelStart s).regs.esp.toNat ≤ a) (m : Mem) :
    scribbled m i.leftovers (frameOf s) a = m a ∧
      (savedKernel env s i).scheduler.mem a = s.mem a := by
  have hroom := h.room
  have hadd := frameOf_add h.hroom
  have hsize := frameSize_le s.regs
  rw [Shallow] at hshallow
  simp only [CpuState.size] at hsize hshallow
  constructor
  · rcases ha with ha | ha
    · exact scribbled_of_far _ _ (by omega)
    · exact scribbled_of_le _ _ (by omega)
  · exact mem_savedKernel hv herr h.hroom (by omega)

end Area

/-! ## Interrupts that come back to the same program -/

section Interrupts

variable {env : Environment} {boot : BootStack} {s s' : System} {v : Processors} {i : Interrupt}

/-- The memory is different only where nothing of the processors is. -/
theorem Represents.of_same {m : Mem} (h : Represents env boot s v) (hregs : s'.regs = s.regs)
    (hlist : s'.kernel.scheduler.taskList = s.kernel.scheduler.taskList)
    (hcurrent : s'.kernel.scheduler.current = s.kernel.scheduler.current)
    (hesp0 : s'.kernel.scheduler.esp0 = s.kernel.scheduler.esp0)
    (hmem : ∀ j task, v.current ≠ some j → s.kernel.scheduler.taskList[j]? = some task →
      ∀ a, OnStack task a → s'.mem a = s.mem a)
    (hm : ∀ a, ¬ Scratch boot s a → s'.mem a = m a) : Represents env boot s' (v.device m) where
  current := hcurrent.trans h.current
  length := by rw [hlist]; exact h.length
  regs := hregs.trans h.regs
  tasks := h.tasks
  bootRegs := by rw [hregs]; exact h.bootRegs
  stack := by rw [hlist]; exact h.stack
  distinct := by rw [hlist]; exact h.distinct
  esp0 := by rw [hlist, hesp0]; exact h.esp0
  suspended := by
    intro j task r hj htask hr
    rw [hlist] at htask
    obtain ⟨hframe, hcontext⟩ := h.suspended j task r hj htask hr
    obtain ⟨hlow, hlt, -, -⟩ := h.stack task (List.mem_of_getElem? htask)
    have hsize := frameSize_le r
    simp only [CpuState.size] at hframe hsize
    refine ⟨hframe, hcontext.congr (by omega) ?_⟩
    intro a hle ha
    exact hmem j task hj htask a ⟨by omega, by omega⟩
  shared := by
    intro a ha
    apply hm
    rwa [Scratch, OnStacks, hlist, hcurrent, hregs] at ha

/-- A frame at the end of a stack is on it. -/
theorem Represents.onStack (h : Represents env boot s v) {task : Task} {frame a : Nat}
    (htask : task ∈ s.kernel.scheduler.taskList)
    (hframe : frame + CpuState.size = task.kernelStack) (hle : frame ≤ a)
    (ha : a < frame + CpuState.size) : OnStack task a := by
  obtain ⟨hlow, -, -, -⟩ := h.stack task htask
  simp only [CpuState.size] at hframe ha
  exact ⟨by omega, by omega⟩

theorem Represents.kept (h : Represents env boot s v) {a : Nat} (ha : Scratch boot s a) :
    OnStacks s a ∨ OnBoot boot a := by
  rcases ha with ha | ⟨hlow, hlt⟩
  · exact .inl ha
  · right
    refine ⟨hlow, Nat.lt_of_lt_of_le hlt ?_⟩
    by_cases hc : s.kernel.scheduler.current = none
    · rw [if_pos hc]
      rw [h.current] at hc
      exact (h.bootRegs hc).high
    · rw [if_neg hc]

section Saved

variable {m : Mem} {low : Nat} (h : Represents env boot s v) (harea : Area boot s v low)
  (hv : i.vector.toNat < 48)
  (herr : i.errorCode.isSome = (decide (i.vector.toNat < 32) && withErrorCode i.vector.toNat))
  (hshallow : Shallow i)
  (hm : ∀ a, OnStacks s a ∨ OnBoot boot a → m a = (savedKernel env s i).scheduler.mem a)

include h harea hv herr hshallow hm

omit h in
/-- The stacks of the other programs while an interrupt is handled. -/
theorem stack_saved {j : Nat} {task : Task} (hj : v.current ≠ some j)
    (htask : s.kernel.scheduler.taskList[j]? = some task) {a : Nat} (ha : OnStack task a) :
    scribbled m i.leftovers (frameOf s) a = s.mem a := by
  obtain ⟨hscribbled, hsaved⟩ := harea.unchanged env hv herr hshallow
    (harea.others j task hj htask a ha) m
  rw [hscribbled, hm a (.inl ⟨task, List.mem_of_getElem? htask, ha⟩), hsaved]

omit hshallow in
/-- The frame of the program that was interrupted. -/
theorem context_saved :
    HasContext (scribbled m i.leftovers (frameOf s)) (frameOf s) s.regs := by
  have hadd := frameOf_add harea.hroom
  have hlt := (kernelStart s).regs.esp.isLt
  have hroom := harea.room
  have hsize := frameSize_le s.regs
  simp only [CpuState.size] at hsize
  have hcontext : HasContext (savedKernel env s i).scheduler.mem (frameOf s) s.regs :=
    hasContext_savedKernel hv herr harea.hroom
  apply hcontext.congr (by omega)
  intro a hle ha
  rw [scribbled_of_le _ _ hle]
  exact hm a (h.kept (harea.scratch a (by omega) (by omega)))

/-- While an interrupt is handled, all tasks are in frames. -/
theorem parked {j : Nat} {task : Task} {r : Regs}
    (htask : (saveFrame s.kernel.scheduler.taskList s.kernel.scheduler.current
      (frameOf s))[j]? = some task) (hr : v.tasks[j]? = some r) :
    task.cpuState + CpuState.size = task.kernelStack ∧
      HasContext (scribbled m i.leftovers (frameOf s)) task.cpuState r := by
  rw [saveFrame_getElem?] at htask
  obtain ⟨old, hold, htask⟩ := Option.map_eq_some_iff.mp htask
  by_cases hj : s.kernel.scheduler.current = some j
  · rw [if_pos hj] at htask
    rw [h.current] at hj
    rw [h.running_eq hj] at hr
    cases htask
    cases hr
    exact ⟨(harea.frame j old hj hold).1, context_saved h harea hv herr hm⟩
  · rw [if_neg hj] at htask
    rw [h.current] at hj
    cases htask
    obtain ⟨hframe, hcontext⟩ := h.suspended j task r hj hold hr
    obtain ⟨-, hlt, -, -⟩ := h.stack task (List.mem_of_getElem? hold)
    have hsize := frameSize_le r
    refine ⟨hframe, hcontext.congr (by omega) ?_⟩
    intro a hle ha
    apply stack_saved harea hv herr hshallow hm hj hold
    exact h.onStack (List.mem_of_getElem? hold) hframe hle (by omega)

end Saved

theorem Area.outside {low a : Nat} (harea : Area boot s v low) (ha : ¬ Scratch boot s a) :
    a < low ∨ (kernelStart s).regs.esp.toNat ≤ a := by
  by_contra hnot
  exact ha (harea.scratch a (by omega) (by omega))

section Irq

variable {line : Fin 16} (h : Represents env boot s v) (hv : i.vector.toNat = 32 + line.val)
  (herr : i.errorCode = none) (hshallow : Shallow i)

include h hv herr hshallow

/-- A handler that gives back the frame it gets, without moving anything that is in use. -/
theorem quiet_irq {k : Irq.Kernel}
    (hhandled : handled env (savedKernel env s i) (frameOf s) line = (k, frameOf s))
    (hlist : k.scheduler.taskList = s.kernel.scheduler.taskList)
    (hcurrent : k.scheduler.current = s.kernel.scheduler.current)
    (hesp0 : k.scheduler.esp0 = s.kernel.scheduler.esp0)
    (hmem : ∀ a, OnStacks s a ∨ OnBoot boot a →
      k.scheduler.mem a = (savedKernel env s i).scheduler.mem a) :
    ∃ s', interrupt env s i = .ok s' ∧
      ∀ m : Mem, (∀ a, ¬ Scratch boot s a → k.scheduler.mem a = m a) →
        Represents env boot s' (v.device m) := by
  have hline := line.isLt
  have hvec : i.vector.toNat < 48 := by omega
  have hcode := noErrorCode hv herr
  obtain ⟨low, harea⟩ := h.area
  have hrun := interrupt_irq env hv herr harea.hroom
  rw [hhandled] at hrun
  refine ⟨_, hrun, ?_⟩
  intro m hm
  -- the frame is popped as it was pushed
  have hregs : restored (dpl env) (scribbled k.scheduler.mem i.leftovers (frameOf s)) (frameOf s)
      (kernelStart s).regs.ss = s.regs :=
    restored_frame h.segments harea.hroom (context_saved h harea hvec hcode hmem)
  have hscheduler : ((Irq.acknowledge k (frameOf s)).withMem
      (scribbled k.scheduler.mem i.leftovers (frameOf s))).scheduler =
      { k.scheduler with mem := scribbled k.scheduler.mem i.leftovers (frameOf s) } := by
    rw [Irq.Kernel.withMem, scheduler_acknowledge]
  -- the rest of the kernel is what the handler left, outside of the boot stack
  apply h.of_same hregs
  · show (Irq.Kernel.withMem _ _).scheduler.taskList = _
    rw [hscheduler, ← hlist]
  · show (Irq.Kernel.withMem _ _).scheduler.current = _
    rw [hscheduler, ← hcurrent]
  · show (Irq.Kernel.withMem _ _).scheduler.esp0 = _
    rw [hscheduler, ← hesp0]
  · intro j task hj htask a ha
    exact stack_saved harea hvec hcode hshallow hmem hj htask ha
  · intro a ha
    rw [← hm a ha]
    exact (harea.unchanged env hvec hcode hshallow (harea.outside ha) _).1

end Irq

/-! ## Turns -/

/-- `scheduler::next`, when there are tasks. -/
theorem next_of_ne_nil (s : Scheduler.State) (regs : Nat) (hne : s.taskList ≠ []) :
    ∃ task s', next s regs = (task.cpuState, s') ∧
      (saveFrame s.taskList s.current regs)[successor s.taskList.length s.current]? = some task ∧
      s'.taskList = saveFrame s.taskList s.current regs ∧
      s'.current = some (successor s.taskList.length s.current) ∧
      s'.esp0 = task.kernelStack ∧ s'.mem = s.mem := by
  have hpos : 0 < (saveFrame s.taskList s.current regs).length := by
    rw [length_saveFrame]
    exact List.length_pos_iff.mpr hne
  have hval : (following _ hpos s.current).val = successor s.taskList.length s.current := by
    rw [following_val, length_saveFrame]
  rw [next, dif_neg hne]
  refine ⟨_, _, rfl, ?_, rfl, congrArg some hval, rfl, rfl⟩
  rw [← hval]
  exact List.getElem?_eq_getElem _

/-- The model has the same ring. -/
theorem successor_eq (n : Nat) (it : Option Nat) :
    TimeSharing.successor n it = successor n it := by
  cases it <;> rfl

theorem onStack_of_kernelStack {task old : Task} (h : old.kernelStack = task.kernelStack)
    (a : Nat) : OnStack old a ↔ OnStack task a := by
  rw [OnStack, OnStack, h]

theorem mem_saveFrame {tasks : List Task} {it : Option Nat} {regs : Nat} {task : Task}
    (h : task ∈ saveFrame tasks it regs) : ∃ old ∈ tasks, old.kernelStack = task.kernelStack := by
  have hmap := List.mem_map_of_mem (f := Task.kernelStack) h
  rw [map_kernelStack_saveFrame] at hmap
  exact List.mem_map.mp hmap

/-- All tasks were in frames, and the registers are now those of the next one. -/
theorem Represents.turned {task : Task} {ss : Selector} (h : Represents env boot s v)
    (hne : v.tasks ≠ [])
    (hparked : ∀ (j : Nat) (task : Task) (r : Regs), (saveFrame s.kernel.scheduler.taskList
      s.kernel.scheduler.current (frameOf s))[j]? = some task → v.tasks[j]? = some r →
      task.cpuState + CpuState.size = task.kernelStack ∧ HasContext s'.mem task.cpuState r)
    (htask : (saveFrame s.kernel.scheduler.taskList s.kernel.scheduler.current
      (frameOf s))[successor s.kernel.scheduler.taskList.length s.kernel.scheduler.current]? =
        some task)
    (hlist : s'.kernel.scheduler.taskList =
      saveFrame s.kernel.scheduler.taskList s.kernel.scheduler.current (frameOf s))
    (hcurrent : s'.kernel.scheduler.current =
      some (successor s.kernel.scheduler.taskList.length s.kernel.scheduler.current))
    (hesp0 : s'.kernel.scheduler.esp0 = task.kernelStack)
    (hregs : s'.regs = restored (dpl env) s'.mem task.cpuState ss)
    (hmem : ∀ a, ¬ Scratch boot s a → s'.mem a = s.mem a) : Represents env boot s' v.turn := by
  have hsucc : successor s.kernel.scheduler.taskList.length s.kernel.scheduler.current =
      TimeSharing.successor v.tasks.length v.current := by
    rw [successor_eq, h.length, h.current]
  rw [hsucc] at htask hcurrent
  have hturn := TimeSharing.current_turn hne
  -- the registers of the next task
  have hlt := TimeSharing.successor_lt (List.length_pos_iff.mpr hne) v.current
  obtain ⟨r, hr⟩ : ∃ r, v.tasks[TimeSharing.successor v.tasks.length v.current]? = some r :=
    ⟨_, List.getElem?_eq_getElem hlt⟩
  have huser := h.tasks r (List.mem_of_getElem? hr)
  obtain ⟨-, hcontext⟩ := hparked _ task r htask hr
  have hrestored : s'.regs = r := by
    rw [hregs]
    apply restored_of_context hcontext huser.segments
    intro hcpl
    have hpos := huser.cpl
    omega
  have hstacks : ∀ a, OnStacks s a → OnStacks s' a := by
    intro a ha
    obtain ⟨old, hold, ha⟩ := ha
    have hmap := List.mem_map_of_mem (f := Task.kernelStack) hold
    rw [← map_kernelStack_saveFrame _ s.kernel.scheduler.current (frameOf s), ← hlist] at hmap
    obtain ⟨new, hnew, heq⟩ := List.mem_map.mp hmap
    exact ⟨new, hnew, (onStack_of_kernelStack heq a).mpr ha⟩
  refine
    { current := by rw [hcurrent, hturn]
      length := by rw [hlist, length_saveFrame, h.length, TimeSharing.tasks_turn]
      regs := by rw [hrestored, TimeSharing.running_turn hr]
      tasks := by rw [TimeSharing.tasks_turn]; exact h.tasks
      bootRegs := ?_
      stack := ?_
      distinct := by rw [hlist, map_kernelStack_saveFrame]; exact h.distinct
      esp0 := ?_
      suspended := ?_
      shared := ?_ }
  · intro hnone
    rw [hturn] at hnone
    cases hnone
  · intro new hnew
    rw [hlist] at hnew
    obtain ⟨old, hold, heq⟩ := mem_saveFrame hnew
    rw [← heq]
    exact h.stack old hold
  · intro j new hj hnew
    rw [hturn] at hj
    cases hj
    rw [hlist, htask] at hnew
    cases hnew
    exact hesp0
  · intro j new r' _ hnew hr'
    rw [hlist] at hnew
    rw [TimeSharing.tasks_turn] at hr'
    exact hparked j new r' hnew hr'
  · intro a ha
    have hold : ¬ Scratch boot s a := by
      intro hscratch
      apply ha
      rcases h.kept hscratch with hstack | ⟨hlow, hhigh⟩
      · exact .inl (hstacks a hstack)
      · right
        rw [hcurrent, if_neg (by simp)]
        exact ⟨hlow, hhigh⟩
    rw [hmem a hold, h.shared a hold, TimeSharing.shared_turn]

/-- The scheduler puts the program that was interrupted in its frame, and goes on with the next
    one. -/
theorem turn_irq {line : Fin 16} (h : Represents env boot s v)
    (hv : i.vector.toNat = 32 + line.val) (herr : i.errorCode = none) (hshallow : Shallow i)
    (hhandled : handled env (savedKernel env s i) (frameOf s) line =
      Irq.schedulerNext (savedKernel env s i) (frameOf s)) :
    ∃ s', interrupt env s i = .ok s' ∧ Represents env boot s' v.turn := by
  have hline := line.isLt
  have hvec : i.vector.toNat < 48 := by omega
  have hcode := noErrorCode hv herr
  obtain ⟨low, harea⟩ := h.area
  by_cases hnil : s.kernel.scheduler.taskList = []
  · -- without tasks, nothing happens
    have hnext : Irq.schedulerNext (savedKernel env s i) (frameOf s) =
        (savedKernel env s i, frameOf s) := by
      have hempty : (savedKernel env s i).scheduler.taskList = [] := hnil
      rw [Irq.schedulerNext, next, dif_pos hempty]
    have hlen := h.length
    rw [hnil, List.length_nil] at hlen
    rw [hnext] at hhandled
    obtain ⟨s', hrun, hrep⟩ := quiet_irq h hv herr hshallow hhandled rfl rfl rfl fun _ _ => rfl
    have hturn : v.turn = v.device v.shared := by
      rw [TimeSharing.turn, if_pos (List.eq_nil_of_length_eq_zero hlen.symm)]
      rfl
    refine ⟨s', hrun, ?_⟩
    rw [hturn]
    apply hrep
    intro a ha
    have hsaved := harea.unchanged env hvec hcode hshallow (harea.outside ha) s.mem
    rw [hsaved.2, h.shared a ha]
  · obtain ⟨task, next', hnext, htask, hlist, hcurrent, hesp0, hmem⟩ :=
      next_of_ne_nil (savedKernel env s i).scheduler (frameOf s) hnil
    have hsaved : ∀ a, OnStacks s a ∨ OnBoot boot a →
        next'.mem a = (savedKernel env s i).scheduler.mem a := fun a _ => congrFun hmem a
    have hschedulerNext : Irq.schedulerNext (savedKernel env s i) (frameOf s) =
        ({ savedKernel env s i with scheduler := next' }, task.cpuState) := by
      rw [Irq.schedulerNext, hnext]
    have hrun := interrupt_irq env hv herr harea.hroom
    rw [hhandled, hschedulerNext] at hrun
    refine ⟨_, hrun, ?_⟩
    have hscheduler : ((Irq.acknowledge { savedKernel env s i with scheduler := next' }
        task.cpuState).withMem (scribbled next'.mem i.leftovers (frameOf s))).scheduler =
        { next' with mem := scribbled next'.mem i.leftovers (frameOf s) } := by
      rw [Irq.Kernel.withMem, scheduler_acknowledge]
    have hne : v.tasks ≠ [] := by
      intro hempty
      have hlen := h.length
      rw [hempty, List.length_nil] at hlen
      exact hnil (List.eq_nil_of_length_eq_zero hlen)
    refine h.turned hne ?_ htask ?_ ?_ ?_ rfl ?_
    · intro j new r hnew hr
      exact parked h harea hvec hcode hshallow hsaved hnew hr
    · show (Irq.Kernel.withMem _ _).scheduler.taskList = _
      rw [hscheduler]
      exact hlist
    · show (Irq.Kernel.withMem _ _).scheduler.current = _
      rw [hscheduler]
      exact hcurrent
    · show (Irq.Kernel.withMem _ _).scheduler.esp0 = _
      rw [hscheduler]
      exact hesp0
    · intro a ha
      have houtside := harea.outside ha
      obtain ⟨hscribbled, hold⟩ :=
        harea.unchanged env hvec hcode hshallow houtside next'.mem
      show scribbled next'.mem i.leftovers (frameOf s) a = s.mem a
      rw [hscribbled, hmem, hold]

end Interrupts

/-! ## Programs and new tasks -/

section Steps

variable {env : Environment} {boot : BootStack} {s : System} {v : Processors}

theorem Represents.execute {regs : Regs} {m : Mem} (h : Represents env boot s v)
    (hl : Legal env boot s (.execute regs m)) :
    Represents env boot { s with regs := regs, kernel := s.kernel.withMem m }
      (v.execute regs m) := by
  obtain ⟨hstacks, hregs⟩ := hl
  rw [h.current] at hregs
  have hrunning := TimeSharing.running_execute (v := v) (r := regs) (m := m) fun j hj =>
    h.current_lt hj
  refine
    { current := by rw [TimeSharing.current_execute]; exact h.current
      length := by rw [TimeSharing.length_tasks_execute]; exact h.length
      regs := hrunning.symm
      tasks := ?_
      bootRegs := ?_
      stack := h.stack
      distinct := h.distinct
      esp0 := by rw [TimeSharing.current_execute]; exact h.esp0
      suspended := ?_
      shared := fun _ _ => by rw [TimeSharing.shared_execute]; rfl }
  · intro r hr
    cases hc : v.current with
    | none =>
      rw [TimeSharing.execute, hc] at hr
      exact h.tasks r hr
    | some j =>
      rw [TimeSharing.execute, hc] at hr
      -- only the registers of the task that runs are new
      rcases List.mem_or_eq_of_mem_set hr with hr | rfl
      · exact h.tasks r hr
      · rw [if_neg (by rw [hc]; simp)] at hregs
        exact hregs
  · intro hnone
    rw [TimeSharing.current_execute] at hnone
    rw [if_pos hnone] at hregs
    exact hregs
  · intro j task r hj htask hr
    rw [TimeSharing.current_execute] at hj
    rw [TimeSharing.tasks_execute_of_ne hj] at hr
    -- the frames of the other tasks lie on stacks that the program cannot write to
    obtain ⟨hframe, hcontext⟩ := h.suspended j task r hj htask hr
    have hmem := List.mem_of_getElem? htask
    obtain ⟨-, hlt, -, -⟩ := h.stack task hmem
    have hsize := frameSize_le r
    refine ⟨hframe, hcontext.congr (by omega) ?_⟩
    intro a hle ha
    exact hstacks a ⟨task, hmem, h.onStack hmem hframe hle (by omega)⟩

/-! ## New tasks -/

/-- The registers in the first frame of a task. -/
def initialRegs (m : Mem) (userStack entry frame : Nat) : Regs where
  gs := 0x23
  fs := 0x23
  es := 0x23
  ds := 0x23
  -- these are what the page held before
  edi := .ofNat 32 (m.load32 (frame + CpuState.edi))
  esi := .ofNat 32 (m.load32 (frame + CpuState.esi))
  ebp := .ofNat 32 (m.load32 (frame + CpuState.ebp))
  ebx := .ofNat 32 (m.load32 (frame + CpuState.ebx))
  edx := .ofNat 32 (m.load32 (frame + CpuState.edx))
  ecx := .ofNat 32 (m.load32 (frame + CpuState.ecx))
  eax := .ofNat 32 (m.load32 (frame + CpuState.eax))
  eip := .ofNat 32 entry
  cs := 0x1B
  eflags := 0x202
  esp := .ofNat 32 (userStack + 4096)
  ss := 0x23

theorem initial_initialRegs (m : Mem) (userStack entry frame : Nat) :
    Initial userStack entry (initialRegs m userStack entry frame) where
  eip := rfl
  esp := rfl
  eflags := rfl
  cs := rfl
  ss := rfl
  data := by intro x; cases x <;> rfl

theorem dpl_user (env : Environment) : dpl env 0x23 = 3 := by
  have hentry : Gdt.init env.tss 4 = .make 0 0xFFFFF
      (Gdt.accessPresent ||| Gdt.accessDataSeg ||| Gdt.accessRing3)
      (Gdt.flagGranularity4k ||| Gdt.flag32bit) := by
    simp [Gdt.init, Gdt.setEntry]
  show (Gdt.init env.tss 4).segment.dpl = 3
  rw [hentry]
  decide

theorem userRegs_initialRegs (m : Mem) (userStack entry frame : Nat) :
    UserRegs env (initialRegs m userStack entry frame) where
  cpl := by
    show 0 < rpl 0x1B
    decide
  segments := by
    intro x
    rw [(initial_initialRegs m userStack entry frame).data x, Processor.outward, if_neg]
    intro hlt
    rw [dpl_user] at hlt
    exact absurd hlt.2 (by show ¬ 3 < rpl 0x1B; decide)

section NewTask

variable {userStack entry page : Nat}

theorem StackPage.frame (hpage : StackPage boot s page) :
    initialFrame page + CpuState.size = page + 4096 ∧ kernelStackEnd page = page + 4096 := by
  have hlt := hpage.lt
  have hend : kernelStackEnd page = page + 4096 := by
    rw [kernelStackEnd, add32, Nat.mod_eq_of_lt hlt]
  rw [initialFrame, hend, sub32_eq (by simp only [CpuState.size]; omega) hlt]
  simp only [CpuState.size]
  exact ⟨by omega, trivial⟩

/-- `new_task` writes to the new stack. -/
theorem StackPage.mem_newTask (hpage : StackPage boot s page) {a : Nat}
    (ha : a < initialFrame page ∨ page + 4096 ≤ a) :
    (newTask s.kernel.scheduler userStack entry page).mem a = s.mem a := by
  have hlt := hpage.lt
  obtain ⟨hframe, -⟩ := hpage.frame
  rw [newTask_mem]
  apply @storeFields_apply _ _ CpuState.size _ _ _ (by omega) (by omega)
  simp only [initialFields, List.forall_mem_cons, List.not_mem_nil, IsEmpty.forall_iff,
    implies_true, and_true]
  decide

/-- A word of the first frame. -/
theorem load_newTask_of_some (s : System) {userStack entry page f w : Nat}
    (hf : f ∈ CpuState.fields)
    (hw : lastField (initialFields userStack entry (initialFrame page)) f = some w) :
    (newTask s.kernel.scheduler userStack entry page).mem.load32 (initialFrame page + f) =
      (BitVec.ofNat 32 w).toNat := by
  rw [newTask_mem, load32_storeFields _ (wordOffset_initialFields _ _ _) (wordOffset_fields f hf),
    hw, BitVec.toNat_ofNat]
  rfl

theorem load_newTask_of_none (s : System) {userStack entry page f : Nat}
    (hf : f ∈ CpuState.fields)
    (hw : lastField (initialFields userStack entry (initialFrame page)) f = none) :
    (newTask s.kernel.scheduler userStack entry page).mem.load32 (initialFrame page + f) =
      (BitVec.ofNat 32 (s.mem.load32 (initialFrame page + f))).toNat := by
  rw [newTask_mem, load32_storeFields _ (wordOffset_initialFields _ _ _) (wordOffset_fields f hf),
    hw, BitVec.toNat_ofNat, Nat.mod_eq_of_lt (load32_lt _ _)]
  rfl

theorem hasContext_newTask (s : System) (userStack entry page : Nat) :
    HasContext (newTask s.kernel.scheduler userStack entry page).mem (initialFrame page)
      (initialRegs s.mem userStack entry (initialFrame page)) := by
  have hsome := fun {f w : Nat} => @load_newTask_of_some s userStack entry page f w
  have hnone := fun {f : Nat} => @load_newTask_of_none s userStack entry page f
  have hstack : BitVec.ofNat 32 (add32 userStack 4096) = BitVec.ofNat 32 (userStack + 4096) := by
    apply BitVec.eq_of_toNat_eq
    rw [BitVec.toNat_ofNat, BitVec.toNat_ofNat, add32, Nat.mod_mod]
  have hcpl : 0 < (initialRegs s.mem userStack entry (initialFrame page)).cpl := by
    show 0 < rpl 0x1B
    decide
  -- the words that are not loaded again: `esp`, the error code and the vector
  refine ⟨(BitVec.ofNat 32 (initialFrame page)).toNat,
    (BitVec.ofNat 32 (s.mem.load32 (initialFrame page + CpuState.errCode))).toNat,
    (BitVec.ofNat 32 (s.mem.load32 (initialFrame page + CpuState.intNo))).toNat, ?_⟩
  rw [frameSize, contextWords, if_pos hcpl, if_pos hcpl, CpuState.words]
  simp only [CpuState.fields, List.map_cons, List.map_nil]
  -- field by field: what `new_task` stores, and what the page held before
  rw [hsome (f := CpuState.gs) (w := 0x23) (by decide) rfl,
    hsome (f := CpuState.fs) (w := 0x23) (by decide) rfl,
    hsome (f := CpuState.es) (w := 0x23) (by decide) rfl,
    hsome (f := CpuState.ds) (w := 0x23) (by decide) rfl,
    hnone (f := CpuState.edi) (by decide) rfl, hnone (f := CpuState.esi) (by decide) rfl,
    hnone (f := CpuState.ebp) (by decide) rfl,
    hsome (f := CpuState.esp) (by decide) rfl,
    hnone (f := CpuState.ebx) (by decide) rfl, hnone (f := CpuState.edx) (by decide) rfl,
    hnone (f := CpuState.ecx) (by decide) rfl, hnone (f := CpuState.eax) (by decide) rfl,
    hnone (f := CpuState.intNo) (by decide) rfl, hnone (f := CpuState.errCode) (by decide) rfl,
    hsome (f := CpuState.eip) (by decide) rfl,
    hsome (f := CpuState.cs) (w := 0x1B) (by decide) rfl,
    hsome (f := CpuState.eflags) (by decide) rfl,
    hsome (f := CpuState.useresp) (by decide) rfl,
    hsome (f := CpuState.ss) (w := 0x23) (by decide) rfl, hstack]
  rfl

variable (userStack entry) in
theorem Represents.newTask (h : Represents env boot s v) (hpage : StackPage boot s page) :
    ∃ r, Initial userStack entry r ∧
      Represents env boot { s with kernel := { s.kernel with
        scheduler := newTask s.kernel.scheduler userStack entry page } } (v.create r) := by
  refine ⟨initialRegs s.mem userStack entry (initialFrame page), initial_initialRegs _ _ _ _, ?_⟩
  obtain ⟨hframe, hend⟩ := hpage.frame
  have hlt := hpage.lt
  have hlist : (Scheduler.newTask s.kernel.scheduler userStack entry page).taskList =
      s.kernel.scheduler.taskList ++ [⟨page + 4096, initialFrame page⟩] := by
    rw [← hend]
    rfl
  have hlast : ∀ j task, (s.kernel.scheduler.taskList ++
      [(⟨page + 4096, initialFrame page⟩ : Task)])[j]? = some task →
      s.kernel.scheduler.taskList[j]? = some task ∨
        j = v.tasks.length ∧ task = ⟨page + 4096, initialFrame page⟩ := by
    intro j task htask
    rw [List.getElem?_append] at htask
    split at htask
    · exact .inl htask
    · right
      rw [List.getElem?_singleton] at htask
      split at htask
      · rw [h.length] at *
        exact ⟨by omega, (Option.some.inj htask).symm⟩
      · cases htask
  refine
    { current := h.current
      length := ?_
      regs := by rw [TimeSharing.running_create fun j hj => h.current_lt hj]; exact h.regs
      tasks := ?_
      bootRegs := h.bootRegs
      stack := ?_
      distinct := ?_
      esp0 := ?_
      suspended := ?_
      shared := ?_ }
  · show (Scheduler.newTask _ _ _ _).taskList.length = (v.tasks ++ [_]).length
    rw [hlist, List.length_append, List.length_append, h.length]
    rfl
  · intro r hr
    rcases List.mem_append.mp hr with hr | hr
    · exact h.tasks r hr
    · rw [List.mem_singleton.mp hr]
      exact userRegs_initialRegs _ _ _ _
  · intro task htask
    have hne := hpage.ne_zero
    have haligned := hpage.aligned
    have hboot := hpage.notBoot
    change task ∈ (Scheduler.newTask _ _ _ _).taskList at htask
    rw [hlist] at htask
    rcases List.mem_append.mp htask with htask | htask
    · exact h.stack task htask
    · rw [List.mem_singleton.mp htask]
      dsimp only
      omega
  · show ((Scheduler.newTask _ _ _ _).taskList.map _).Nodup
    rw [hlist, List.map_append]
    apply List.Nodup.append h.distinct (List.nodup_singleton _)
    rw [List.disjoint_singleton]
    intro hmem
    obtain ⟨task, htask, heq⟩ := List.mem_map.mp hmem
    exact hpage.fresh task htask heq
  · intro j task hj htask
    change (Scheduler.newTask _ _ _ _).taskList[j]? = _ at htask
    rw [hlist] at htask
    rcases hlast j task htask with htask | ⟨rfl, -⟩
    · exact h.esp0 j task hj htask
    · exact absurd (h.current_lt hj) (Nat.lt_irrefl _)
  · intro j task r hj htask hr
    change (Scheduler.newTask _ _ _ _).taskList[j]? = _ at htask
    rw [hlist] at htask
    change (v.tasks ++ [_])[j]? = some r at hr
    rcases hlast j task htask with htask | ⟨rfl, rfl⟩
    · have hjlt := (List.getElem?_eq_some_iff.mp htask).1
      rw [h.length] at hjlt
      rw [List.getElem?_append_left hjlt] at hr
      obtain ⟨hcpu, hcontext⟩ := h.suspended j task r hj htask hr
      have hmem := List.mem_of_getElem? htask
      obtain ⟨hlow, htop, haligned, -⟩ := h.stack task hmem
      have hne := hpage.fresh task hmem
      have hpage4096 := hpage.aligned
      have hsize := frameSize_le r
      refine ⟨hcpu, hcontext.congr (by omega) ?_⟩
      -- the stack of another task is another page
      intro a hle ha
      obtain ⟨hle', ha'⟩ := h.onStack hmem hcpu hle (by omega)
      apply hpage.mem_newTask
      simp only [CpuState.size] at hframe
      omega
    · rw [List.getElem?_append_right (Nat.le_refl _), Nat.sub_self] at hr
      cases hr
      exact ⟨hframe, hasContext_newTask s userStack entry page⟩
  · intro a ha
    have hold : ¬ Scratch boot s a := by
      intro hscratch
      apply ha
      rcases hscratch with ⟨task, htask, hstack⟩ | hboot
      · left
        refine ⟨task, ?_, hstack⟩
        show task ∈ (Scheduler.newTask _ _ _ _).taskList
        rw [hlist]
        exact List.mem_append_left _ htask
      · exact .inr hboot
    have hnew : ¬ OnStack ⟨page + 4096, initialFrame page⟩ a := by
      intro hstack
      apply ha
      left
      refine ⟨⟨page + 4096, initialFrame page⟩, ?_, hstack⟩
      show _ ∈ (Scheduler.newTask _ _ _ _).taskList
      rw [hlist]
      exact List.mem_append_right _ (List.mem_singleton.mpr rfl)
    show (Scheduler.newTask _ _ _ _).mem a = v.shared a
    rw [← h.shared a hold]
    apply hpage.mem_newTask
    rw [OnStack] at hnew
    simp only [CpuState.size] at hframe
    dsimp only at hnew
    omega

end NewTask

/-! ## Page faults -/

theorem Represents.pageFault {i : Interrupt} (h : Represents env boot s v)
    (hrepaired : Repaired env boot s i) (hshallow : Shallow i) :
    ∃ s' m, interrupt env s i = .ok s' ∧
      (∀ a, a / 4096 ≠ i.cr2 / 4096 → a < 0xFFC00000 → m a = v.shared a) ∧
      Represents env boot s' (v.device m) := by
  obtain ⟨low, harea⟩ := h.area
  obtain ⟨paging, hmapped⟩ := hrepaired.mapped
  have hroom := harea.room
  have hadd := frameOf_add harea.hroom
  have hsize := frameSize_le s.regs
  rw [Shallow] at hshallow
  simp only [CpuState.size] at hsize hshallow
  obtain ⟨m, hrun, hmem⟩ := pageFault_transparent env hrepaired.vector hrepaired.fits h.segments
    harea.hroom hmapped fun a hle ha =>
      hrepaired.elsewhere a (h.kept (harea.scratch a (by omega) (by omega)))
  have hunchanged : ∀ a, a / 4096 ≠ i.cr2 / 4096 → a < 0xFFC00000 →
      a < low ∨ (kernelStart s).regs.esp.toNat ≤ a → m a = s.mem a := by
    intro a hne hlt ha
    exact hmem a hne hlt (by omega)
  -- the device writes the new page and the tables, and nothing else
  refine ⟨_, fun a => if a / 4096 ≠ i.cr2 / 4096 ∧ a < 0xFFC00000 then v.shared a else m a, hrun,
    fun a hne hlt => if_pos ⟨hne, hlt⟩, ?_⟩
  refine h.of_same rfl rfl rfl rfl ?_ ?_
  · intro j task hj htask a ha
    obtain ⟨hne, hlt⟩ :=
      hrepaired.elsewhere a (.inl ⟨task, List.mem_of_getElem? htask, ha⟩)
    exact hunchanged a hne hlt (harea.others j task hj htask a ha)
  · intro a ha
    show m a = _
    by_cases hpage : a / 4096 ≠ i.cr2 / 4096 ∧ a < 0xFFC00000
    · rw [if_pos hpage, ← h.shared a ha]
      exact hunchanged a hpage.1 hpage.2 (harea.outside ha)
    · rw [if_neg hpage]

end Steps

/-! ## Runs -/

section Runs

variable {env : Environment} {boot : BootStack} {keyboardHandler floppyIrq : Irq.HandlerProc}
  {s s₀ : System} {v : Processors}

variable (env) in
/-- The word that a system call looks at. -/
theorem eax_savedKernel {i : Interrupt} {line : Fin 16} (hv : i.vector.toNat = 32 + line.val)
    (herr : i.errorCode = none)
    (hroom : frameSize s.regs + 4 ≤ (kernelStart s).regs.esp.toNat) :
    (savedKernel env s i).scheduler.mem.load32 (frameOf s + CpuState.eax) = s.regs.eax.toNat := by
  have hline := line.isLt
  obtain ⟨hframe, -, -⟩ := frame_atCall env (by omega) (noErrorCode hv herr) hroom
  exact load_field (j := 11) hframe rfl (BitVec.isLt _)

theorem kernelRoutines_apply (keyboardHandler floppyIrq : Irq.HandlerProc) (line : Fin 16) :
    Irq.kernelRoutines keyboardHandler floppyIrq line =
      if line = 6 then some floppyIrq else if line = 3 then some Irq.syscallHandler
      else if line = 0 then some Irq.schedulerNext else if line = 1 then some keyboardHandler
      else none := by
  simp only [Irq.kernelRoutines, Irq.installHandler, Function.update_apply]

/-- A handler that keeps quiet may change the memory that programs share. -/
theorem Represents.device_irq {i : Interrupt} {line : Fin 16} {handler : Irq.HandlerProc}
    (h : Represents env boot s v) (hroutine : env.routines line = some handler)
    (hquiet : Quiet boot handler) (hv : i.vector.toNat = 32 + line.val) (herr : i.errorCode = none)
    (hshallow : Shallow i) :
    ∃ s' m, interrupt env s i = .ok s' ∧ Represents env boot s' (v.device m) := by
  have hhandled : handled env (savedKernel env s i) (frameOf s) line =
      ((handler (savedKernel env s i) (frameOf s)).1, frameOf s) := by
    rw [handled, hroutine]
    exact Prod.ext rfl (hquiet.frame _ _)
  obtain ⟨s', hrun, hrep⟩ := quiet_irq h hv herr hshallow hhandled (hquiet.taskList _ _)
    (hquiet.current _ _) (hquiet.esp0 _ _) (hquiet.mem (savedKernel env s i) (frameOf s))
  exact ⟨s', _, hrun, hrep _ fun _ _ => rfl⟩

/-- Without a handler that does something, nothing changes. -/
theorem Represents.idle_irq {i : Interrupt} {line : Fin 16} (h : Represents env boot s v)
    (hhandled : handled env (savedKernel env s i) (frameOf s) line =
      (savedKernel env s i, frameOf s))
    (hv : i.vector.toNat = 32 + line.val) (herr : i.errorCode = none) (hshallow : Shallow i) :
    ∃ s', interrupt env s i = .ok s' ∧ Represents env boot s' v := by
  have hline := line.isLt
  obtain ⟨low, harea⟩ := h.area
  obtain ⟨s', hrun, hrep⟩ := quiet_irq h hv herr hshallow hhandled rfl rfl rfl fun _ _ => rfl
  refine ⟨s', hrun, hrep v.shared ?_⟩
  intro a ha
  have hsaved := harea.unchanged env (by omega) (noErrorCode hv herr) hshallow
    (harea.outside ha) s.mem
  rw [hsaved.2, h.shared a ha]

/-- An interrupt request. -/
theorem Represents.irq {i : Interrupt} {line : Fin 16} (h : Represents env boot s v)
    (hroutines : env.routines = Irq.kernelRoutines keyboardHandler floppyIrq)
    (hkeyboard : Quiet boot keyboardHandler) (hfloppy : Quiet boot floppyIrq)
    (hv : i.vector.toNat = 32 + line.val) (herr : i.errorCode = none) (hshallow : Shallow i) :
    ∃ s' v', interrupt env s i = .ok s' ∧ Step v (.irq line i) v' ∧
      Represents env boot s' v' := by
  obtain ⟨low, harea⟩ := h.area
  have hroutine := kernelRoutines_apply keyboardHandler floppyIrq line
  rw [← hroutines] at hroutine
  by_cases h6 : line = 6
  · rw [if_pos h6] at hroutine
    obtain ⟨s', m, hrun, hrep⟩ := h.device_irq hroutine hfloppy hv herr hshallow
    exact ⟨s', _, hrun, .device m (.inr h6), hrep⟩
  rw [if_neg h6] at hroutine
  by_cases h3 : line = 3
  · rw [if_pos h3] at hroutine
    have heax := eax_savedKernel env hv herr harea.hroom
    by_cases hyield : s.regs.eax = 0
    · -- the system call that yields
      have hhandled : handled env (savedKernel env s i) (frameOf s) line =
          Irq.schedulerNext (savedKernel env s i) (frameOf s) := by
        rw [handled, hroutine]
        show Irq.syscallHandler _ _ = _
        rw [Irq.syscallHandler, heax, if_pos (by rw [hyield]; rfl)]
      obtain ⟨s', hrun, hrep⟩ := turn_irq h hv herr hshallow hhandled
      exact ⟨s', _, hrun, .turn (.inr ⟨h3, by rw [← h.regs]; exact hyield⟩), hrep⟩
    · have hhandled : handled env (savedKernel env s i) (frameOf s) line =
          (savedKernel env s i, frameOf s) := by
        rw [handled, hroutine]
        show Irq.syscallHandler _ _ = _
        rw [Irq.syscallHandler, heax, if_neg]
        intro hzero
        exact hyield (BitVec.eq_of_toNat_eq hzero)
      obtain ⟨s', hrun, hrep⟩ := h.idle_irq hhandled hv herr hshallow
      refine ⟨s', v, hrun, .idle ?_ fun _ => by rw [← h.regs]; exact hyield, hrep⟩
      rw [h3]
      decide
  rw [if_neg h3] at hroutine
  by_cases h0 : line = 0
  · rw [if_pos h0] at hroutine
    have hhandled : handled env (savedKernel env s i) (frameOf s) line =
        Irq.schedulerNext (savedKernel env s i) (frameOf s) := by
      rw [handled, hroutine]
      rfl
    obtain ⟨s', hrun, hrep⟩ := turn_irq h hv herr hshallow hhandled
    exact ⟨s', _, hrun, .turn (.inl h0), hrep⟩
  rw [if_neg h0] at hroutine
  by_cases h1 : line = 1
  · rw [if_pos h1] at hroutine
    obtain ⟨s', m, hrun, hrep⟩ := h.device_irq hroutine hkeyboard hv herr hshallow
    exact ⟨s', _, hrun, .device m (.inl h1), hrep⟩
  · rw [if_neg h1] at hroutine
    have hhandled : handled env (savedKernel env s i) (frameOf s) line =
        (savedKernel env s i, frameOf s) := by
      rw [handled, hroutine]
      rfl
    obtain ⟨s', hrun, hrep⟩ := h.idle_irq hhandled hv herr hshallow
    exact ⟨s', v, hrun, .idle ⟨h0, h1, h6⟩ fun heq => absurd heq h3, hrep⟩

/-- One input, which never stops the system. -/
theorem Represents.step {i : Input} (h : Represents env boot s v)
    (hroutines : env.routines = Irq.kernelRoutines keyboardHandler floppyIrq)
    (hkeyboard : Quiet boot keyboardHandler) (hfloppy : Quiet boot floppyIrq)
    (hl : (machine env boot).legal s i) :
    ∃ s' v', (machine env boot).step s i = .ok ((), s') ∧ Step v i v' ∧
      Represents env boot s' v' := by
  cases i with
  | execute regs m => exact ⟨_, _, rfl, .execute regs m, h.execute hl⟩
  | newTask userStack entry page =>
    obtain ⟨r, hr, hrep⟩ := h.newTask userStack entry hl
    exact ⟨_, _, rfl, .newTask hr, hrep⟩
  | irq line i =>
    obtain ⟨hv, herr, hshallow⟩ := hl
    obtain ⟨s', v', hrun, hstep, hrep⟩ := h.irq hroutines hkeyboard hfloppy hv herr hshallow
    refine ⟨s', v', ?_, hstep, hrep⟩
    show (interrupt env s i).map _ = _
    rw [hrun]
    rfl
  | pageFault i =>
    obtain ⟨s', m, hrun, hm, hrep⟩ := h.pageFault hl.1 hl.2
    refine ⟨s', _, ?_, .pageFault m hm, hrep⟩
    show (interrupt env s i).map _ = _
    rw [hrun]
    rfl

/-- Before there are tasks. -/
def noTasks (s : System) : Processors := ⟨s.regs, [], none, s.mem⟩

theorem represents_init (h : (machine env boot).init s₀) :
    Represents env boot s₀ (noTasks s₀) := by
  obtain ⟨hnil, hboot⟩ := h
  have hcurrent : s₀.kernel.scheduler.current = none := by
    cases hc : s₀.kernel.scheduler.current with
    | none => rfl
    | some j =>
      have hlt := s₀.kernel.scheduler.current_lt j hc
      rw [hnil] at hlt
      exact absurd hlt (Nat.not_lt_zero _)
  refine
    { current := hcurrent
      length := by rw [hnil]; rfl
      regs := rfl
      tasks := fun r hr => absurd hr (List.not_mem_nil)
      bootRegs := fun _ => hboot
      stack := fun task htask => absurd (hnil ▸ htask) (List.not_mem_nil)
      distinct := by rw [hnil]; exact List.nodup_nil
      esp0 := fun j task hj => by cases hj
      suspended := fun j task r _ htask => by rw [hnil] at htask; cases htask
      shared := fun _ _ => rfl }

end Runs

end TimbOS.Native.System
