import TimbOS.ForStd.Memory
import TimbOS.Native.Mmdef

/-!
# The scheduler

`scheduler.cpp` keeps its tasks in a `std::list` that only grows at its end, and an
iterator into it. The list is a list here and the iterator an index, where `none` is
`end()`. The lists of libc++ are circular, so `++end()` is `begin()`.

A `cpu_state` is a frame of 76 bytes on some kernel stack; tasks and callers hold its
address.
-/

namespace TimbOS.Native.Scheduler

open ForStd

/-! ## `cpu_state` -/

namespace CpuState

/-- `sizeof( struct cpu_state )` -/
def size : Nat := 76

/-! Offsets of the fields. -/

def gs : Nat := 0
def fs : Nat := 4
def es : Nat := 8
def ds : Nat := 12
def edi : Nat := 16
def esi : Nat := 20
def ebp : Nat := 24
def esp : Nat := 28
def ebx : Nat := 32
def edx : Nat := 36
def ecx : Nat := 40
def eax : Nat := 44
def intNo : Nat := 48
def errCode : Nat := 52
def eip : Nat := 56
def cs : Nat := 60
def eflags : Nat := 64
def useresp : Nat := 68
def ss : Nat := 72

/-- All fields, in the order of the structure. -/
def fields : List Nat :=
  [gs, fs, es, ds, edi, esi, ebp, esp, ebx, edx, ecx, eax, intNo, errCode, eip, cs, eflags,
    useresp, ss]

/-- The words of the frame at `regs`. -/
def words (m : Mem) (regs : Nat) : List Nat := fields.map fun f => m.load32 (regs + f)

end CpuState

/-! ## Tasks -/

structure Task where
  kernelStack : Nat
  cpuState : Nat
  deriving DecidableEq, Repr

/-- Memory, `s_task_list`, `s_current_task_it`, and the `esp0` of the TSS. -/
structure State where
  mem : Mem
  taskList : List Task
  current : Option Nat
  esp0 : Nat
  /-- The iterator points into the list. -/
  current_lt : ∀ i, current = some i → i < taskList.length

/-- `(*s_current_task_it)->cpu_state = regs`, unless the iterator is at the end. -/
def saveFrame (tasks : List Task) (it : Option Nat) (regs : Nat) : List Task :=
  match it with
  | some i => tasks.modify i fun task => { task with cpuState := regs }
  | none => tasks

@[simp] theorem length_saveFrame (tasks : List Task) (it : Option Nat) (regs : Nat) :
    (saveFrame tasks it regs).length = tasks.length := by
  cases it with
  | none => rfl
  | some i => exact List.length_modify _ _ _

/-- `if( ++it == end() ) it = begin();` in a list of `n` tasks. -/
def following (n : Nat) (hn : 0 < n) (it : Option Nat) : Fin n :=
  match it with
  | some i => if h : i + 1 < n then ⟨i + 1, h⟩ else ⟨0, hn⟩
  | none => ⟨0, hn⟩

/-! ## `next` and `new_task` -/

/-- `next( regs )` returns the frame to go on with. -/
def next (s : State) (regs : Nat) : Nat × State :=
  if h : s.taskList = [] then
    (regs, s)
  else
    -- the frame of the task that was interrupted
    let tasks := saveFrame s.taskList s.current regs
    -- the next task, or the first one
    let it := following tasks.length
      (by rw [length_saveFrame]; exact List.length_pos_iff.mpr h) s.current
    let task := tasks.get it
    (task.cpuState,
      { s with
        taskList := tasks
        current := some it
        esp0 := task.kernelStack
        current_lt := by
          intro i hi
          rw [← Option.some.inj hi]
          exact it.isLt })

/-- End of the kernel stack in the page that `new_task` allocates. -/
def kernelStackEnd (page : Nat) : Nat := add32 page 4096

/-- Where `new_task` puts the frame of a new task. -/
def initialFrame (page : Nat) : Nat := sub32 (kernelStackEnd page) CpuState.size

/-- `new_task( user_stack, entry )`, where `page` is what `mm::alloc_pages` returns. -/
def newTask (s : State) (userStack entry page : Nat) : State :=
  let userStackEnd := add32 userStack 4096
  let regs := initialFrame page
  -- `sizeof(regs)` is the size of the pointer, so this clears one word
  let m := s.mem.store32 regs 0
  let m := m.store32 (regs + CpuState.eip) entry
  let m := m.store32 (regs + CpuState.esp) regs
  let m := m.store32 (regs + CpuState.useresp) userStackEnd
  -- user segments
  let m := m.store32 (regs + CpuState.cs) (0x18 ||| 0x03)
  let m := m.store32 (regs + CpuState.ss) (0x20 ||| 0x03)
  let m := m.store32 (regs + CpuState.ds) (0x20 ||| 0x03)
  let m := m.store32 (regs + CpuState.es) (0x20 ||| 0x03)
  let m := m.store32 (regs + CpuState.fs) (0x20 ||| 0x03)
  let m := m.store32 (regs + CpuState.gs) (0x20 ||| 0x03)
  let m := m.store32 (regs + CpuState.eflags) 0x0202
  { s with
    mem := m
    taskList := s.taskList ++ [⟨kernelStackEnd page, regs⟩]
    current_lt := by
      intro i hi
      rw [List.length_append]
      exact Nat.lt_of_lt_of_le (s.current_lt i hi) (Nat.le_add_right _ _) }

end TimbOS.Native.Scheduler
