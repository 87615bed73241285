import TimbOS.Native.Scheduler

/-!
# The first frame of a task

`new_task` builds the frame that a new task starts from in a page that it gets from the page
allocator. It clears as many bytes as a pointer has and then sets ten of the nineteen words,
so the others are what the page held before.

## Key results

- `newTask_mem`, `newTask_inherits`: the memory after `new_task`
- `newTask_frame_iff`: exactly which words of the page reach the task
- `newTask_leaks`: a register of the new task with a value from an old page
-/

namespace TimbOS.Native.Scheduler

open ForStd

/-- What `new_task` stores in the frame at `regs`, in its order. -/
def initialFields (userStack entry regs : Nat) : List (Nat × Nat) :=
  [(CpuState.gs, 0), (CpuState.eip, entry), (CpuState.esp, regs),
    (CpuState.useresp, add32 userStack 4096), (CpuState.cs, 0x18 ||| 0x03),
    (CpuState.ss, 0x20 ||| 0x03), (CpuState.ds, 0x20 ||| 0x03), (CpuState.es, 0x20 ||| 0x03),
    (CpuState.fs, 0x20 ||| 0x03), (CpuState.gs, 0x20 ||| 0x03), (CpuState.eflags, 0x0202)]

/-- The fields that `new_task` does not set. -/
def inheritedFields : List Nat :=
  [CpuState.edi, CpuState.esi, CpuState.ebp, CpuState.ebx, CpuState.edx, CpuState.ecx,
    CpuState.eax, CpuState.intNo, CpuState.errCode]

theorem newTask_mem (s : State) (userStack entry page : Nat) :
    (newTask s userStack entry page).mem = s.mem.storeFields (initialFrame page)
      (initialFields userStack entry (initialFrame page)) := by
  dsimp only [newTask]
  generalize initialFrame page = regs
  simp only [Mem.storeFields, initialFields, List.foldl_cons, List.foldl_nil]
  -- the word that is cleared is the first one
  have hgs : regs + CpuState.gs = regs := Nat.add_zero regs
  rw [hgs]

/-- Every field is set or inherited, whatever the values are. -/
theorem inherited_or_initial (userStack entry regs : Nat) : ∀ f ∈ CpuState.fields,
    (f ∈ (initialFields userStack entry regs).map Prod.fst ↔ f ∉ inheritedFields) := by
  simp only [initialFields, List.map_cons, List.map_nil]
  decide

theorem wordOffset_fields : ∀ f ∈ CpuState.fields, Mem.WordOffset f := by decide

theorem wordOffset_initialFields (userStack entry regs : Nat) :
    ∀ f ∈ initialFields userStack entry regs, Mem.WordOffset f.1 := by
  simp only [initialFields, List.forall_mem_cons, List.not_mem_nil, IsEmpty.forall_iff,
    implies_true, and_true]
  decide

theorem inherited_subset : ∀ f ∈ inheritedFields, f ∈ CpuState.fields := by decide

/-- A field that is not set has the word that the page held before. -/
theorem newTask_inherits (s : State) (userStack entry page : Nat) {f : Nat}
    (hf : f ∈ inheritedFields) :
    (newTask s userStack entry page).mem.load32 (initialFrame page + f) =
      s.mem.load32 (initialFrame page + f) := by
  have hfield := inherited_subset f hf
  rw [newTask_mem]
  apply Mem.load32_storeFields_of_notMem _
    (wordOffset_initialFields userStack entry (initialFrame page)) (wordOffset_fields f hfield)
  rw [inherited_or_initial userStack entry (initialFrame page) f hfield, not_not]
  exact hf

/-- The frames of two tasks that are created in the same page with the same arguments are
    equal, exactly if the words agree that `new_task` does not set. -/
theorem newTask_frame_iff (s s' : State) (userStack entry page : Nat) :
    CpuState.words (newTask s userStack entry page).mem (initialFrame page) =
        CpuState.words (newTask s' userStack entry page).mem (initialFrame page) ↔
      ∀ f ∈ inheritedFields,
        s.mem.load32 (initialFrame page + f) = s'.mem.load32 (initialFrame page + f) := by
  rw [CpuState.words, CpuState.words, List.map_inj_left]
  constructor
  · intro hsame f hf
    have hword := hsame f (inherited_subset f hf)
    rw [newTask_inherits s userStack entry page hf,
      newTask_inherits s' userStack entry page hf] at hword
    exact hword
  · intro hagree f hf
    by_cases hin : f ∈ inheritedFields
    · rw [newTask_inherits s userStack entry page hin,
        newTask_inherits s' userStack entry page hin]
      exact hagree f hin
    · -- a field that is set has its value whatever the page held
      rw [newTask_mem, newTask_mem]
      apply Mem.load32_storeFields_of_mem _ _
        (wordOffset_initialFields userStack entry (initialFrame page)) (wordOffset_fields f hf)
      rw [inherited_or_initial userStack entry (initialFrame page) f hf]
      exact hin

/-! ## A page that held data before -/

/-- Memory with a word in the page at `0x5000`, where the frame has `eax`. -/
def usedPage : Mem := Mem.store32 (fun _ => 0) 0x5fe0 0x12345678

theorem currentLt_none (i : Nat) (h : none = some i) : i < ([] : List Task).length := by
  cases h

/-- No tasks yet. -/
def noTasks (m : Mem) : State := ⟨m, [], none, 0, currentLt_none⟩

/-- The memories differ in the page only, and `eax` of the task is the word that was there. -/
theorem newTask_leaks :
    (∀ a, ¬ (0x5000 ≤ a ∧ a < 0x5000 + 4096) → usedPage a = 0) ∧
      CpuState.words (newTask (noTasks usedPage) 0x8000 0x100000 0x5000).mem
          (initialFrame 0x5000) ≠
        CpuState.words (newTask (noTasks fun _ => 0) 0x8000 0x100000 0x5000).mem
          (initialFrame 0x5000) := by
  constructor
  · intro a ha
    exact Mem.store32_apply _ _ (by decide) (by omega)
  · rw [ne_eq, newTask_frame_iff]
    intro hagree
    exact absurd (hagree CpuState.eax (by decide)) (by decide)

end TimbOS.Native.Scheduler
