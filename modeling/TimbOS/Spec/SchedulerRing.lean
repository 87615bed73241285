import TimbOS.ForStd.Transition
import TimbOS.Native.Scheduler

/-!
# The ring of tasks

Runs of the scheduler, where tasks are created and timer ticks or yields arrive in any
order. A task is named by its place in the list, which never changes.

## Key results

- `step_next`: what one call of `next` does
- `Log`: the state agrees with what happened so far
- `count_between`, `saved_between`: between two resumptions of a task
- `ring`: the order of the tasks, their frames and their kernel stacks
-/

namespace TimbOS.Native.Scheduler

open ForStd

/-! ## Runs -/

/-- What happens next. -/
inductive Op where
  /-- `new_task( user_stack, entry )`, where `mm::alloc_pages` returns `page`. -/
  | newTask (userStack entry page : Nat)
  /-- A timer tick or a yield, with the frame of what was running. -/
  | next (regs : Nat)

/-- What came of it. -/
inductive Outcome where
  | created
  /-- There was no task, and the call returned `frame`. -/
  | idle (frame : Nat)
  /-- The call returned `frame` to resume `task`, with `esp0` in the TSS. -/
  | resumed (task frame esp0 : Nat)
  deriving DecidableEq, Repr

def step (s : State) : Op → Except Empty (Outcome × State)
  | .newTask userStack entry page => .ok (.created, newTask s userStack entry page)
  | .next regs =>
    let (frame, s') := next s regs
    match s'.current with
    | some i => .ok (.resumed i frame s'.esp0, s')
    | none => .ok (.idle frame, s')

/-- The scheduler as a machine. Page allocations succeed. -/
def machine : Machine State Op Outcome Empty where
  init := fun s => s.taskList = []
  legal := fun _ op =>
    match op with
    | .newTask _ _ page => page ≠ 0
    | .next _ => True
  step := step

/-- The tasks resumed in a run, in order. -/
def resumedTasks (t : List (Op × Outcome)) : List Nat :=
  t.filterMap fun x =>
    match x.2 with
    | .resumed task _ _ => some task
    | _ => none

/-- The frames passed to `next`, in order. -/
def frames (t : List (Op × Outcome)) : List Nat :=
  t.filterMap fun x =>
    match x.1 with
    | .next regs => some regs
    | .newTask _ _ _ => none

/-- The pages of the kernel stacks, in the order of the tasks. -/
def pages (t : List (Op × Outcome)) : List Nat :=
  t.filterMap fun x =>
    match x.1 with
    | .newTask _ _ page => some page
    | .next _ => none

@[simp] theorem resumedTasks_append (t₁ t₂ : List (Op × Outcome)) :
    resumedTasks (t₁ ++ t₂) = resumedTasks t₁ ++ resumedTasks t₂ :=
  List.filterMap_append

@[simp] theorem frames_append (t₁ t₂ : List (Op × Outcome)) :
    frames (t₁ ++ t₂) = frames t₁ ++ frames t₂ :=
  List.filterMap_append

@[simp] theorem pages_append (t₁ t₂ : List (Op × Outcome)) :
    pages (t₁ ++ t₂) = pages t₁ ++ pages t₂ :=
  List.filterMap_append

/-! ## One step -/

/-- The place after `it` in a ring of `n` tasks. -/
def successor (n : Nat) : Option Nat → Nat
  | some i => if i + 1 < n then i + 1 else 0
  | none => 0

theorem following_val (n : Nat) (hn : 0 < n) (it : Option Nat) :
    (following n hn it).val = successor n it := by
  cases it with
  | none => rfl
  | some i =>
    by_cases h : i + 1 < n
    · simp [following, successor, h]
    · simp [following, successor, h]

/-- Only the suspended task's frame changes. -/
theorem saveFrame_getElem? (tasks : List Task) (it : Option Nat) (regs j : Nat) :
    (saveFrame tasks it regs)[j]? =
      tasks[j]?.map fun task => if it = some j then { task with cpuState := regs } else task := by
  cases it with
  | none => simp [saveFrame]
  | some i =>
    rw [saveFrame, List.getElem?_modify]
    by_cases hij : i = j
    · simp [hij]
    · simp [hij]

section Step

variable {s s' : State} {regs : Nat} {o : Outcome}

/-- Without tasks, `next` gives the frame back. With tasks, it suspends the current one
    and resumes the one after it. -/
theorem step_next (h : machine.step s (.next regs) = .ok (o, s')) :
    (s.taskList = [] ∧ o = .idle regs ∧ s' = s) ∨
      ∃ task, (saveFrame s.taskList s.current regs)[successor s.taskList.length s.current]? =
          some task ∧
        o = .resumed (successor s.taskList.length s.current) task.cpuState task.kernelStack ∧
        s'.taskList = saveFrame s.taskList s.current regs ∧
        s'.current = some (successor s.taskList.length s.current) := by
  have hstep : step s (.next regs) = .ok (o, s') := h
  unfold step at hstep
  by_cases hnil : s.taskList = []
  · left
    have hnext : next s regs = (regs, s) := by
      unfold next
      rw [dif_pos hnil]
    -- without tasks the iterator is at the end
    have hcurrent : s.current = none := by
      cases hc : s.current with
      | none => rfl
      | some i =>
        have hlt := s.current_lt i hc
        simp [hnil] at hlt
    simp only [hnext, hcurrent, Except.ok.injEq, Prod.mk.injEq] at hstep
    exact ⟨hnil, hstep.1.symm, hstep.2.symm⟩
  · right
    simp only [next, dif_neg hnil, following_val, length_saveFrame, Except.ok.injEq,
      Prod.mk.injEq] at hstep
    obtain ⟨rfl, rfl⟩ := hstep
    refine ⟨_, ?_, rfl, rfl, rfl⟩
    have hpos : 0 < (saveFrame s.taskList s.current regs).length := by
      rw [length_saveFrame]
      exact List.length_pos_iff.mpr hnil
    have hval : (following _ hpos s.current).val = successor s.taskList.length s.current := by
      rw [following_val, length_saveFrame]
    rw [← hval]
    exact List.getElem?_eq_getElem _

end Step

/-! ## The log -/

/-- The state agrees with what happened so far. -/
structure Log (t : List (Op × Outcome)) (s : State) : Prop where
  kernelStacks : s.taskList.map Task.kernelStack = (pages t).map kernelStackEnd
  current : s.current = (resumedTasks t).getLast?
  /-- A task that never ran still has its initial frame. -/
  fresh : ∀ j page, j ∉ resumedTasks t → (pages t)[j]? = some page →
    s.taskList[j]?.map Task.cpuState = some (initialFrame page)

section Log

variable {s s' : State} {t : List (Op × Outcome)} {j : Nat}

theorem Log.length_eq (h : Log t s) : s.taskList.length = (pages t).length := by
  have hlen := congrArg List.length h.kernelStacks
  rwa [List.length_map, List.length_map] at hlen

theorem Log.nil (h : machine.init s) : Log [] s := by
  have hnil : s.taskList = [] := h
  refine ⟨?_, ?_, ?_⟩
  · rw [hnil]
    rfl
  · cases hc : s.current with
    | none => rfl
    | some i =>
      have hlt := s.current_lt i hc
      simp [hnil] at hlt
  · intro j page _ hpage
    cases hpage

/-- The kernel stack of a task stays what it was. -/
theorem map_kernelStack_saveFrame (tasks : List Task) (it : Option Nat) (regs : Nat) :
    (saveFrame tasks it regs).map Task.kernelStack = tasks.map Task.kernelStack := by
  apply List.ext_getElem?
  intro j
  rw [List.getElem?_map, saveFrame_getElem?, List.getElem?_map, Option.map_map]
  congr 1
  funext task
  by_cases h : it = some j
  · simp [h]
  · simp [h]

theorem Log.snoc {op : Op} {o : Outcome} (h : Log t s) (hs : machine.step s op = .ok (o, s')) :
    Log (t ++ [(op, o)]) s' := by
  cases op with
  | newTask userStack entry page =>
    cases hs
    have hpages : pages (t ++ [(Op.newTask userStack entry page, Outcome.created)]) =
        pages t ++ [page] := pages_append _ _
    have hresumed : resumedTasks (t ++ [(Op.newTask userStack entry page, Outcome.created)]) =
        resumedTasks t := by
      rw [resumedTasks_append]
      exact List.append_nil _
    refine ⟨?_, ?_, ?_⟩
    · show (s.taskList ++ [_]).map Task.kernelStack = _
      rw [hpages, List.map_append, List.map_append, h.kernelStacks]
      rfl
    · rw [hresumed]
      exact h.current
    · intro j page' hj hpage'
      rw [hresumed] at hj
      rw [hpages] at hpage'
      show (s.taskList ++ [_])[j]?.map Task.cpuState = _
      by_cases hlt : j < (pages t).length
      · rw [List.getElem?_append_left hlt] at hpage'
        rw [List.getElem?_append_left (by rw [h.length_eq]; exact hlt)]
        exact h.fresh j page' hj hpage'
      · have hge : (pages t).length ≤ j := by omega
        rw [List.getElem?_append_right hge] at hpage'
        rw [List.getElem?_append_right (by rw [h.length_eq]; exact hge), h.length_eq]
        cases hk : j - (pages t).length with
        | zero =>
          rw [hk] at hpage'
          cases hpage'
          rfl
        | succ k =>
          rw [hk] at hpage'
          cases hpage'
  | next regs =>
    rcases step_next hs with ⟨hnil, rfl, rfl⟩ | ⟨task, htask, rfl, htasks, hcurrent⟩
    · have hpages : pages (t ++ [(Op.next regs, Outcome.idle regs)]) = pages t := by
        rw [pages_append]
        exact List.append_nil _
      have hresumed : resumedTasks (t ++ [(Op.next regs, Outcome.idle regs)]) =
          resumedTasks t := by
        rw [resumedTasks_append]
        exact List.append_nil _
      refine ⟨?_, ?_, ?_⟩
      · rw [hpages]
        exact h.kernelStacks
      · rw [hresumed]
        exact h.current
      · rw [hpages, hresumed]
        exact h.fresh
    · have hpages : ∀ o, pages (t ++ [(Op.next regs, o)]) = pages t := by
        intro o
        rw [pages_append]
        exact List.append_nil _
      have hresumed : ∀ i f e, resumedTasks (t ++ [(Op.next regs, Outcome.resumed i f e)]) =
          resumedTasks t ++ [i] := fun i f e => resumedTasks_append _ _
      refine ⟨?_, ?_, ?_⟩
      · rw [htasks, map_kernelStack_saveFrame, hpages]
        exact h.kernelStacks
      · rw [hresumed, hcurrent, List.getLast?_concat]
      · intro j page hj hpage
        rw [hresumed, List.mem_append, not_or] at hj
        rw [hpages] at hpage
        -- the suspended task ran before, so it is not `j`
        have hne : s.current ≠ some j := by
          intro heq
          rw [h.current] at heq
          exact hj.1 (List.mem_of_getLast? heq)
        rw [htasks, saveFrame_getElem?, Option.map_map]
        simpa [if_neg hne, Function.comp_def] using h.fresh j page hj.1 hpage

theorem run_log {s₀ : State} (h0 : machine.init s₀) (h : machine.Run s₀ t s) : Log t s :=
  h.invariant (P := fun t s => Log t s) (Log.nil h0) fun _ _ _ _ _ _ hlog _ hs => hlog.snoc hs

end Log

/-! ## Between two resumptions -/

/-- Going round the ring from task `i`, place `c` is at or behind place `j`. -/
def Passed (i j c : Nat) : Prop := (i < j ∧ (c < i ∨ j ≤ c)) ∨ (j < i ∧ j ≤ c ∧ c < i)

instance (i j c : Nat) : Decidable (Passed i j c) := inferInstanceAs (Decidable (_ ∨ _))

/-- One place on, while the round from `i` is not over. -/
theorem passed_successor {n i j c : Nat} (hj : j < n) (hin : i < n) (hc : c < n)
    (hi : successor n (some c) ≠ i) :
    (successor n (some c) = j → ¬ Passed i j c ∧ Passed i j j) ∧
      (successor n (some c) ≠ j → (Passed i j (successor n (some c)) ↔ Passed i j c)) := by
  simp only [successor] at hi ⊢
  unfold Passed
  split at hi
  · rename_i hlt
    rw [if_pos hlt]
    constructor
    · intro heq
      exact ⟨by omega, by omega⟩
    · intro hne
      omega
  · rename_i hge
    rw [if_neg hge]
    constructor
    · intro heq
      exact ⟨by omega, by omega⟩
    · intro hne
      omega

/-- When the round is over, every other place was passed. -/
theorem passed_of_successor_eq {n i j c : Nat} (hj : j < n) (hc : c < n) (hji : j ≠ i)
    (hi : successor n (some c) = i) : Passed i j c := by
  simp only [successor] at hi
  unfold Passed
  split at hi
  · omega
  · omega

section Between

variable {s s' : State} {t : List (Op × Outcome)} {i j : Nat}

/-- While task `i` waits for its turn after running, every other task runs once as the
    round passes it. -/
theorem count_between (h : machine.Run s t s') (hi : s.current = some i)
    (hnot : i ∉ resumedTasks t) (hj : j < s.taskList.length) :
    ∃ c, s'.current = some c ∧ j < s'.taskList.length ∧ i < s'.taskList.length ∧
      (resumedTasks t).count j = if Passed i j c then 1 else 0 := by
  revert hnot
  apply h.invariant (P := fun t s' => i ∉ resumedTasks t →
    ∃ c, s'.current = some c ∧ j < s'.taskList.length ∧ i < s'.taskList.length ∧
      (resumedTasks t).count j = if Passed i j c then 1 else 0)
  · -- at the start nothing has been passed
    intro _
    refine ⟨i, hi, hj, s.current_lt i hi, ?_⟩
    have hstart : ¬ Passed i j i := by
      unfold Passed
      omega
    rw [if_neg hstart]
    rfl
  · intro t s₁ op o s₂ _ ih _ hs hnot
    rw [resumedTasks_append, List.mem_append, not_or] at hnot
    obtain ⟨c, hc, hjlt, hilt, hcount⟩ := ih hnot.1
    have hclt := s₁.current_lt c hc
    rw [resumedTasks_append, List.count_append, hcount]
    cases op with
    -- a new task goes to the end of the list and keeps all positions
    | newTask userStack entry page =>
      cases hs
      have hlen : (s₁.taskList ++ [Task.mk (kernelStackEnd page) (initialFrame page)]).length =
          s₁.taskList.length + 1 := List.length_append
      refine ⟨c, hc, ?_, ?_, rfl⟩
      · exact Nat.lt_of_lt_of_eq (Nat.lt_succ_of_lt hjlt) hlen.symm
      · exact Nat.lt_of_lt_of_eq (Nat.lt_succ_of_lt hilt) hlen.symm
    | next regs =>
      rcases step_next hs with ⟨hnil, _, _⟩ | ⟨task, _, rfl, htasks, hcurrent⟩
      · simp [hnil] at hjlt
      · have hother : successor s₁.taskList.length s₁.current ≠ i := by
          intro heq
          apply hnot.2
          rw [heq]
          exact List.mem_singleton.mpr rfl
        rw [hc] at hother hcurrent ⊢
        obtain ⟨hhit, hmiss⟩ := passed_successor hjlt hilt hclt hother
        have hlen : s₂.taskList.length = s₁.taskList.length := by
          rw [htasks, length_saveFrame]
        refine ⟨_, hcurrent, hlen ▸ hjlt, hlen ▸ hilt, ?_⟩
        show _ + [successor s₁.taskList.length (some c)].count j = _
        rw [List.count_singleton]
        -- a tick passes the task that it resumes, and no other
        by_cases heq : successor s₁.taskList.length (some c) = j
        · obtain ⟨hbefore, hafter⟩ := hhit heq
          rw [heq, if_neg hbefore, if_pos hafter]
          simp
        · have hsame := hmiss heq
          simp [heq, hsame]

/-- While task `j` waits for its turn after running, its frame is the one of the first call
    of `next`. -/
theorem saved_between (h : machine.Run s t s') (hj : s.current = some j)
    (hnot : j ∉ resumedTasks t) :
    (frames t = [] ∧ s'.current = some j) ∨
      (s'.current ≠ some j ∧ ∃ r, (frames t).head? = some r ∧
        s'.taskList[j]?.map Task.cpuState = some r) := by
  revert hnot
  apply h.invariant (P := fun t s' => j ∉ resumedTasks t →
    (frames t = [] ∧ s'.current = some j) ∨
      (s'.current ≠ some j ∧ ∃ r, (frames t).head? = some r ∧
        s'.taskList[j]?.map Task.cpuState = some r))
  · intro _
    exact Or.inl ⟨rfl, hj⟩
  · intro t s₁ op o s₂ _ ih _ hs hnot
    rw [resumedTasks_append, List.mem_append, not_or] at hnot
    have hcase := ih hnot.1
    rw [frames_append]
    cases op with
    | newTask userStack entry page =>
      cases hs
      have hnone : frames [(Op.newTask userStack entry page, Outcome.created)] = [] := rfl
      rw [hnone, List.append_nil]
      rcases hcase with hcase | ⟨hne, r, hr, hsaved⟩
      · exact Or.inl hcase
      · refine Or.inr ⟨hne, r, hr, ?_⟩
        -- the task is in the old list
        obtain ⟨task, htask, _⟩ := Option.map_eq_some_iff.mp hsaved
        obtain ⟨hlt, _⟩ := List.getElem?_eq_some_iff.mp htask
        show (s₁.taskList ++ [_])[j]?.map Task.cpuState = some r
        rw [List.getElem?_append_left hlt]
        exact hsaved
    | next regs =>
      have hone : frames [(Op.next regs, o)] = [regs] := rfl
      rw [hone]
      rcases step_next hs with ⟨hnil, _, _⟩ | ⟨task, _, rfl, htasks, hcurrent⟩
      · -- a list with task `j` in it is not empty
        rcases hcase with ⟨_, hc⟩ | ⟨_, r, _, hsaved⟩
        · have hlt := s₁.current_lt j hc
          simp [hnil] at hlt
        · simp [hnil] at hsaved
      · have hother : successor s₁.taskList.length s₁.current ≠ j := by
          intro heq
          apply hnot.2
          rw [heq]
          exact List.mem_singleton.mpr rfl
        right
        rw [hcurrent, htasks, saveFrame_getElem?, Option.map_map]
        refine ⟨fun heq => hother (Option.some.inj heq), ?_⟩
        rcases hcase with ⟨hempty, hc⟩ | ⟨hne, r, hr, hsaved⟩
        · -- this call suspends the task
          have hlt := s₁.current_lt j hc
          refine ⟨regs, by rw [hempty]; rfl, ?_⟩
          rw [hc, List.getElem?_eq_getElem hlt]
          simp
        · refine ⟨r, by rw [List.head?_append, hr]; rfl, ?_⟩
          simpa [if_neg hne, Function.comp_def] using hsaved

end Between

/-! ## The ring -/

/-- After the run `t`, a call of `next` with the frame `regs` may resume task `j` with the
    frame `frame` and the kernel stack `esp0`. -/
structure Resumes (t : List (Op × Outcome)) (regs j frame esp0 : Nat) : Prop where
  /-- The task follows the one resumed last, in the order of creation. -/
  order : j = successor (pages t).length (resumedTasks t).getLast?
  /-- Since it was resumed last, every other task that was there ran exactly once, and the
      frame is that of the first call of `next`, which suspended it. -/
  between : ∀ t₁ t₂ r f e, t = t₁ ++ (.next r, .resumed j f e) :: t₂ → j ∉ resumedTasks t₂ →
    (∀ i, i < (pages t₁).length → i ≠ j → (resumedTasks t₂).count i = 1) ∧
      (frames t₂ ++ [regs]).head? = some frame
  fresh : j ∉ resumedTasks t → ∃ page, (pages t)[j]? = some page ∧ frame = initialFrame page
  stack : ∃ page, (pages t)[j]? = some page ∧ esp0 = kernelStackEnd page

theorem resumes_of_step {s₀ s s' : State} {t : List (Op × Outcome)} {regs j frame esp0 : Nat}
    (h0 : machine.init s₀) (h : machine.Run s₀ t s)
    (hs : machine.step s (.next regs) = .ok (.resumed j frame esp0, s')) :
    Resumes t regs j frame esp0 := by
  have hlog := run_log h0 h
  rcases step_next hs with ⟨_, hidle, _⟩ | ⟨task, htask, hresumed, _, _⟩
  · cases hidle
  · cases hresumed
    rw [saveFrame_getElem?] at htask
    obtain ⟨old, hold, hframe⟩ := Option.map_eq_some_iff.mp htask
    -- the page of the task's kernel stack
    have hstack : old.kernelStack = task.kernelStack := by
      rw [← hframe]
      split
      · rfl
      · rfl
    have hpage : ∃ page, (pages t)[successor s.taskList.length s.current]? = some page ∧
        task.kernelStack = kernelStackEnd page := by
      have hget := congrArg (fun l => l[successor s.taskList.length s.current]?) hlog.kernelStacks
      simp only [List.getElem?_map, hold, Option.map_some] at hget
      obtain ⟨page, hpage, heq⟩ := Option.map_eq_some_iff.mp hget.symm
      exact ⟨page, hpage, by rw [← hstack, heq]⟩
    refine ⟨?_, ?_, ?_, hpage⟩
    · rw [hlog.length_eq, hlog.current]
    · rintro t₁ t₂ r f e rfl hnot
      obtain ⟨s₁, h₁, h₂⟩ := Machine.Run.split t₁ h
      obtain ⟨s₂, _, hs₁, hrun⟩ := h₂.head
      have hlog₁ := run_log h0 h₁
      rcases step_next hs₁ with ⟨_, hidle, _⟩ | ⟨_, _, hres, htasks₂, hcur₂⟩
      · cases hidle
      · injection hres with hj _ _
        rw [← hj] at hcur₂
        constructor
        · intro i hi hij
          have hi₂ : i < s₂.taskList.length := by
            rw [htasks₂, length_saveFrame, hlog₁.length_eq]
            exact hi
          obtain ⟨c, hc, hilt, _, hcount⟩ := count_between hrun hcur₂ hnot hi₂
          rw [hc] at hij hcount
          rw [hcount, if_pos (passed_of_successor_eq hilt (s.current_lt c hc) hij rfl)]
        · rcases saved_between hrun hcur₂ hnot with ⟨hempty, hc⟩ | ⟨hne, r', hr', hsaved⟩
          · -- the only task: this very call suspends it
            rw [if_pos hc] at hframe
            rw [hempty, ← hframe]
            rfl
          · rw [if_neg hne] at hframe
            rw [hold, Option.map_some] at hsaved
            rw [List.head?_append, hr', ← hframe]
            exact hsaved.symm
    · intro hnot
      obtain ⟨page, hpage', _⟩ := hpage
      have hne : s.current ≠ some (successor s.taskList.length s.current) := by
        intro heq
        exact hnot (List.mem_of_getLast? (hlog.current.symm.trans heq))
      have hfresh := hlog.fresh _ page hnot hpage'
      rw [hold, Option.map_some] at hfresh
      rw [if_neg hne] at hframe
      refine ⟨page, hpage', ?_⟩
      rw [← hframe]
      exact Option.some.inj hfresh

/-- The scheduler over whole runs: without tasks `next` gives its frame back, and otherwise
    it resumes the task whose turn it is. -/
theorem ring {s₀ s : State} {t : List (Op × Outcome)} (h0 : machine.init s₀)
    (h : machine.Run s₀ t s) (regs : Nat) :
    (pages t = [] ∧ machine.step s (.next regs) = .ok (.idle regs, s)) ∨
      ∃ j frame esp0 s', machine.step s (.next regs) = .ok (.resumed j frame esp0, s') ∧
        Resumes t regs j frame esp0 := by
  cases hs : machine.step s (.next regs) with
  | error e => exact e.elim
  | ok x =>
    obtain ⟨o, s'⟩ := x
    rcases step_next hs with ⟨hnil, rfl, rfl⟩ | ⟨task, _, rfl, _, _⟩
    · left
      have hlen := (run_log h0 h).length_eq
      rw [hnil] at hlen
      exact ⟨List.eq_nil_of_length_eq_zero hlen.symm, rfl⟩
    · right
      exact ⟨_, _, _, s', rfl, resumes_of_step h0 h hs⟩

/-- The scheduler before the first task. -/
def emptyState : State where
  mem := fun _ => 0
  taskList := []
  current := none
  esp0 := 0
  current_lt := fun _ hi => nomatch hi

/-- Two tasks are created, and both have run when the first one is resumed again. -/
def twoTasks : List (Op × Outcome) × State :=
  machine.exec emptyState [.newTask 0x500000 0x1000 0x600000, .newTask 0x700000 0x2000 0x601000,
    .next 0x9000, .next 0x9100, .next 0x9200]

instance (s : State) : ∀ op, Decidable (machine.legal s op)
  | .newTask _ _ page => inferInstanceAs (Decidable (page ≠ 0))
  | .next _ => inferInstanceAs (Decidable True)

theorem twoTasks_run : machine.Run emptyState twoTasks.1 twoTasks.2 :=
  Machine.run_exec (fun s op h => (of_decide_eq_true h : machine.legal s op)) (by decide)

/-- The next tick resumes the second task again, where it was suspended. -/
theorem ring_twice : resumedTasks twoTasks.1 = [0, 1, 0] ∧
    ∃ s', machine.step twoTasks.2 (.next 0x9300) = .ok (.resumed 1 0x9200 0x602000, s') ∧
      Resumes twoTasks.1 0x9300 1 0x9200 0x602000 := by
  have hinit : machine.init emptyState := rfl
  refine ⟨by decide, ?_⟩
  have hlast : (machine.exec twoTasks.2 [.next 0x9300]).1.map Prod.snd =
      [.resumed 1 0x9200 0x602000] := by decide
  rcases ring hinit twoTasks_run 0x9300 with ⟨hnone, _⟩ | ⟨j, frame, esp0, s', hstep, hresumes⟩
  · exact absurd hnone (by decide)
  · rw [Machine.exec, hstep] at hlast
    cases hlast
    exact ⟨s', hstep, hresumes⟩

end TimbOS.Native.Scheduler
