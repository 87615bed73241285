import TimbOS.ForStd.Transition
import TimbOS.Spec.Interlocked64

/-!
# The spin lock

`enter` exchanges the lock word with 1 until it finds a 0 there, and `leave` exchanges it with
0. The exchanges are atomic, so that a system of tasks moves from one exchange to the next. A
task that waits overwrites the word as well, with the 1 that is there already.

## Key results

- `exchange_spec`: the routine exchanges the word, and changes nothing else but the stack
- `Held.enter`, `Held.leave`: who holds the lock after an exchange
- `mutual_exclusion`: in every reachable state one task at most is inside
-/

namespace TimbOS.Native.Interlocked

open ForStd ForStd.X86 Mem

/-! ## The exchange -/

/-- The stack pointer is a word, and the word at `p` is not in the free part of the stack. -/
def Fits (c : Cpu) (p : Nat) : Prop := c.reg .esp < 2 ^ 32 ∧ Live c p

instance (c : Cpu) (p : Nat) : Decidable (Fits c p) := inferInstanceAs (Decidable (_ ∧ _))

/-- What an exchange should do. -/
structure Exchanges (c : Cpu) (p x : Nat) (r : Nat × Cpu) : Prop where
  result : r.1 = c.mem.load32 p
  stored : r.2.mem.load32 p = x
  elsewhere : SameElsewhere c p r.2.mem
  stack : r.2.reg .esp = c.reg .esp

section Exchange

variable {c : Cpu} {p x : Nat}

/-- The instructions fetch the arguments and exchange the word. -/
theorem run_interlockedExchange {e : Cpu} (hp : e.mem.load32 (e.reg .esp + 4) = p)
    (hx : e.mem.load32 (e.reg .esp + 8) = x) :
    (e.run interlockedExchange).mem = e.mem.store32 p x ∧
      (e.run interlockedExchange).reg .eax = e.mem.load32 p ∧
      (e.run interlockedExchange).reg .esp = (e.reg .esp + 4) % 2 ^ 32 := by
  have hplt : p < 2 ^ 32 := by rw [← hp]; exact load32_lt _ _
  have hxlt : x < 2 ^ 32 := by rw [← hx]; exact load32_lt _ _
  simp only [Cpu.run, interlockedExchange, List.foldl_cons, List.foldl_nil, Cpu.exec,
    Cpu.reg_set, Cpu.mem_set, Cpu.reg_store, Cpu.mem_store, reduceCtorEq, if_false, if_true, hp, hx,
    Nat.mod_eq_of_lt hplt, Nat.mod_eq_of_lt hxlt, Nat.mod_eq_of_lt (load32_lt e.mem p)]
  exact ⟨trivial, trivial, trivial⟩

theorem exchange_spec (returnAddress : Nat) (h : Fits c p) (hp : p < 2 ^ 32) (hx : x < 2 ^ 32) :
    Exchanges c p x (exchange c returnAddress p x) := by
  obtain ⟨hesp, hlive⟩ := h
  obtain ⟨stack, hstack⟩ : ∃ stack, stack = [returnAddress, p, x] := ⟨_, rfl⟩
  have hlen : stack.length = 3 := by rw [hstack]; rfl
  have hword := (load32_live hesp hlive (by omega : stack.length ≤ 7)).1
  have hsp : (c.pushAll stack).reg .esp = down (c.reg .esp) (4 * stack.length) :=
    esp_pushAll hesp (by omega)
  have harg : ∀ i (hi : i < 3), (c.pushAll stack).mem.load32
      ((c.pushAll stack).reg .esp + 4 * i) = [returnAddress, p, x][i] % 2 ^ 32 := by
    intro i hi
    rw [hsp, hstack]
    exact load32_pushAll hesp (by simp) hi rfl
  have hpArg : (c.pushAll stack).mem.load32 ((c.pushAll stack).reg .esp + 4) = p :=
    (harg 1 (by decide)).trans (Nat.mod_eq_of_lt hp)
  have hxArg : (c.pushAll stack).mem.load32 ((c.pushAll stack).reg .esp + 8) = x :=
    (harg 2 (by decide)).trans (Nat.mod_eq_of_lt hx)
  obtain ⟨hmem, heax, hret⟩ := run_interlockedExchange hpArg hxArg
  rw [hword] at heax
  simp only [exchange, Cpu.call, argWords_four hp, argWords_four hx, List.cons_append,
    List.nil_append, ← hstack]
  constructor
  · rw [Cpu.reg_set_ne _ _ (by decide), heax]
  · rw [Cpu.mem_set, hmem, load32_store32_same, Nat.mod_eq_of_lt hx]
  · rw [Cpu.mem_set, hmem]
    exact sameElsewhere_store hesp (by omega) p x
  · rw [Cpu.reg_set_same, hret, hsp, hlen]
    simp only [down, List.length_cons, List.length_nil]
    omega

/-- The routine leaves the stack as it was for the next call. -/
theorem Exchanges.fits {r : Nat × Cpu} (h : Exchanges c p x r) (hfits : Fits c p) :
    Fits r.2 p := by
  unfold Fits Live
  rw [h.stack]
  exact hfits

/-- Without other tasks, `enter` takes a free lock at once. -/
theorem enter_free (returnAddress : Nat) (h : Fits c p) (hp : p < 2 ^ 32)
    (hfree : c.mem.load32 p = 0) (fuel : Nat) :
    enter returnAddress p (fuel + 1) c = some (exchange c returnAddress p 1).2 := by
  have hresult := (exchange_spec returnAddress h hp (by decide : 1 < 2 ^ 32)).result
  rw [hfree] at hresult
  simp only [enter, enterRound, hresult, gt_iff_lt, Nat.lt_irrefl, decide_false]
  rfl

end Exchange

/-! ## Tasks -/

/-- Where a task is: outside of the critical section, in the loop of `enter`, or inside. -/
inductive Phase where
  | outside
  | entering
  | inside
  deriving DecidableEq, Repr

/-- Tasks with registers and a stack of their own, which share the memory. -/
structure System (ι : Type*) where
  mem : Mem
  reg : ι → Reg → Nat
  phase : ι → Phase

/-- What a task does next. -/
inductive Action where
  /-- An exchange of `enter`. -/
  | enter (returnAddress : Nat)
  /-- The exchange of `leave`. -/
  | leave (returnAddress : Nat)
  /-- Anything else, with what it leaves in memory and in the task's registers. -/
  | work (c : Cpu)

namespace System

variable {ι : Type*} [DecidableEq ι]

/-- The processor while task `i` runs. -/
def cpu (s : System ι) (i : ι) : Cpu := ⟨s.reg i, s.mem⟩

/-- Task `i` has run. -/
def resume (s : System ι) (i : ι) (c : Cpu) (phase : Phase) : System ι where
  mem := c.mem
  reg := Function.update s.reg i c.reg
  phase := Function.update s.phase i phase

def step (cs : Nat) (s : System ι) (i : ι) : Action → System ι
  | .enter returnAddress =>
    let (again, c) := enterRound (s.cpu i) returnAddress cs
    s.resume i c (if again then .entering else .inside)
  | .leave returnAddress => s.resume i (Interlocked.leave (s.cpu i) returnAddress cs) .outside
  | .work c => s.resume i c (s.phase i)

/-- A task calls `leave` inside only, and `enter` outside only, and then it goes on until it is
    inside. Whatever else it does, it keeps its hands off the lock word. -/
def Allowed (cs : Nat) (s : System ι) (i : ι) : Action → Prop
  | .enter _ => s.phase i ≠ .inside
  | .leave _ => s.phase i = .inside
  | .work c => s.phase i ≠ .entering ∧ c.mem.load32 cs = s.mem.load32 cs ∧ Fits c cs

end System

/-- A system whose lock word `cs` is 0 at the start. -/
def machine (ι : Type*) [DecidableEq ι] (cs : Nat) :
    Machine (System ι) (ι × Action) Unit Empty where
  init := fun s => s.mem.load32 cs = 0 ∧ ∀ i, s.phase i = .outside ∧ Fits (s.cpu i) cs
  legal := fun s a => s.Allowed cs a.1 a.2
  step := fun s a => .ok ((), s.step cs a.1 a.2)

/-! ## Who holds the lock -/

/-- The lock has at most one holder, which is the only task inside, and the word says whether
    there is one. -/
structure Held {ι : Type*} (cs : Nat) (s : System ι) (holder : Option ι) : Prop where
  inside : ∀ i, s.phase i = .inside ↔ holder = some i
  word : s.mem.load32 cs = if holder.isSome then 1 else 0
  fits : ∀ i, Fits (s.cpu i) cs

namespace Held

variable {ι : Type*} [DecidableEq ι] {cs : Nat} {s : System ι} {holder : Option ι} {i : ι}

/-- Registers change for the task that has run. -/
theorem fits_resume (h : Held cs s holder) {c : Cpu} (hc : Fits c cs) (phase : Phase) (j : ι) :
    Fits ((s.resume i c phase).cpu j) cs := by
  by_cases hj : j = i
  · subst hj
    simpa only [Fits, Live, System.cpu, System.resume, Function.update_self] using hc
  · simpa only [Fits, Live, System.cpu, System.resume, Function.update_of_ne hj] using h.fits j

/-- An exchange of `enter` gives a free lock to the task, and keeps the holder of a lock that
    is taken. -/
theorem enter (h : Held cs s holder) (hcs : cs < 2 ^ 32) (hi : s.phase i ≠ .inside)
    (returnAddress : Nat) :
    Held cs (s.step cs i (.enter returnAddress)) (some (holder.getD i)) := by
  have hspec := exchange_spec returnAddress (h.fits i) hcs
    (by decide : 1 < 2 ^ 32)
  have hold : (exchange (s.cpu i) returnAddress cs 1).1 = if holder.isSome then 1 else 0 :=
    hspec.result.trans h.word
  have hfits := h.fits_resume (i := i) (hspec.fits (h.fits i))
  have hne : holder ≠ some i := fun heq => hi ((h.inside i).mpr heq)
  simp only [System.step, enterRound, hold]
  refine ⟨?_, hspec.stored, hfits _⟩
  intro j
  cases holder with
  | none =>
    -- the exchange finds a 0: the task is inside, and the only one
    have hj := h.inside j
    by_cases heq : j = i
    · simp [System.resume, heq]
    · simp [System.resume, Function.update_of_ne heq, hj, Ne.symm heq]
  | some k =>
    -- it finds the 1 of the holder, so that the task goes on waiting
    have hj := h.inside j
    by_cases heq : j = i
    · subst heq
      simpa [System.resume] using hne
    · simpa [System.resume, Function.update_of_ne heq] using hj

/-- Its holder gives the lock back. -/
theorem leave (h : Held cs s holder) (hcs : cs < 2 ^ 32) (hi : s.phase i = .inside)
    (returnAddress : Nat) : Held cs (s.step cs i (.leave returnAddress)) none := by
  have hspec := exchange_spec returnAddress (h.fits i) hcs
    (by decide : 0 < 2 ^ 32)
  have hholder := (h.inside i).mp hi
  refine ⟨?_, hspec.stored, h.fits_resume (hspec.fits (h.fits i)) _⟩
  intro j
  simp only [System.step, System.resume, reduceCtorEq, iff_false]
  by_cases heq : j = i
  · simp [heq]
  · -- any other task would have been a second holder
    rw [Function.update_of_ne heq, h.inside j, hholder, Option.some.injEq]
    exact fun hij => heq hij.symm

/-- Other work does not concern the lock. -/
theorem work (h : Held cs s holder) {c : Cpu} (hword : c.mem.load32 cs = s.mem.load32 cs)
    (hc : Fits c cs) : Held cs (s.step cs i (.work c)) holder := by
  refine ⟨?_, hword.trans h.word, h.fits_resume hc _⟩
  intro j
  simp only [System.step, System.resume, Function.update_eq_self]
  exact h.inside j

end Held

section Lock

variable {ι : Type*} [DecidableEq ι] {cs : Nat} {s : System ι}

/-- In every reachable state the lock has a holder, or it has none. -/
theorem reachable_held (hcs : cs < 2 ^ 32) (h : (machine ι cs).Reachable s) :
    ∃ holder, Held cs s holder := by
  refine h.invariant (P := fun s => ∃ holder, Held cs s holder) ?_ ?_
  · rintro s ⟨hword, htasks⟩
    refine ⟨none, ?_, hword, fun i => (htasks i).2⟩
    intro i
    simp [(htasks i).1]
  · rintro s ⟨i, action⟩ o s' ⟨holder, hheld⟩ hlegal hstep
    cases hstep
    -- the holder of the next state depends on the action
    cases action with
    | enter returnAddress => exact ⟨_, hheld.enter hcs hlegal returnAddress⟩
    | leave returnAddress => exact ⟨none, hheld.leave hcs hlegal returnAddress⟩
    | work c => exact ⟨holder, hheld.work hlegal.2.1 hlegal.2.2⟩

/-- However the exchanges of the tasks interleave, one task at most is inside, and the word is 1
    exactly while there is one. -/
theorem mutual_exclusion (hcs : cs < 2 ^ 32) (h : (machine ι cs).Reachable s) :
    (∀ i j, s.phase i = .inside → s.phase j = .inside → i = j) ∧
      (s.mem.load32 cs = 1 ↔ ∃ i, s.phase i = .inside) := by
  obtain ⟨holder, hheld⟩ := reachable_held hcs h
  constructor
  · intro i j hi hj
    have hsame := ((hheld.inside i).mp hi).symm.trans ((hheld.inside j).mp hj)
    exact Option.some.inj hsame
  · rw [hheld.word]
    cases holder with
    | none => simp [hheld.inside]
    | some k => simp [hheld.inside]

end Lock

/-! ## Two tasks -/

/-- Two tasks with stacks below `0x9000` and `0xA000`, before they do anything. -/
def twoTasks : System Bool where
  mem := fun _ => 0
  reg := fun i r => if r = .esp then if i then 0x9000 else 0xA000 else 0
  phase := fun _ => .outside

theorem twoTasks_init : (machine Bool 0x1000).init twoTasks := by
  refine ⟨by decide, fun i => ⟨rfl, ?_⟩⟩
  cases i <;> decide

/-- The first exchange takes the lock, and the second one leaves it where it is. -/
theorem mutual_exclusion_two : ∃ s, (machine Bool 0x1000).Reachable s ∧ s.phase true = .inside ∧
    (∀ i j, s.phase i = .inside → s.phase j = .inside → i = j) ∧
      (s.mem.load32 0x1000 = 1 ↔ ∃ i, s.phase i = .inside) := by
  have hnone : Held 0x1000 twoTasks none :=
    ⟨fun i => by simp [twoTasks], twoTasks_init.1, fun i => (twoTasks_init.2 i).2⟩
  have hfree : twoTasks.phase true ≠ .inside := by decide
  have hone := hnone.enter (by decide) hfree 0
  have hfirst : (machine Bool 0x1000).Reachable (twoTasks.step 0x1000 true (.enter 0)) :=
    .step (i := (true, .enter 0)) (.init twoTasks_init) hfree rfl
  have hwaits : (twoTasks.step 0x1000 true (.enter 0)).phase false ≠ .inside := by
    rw [Ne, hone.inside]
    decide
  have hsecond : (machine Bool 0x1000).Reachable
      ((twoTasks.step 0x1000 true (.enter 0)).step 0x1000 false (.enter 0)) :=
    .step (i := (false, .enter 0)) hfirst hwaits rfl
  refine ⟨_, hsecond, ?_, mutual_exclusion (by decide) hsecond⟩
  exact ((hone.enter (by decide) hwaits 0).inside true).mpr rfl

end TimbOS.Native.Interlocked
