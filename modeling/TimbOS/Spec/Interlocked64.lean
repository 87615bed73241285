import TimbOS.Native.Interlocked

/-!
# Compare and exchange through the stack

`interlocked_compare_exchange_64` takes its arguments from where they are if a `uint64_t` has
8 bytes. It has 4, so that the routine compares the two words at `p` with both arguments, and
stores two words that lie above the arguments.

## Key results

- `compareExchange32_swaps`: the routine for words does what it should
- `atExchange`: the registers when the words are compared
- `compareExchange64_swaps_iff`, `addLoop_adds_iff`: exactly when the other one does
- `compare_exchange_iff`: all of this
- `exchange_lost`: a call that reports an exchange and makes none
-/

namespace TimbOS.Native.Interlocked

open ForStd ForStd.X86 Mem

/-! ## What should happen -/

/-- The word at `p` is not in the free part of the stack, which calls may overwrite. -/
def Live (c : Cpu) (p : Nat) : Prop := ∀ k < 4, ¬ Below (c.reg .esp) 32 (p + k)

instance (c : Cpu) (p : Nat) : Decidable (Live c p) :=
  inferInstanceAs (Decidable (∀ k < 4, _))

/-- The bytes that a call does not change: all but those at `p` and those below the stack
    pointer. -/
def SameElsewhere (c : Cpu) (p : Nat) (m : Mem) : Prop :=
  ∀ a, ¬ InWord p a → ¬ Below (c.reg .esp) 28 a → m.load8 a = c.mem.load8 a

/-- A compare and exchange. -/
structure Swaps (c : Cpu) (p comp exch : Nat) (r : Bool × Cpu) : Prop where
  result : r.1 = true ↔ c.mem.load32 p = comp
  stored : c.mem.load32 p = comp → r.2.mem.load32 p = exch
  kept : c.mem.load32 p ≠ comp → r.2.mem.load32 p = c.mem.load32 p
  elsewhere : SameElsewhere c p r.2.mem

/-- An addition. -/
def Adds (c : Cpu) (p delta : Nat) (r : Option (Nat × Cpu)) : Prop :=
  ∃ c', r = some ((c.mem.load32 p + delta) % 2 ^ 32, c') ∧
    c'.mem.load32 p = (c.mem.load32 p + delta) % 2 ^ 32 ∧ SameElsewhere c p c'.mem

/-! ## Calls -/

theorem argWords_four {v : Nat} (hv : v < 2 ^ 32) : argWords 4 v = [v] := by
  simp only [argWords, Nat.reduceDiv, List.range_one, List.map_cons, Nat.mul_zero, Nat.pow_zero,
    Nat.div_one, Nat.mod_eq_of_lt hv, List.map_nil]

theorem reg_pushWord (c : Cpu) (v : Nat) (q : Reg) :
    (c.pushWord v).reg q = if q = .esp then (c.reg .esp + 2 ^ 32 - 4) % 2 ^ 32 else c.reg q := rfl

section Call

variable {c : Cpu} {returnAddress p comp exch : Nat}

/-- The stack does not reach the word at `p`, nor the one behind it. -/
theorem load32_live {words : List Nat} (hesp : c.reg .esp < 2 ^ 32) (hlive : Live c p)
    (hlen : words.length ≤ 7) : (c.pushAll words).mem.load32 p = c.mem.load32 p ∧
      (c.pushAll words).mem.load32 (p + 4) = c.mem.load32 (p + 4) := by
  constructor
  · apply load32_pushAll_of_not_below hesp (by omega)
    intro k hk hbelow
    refine hlive k hk ?_
    unfold Below at hbelow ⊢
    omega
  · apply load32_pushAll_of_not_below hesp (by omega)
    intro k hk hbelow
    refine hlive k hk ?_
    unfold Below at hbelow ⊢
    omega

/-- A word at `p` is all that changes, besides the stack. -/
theorem sameElsewhere_store {words : List Nat} (hesp : c.reg .esp < 2 ^ 32)
    (hlen : words.length ≤ 7) (p v : Nat) :
    SameElsewhere c p ((c.pushAll words).mem.store32 p v) := by
  intro a hword hbelow
  rw [load8_store32_of_not_inWord _ _ hword]
  apply load8_pushAll hesp (by omega)
  unfold Below at hbelow ⊢
  omega

theorem sameElsewhere_pushAll {words : List Nat} (hesp : c.reg .esp < 2 ^ 32)
    (hlen : words.length ≤ 7) (p : Nat) : SameElsewhere c p (c.pushAll words).mem := by
  intro a _ hbelow
  apply load8_pushAll hesp (by omega)
  unfold Below at hbelow ⊢
  omega

/-! ## The routine for words -/

/-- The instructions up to the exchange fetch the arguments. -/
theorem run_compareExchange {e : Cpu} (h : e.mem.load32 (e.reg .esp + 8) = comp)
    (h' : e.mem.load32 (e.reg .esp + 12) = exch) (hp : e.mem.load32 (e.reg .esp + 4) = p) :
    (e.run interlockedCompareExchange).mem =
        (if e.mem.load32 p = comp then e.mem.store32 p exch else e.mem) ∧
      (e.run interlockedCompareExchange).reg .eax = e.mem.load32 p := by
  have hcomp : comp < 2 ^ 32 := by rw [← h]; exact load32_lt _ _
  have hexch : exch < 2 ^ 32 := by rw [← h']; exact load32_lt _ _
  have hplt : p < 2 ^ 32 := by rw [← hp]; exact load32_lt _ _
  simp only [Cpu.run, interlockedCompareExchange, List.foldl_cons, List.foldl_nil, Cpu.exec,
    Cpu.reg_set, Cpu.mem_set, reduceCtorEq, if_false, if_true, h, h', hp,
    Nat.mod_eq_of_lt hcomp, Nat.mod_eq_of_lt hexch, Nat.mod_eq_of_lt hplt]
  by_cases heq : e.mem.load32 p = comp
  · simp only [if_pos heq, Cpu.mem_store, Cpu.reg_store, Cpu.mem_set, Cpu.reg_set, reduceCtorEq,
      if_false, if_true, Nat.mod_eq_of_lt hcomp]
    exact ⟨trivial, heq.symm⟩
  · simp only [if_neg heq, Cpu.mem_set, Cpu.reg_set, reduceCtorEq, if_false, if_true,
      Nat.mod_eq_of_lt (load32_lt e.mem p)]
    exact ⟨trivial, trivial⟩

/-- The routine compares and exchanges the word at `p`. -/
theorem compareExchange32_swaps (hesp : c.reg .esp < 2 ^ 32) (hp : p < 2 ^ 32)
    (hcomp : comp < 2 ^ 32) (hexch : exch < 2 ^ 32) (hlive : Live c p) :
    Swaps c p comp exch (compareExchange32 c returnAddress p comp exch) := by
  obtain ⟨stack, hstack⟩ : ∃ stack, stack = [returnAddress, p, comp, exch] := ⟨_, rfl⟩
  have hlen : stack.length = 4 := by rw [hstack]; rfl
  -- what is pushed lies below the stack pointer, and the word at `p` does not
  have hword := (load32_live hesp hlive (by omega : stack.length ≤ 7)).1
  have harg : ∀ i (hi : i < 4), (c.pushAll stack).mem.load32
      ((c.pushAll stack).reg .esp + 4 * i) = [returnAddress, p, comp, exch][i] % 2 ^ 32 := by
    intro i hi
    rw [esp_pushAll hesp (by omega), hstack]
    exact load32_pushAll hesp (by simp) hi rfl
  have hpArg : (c.pushAll stack).mem.load32 ((c.pushAll stack).reg .esp + 4) = p :=
    (harg 1 (by decide)).trans (Nat.mod_eq_of_lt hp)
  have hcompArg : (c.pushAll stack).mem.load32 ((c.pushAll stack).reg .esp + 8) = comp :=
    (harg 2 (by decide)).trans (Nat.mod_eq_of_lt hcomp)
  have hexchArg : (c.pushAll stack).mem.load32 ((c.pushAll stack).reg .esp + 12) = exch :=
    (harg 3 (by decide)).trans (Nat.mod_eq_of_lt hexch)
  obtain ⟨hmem, heax⟩ := run_compareExchange hcompArg hexchArg hpArg
  simp only [compareExchange32, Cpu.call, argWords_four hp, argWords_four hcomp,
    argWords_four hexch, List.cons_append, List.nil_append, ← hstack]
  rw [hword] at hmem heax
  constructor
  · rw [Cpu.reg_set_ne _ _ (by decide), heax, beq_iff_eq]
  · intro heq
    rw [Cpu.mem_set, hmem, if_pos heq, load32_store32_same, Nat.mod_eq_of_lt hexch]
  · intro hne
    rw [Cpu.mem_set, hmem, if_neg hne, hword]
  · rw [Cpu.mem_set, hmem]
    split
    · exact sameElsewhere_store hesp (by omega) p exch
    · exact sameElsewhere_pushAll hesp (by omega) p

/-! ## The routine for double words -/

/-- The stack when the words are compared, from the stack pointer upwards. -/
def stack64 (c : Cpu) (returnAddress p comp exch : Nat) : List Nat :=
  [c.reg .edi, c.reg .ebx, c.reg .ebp, returnAddress, p, comp, exch]

/-- The registers when the words are compared. `ecx:ebx` is read above the arguments. -/
structure AtExchange (c : Cpu) (returnAddress p comp exch : Nat) (f : Cpu) : Prop where
  mem : f.mem = (c.pushAll (stack64 c returnAddress p comp exch)).mem
  edi : f.reg .edi = p
  eax : f.reg .eax = comp
  edx : f.reg .edx = exch
  ebx : f.reg .ebx = c.mem.load32 (c.reg .esp)
  ecx : f.reg .ecx = c.mem.load32 (c.reg .esp + 4)

/-- The instructions before the exchange push three registers, and load five words from the
    frame. -/
theorem run_fetch {e : Cpu} {m : Mem} {frame : Nat}
    (hm : (((e.pushWord (e.reg .ebp)).pushWord (e.reg .ebx)).pushWord (e.reg .edi)).mem = m)
    (hframe : (e.reg .esp + 2 ^ 32 - 4) % 2 ^ 32 = frame) :
    (e.run (interlockedCompareExchange64.take 9)).mem = m ∧
      (e.run (interlockedCompareExchange64.take 9)).reg .edi = m.load32 (frame + 8) ∧
      (e.run (interlockedCompareExchange64.take 9)).reg .eax = m.load32 (frame + 12) ∧
      (e.run (interlockedCompareExchange64.take 9)).reg .edx = m.load32 (frame + 16) ∧
      (e.run (interlockedCompareExchange64.take 9)).reg .ebx = m.load32 (frame + 20) ∧
      (e.run (interlockedCompareExchange64.take 9)).reg .ecx = m.load32 (frame + 24) := by
  simp only [mem_pushWord, reg_pushWord, if_true, hframe] at hm
  have hmod : frame % 2 ^ 32 = frame := by
    rw [← hframe, Nat.mod_mod]
  simp only [Cpu.run, interlockedCompareExchange64, List.take_succ_cons, List.take_zero,
    List.foldl_cons, List.foldl_nil, Cpu.exec, mem_pushWord, reg_pushWord, Cpu.reg_set,
    Cpu.mem_set, reduceCtorEq, if_false, if_true, hframe, hmod, hm,
    Nat.mod_eq_of_lt (load32_lt m _), and_self]

variable (returnAddress) in
/-- What the five words are. -/
theorem atExchange (hesp : c.reg .esp < 2 ^ 32) (hp : p < 2 ^ 32) (hcomp : comp < 2 ^ 32)
    (hexch : exch < 2 ^ 32) :
    AtExchange c returnAddress p comp exch
      ((c.pushAll [returnAddress, p, comp, exch]).run (interlockedCompareExchange64.take 9)) := by
  have hsp : (c.pushAll [returnAddress, p, comp, exch]).reg .esp = down (c.reg .esp) (4 * 4) :=
    esp_pushAll hesp (by simp)
  have hreg : ∀ r, r ≠ .esp → (c.pushAll [returnAddress, p, comp, exch]).reg r = c.reg r :=
    fun r hr => reg_pushAll_ne c _ hr
  have hpush : ((((c.pushAll [returnAddress, p, comp, exch]).pushWord (c.reg .ebp)).pushWord
      (c.reg .ebx)).pushWord (c.reg .edi)).mem =
        (c.pushAll (stack64 c returnAddress p comp exch)).mem := rfl
  -- the words on the stack, from the pushed registers up to the arguments
  have harg : ∀ i (hi : i < 7) a, a % 2 ^ 32 = (down (c.reg .esp) 28 + 4 * i) % 2 ^ 32 →
      (c.pushAll (stack64 c returnAddress p comp exch)).mem.load32 a =
        (stack64 c returnAddress p comp exch)[i] % 2 ^ 32 :=
    fun i hi a ha => load32_pushAll hesp (by simp [stack64]) hi ha
  -- the routine reads two words above its arguments, which belong to the caller
  have habove : ∀ a, (a % 2 ^ 32 + 2 ^ 32 - c.reg .esp) % 2 ^ 32 ≤ 4 →
      (c.pushAll (stack64 c returnAddress p comp exch)).mem.load32 a = c.mem.load32 a := by
    intro a ha
    apply load32_pushAll_of_not_below hesp (by simp [stack64])
    intro k hk
    simp only [Below, stack64, List.length_cons, List.length_nil]
    omega
  rw [← hreg .ebp (by decide), ← hreg .ebx (by decide), ← hreg .edi (by decide)] at hpush
  obtain ⟨hmem, hedi, heax, hedx, hebx, hecx⟩ := run_fetch hpush rfl
  simp only [hsp, down] at hedi heax hedx hebx hecx
  simp only [down] at harg
  constructor
  · exact hmem
  · rw [hedi, harg 4 (by decide) _ (by omega)]
    exact Nat.mod_eq_of_lt hp
  · rw [heax, harg 5 (by decide) _ (by omega)]
    exact Nat.mod_eq_of_lt hcomp
  · rw [hedx, harg 6 (by decide) _ (by omega)]
    exact Nat.mod_eq_of_lt hexch
  · rw [hebx, habove _ (by omega)]
    exact load32_of_mod_eq _ (by omega)
  · rw [hecx, habove _ (by omega)]
    exact load32_of_mod_eq _ (by omega)

/-- The exchange of two words, and the instructions after it. -/
theorem run_exchange (f : Cpu) :
    ((f.exec (.cmpxchg8b .edi)).run (interlockedCompareExchange64.drop 10)).mem =
        (if f.mem.load32 (f.reg .edi) = f.reg .eax ∧ f.mem.load32 (f.reg .edi + 4) = f.reg .edx then
          (f.mem.store32 (f.reg .edi) (f.reg .ebx)).store32 (f.reg .edi + 4) (f.reg .ecx)
        else f.mem) ∧
      ((f.exec (.cmpxchg8b .edi)).run (interlockedCompareExchange64.drop 10)).reg .eax =
        f.mem.load32 (f.reg .edi) := by
  simp only [Cpu.run, interlockedCompareExchange64, List.drop_succ_cons, List.drop_zero,
    List.foldl_cons, List.foldl_nil, Cpu.exec, Cpu.reg_set, Cpu.mem_set, reduceCtorEq, if_false]
  by_cases hequal : f.mem.load32 (f.reg .edi) = f.reg .eax ∧
      f.mem.load32 (f.reg .edi + 4) = f.reg .edx
  · simp only [if_pos hequal, Cpu.mem_store, Cpu.reg_store]
    exact ⟨trivial, hequal.1.symm⟩
  · simp only [if_neg hequal, Cpu.mem_set, Cpu.reg_set, reduceCtorEq, if_false, if_true,
      Nat.mod_eq_of_lt (load32_lt f.mem _), and_self]

variable (returnAddress) in
/-- What a call does. It compares the words at `p` with `comp` and `exch`, and what it stores
    has nothing to do with its arguments. -/
theorem compareExchange64_eq (hesp : c.reg .esp < 2 ^ 32) (hp : p < 2 ^ 32)
    (hcomp : comp < 2 ^ 32) (hexch : exch < 2 ^ 32) (hlive : Live c p) :
    ((compareExchange64 c returnAddress p comp exch).1 = true ↔ c.mem.load32 p = comp) ∧
      (compareExchange64 c returnAddress p comp exch).2.mem =
        if c.mem.load32 p = comp ∧ c.mem.load32 (p + 4) = exch then
          ((c.pushAll (stack64 c returnAddress p comp exch)).mem.store32 p
            (c.mem.load32 (c.reg .esp))).store32 (p + 4) (c.mem.load32 (c.reg .esp + 4))
        else (c.pushAll (stack64 c returnAddress p comp exch)).mem := by
  have hat := atExchange returnAddress hesp hp hcomp hexch
  obtain ⟨hword, hnext⟩ := load32_live hesp hlive
    (by simp [stack64] : (stack64 c returnAddress p comp exch).length ≤ 7)
  have hcode : ∀ e : Cpu, e.run interlockedCompareExchange64 =
      ((e.run (interlockedCompareExchange64.take 9)).exec (.cmpxchg8b .edi)).run
        (interlockedCompareExchange64.drop 10) := by
    intro e
    have hdrop : interlockedCompareExchange64.drop 9 =
        .cmpxchg8b .edi :: interlockedCompareExchange64.drop 10 := rfl
    rw [← Cpu.run_cons, ← Cpu.run_append, ← hdrop, List.take_append_drop]
  simp only [compareExchange64, Cpu.call, sizeofUint64, argWords_four hp, argWords_four hcomp,
    argWords_four hexch, List.cons_append, List.nil_append, hcode]
  generalize (c.pushAll [returnAddress, p, comp, exch]).run (interlockedCompareExchange64.take 9)
    = f at *
  obtain ⟨hmem, heax⟩ := run_exchange f
  rw [hat.mem, hat.edi, hat.eax, hat.edx, hat.ebx, hat.ecx, hword, hnext] at hmem
  rw [hat.mem, hat.edi, hword] at heax
  constructor
  · rw [Cpu.reg_set_ne _ _ (by decide), heax, beq_iff_eq]
  · rw [Cpu.mem_set, hmem]

/-! ## When it is right -/

/-- The word behind the one at `p` and the two words above the arguments are all `exch`. -/
def Filled (c : Cpu) (p exch : Nat) : Prop :=
  c.mem.load32 (p + 4) = exch ∧ c.mem.load32 (c.reg .esp) = exch ∧
    c.mem.load32 (c.reg .esp + 4) = exch

/-- The word behind the one at `p` is unchanged exactly if what is stored there was there. -/
theorem sameElsewhere_store_next (hesp : c.reg .esp < 2 ^ 32) (hlive : Live c p) (x y : Nat)
    (hy : y < 2 ^ 32) {words : List Nat} (hlen : words.length ≤ 7) :
    SameElsewhere c p (((c.pushAll words).mem.store32 p x).store32 (p + 4) y) ↔
      c.mem.load32 (p + 4) = y := by
  have hbefore := sameElsewhere_store hesp hlen p x
  constructor
  · intro hsame
    -- the four bytes behind the word at `p` count as elsewhere
    have hbyte : ∀ k < 4, (((c.pushAll words).mem.store32 p x).store32 (p + 4) y).load8
        (p + 4 + k) = c.mem.load8 (p + 4 + k) := by
      intro k hk
      apply hsame
      · unfold InWord
        omega
      · intro hbelow
        refine hlive k hk ?_
        unfold Below at hbelow ⊢
        omega
    have hload : (((c.pushAll words).mem.store32 p x).store32 (p + 4) y).load32 (p + 4) =
        c.mem.load32 (p + 4) := by
      have h0 := hbyte 0 (by omega)
      rw [Nat.add_zero] at h0
      rw [load32, load32, h0, hbyte 1 (by omega), hbyte 2 (by omega), hbyte 3 (by omega)]
    rw [load32_store32_same, Nat.mod_eq_of_lt hy] at hload
    exact hload.symm
  · intro heq a hword hbelow
    by_cases hnext : InWord (p + 4) a
    · rw [← load8_eq_of_load32_eq (m := c.mem) _ hnext]
      rw [load32_store32_same, Nat.mod_eq_of_lt hy, heq]
    · rw [load8_store32_of_not_inWord _ _ hnext]
      exact hbefore a hword hbelow

variable (returnAddress) in
/-- A call exchanges the words exactly in these cases. -/
theorem compareExchange64_swaps_iff (hesp : c.reg .esp < 2 ^ 32) (hp : p < 2 ^ 32)
    (hcomp : comp < 2 ^ 32) (hexch : exch < 2 ^ 32) (hlive : Live c p) :
    Swaps c p comp exch (compareExchange64 c returnAddress p comp exch) ↔
      (c.mem.load32 p = comp →
        Filled c p exch ∨ comp = exch ∧ c.mem.load32 (p + 4) ≠ exch) := by
  obtain ⟨hresult, hmem⟩ :=
    compareExchange64_eq returnAddress hesp hp hcomp hexch hlive
  have hlen : (stack64 c returnAddress p comp exch).length ≤ 7 := by simp [stack64]
  have hword := (load32_live hesp hlive hlen).1
  generalize stack64 c returnAddress p comp exch = words at *
  have hsame := sameElsewhere_pushAll hesp hlen p
  have hnext := sameElsewhere_store_next hesp hlive (c.mem.load32 (c.reg .esp))
    (c.mem.load32 (c.reg .esp + 4)) (load32_lt _ _) hlen
  by_cases heq : c.mem.load32 p = comp
  · by_cases hboth : c.mem.load32 (p + 4) = exch
    · -- the words are exchanged with those above the arguments
      rw [if_pos ⟨heq, hboth⟩] at hmem
      have hstored : (compareExchange64 c returnAddress p comp exch).2.mem.load32 p =
          c.mem.load32 (c.reg .esp) := by
        rw [hmem, load32_store32_sep _ _ (by omega), load32_store32_same,
          Nat.mod_eq_of_lt (load32_lt _ _)]
      constructor
      · intro hswaps _
        have helsewhere := hswaps.elsewhere
        rw [hmem, hnext, hboth] at helsewhere
        exact .inl ⟨hboth, hstored.symm.trans (hswaps.stored heq), helsewhere.symm⟩
      · intro hcond
        obtain ⟨-, hebx, hecx⟩ | ⟨-, hne⟩ := hcond heq
        · refine ⟨hresult, fun _ => hstored.trans hebx, fun hne => absurd heq hne, ?_⟩
          rw [hmem, hnext, hboth, hecx]
        · exact absurd hboth hne
    · -- nothing is exchanged, but the call says that it was
      rw [if_neg fun h => hboth h.2] at hmem
      constructor
      · intro hswaps _
        have hstored := hswaps.stored heq
        rw [hmem, hword, heq] at hstored
        exact .inr ⟨hstored, hboth⟩
      · intro hcond
        obtain ⟨hfilled, -⟩ | ⟨hsame', -⟩ := hcond heq
        · exact absurd hfilled hboth
        · refine ⟨hresult, fun _ => ?_, fun hne => absurd heq hne, ?_⟩
          · rw [hmem, hword, heq, hsame']
          · rw [hmem]
            exact hsame
  · rw [if_neg fun h => heq h.1] at hmem
    constructor
    · intro _ h
      exact absurd h heq
    · intro _
      refine ⟨hresult, fun h => absurd h heq, fun _ => ?_, ?_⟩
      · rw [hmem, hword]
      · rw [hmem]
        exact hsame

/-- An addition takes one round, and adds exactly in this case. -/
theorem addLoop_adds_iff (hesp : c.reg .esp < 2 ^ 32) (hp : p < 2 ^ 32) (hlive : Live c p)
    {delta : Nat} (hdelta : delta % 2 ^ 32 ≠ 0) (fuel : Nat) :
    Adds c p delta (addLoop returnAddress p delta (fuel + 1) c) ↔
      Filled c p ((c.mem.load32 p + delta) % 2 ^ 32) := by
  have hold := load32_lt c.mem p
  have hnew : (c.mem.load32 p + delta) % 2 ^ 32 < 2 ^ 32 := Nat.mod_lt _ (by decide)
  have hswaps := compareExchange64_swaps_iff returnAddress hesp hp hold hnew
    hlive
  obtain ⟨hresult, -⟩ :=
    compareExchange64_eq returnAddress hesp hp hold hnew hlive
  have hloop : addLoop returnAddress p delta (fuel + 1) c =
      some ((c.mem.load32 p + delta) % 2 ^ 32, (compareExchange64 c returnAddress p
        (c.mem.load32 p) ((c.mem.load32 p + delta) % 2 ^ 32)).2) := by
    rw [addLoop]
    exact if_pos (hresult.mpr rfl)
  have hne : c.mem.load32 p ≠ (c.mem.load32 p + delta) % 2 ^ 32 := by omega
  rw [hloop]
  constructor
  · intro ⟨c', hc', hstored, hsame⟩
    cases hc'
    obtain hfilled | ⟨heq, -⟩ :=
      hswaps.mp ⟨hresult, fun _ => hstored, fun h => absurd rfl h, hsame⟩ rfl
    · exact hfilled
    · exact absurd heq hne
  · intro hfilled
    have h := hswaps.mpr fun _ => .inl hfilled
    exact ⟨_, rfl, h.stored rfl, h.elsewhere⟩

end Call

/-- Compare and exchange, increment and decrement of a `uint64_t` do what they should exactly
    in these cases. -/
theorem compare_exchange_iff (c : Cpu) (returnAddress p comp exch : Nat)
    (hesp : c.reg .esp < 2 ^ 32) (hp : p < 2 ^ 32) (hcomp : comp < 2 ^ 32) (hexch : exch < 2 ^ 32)
    (hlive : Live c p) :
    (Swaps c p comp exch (compareExchange64 c returnAddress p comp exch) ↔
      (c.mem.load32 p = comp →
        Filled c p exch ∨ comp = exch ∧ c.mem.load32 (p + 4) ≠ exch)) ∧
    ∀ fuel, (Adds c p 1 (increment64 (fuel + 1) c returnAddress p) ↔
        Filled c p ((c.mem.load32 p + 1) % 2 ^ 32)) ∧
      (Adds c p (2 ^ 32 - 1) (decrement64 (fuel + 1) c returnAddress p) ↔
        Filled c p ((c.mem.load32 p + (2 ^ 32 - 1)) % 2 ^ 32)) :=
  ⟨compareExchange64_swaps_iff _ hesp hp hcomp hexch hlive, fun fuel =>
    ⟨addLoop_adds_iff hesp hp hlive (by decide) fuel,
      addLoop_adds_iff hesp hp hlive (by decide) fuel⟩⟩

/-! ## A lost exchange -/

/-- A processor with an empty stack and the number 5 at `0x1000`. -/
def fiveCpu : Cpu where
  reg := fun _ => 0x9000
  mem := Mem.store32 (fun _ => 0) 0x1000 5

theorem fiveCpu_live : Live fiveCpu 0x1000 := by decide

theorem compare_exchange_iff_five :
    (Swaps fiveCpu 0x1000 5 6 (compareExchange64 fiveCpu 0x8000 0x1000 5 6) ↔
      (fiveCpu.mem.load32 0x1000 = 5 →
        Filled fiveCpu 0x1000 6 ∨ 5 = 6 ∧ fiveCpu.mem.load32 (0x1000 + 4) ≠ 6)) ∧
    ∀ fuel, (Adds fiveCpu 0x1000 1 (increment64 (fuel + 1) fiveCpu 0x8000 0x1000) ↔
        Filled fiveCpu 0x1000 ((fiveCpu.mem.load32 0x1000 + 1) % 2 ^ 32)) ∧
      (Adds fiveCpu 0x1000 (2 ^ 32 - 1) (decrement64 (fuel + 1) fiveCpu 0x8000 0x1000) ↔
        Filled fiveCpu 0x1000 ((fiveCpu.mem.load32 0x1000 + (2 ^ 32 - 1)) % 2 ^ 32)) :=
  compare_exchange_iff fiveCpu 0x8000 0x1000 5 6 (by decide) (by decide) (by decide) (by decide)
    fiveCpu_live

/-- The word is 5, as the caller expects, and stays so; the call returns `true`. -/
theorem exchange_lost :
    (compareExchange64 fiveCpu 0x8000 0x1000 5 6).1 = true ∧
      ¬ Swaps fiveCpu 0x1000 5 6 (compareExchange64 fiveCpu 0x8000 0x1000 5 6) := by
  have hfive : fiveCpu.mem.load32 0x1000 = 5 := by decide
  constructor
  · rw [(compareExchange64_eq _ (by decide) (by decide) (by decide) (by decide) fiveCpu_live).1]
    exact hfive
  · rw [compareExchange64_swaps_iff _ (by decide) (by decide) (by decide) (by decide) fiveCpu_live]
    intro hcond
    obtain ⟨hnext, -⟩ | ⟨heq, -⟩ := hcond hfive
    · exact absurd hnext (by decide)
    · exact absurd heq (by decide)

end TimbOS.Native.Interlocked
