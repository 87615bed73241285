import TimbOS.Native.KlibcString

/-!
# Overlapping moves

`memmove` is `memcpy`, which copies from the first byte to the last one. Where the destination
begins inside the source, it has written over the rest of the source before it reads it. Then
the bytes arrive only if they are already there.

## Key results

- `copyLoop_frame`: nothing outside of the destination changes
- `copyLoop_down`: a destination that does not begin behind the source gets the source
- `copyLoop_up`: one that does gets what the source becomes
- `memmove_moves_iff`: exactly when the bytes at the destination are the ones to be moved
-/

namespace TimbOS.Native.Klibc

open ForStd

/-! ## The loop of `memcpy` -/

section Loop

variable {m : Mem} {dest src n : Nat}

theorem copyLoop_frame {a : Nat} (hdest : dest + n ≤ 2 ^ 32) (ha : a < 2 ^ 32)
    (hout : a < dest ∨ dest + n ≤ a) : (copyLoop n m dest src).load8 a = m.load8 a := by
  induction n generalizing m dest src with
  | zero => rfl
  | succ n ih =>
    rw [copyLoop, ih (by omega) (by omega)]
    exact Mem.load8_store8_ne m _ (by omega)

/-- The first byte is not written again. -/
theorem copyLoop_first (hdest : dest + (n + 1) ≤ 2 ^ 32) :
    (copyLoop (n + 1) m dest src).load8 dest = m.load8 src := by
  rw [copyLoop, copyLoop_frame (by omega) (by omega) (by omega)]
  exact Mem.load8_store8_same m dest _

theorem copyLoop_down (hdest : dest + n ≤ 2 ^ 32) (hsrc : src + n ≤ 2 ^ 32) (hle : dest ≤ src)
    {i : Nat} (hi : i < n) : (copyLoop n m dest src).load8 (dest + i) = m.load8 (src + i) := by
  induction n generalizing m dest src i with
  | zero => omega
  | succ n ih =>
    cases i with
    | zero => exact copyLoop_first hdest
    | succ i =>
      have hrest : (copyLoop n (m.store8 dest (m.load8 src)) (dest + 1) (src + 1)).load8
          (dest + 1 + i) = (m.store8 dest (m.load8 src)).load8 (src + 1 + i) :=
        ih (by omega) (by omega) (by omega) (by omega)
      -- the byte that has been written lies before the rest of the source
      rw [Mem.load8_store8_ne m _ (by omega)] at hrest
      rw [copyLoop, show dest + (i + 1) = dest + 1 + i by omega, hrest]
      exact congrArg m.load8 (by omega)

/-- Every byte of the source is written before it is read, or never. -/
theorem copyLoop_up (hdest : dest + n ≤ 2 ^ 32) (hlt : src < dest) {i : Nat} (hi : i < n) :
    (copyLoop n m dest src).load8 (dest + i) = (copyLoop n m dest src).load8 (src + i) := by
  induction n generalizing m dest src i with
  | zero => omega
  | succ n ih =>
    cases i with
    | zero =>
      show (copyLoop (n + 1) m dest src).load8 dest = (copyLoop (n + 1) m dest src).load8 src
      rw [copyLoop_first hdest, copyLoop_frame hdest (by omega) (.inl hlt)]
    | succ i =>
      have hrest : (copyLoop n (m.store8 dest (m.load8 src)) (dest + 1) (src + 1)).load8
          (dest + 1 + i) =
            (copyLoop n (m.store8 dest (m.load8 src)) (dest + 1) (src + 1)).load8 (src + 1 + i) :=
        ih (by omega) (by omega) (by omega)
      rw [copyLoop, show dest + (i + 1) = dest + 1 + i by omega, hrest]
      exact congrArg _ (by omega)

end Loop

/-! ## Moves -/

/-- The bytes at `dest` are those that were at `src`, and no other byte has changed. -/
def Moves (m m' : Mem) (dest src n : Nat) : Prop :=
  (∀ i < n, m'.load8 (dest + i) = m.load8 (src + i)) ∧
    ∀ a < 2 ^ 32, a < dest ∨ dest + n ≤ a → m'.load8 a = m.load8 a

/-- Where a destination behind the beginning of the source overlaps with the source, it already
    holds the bytes that are to be moved there. -/
def OverlapInPlace (m : Mem) (dest src n : Nat) : Prop :=
  src < dest → ∀ i, dest + i < src + n → m.load8 (dest + i) = m.load8 (src + i)

section Moves

variable {m : Mem} {dest src n : Nat}

/-- The overlap is in place if the source becomes itself. -/
theorem overlapInPlace_of_moves (hdest : dest + n ≤ 2 ^ 32)
    (h : Moves m (copyLoop n m dest src) dest src n) : OverlapInPlace m dest src n := by
  intro hlt i hi
  -- the byte that the overlap begins with moves twice
  obtain ⟨d, rfl⟩ := Nat.exists_eq_add_of_lt hlt
  have hthere := h.1 (i + (d + 1)) (by omega)
  have hback := copyLoop_up hdest hlt (m := m) (show i + (d + 1) < n by omega)
  have hmoved := h.1 i (by omega)
  rw [show src + (i + (d + 1)) = src + d + 1 + i by omega] at hthere hback
  rw [← hthere, hback, hmoved]

theorem copyLoop_moves (hdest : dest + n ≤ 2 ^ 32) (hsrc : src + n ≤ 2 ^ 32)
    (h : OverlapInPlace m dest src n) : Moves m (copyLoop n m dest src) dest src n := by
  refine ⟨?_, fun a ha hout => copyLoop_frame hdest ha hout⟩
  rcases Nat.lt_or_ge src dest with hlt | hle
  · intro i
    -- strong induction: the source at `i` is a destination before `i`, or unchanged
    induction i using Nat.strong_induction_on with
    | _ i ih =>
      intro hi
      rw [copyLoop_up hdest hlt hi]
      rcases Nat.lt_or_ge (src + i) dest with hbefore | hinside
      · exact copyLoop_frame hdest (by omega) (.inl hbefore)
      · obtain ⟨j, hj⟩ := Nat.exists_eq_add_of_le hinside
        rw [hj, ih j (by omega) (by omega), h hlt j (by omega)]
  · intro i hi
    exact copyLoop_down hdest hsrc hle hi

/-- The bytes at the destination are the ones to be moved, and nothing else has changed, exactly
    when the overlap with a source that begins before the destination is in place. -/
theorem memmove_moves_iff (m : Mem) (dest src n : Nat) (hdest : dest + n ≤ 2 ^ 32)
    (hsrc : src + n ≤ 2 ^ 32) :
    Moves m (memmove m dest src n).2 dest src n ↔ OverlapInPlace m dest src n :=
  ⟨fun h => overlapInPlace_of_moves hdest h, fun h => copyLoop_moves hdest hsrc h⟩

/-- Every byte holds its address. -/
def addressMemory : Mem := fun a => .ofNat a

/-- A move by one byte makes room at the front of an array. -/
theorem memmove_moves_iff_insert :
    Moves addressMemory (memmove addressMemory 17 16 3).2 17 16 3 ↔
      OverlapInPlace addressMemory 17 16 3 :=
  memmove_moves_iff addressMemory 17 16 3 (by decide) (by decide)

/-- It copies the first element of the array into all the others. -/
theorem memmove_smears : ¬ ∀ (m : Mem) (dest src n : Nat), dest + n ≤ 2 ^ 32 →
    src + n ≤ 2 ^ 32 → Moves m (memmove m dest src n).2 dest src n := by
  intro h
  have hmoves := h addressMemory 17 16 3 (by decide) (by decide)
  have hsecond := hmoves.1 1 (by decide)
  exact absurd hsecond (by decide)

end Moves

end TimbOS.Native.Klibc
