import TimbOS.Native.Mm
import TimbOS.Spec.PhysicalInit

/-!
# Successive allocations at boot

`init` calls `linear_alloc` again and again, each call from the position that the last one left.
The loop that should align the position tests the bit of 16, not the bits below: a position in
the lower half of 32 bytes stays where it is.

## Key results

- `Call.right_iff`: exactly when one call does what it should
- `linearAlloc_right_iff`: exactly which successions of calls are right
-/

namespace TimbOS.Native.Physical

section LinearAlloc

variable {size pos : Nat} {sizes : List Nat}

/-- A call of `linear_alloc` with alignment 16: the position that it finds, the size, the physical
    address of the object, and the position that it leaves. -/
structure Call where
  pos : Nat
  size : Nat
  object : Nat
  next : Nat

/-- The call that finds the position `pos`. -/
def call (size pos : Nat) : Call :=
  ⟨pos, size, Mm.kernelVirtualToPhysical (linearAlloc size 16 pos).1, (linearAlloc size 16 pos).2⟩

/-- One call for each size. -/
def calls : List Nat → Nat → List Call
  | [], _ => []
  | size :: sizes, pos => call size pos :: calls sizes (call size pos).next

/-- The loop ends at a clear bit, not only with its fuel, and the object is aligned and fills the
    memory up to the next position. -/
structure Call.Right (c : Call) : Prop where
  ends : skipAlign 16 (2 ^ 32) c.pos &&& 16 = 0
  aligned : 16 ∣ c.object
  not_below : c.pos ≤ c.object
  next_eq : c.object + c.size = c.next

/-- No byte belongs to both objects. -/
def Apart (c d : Call) : Prop :=
  ∀ a, ¬ ((c.object ≤ a ∧ a < c.object + c.size) ∧ (d.object ≤ a ∧ a < d.object + d.size))

/-- All calls are right, and all objects are apart. -/
def AllocatesRight (sizes : List Nat) (pos : Nat) : Prop :=
  (∀ c ∈ calls sizes pos, c.Right) ∧ (calls sizes pos).Pairwise Apart

/-- Behind the upper half of 32 bytes. -/
def behindUpper (pos : Nat) : Nat := if 16 ≤ pos % 32 then (pos / 32 + 1) * 32 else pos

/-- Every position that a call finds is aligned, or in the upper half of 32 bytes, and every
    object ends below 4 GiB. -/
def Lucky : List Nat → Nat → Prop
  | [], _ => True
  | size :: sizes, pos =>
    (16 ∣ pos ∨ 16 ≤ pos % 32) ∧ behindUpper pos + size < 2 ^ 32 ∧
      Lucky sizes (behindUpper pos + size)

/-! ## One call -/

theorem skip16_eq_mod (hpos : pos < 2 ^ 32) : skip16 pos = behindUpper pos % 2 ^ 32 := by
  rw [skip16, behindUpper]
  split_ifs <;> omega

theorem call_object (hpos : pos < 2 ^ 32) : (call size pos).object = behindUpper pos % 2 ^ 32 := by
  rw [← skip16_eq_mod hpos]
  have hlt := skip16_lt hpos
  simp only [call, linearAlloc_eq hpos, Mm.kernelVirtualToPhysical, add32, sub32,
    kernelVirtualBase]
  omega

theorem call_next (hpos : pos < 2 ^ 32) :
    (call size pos).next = (behindUpper pos + size) % 2 ^ 32 := by
  simp only [call, linearAlloc_eq hpos, skip16_eq_mod hpos, add32]
  omega

/-- The loop always ends. -/
theorem skipAlign_ends (hpos : pos < 2 ^ 32) : skipAlign 16 (2 ^ 32) pos &&& 16 = 0 := by
  rw [skipAlign_eq hpos, and_16, skip16]
  split_ifs <;> omega

theorem Call.right_iff (hpos : pos < 2 ^ 32) :
    (call size pos).Right ↔
      (16 ∣ pos ∨ 16 ≤ pos % 32) ∧ behindUpper pos + size < 2 ^ 32 := by
  constructor
  · intro h
    have haligned := h.aligned
    have hbelow := h.not_below
    have hnext := h.next_eq
    rw [call_object hpos] at haligned hbelow hnext
    rw [call_next hpos] at hnext
    change pos ≤ behindUpper pos % 2 ^ 32 at hbelow
    change behindUpper pos % 2 ^ 32 + size = (behindUpper pos + size) % 2 ^ 32 at hnext
    -- a position at the end of memory would come back to 0
    rw [behindUpper] at haligned hbelow hnext ⊢
    split_ifs at haligned hbelow hnext ⊢ <;> omega
  · rintro ⟨haligned, hfits⟩
    have hobject : (call size pos).object = behindUpper pos := by
      rw [call_object hpos, Nat.mod_eq_of_lt (by omega)]
    refine ⟨skipAlign_ends hpos, ?_, ?_, ?_⟩
    · rw [hobject, behindUpper]
      split_ifs <;> omega
    · rw [hobject, behindUpper]
      change pos ≤ _
      split_ifs <;> omega
    · rw [hobject, call_next hpos]
      change behindUpper pos + size = _
      omega

/-! ## Successions of calls -/

/-- Objects that are allocated later are not below the position. -/
theorem le_object (h : ∀ c ∈ calls sizes pos, c.Right) : ∀ c ∈ calls sizes pos, pos ≤ c.object := by
  induction sizes generalizing pos with
  | nil => simp [calls]
  | cons size sizes ih =>
    rw [calls, List.forall_mem_cons] at h ⊢
    have hfirst := h.1.not_below
    have hnext := h.1.next_eq
    refine ⟨hfirst, fun c hc => ?_⟩
    have hlater := ih h.2 c hc
    change pos ≤ (call size pos).object at hfirst
    omega

theorem pairwise_apart (h : ∀ c ∈ calls sizes pos, c.Right) :
    (calls sizes pos).Pairwise Apart := by
  induction sizes generalizing pos with
  | nil => exact List.Pairwise.nil
  | cons size sizes ih =>
    rw [calls, List.forall_mem_cons] at h
    rw [calls, List.pairwise_cons]
    refine ⟨fun c hc a ha => ?_, ih h.2⟩
    -- the first object ends where the position is for the others
    have hnext := h.1.next_eq
    have hlater := le_object h.2 c hc
    omega

end LinearAlloc

/-- Successive calls allocate correctly exactly if every call finds a position that is aligned or
    in the upper half of 32 bytes, and its object ends below 4 GiB. -/
theorem linearAlloc_right_iff (sizes : List Nat) (pos : Nat) (hpos : pos < 2 ^ 32) :
    AllocatesRight sizes pos ↔ Lucky sizes pos := by
  have hcalls : (∀ c ∈ calls sizes pos, c.Right) ↔ Lucky sizes pos := by
    induction sizes generalizing pos with
    | nil => simp [calls, Lucky]
    | cons size sizes ih =>
      rw [calls, List.forall_mem_cons, Call.right_iff hpos, Lucky, and_assoc]
      refine and_congr_right fun _ => and_congr_right fun hfits => ?_
      rw [call_next hpos, Nat.mod_eq_of_lt hfits]
      exact ih _ hfits
  rw [← hcalls]
  exact ⟨fun h => h.1, fun h => ⟨h, pairwise_apart h⟩⟩

theorem linearAlloc_right_iff_aligned :
    AllocatesRight [4096, 12, 4] 0x00123450 ↔ Lucky [4096, 12, 4] 0x00123450 :=
  linearAlloc_right_iff [4096, 12, 4] 0x00123450 (by decide)

/-- An object at the end of an image of odd length stays there. -/
theorem linearAlloc_unaligned :
    ¬ ∀ (sizes : List Nat) (pos : Nat), pos < 2 ^ 32 → AllocatesRight sizes pos := by
  intro h
  have hfirst := (h [4] 0x00123401 (by decide)).1 _ List.mem_cons_self
  exact absurd ((Call.right_iff (by decide)).mp hfirst).1 (by decide)

end TimbOS.Native.Physical
