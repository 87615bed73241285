import Mathlib

/-!
# Bit fields of a word

A field of `n` bits lies above the `lo` lowest bits of a word. Words are natural numbers.
The rules say what a read sees after a write: the new value in the field itself, and the old
one in every field that does not overlap.
-/

namespace ForStd

/-- The field of `n` bits from bit `lo` on. -/
def field (w lo n : Nat) : Nat := w / 2 ^ lo % 2 ^ n

/-- Put the low `n` bits of `v` into the field. -/
def setField (w lo n v : Nat) : Nat :=
  w / 2 ^ (lo + n) * 2 ^ (lo + n) + v % 2 ^ n * 2 ^ lo + w % 2 ^ lo

section Field

variable (w : Nat) {lo n lo' n' : Nat} (v : Nat)

theorem field_lt (lo n : Nat) : field w lo n < 2 ^ n := Nat.mod_lt _ (Nat.two_pow_pos n)

/-- The new field and what is below it. -/
private theorem low_lt (lo n : Nat) : v % 2 ^ n * 2 ^ lo + w % 2 ^ lo < 2 ^ (lo + n) := by
  have hv : v % 2 ^ n < 2 ^ n := Nat.mod_lt _ (Nat.two_pow_pos n)
  have hw : w % 2 ^ lo < 2 ^ lo := Nat.mod_lt _ (Nat.two_pow_pos lo)
  calc v % 2 ^ n * 2 ^ lo + w % 2 ^ lo < v % 2 ^ n * 2 ^ lo + 2 ^ lo := by omega
    _ = (v % 2 ^ n + 1) * 2 ^ lo := by rw [Nat.add_mul, Nat.one_mul]
    _ ≤ 2 ^ n * 2 ^ lo := Nat.mul_le_mul_right _ hv
    _ = 2 ^ (lo + n) := by rw [Nat.pow_add, Nat.mul_comm]

/-- A write does not change the bits above the field. -/
theorem setField_div (lo n : Nat) : setField w lo n v / 2 ^ (lo + n) = w / 2 ^ (lo + n) := by
  rw [setField, Nat.add_assoc, Nat.mul_comm, Nat.mul_add_div (Nat.two_pow_pos _),
    Nat.div_eq_of_lt (low_lt w v lo n), Nat.add_zero]

/-- A write does not change the bits below the field. -/
theorem setField_mod (lo n : Nat) : setField w lo n v % 2 ^ lo = w % 2 ^ lo := by
  rw [setField, Nat.pow_add, Nat.mul_comm (2 ^ lo) (2 ^ n), ← Nat.mul_assoc, ← Nat.add_mul,
    Nat.mul_comm _ (2 ^ lo), Nat.mul_add_mod, Nat.mod_mod]

/-- Reading back the field just written. -/
@[simp] theorem field_setField_same (lo n : Nat) : field (setField w lo n v) lo n = v % 2 ^ n := by
  have hw : w % 2 ^ lo < 2 ^ lo := Nat.mod_lt _ (Nat.two_pow_pos lo)
  rw [field, setField, Nat.pow_add, Nat.mul_comm (2 ^ lo) (2 ^ n), ← Nat.mul_assoc, ← Nat.add_mul,
    Nat.mul_comm _ (2 ^ lo), Nat.mul_add_div (Nat.two_pow_pos _), Nat.div_eq_of_lt hw, Nat.add_zero,
    Nat.mul_comm _ (2 ^ n), Nat.mul_add_mod, Nat.mod_mod]

/-- Reading a field above the one just written. -/
theorem field_setField_above (h : lo + n ≤ lo') : field (setField w lo n v) lo' n' =
    field w lo' n' := by
  -- division by `2 ^ lo'` goes through the part above the field, which is unchanged
  have hsplit : 2 ^ lo' = 2 ^ (lo + n) * 2 ^ (lo' - (lo + n)) := by
    rw [← Nat.pow_add]
    congr 1
    omega
  rw [field, field, hsplit, ← Nat.div_div_eq_div_mul, ← Nat.div_div_eq_div_mul, setField_div]

/-- Reading a field below the one just written. -/
theorem field_setField_below (h : lo' + n' ≤ lo) : field (setField w lo n v) lo' n' =
    field w lo' n' := by
  have hdvd : 2 ^ lo' * 2 ^ n' ∣ 2 ^ lo := by
    rw [← Nat.pow_add]
    exact Nat.pow_dvd_pow 2 h
  -- a field below `lo` depends on the part below `lo` only
  have hlow : ∀ x, field x lo' n' = x % 2 ^ lo % (2 ^ lo' * 2 ^ n') / 2 ^ lo' := by
    intro x
    rw [Nat.mod_mod_of_dvd x hdvd, Nat.mod_mul_right_div_self, field]
  rw [hlow, hlow w, setField_mod]

/-- A write to a field inside a word gives a word. -/
theorem setField_lt {k : Nat} (hw : w < 2 ^ k) (h : lo + n ≤ k) : setField w lo n v < 2 ^ k := by
  -- the part above the field is that of `w`, and so has few enough bits
  have hhigh : setField w lo n v / 2 ^ (lo + n) < 2 ^ (k - (lo + n)) := by
    rw [setField_div, Nat.div_lt_iff_lt_mul (Nat.two_pow_pos _), ← Nat.pow_add,
      Nat.sub_add_cancel h]
    exact hw
  rw [Nat.div_lt_iff_lt_mul (Nat.two_pow_pos _), ← Nat.pow_add, Nat.sub_add_cancel h] at hhigh
  exact hhigh

end Field

end ForStd
