import Mathlib

/-!
# Numerals

A numeral is a list of digits, the most significant one first. `Nat.ofDigits` and `Nat.digits`
have the least significant one first.

## Key results

- `value_inj`, `length_le_of_value_eq`: a numeral is determined by its value and its length, and
  one without a leading zero is the shortest of its value
- `value_lowDigits`: the last digits of a number
-/

namespace ForStd.Numeral

/-- The value of a numeral in base `b`. -/
def value (b : Nat) (ds : List Nat) : Nat := Nat.ofDigits b ds.reverse

/-- The last `k` digits of `n`. -/
def lowDigits (b n k : Nat) : List Nat := (List.range k).reverse.map fun i => n / b ^ i % b

variable {b d n : Nat} {ds es : List Nat}

theorem value_cons (b d : Nat) (ds : List Nat) :
    value b (d :: ds) = d * b ^ ds.length + value b ds := by
  rw [value, List.reverse_cons, Nat.ofDigits_append, Nat.ofDigits_singleton, List.length_reverse,
    Nat.add_comm, Nat.mul_comm]
  rfl

theorem value_lt (hb : 1 < b) (h : ∀ d ∈ ds, d < b) : value b ds < b ^ ds.length := by
  rw [← List.length_reverse]
  apply Nat.ofDigits_lt_base_pow_length hb
  intro d hd
  exact h d (List.mem_reverse.mp hd)

/-- Numerals of one length with the same value are the same. -/
theorem value_inj (hb : 1 < b) (hds : ∀ d ∈ ds, d < b) (hes : ∀ d ∈ es, d < b)
    (hlen : ds.length = es.length) (h : value b ds = value b es) : ds = es := by
  apply List.reverse_injective
  apply Nat.ofDigits_inj_of_len_eq hb (by simpa using hlen) _ _ h
  · intro d hd
    exact hds d (List.mem_reverse.mp hd)
  · intro d hd
    exact hes d (List.mem_reverse.mp hd)

/-- A numeral without a leading zero is not longer than any other one with its value. -/
theorem length_le_of_value_eq (hb : 1 < b) (hd : 0 < d) (hes : ∀ e ∈ es, e < b)
    (h : value b (d :: ds) = value b es) : (d :: ds).length ≤ es.length := by
  have hlow : b ^ ds.length ≤ value b (d :: ds) := by
    rw [value_cons]
    have hmul := Nat.le_mul_of_pos_left (b ^ ds.length) hd
    omega
  have hhigh := value_lt hb hes
  have hlt : ds.length < es.length := (Nat.pow_lt_pow_iff_right hb).mp (by omega)
  exact hlt

theorem lowDigits_succ (b n k : Nat) :
    lowDigits b n (k + 1) = n / b ^ k % b :: lowDigits b n k := by
  rw [lowDigits, List.range_succ, List.reverse_concat, List.map_cons, lowDigits]

@[simp] theorem length_lowDigits (b n k : Nat) : (lowDigits b n k).length = k := by
  simp [lowDigits]

theorem lowDigits_lt (hb : 0 < b) {k : Nat} : ∀ d ∈ lowDigits b n k, d < b := by
  intro d hd
  obtain ⟨i, -, rfl⟩ := List.mem_map.mp hd
  exact Nat.mod_lt _ hb

theorem value_lowDigits (b n k : Nat) : value b (lowDigits b n k) = n % b ^ k := by
  induction k with
  | zero => simp [lowDigits, value, Nat.mod_one]
  | succ k ih =>
    rw [lowDigits_succ, value_cons, length_lowDigits, ih, Nat.mod_pow_succ]
    ring

end ForStd.Numeral
