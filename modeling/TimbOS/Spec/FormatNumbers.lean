import TimbOS.ForStd.Numeral
import TimbOS.Native.Format

/-!
# The numbers that the formatter prints

The digits are read back from the text, each one by its place in ASCII. A decimal number is
printed from the last recursive call on, and the quotient that it depends on is signed, but
small enough. A hexadecimal number is printed from the widest shift on. A width of 9 shifts an
`unsigned int` by all of its 32 bits.

## Key results

- `formatNumber_shortest`: a decimal number is printed as its shortest numeral
- `hexLoop_text`, `hexLoop64_text`: the digits that the two loops print
- `directive_width`: the widths that the parser reads
- `formatNumberHex_iff`: exactly which widths print a hexadecimal number correctly
-/

namespace TimbOS.Native.Format

open ForStd

/-! ## Digits -/

/-- A decimal digit. -/
def IsDecimal (ch : UInt8) : Prop := '0'.toUInt8 ≤ ch ∧ ch ≤ '9'.toUInt8

/-- A hexadecimal digit, whose letters are upper case or lower case. -/
def IsHex (upper : Bool) (ch : UInt8) : Prop :=
  IsDecimal ch ∨ (if upper then 'A'.toUInt8 ≤ ch ∧ ch ≤ 'F'.toUInt8
    else 'a'.toUInt8 ≤ ch ∧ ch ≤ 'f'.toUInt8)

instance (ch : UInt8) : Decidable (IsDecimal ch) :=
  inferInstanceAs (Decidable ('0'.toUInt8 ≤ ch ∧ ch ≤ '9'.toUInt8))

instance (upper : Bool) (ch : UInt8) : Decidable (IsHex upper ch) :=
  match upper with
  | true => inferInstanceAs (Decidable (IsDecimal ch ∨ 'A'.toUInt8 ≤ ch ∧ ch ≤ 'F'.toUInt8))
  | false => inferInstanceAs (Decidable (IsDecimal ch ∨ 'a'.toUInt8 ≤ ch ∧ ch ≤ 'f'.toUInt8))

/-- The number that a digit stands for. -/
def charValue (ch : UInt8) : Nat :=
  if ch ≤ '9'.toUInt8 then
    ch.toNat - '0'.toNat
  else if ch ≤ 'F'.toUInt8 then
    10 + (ch.toNat - 'A'.toNat)
  else
    10 + (ch.toNat - 'a'.toNat)

/-- The number that a text stands for in base `b`. -/
def textValue (b : Nat) (text : List UInt8) : Nat := Numeral.value b (text.map charValue)

section Digits

variable {b n : Nat} {ds : List Nat} {upper : Bool} {text : List UInt8}

theorem digitChar_hex : ∀ d < 16, ∀ upper, IsHex upper (digitChar upper d) := by
  decide

theorem charValue_digitChar : ∀ d < 16, ∀ upper, charValue (digitChar upper d) = d := by
  decide

theorem digitChar_decimal : ∀ d < 10, IsDecimal (digitChar false d) := by
  decide

theorem IsDecimal.toNat {ch : UInt8} (h : IsDecimal ch) : 48 ≤ ch.toNat ∧ ch.toNat ≤ 57 := h

theorem isdigit_iff {ch : UInt8} : isdigit ch = true ↔ IsDecimal ch := by
  simp [isdigit, IsDecimal]

theorem charValue_decimal {ch : UInt8} (h : IsDecimal ch) : charValue ch = ch.toNat - 48 := by
  rw [charValue, if_pos h.2]
  rfl

theorem charValue_lt {ch : UInt8} (h : IsDecimal ch) : charValue ch < 10 := by
  have hrange := h.toNat
  rw [charValue_decimal h]
  omega

theorem toNat_digitChar : ∀ d < 10, (digitChar false d).toNat = 48 + d := by
  decide

theorem digitChar_charValue {ch : UInt8} (h : IsDecimal ch) :
    digitChar false (charValue ch) = ch := by
  have hrange := h.toNat
  apply UInt8.toNat_inj.mp
  rw [toNat_digitChar _ (charValue_lt h), charValue_decimal h]
  omega

/-- The digits of a text are read back. -/
theorem map_charValue (h : ∀ d ∈ ds, d < 16) :
    (ds.map (digitChar upper)).map charValue = ds := by
  rw [List.map_map]
  calc ds.map (charValue ∘ digitChar upper)
      = ds.map id := List.map_congr_left fun d hd => charValue_digitChar d (h d hd) upper
    _ = ds := List.map_id ds

theorem textValue_map (h : ∀ d ∈ ds, d < 16) :
    textValue b (ds.map (digitChar upper)) = Numeral.value b ds := by
  rw [textValue, map_charValue h]

theorem isHex_map (h : ∀ d ∈ ds, d < 16) : ∀ ch ∈ ds.map (digitChar upper), IsHex upper ch := by
  intro ch hch
  obtain ⟨d, hd, rfl⟩ := List.mem_map.mp hch
  exact digitChar_hex d (h d hd) upper

end Digits

/-! ## Decimal numbers -/

section Decimal

variable {number : Nat} {text other : List UInt8}

/-- `text` is a decimal numeral of the number. -/
structure IsNumeral (number : Nat) (text : List UInt8) : Prop where
  nonempty : text ≠ []
  digits : ∀ ch ∈ text, IsDecimal ch
  value : textValue 10 text = number

/-- `text` is the one shortest decimal numeral of the number. It begins with a zero only for the
    number 0. -/
structure ShortestNumeral (number : Nat) (text : List UInt8) : Prop extends
    IsNumeral number text where
  leading : text.head? = some '0'.toUInt8 ↔ number = 0
  shortest : ∀ other, IsNumeral number other → text.length ≤ other.length
  unique : ∀ other, IsNumeral number other → other.length = text.length → other = text

theorem toInt_of_lt (h : number < 2 ^ 31) : toInt number = number := by
  have hcond := BitVec.toInt_eq_toNat_cond (BitVec.ofNat 32 number)
  rw [BitVec.toNat_ofNat, Nat.mod_eq_of_lt (by omega), if_pos (by omega)] at hcond
  exact hcond

/-- The signed quotient is the quotient. -/
theorem formatNumber_eq (h : number < 2 ^ 32) :
    formatNumber number =
      (if 0 < number / 10 then formatNumber (number / 10) else []) ++
        [digitChar false (number % 10)] := by
  have hdigit : toInt (number % 10) = (number % 10 : Nat) := toInt_of_lt (by omega)
  have hquotient : toInt (number / 10) = (number / 10 : Nat) := toInt_of_lt (by omega)
  rw [formatNumber]
  simp only [hdigit, hquotient, Int.toNat_natCast, gt_iff_lt, Int.natCast_pos]
  split_ifs
  · rfl
  · rfl

theorem formatNumber_digits (hpos : 0 < number) (h : number < 2 ^ 32) :
    formatNumber number = (Nat.digits 10 number).reverse.map (digitChar false) := by
  induction number using Nat.strong_induction_on with
  | _ number ih =>
    rw [formatNumber_eq h, Nat.digits_def' (by decide) hpos, List.reverse_cons, List.map_append]
    congr 1
    -- the quotient has all digits but the last, and none if it is zero
    by_cases hquotient : 0 < number / 10
    · rw [if_pos hquotient]
      exact ih (number / 10) (by omega) hquotient (by omega)
    · rw [if_neg hquotient, Nat.eq_zero_of_not_pos hquotient]
      rfl

/-- The digits of a positive number, the first of them not zero. -/
theorem formatNumber_cons (hpos : 0 < number) (h : number < 2 ^ 32) :
    ∃ d ds, formatNumber number = (d :: ds).map (digitChar false) ∧ 0 < d ∧
      (∀ e ∈ d :: ds, e < 10) ∧ Numeral.value 10 (d :: ds) = number := by
  have hne : Nat.digits 10 number ≠ [] := Nat.digits_ne_nil_iff_ne_zero.mpr hpos.ne'
  obtain ⟨d, ds, hcons⟩ := List.exists_cons_of_ne_nil (List.reverse_ne_nil_iff.mpr hne)
  refine ⟨d, ds, ?_, ?_, ?_, ?_⟩
  · rw [formatNumber_digits hpos h, hcons]
  · have hlast := Nat.getLast_digit_ne_zero 10 hpos.ne'
    rw [← List.head_reverse (by simpa using hne)] at hlast
    simp only [hcons, List.head_cons] at hlast
    exact Nat.pos_of_ne_zero hlast
  · intro e he
    rw [← hcons, List.mem_reverse] at he
    exact Nat.digits_lt_base (by decide) he
  · rw [← hcons, Numeral.value, List.reverse_reverse, Nat.ofDigits_digits]

theorem formatNumber_zero : formatNumber 0 = ['0'.toUInt8] := by
  rw [formatNumber_eq (by decide), if_neg (by decide)]
  rfl

theorem IsNumeral.map_charValue (h : IsNumeral number text) :
    (text.map charValue).map (digitChar false) = text := by
  rw [List.map_map]
  calc text.map (digitChar false ∘ charValue)
      = text.map id := List.map_congr_left fun ch hch => digitChar_charValue (h.digits ch hch)
    _ = text := List.map_id text

theorem IsNumeral.charValue_lt (h : IsNumeral number text) : ∀ d ∈ text.map charValue, d < 10 := by
  intro d hd
  obtain ⟨ch, hch, rfl⟩ := List.mem_map.mp hd
  exact Format.charValue_lt (h.digits ch hch)

/-- Numerals of one length are the same. -/
theorem IsNumeral.eq_of_length (htext : IsNumeral number text) (hother : IsNumeral number other)
    (hlen : other.length = text.length) : other = text := by
  have hvalues : other.map charValue = text.map charValue := by
    apply Numeral.value_inj (b := 10) (by decide) hother.charValue_lt htext.charValue_lt
    · simpa using hlen
    · exact hother.value.trans htext.value.symm
  rw [← hother.map_charValue, hvalues, htext.map_charValue]

theorem isNumeral_formatNumber (h : number < 2 ^ 32) : IsNumeral number (formatNumber number) := by
  by_cases hpos : 0 < number
  · obtain ⟨d, ds, htext, -, hds, hvalue⟩ := formatNumber_cons hpos h
    rw [htext]
    refine ⟨by simp, ?_, ?_⟩
    · intro ch hch
      obtain ⟨e, he, rfl⟩ := List.mem_map.mp hch
      exact digitChar_decimal e (hds e he)
    · rw [textValue_map fun e he => (hds e he).trans (by decide), hvalue]
  · rw [Nat.eq_zero_of_not_pos hpos, formatNumber_zero]
    refine ⟨by simp, ?_, by decide⟩
    intro ch hch
    rw [List.mem_singleton.mp hch]
    decide

/-- A zero in front would be a digit too many. -/
theorem formatNumber_leading (h : number < 2 ^ 32) :
    (formatNumber number).head? = some '0'.toUInt8 ↔ number = 0 := by
  by_cases hpos : 0 < number
  · obtain ⟨d, ds, htext, hd, hds, -⟩ := formatNumber_cons hpos h
    refine iff_of_false ?_ hpos.ne'
    rw [htext, List.map_cons, List.head?_cons]
    intro hzero
    have hchar := congrArg UInt8.toNat (Option.some.inj hzero)
    rw [toNat_digitChar d (hds d List.mem_cons_self)] at hchar
    have hascii : '0'.toUInt8.toNat = 48 := rfl
    omega
  · rw [Nat.eq_zero_of_not_pos hpos, formatNumber_zero]
    simp

theorem formatNumber_length_le (h : number < 2 ^ 32) (hother : IsNumeral number other) :
    (formatNumber number).length ≤ other.length := by
  by_cases hpos : 0 < number
  · obtain ⟨d, ds, htext, hd, -, hvalue⟩ := formatNumber_cons hpos h
    have hle := Numeral.length_le_of_value_eq (by decide) hd hother.charValue_lt
      (hvalue.trans hother.value.symm)
    rw [htext]
    simpa using hle
  · rw [Nat.eq_zero_of_not_pos hpos, formatNumber_zero]
    exact List.length_pos_iff.mpr hother.nonempty

end Decimal

/-- `format_number` prints the one shortest decimal numeral of every `unsigned int`. -/
theorem formatNumber_shortest (number : Nat) (h : number < 2 ^ 32) :
    ShortestNumeral number (formatNumber number) where
  toIsNumeral := isNumeral_formatNumber h
  leading := formatNumber_leading h
  shortest _ hother := formatNumber_length_le h hother
  unique _ hother hlen := (isNumeral_formatNumber h).eq_of_length hother hlen

theorem formatNumber_shortest_max :
    ShortestNumeral 0xFFFFFFFF (formatNumber 0xFFFFFFFF) :=
  formatNumber_shortest 0xFFFFFFFF (by decide)

/-! ## Hexadecimal numbers -/

section Hexadecimal

variable {number width k : Nat} {upper : Bool}

/-- The number of digits that are printed, where a width of 0 prints all of them. -/
def digitCount (all width : Nat) : Nat := if width > 0 then width else all

/-- The shifts that print `k` digits. -/
def shifts : Nat → List Nat
  | 0 => []
  | k + 1 => 4 * k :: shifts k

/-- A separator in front of the last 8 digits, if there are more of them. -/
def separated (digits : List UInt8) : List UInt8 :=
  if 8 < digits.length then
    digits.take (digits.length - 8) ++ '`'.toUInt8 :: digits.drop (digits.length - 8)
  else
    digits

/-- `digits` are the last `count` hexadecimal digits of the number. -/
structure HexDigits (number count : Nat) (upper : Bool) (digits : List UInt8) : Prop where
  length : digits.length = count
  isHex : ∀ ch ∈ digits, IsHex upper ch
  value : textValue 16 digits = number % 16 ^ count

/-- The `unsigned int` is printed with as many digits as asked for, one for each shift, and no
    shift reaches its 32 bits. -/
structure HexRight (number width : Nat) (upper : Bool) : Prop where
  text : HexDigits number (digitCount 8 width) upper (formatNumberHex number width upper)
  prints : formatNumberHex number width upper = (shifts (digitCount 8 width)).map
    fun shift => digitChar upper ((number >>> (shift % 32)) &&& 0xF)
  shift_lt : ∀ shift ∈ shifts (digitCount 8 width), shift < 32

/-- The `unsigned long long` is printed with as many digits as asked for, a separator between its
    words, and no shift reaches its 64 bits. -/
structure HexRight64 (number width : Nat) (upper : Bool) : Prop where
  text : ∃ digits, HexDigits number (digitCount 16 width) upper digits ∧
    formatNumberHex64 number width upper = separated digits
  prints : formatNumberHex64 number width upper = (shifts (digitCount 16 width)).flatMap
    fun shift => digitChar upper ((number >>> shift) &&& 0xF) ::
      if shift = 32 then ['`'.toUInt8] else []
  shift_lt : ∀ shift ∈ shifts (digitCount 16 width), shift < 64

/-- Each round of a loop prints the digit of its shift. -/
theorem hexLoop_shifts (number : Nat) (upper : Bool) (k : Nat) :
    hexLoop number upper k =
      (shifts k).map fun shift => digitChar upper ((number >>> (shift % 32)) &&& 0xF) := by
  induction k with
  | zero => rfl
  | succ k ih => rw [hexLoop, shifts, List.map_cons, ih]

theorem hexLoop64_shifts (number : Nat) (upper : Bool) (k : Nat) :
    hexLoop64 number upper k =
      (shifts k).flatMap fun shift => digitChar upper ((number >>> shift) &&& 0xF) ::
        if shift = 32 then ['`'.toUInt8] else [] := by
  induction k with
  | zero => rfl
  | succ k ih =>
    rw [hexLoop64, shifts, List.flatMap_cons, ← ih]
    split_ifs
    · rfl
    · rfl

theorem mem_shifts {shift : Nat} : shift ∈ shifts k ↔ ∃ i < k, shift = 4 * i := by
  induction k with
  | zero => simp [shifts]
  | succ k ih =>
    rw [shifts, List.mem_cons, ih]
    constructor
    · rintro (hlast | ⟨i, hi, hshift⟩)
      · exact ⟨k, k.lt_succ_self, hlast⟩
      · exact ⟨i, Nat.lt_succ_of_lt hi, hshift⟩
    · rintro ⟨i, hi, hshift⟩
      rcases Nat.lt_succ_iff_lt_or_eq.mp hi with hi | hi
      · exact .inr ⟨i, hi, hshift⟩
      · exact .inl (hi ▸ hshift)

theorem nibble_eq (number k : Nat) : (number >>> (4 * k)) &&& 0xF = number / 16 ^ k % 16 := by
  rw [Nat.shiftRight_eq_div_pow, Nat.pow_mul]
  exact Nat.and_two_pow_sub_one_eq_mod _ 4

/-- All shifts are taken as they are. -/
theorem hexLoop_text (hk : k ≤ 8) :
    hexLoop number upper k = (Numeral.lowDigits 16 number k).map (digitChar upper) := by
  induction k with
  | zero => rfl
  | succ k ih =>
    rw [hexLoop, ih (by omega), Numeral.lowDigits_succ, List.map_cons,
      Nat.mod_eq_of_lt (by omega : 4 * k < 32), nibble_eq]

theorem separated_cons (d : UInt8) (digits : List UInt8) :
    separated (d :: digits) =
      d :: if digits.length = 8 then '`'.toUInt8 :: separated digits else separated digits := by
  rcases Nat.lt_trichotomy digits.length 8 with hlen | hlen | hlen
  · rw [separated, separated, if_neg (by simp only [List.length_cons]; omega), if_neg (by omega),
      if_neg (by omega)]
  · rw [separated, separated, if_pos (by simp [hlen]), if_pos hlen, if_neg (by omega)]
    simp [hlen]
  · rw [separated, separated, if_pos (by simp only [List.length_cons]; omega), if_neg (by omega),
      if_pos hlen, List.length_cons, Nat.sub_add_comm (by omega), List.take_succ_cons,
      List.drop_succ_cons, List.cons_append]

/-- The separator comes when 8 digits are left. -/
theorem hexLoop64_text (number : Nat) (upper : Bool) (k : Nat) :
    hexLoop64 number upper k =
      separated ((Numeral.lowDigits 16 number k).map (digitChar upper)) := by
  induction k with
  | zero => rfl
  | succ k ih =>
    rw [hexLoop64, Numeral.lowDigits_succ, List.map_cons, separated_cons, List.length_map,
      Numeral.length_lowDigits, nibble_eq, ih]
    -- behind this digit are `k` more, and the shift is `4 * k`
    by_cases hk : k = 8
    · rw [if_pos (by omega), if_pos hk]
    · rw [if_neg (by omega), if_neg hk]

theorem hexDigits_lowDigits (number count : Nat) (upper : Bool) :
    HexDigits number count upper ((Numeral.lowDigits 16 number count).map (digitChar upper)) where
  length := by rw [List.length_map, Numeral.length_lowDigits]
  isHex := isHex_map (Numeral.lowDigits_lt (by decide))
  value := by rw [textValue_map (Numeral.lowDigits_lt (by decide)), Numeral.value_lowDigits]

theorem digitCount_le {all width m : Nat} (hall : all ≤ m) (hwidth : width ≤ m) :
    digitCount all width ≤ m := by
  rw [digitCount]
  split_ifs
  · exact hwidth
  · exact hall

theorem hexRight (hwidth : width ≤ 8) : HexRight number width upper where
  text := by
    have hloop : hexLoop number upper (digitCount 8 width) = _ :=
      hexLoop_text (digitCount_le (Nat.le_refl 8) hwidth)
    have hdigits := hexDigits_lowDigits number (digitCount 8 width) upper
    rw [← hloop] at hdigits
    exact hdigits
  prints := hexLoop_shifts number upper (digitCount 8 width)
  shift_lt := by
    intro shift hshift
    obtain ⟨i, hi, rfl⟩ := mem_shifts.mp hshift
    have hcount := digitCount_le (Nat.le_refl 8) hwidth
    omega

theorem hexRight64 (hwidth : width ≤ 16) : HexRight64 number width upper where
  text := by
    refine ⟨_, hexDigits_lowDigits number (digitCount 16 width) upper, ?_⟩
    exact hexLoop64_text number upper (digitCount 16 width)
  prints := hexLoop64_shifts number upper (digitCount 16 width)
  shift_lt := by
    intro shift hshift
    obtain ⟨i, hi, rfl⟩ := mem_shifts.mp hshift
    have hcount := digitCount_le (Nat.le_refl 16) hwidth
    omega

/-- Nine digits of an `unsigned int` begin with a shift by 32. -/
theorem not_hexRight_nine : ¬ HexRight number 9 upper := by
  intro h
  exact absurd (h.shift_lt 32 (mem_shifts.mpr ⟨8, by decide, rfl⟩)) (by decide)

theorem bind_eq_ok {α β : Type} {x : Except Stop α} {f : α → Except Stop β} {b : β}
    (h : (x >>= f) = .ok b) : ∃ a, x = .ok a ∧ f a = .ok b := by
  cases x with
  | error stop => cases h
  | ok a => exact ⟨a, rfl, h⟩

/-- A width is at most one digit. -/
theorem directive_width {m : Mem} {limit format : Nat} {d : Directive}
    (h : directive m limit format = .ok d) : d.width ≤ 9 := by
  obtain ⟨zero, -, h⟩ := bind_eq_ok h
  obtain ⟨ch, -, h⟩ := bind_eq_ok h
  obtain ⟨long, -, h⟩ := bind_eq_ok h
  cases h
  show (if isdigit ch then ch.toNat - '0'.toNat else 0) ≤ 9
  by_cases hdigit : isdigit ch = true
  · rw [if_pos hdigit]
    have hle := (isdigit_iff.mp hdigit).toNat.2
    exact Nat.sub_le_of_le_add hle
  · rw [if_neg hdigit]
    exact Nat.zero_le 9

end Hexadecimal

/-- A hexadecimal `unsigned int` is printed correctly exactly if the width is not 9, and an
    `unsigned long long` always is. -/
theorem formatNumberHex_iff (number width : Nat) (upper : Bool) (hwidth : width ≤ 9) :
    (HexRight number width upper ↔ width ≠ 9) ∧ HexRight64 number width upper := by
  refine ⟨?_, hexRight64 (hwidth.trans (by decide))⟩
  constructor
  · rintro hright rfl
    exact not_hexRight_nine hright
  · intro hne
    exact hexRight (by omega)

theorem formatNumberHex_iff_eight :
    (HexRight 0xDEADBEEF 8 true ↔ 8 ≠ 9) ∧ HexRight64 0xDEADBEEF 8 true :=
  formatNumberHex_iff 0xDEADBEEF 8 true (by decide)

/-- The first of nine digits of 1 is its last digit. -/
theorem formatNumberHex_nine :
    ¬ ∀ (number width : Nat) (upper : Bool), number < 2 ^ 32 → width ≤ 9 →
      HexRight number width upper ∧ HexRight64 number width upper := by
  intro h
  exact absurd (h 1 9 false (by decide) (by decide)).1.text.value (by decide)

end TimbOS.Native.Format
