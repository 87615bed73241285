import TimbOS.ForStd.Memory

/-!
# Formatted output

`format.cpp` renders a format string with arguments from the stack. What the functions pass
to `output` is returned here as a list. Pointers are addresses in a `Mem`, which reduces them
modulo `2 ^ 32`.

The loop reads the format character by character. The model watches these reads: `limit` is
the address of the terminating NUL, and the first read behind it ends the run with
`Stop.beyondFormat`.
-/

namespace TimbOS.Native.Format

open ForStd

/-- Why the model of `format_string_varg` has no result. -/
inductive Stop where
  | beyondFormat
  | fuel
  deriving DecidableEq, Repr

/-- `'%'` -/
def percent : UInt8 := '%'.toUInt8

def digitCharsLower : List UInt8 :=
  ['0', '1', '2', '3', '4', '5', '6', '7', '8', '9', 'a', 'b', 'c', 'd', 'e', 'f'].map
    Char.toUInt8

def digitCharsUpper : List UInt8 :=
  ['0', '1', '2', '3', '4', '5', '6', '7', '8', '9', 'A', 'B', 'C', 'D', 'E', 'F'].map
    Char.toUInt8

/-- `digit_chars[digit]` -/
def digitChar (upper : Bool) (digit : Nat) : UInt8 :=
  (if upper then digitCharsUpper else digitCharsLower).getD digit 0

/-- `format_chars( output, ptr, str )` -/
def formatChars (m : Mem) : Nat → Nat → Except Stop (List UInt8)
  | 0, _ => .error .fuel
  | fuel + 1, str =>
    if m.load8 str = 0 then
      .ok []
    else do
      let chars ← formatChars m fuel (str + 1)
      return m.load8 str :: chars

/-- An `unsigned int` as an `int`. -/
def toInt (number : Nat) : Int := (BitVec.ofNat 32 number).toInt

theorem toNat_toInt_le (number : Nat) : (toInt number).toNat ≤ number := by
  have hcond := BitVec.toInt_eq_toNat_cond (BitVec.ofNat 32 number)
  have hle := Nat.mod_le number (2 ^ 32)
  rw [BitVec.toNat_ofNat] at hcond
  rw [toInt, hcond]
  split_ifs <;> omega

/-- `format_number( output, ptr, number )`, where `digit` and `remainder` are signed -/
def formatNumber (number : Nat) : List UInt8 :=
  let digit := toInt (number % 10)
  let remainder := toInt (number / 10)
  if remainder > 0 then
    formatNumber remainder.toNat ++ [digitChar false digit.toNat]
  else
    [digitChar false digit.toNat]
  termination_by number
  decreasing_by
    have hle := toNat_toInt_le (number / 10)
    omega

/-- The loop of `format_number_hex` for `unsigned long long`, where `shift` is four times the
    first argument. -/
def hexLoop64 (number : Nat) (upper : Bool) : Nat → List UInt8
  | 0 => []
  | k + 1 =>
    let shift := 4 * k
    let digit := digitChar upper ((number >>> shift) &&& 0xF)
    -- a separator between the two words
    if shift = 32 then
      digit :: '`'.toUInt8 :: hexLoop64 number upper k
    else
      digit :: hexLoop64 number upper k

/-- `format_number_hex( output, ptr, number, width, upper )` for `unsigned long long` -/
def formatNumberHex64 (number width : Nat) (upper : Bool) : List UInt8 :=
  hexLoop64 number upper (if width > 0 then width else 16)

/-- The loop of `format_number_hex` for `unsigned int`. The processor takes the shift count
    modulo 32, which a width of 9 reaches. -/
def hexLoop (number : Nat) (upper : Bool) : Nat → List UInt8
  | 0 => []
  | k + 1 =>
    let shift := 4 * k
    digitChar upper ((number >>> (shift % 32)) &&& 0xF) :: hexLoop number upper k

/-- `format_number_hex( output, ptr, number, width, upper )` for `unsigned int` -/
def formatNumberHex (number width : Nat) (upper : Bool) : List UInt8 :=
  hexLoop number upper (if width > 0 then width else 8)

def isdigit (ch : UInt8) : Bool := '0'.toUInt8 ≤ ch && ch ≤ '9'.toUInt8

def isupper (ch : UInt8) : Bool := 'A'.toUInt8 ≤ ch && ch ≤ 'Z'.toUInt8

/-- `*format`, watched. -/
def peek (m : Mem) (limit format : Nat) : Except Stop UInt8 :=
  if format ≤ limit then .ok (m.load8 format) else .error .beyondFormat

/-- What the optional parts of a directive leave. -/
structure Directive where
  width : Nat
  longMode : Bool
  /-- Where the conversion character is. -/
  format : Nat

/-- The optional parts of a directive, where `format` is behind the `%`. -/
def directive (m : Mem) (limit format : Nat) : Except Stop Directive := do
  -- `leading_zeros` is local to the `if` that sets it
  let format := if (← peek m limit format) = '0'.toUInt8 then format + 1 else format
  let ch ← peek m limit format
  let width := if isdigit ch then ch.toNat - '0'.toNat else 0
  let format := if isdigit ch then format + 1 else format
  let longMode := (← peek m limit format) == 'l'.toUInt8
  let format := if longMode then format + 1 else format
  return ⟨width, longMode, format⟩

/-- The `switch` over the conversion character: the output, and `ap` behind the argument. -/
def convert (m : Mem) (fuel : Nat) (d : Directive) (conv : UInt8) (ap : Nat) :
    Except Stop (List UInt8 × Nat) :=
  if conv = 'd'.toUInt8 then
    .ok (formatNumber (m.load32 ap), ap + 4)
  else if conv = 's'.toUInt8 then do
    let chars ← formatChars m fuel (m.load32 ap)
    return (chars, ap + 4)
  else if conv ∈ ['X'.toUInt8, 'x'.toUInt8, 'p'.toUInt8, 'P'.toUInt8] then
    if d.longMode then
      .ok (formatNumberHex64 (m.load64 ap) d.width (isupper conv), ap + 8)
    else
      .ok (formatNumberHex (m.load32 ap) d.width (isupper conv), ap + 4)
  else if conv = 'c'.toUInt8 then
    -- a `char` takes the place of an `int`
    .ok ([m.load8 ap], ap + 4)
  else
    .ok ([percent, conv], ap)

/-- `format_string_varg( output, ptr, format, ap )` -/
def formatStringVarg (m : Mem) (limit : Nat) : Nat → Nat → Nat → Except Stop (List UInt8)
  | 0, _, _ => .error .fuel
  | fuel + 1, format, ap => do
    let ch ← peek m limit format
    if ch = 0 then
      return []
    else if ch = percent then
      let d ← directive m limit (format + 1)
      let conv ← peek m limit d.format
      let (chars, ap) ← convert m fuel d conv ap
      -- also behind a NUL
      let rest ← formatStringVarg m limit fuel (d.format + 1) ap
      return chars ++ rest
    else
      let rest ← formatStringVarg m limit fuel (format + 1) ap
      return ch :: rest

end TimbOS.Native.Format
