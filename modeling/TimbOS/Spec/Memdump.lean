import TimbOS.ForStd.List
import TimbOS.Native.Memdump
import TimbOS.Spec.FormatNumbers

/-!
# The bytes that a memory dump shows

A line shows 16 bytes, and the columns of all lines one after the other belong to consecutive
addresses. The loop over the lines compares with the last line, and 32 bits have no line behind
the one at the end of memory.

## Key results

- `lines_eq`: the lines that the loop prints
- `lines_end_of_memory`: a dump of the last line of memory does not end
- `memdump_iff`: exactly which dumps end, and show every byte
-/

namespace TimbOS.Native.Memdump

open ForStd Format

section Memdump

variable {m : Mem} {address length first last lastAddr lineAddr ptr n : Nat} {text : List UInt8}

/-! ## What a dump should show -/

/-- The number of lines with a byte of the range. -/
def lineCount (address length : Nat) : Nat := (address + length - 1) / 16 - address / 16 + 1

/-- The hexadecimal column `j` of a text, where each line of 76 characters has 16 of them behind
    its address. -/
def columnAt (text : List UInt8) (j : Nat) : List UInt8 :=
  (text.drop (76 * (j / 16) + (9 + 3 * (j % 16)))).take 3

/-- The column of a byte. -/
def ShowsByte (byte : UInt8) (column : List UInt8) : Prop :=
  ∃ digits, HexDigits byte.toNat 2 false digits ∧ column = digits ++ [' '.toUInt8]

/-- The columns are those of the addresses from the first line on, in order. They cover the
    range, each byte of it is shown in its column, and the other columns are `??`. -/
structure ShowsRange (m : Mem) (address length : Nat) (text : List UInt8) : Prop where
  length_eq : text.length = 76 * lineCount address length
  covers : lineOf address ≤ address ∧
    address + length ≤ lineOf address + 16 * lineCount address length
  byte : ∀ j < 16 * lineCount address length,
    address ≤ lineOf address + j → lineOf address + j < address + length →
      ShowsByte (m.load8 (lineOf address + j)) (columnAt text j)
  other : ∀ j < 16 * lineCount address length,
    lineOf address + j < address ∨ address + length ≤ lineOf address + j →
      columnAt text j = ['?'.toUInt8, '?'.toUInt8, ' '.toUInt8]

/-- `debug_bochs_memdump` ends, and shows the range. -/
def DebugRight (m : Mem) (address length : Nat) : Prop :=
  ∃ fuel text, debugBochsMemdump m fuel address length = some text ∧
    ShowsRange m address length text

/-- `CONSOLE::dump` ends, and shows the range on the console. -/
def ConsoleRight (c : Console) (m : Mem) (address length : Nat) : Prop :=
  ∃ fuel text, c.dump m fuel address length = some (c.write text) ∧
    ShowsRange m address length text

/-! ## A line -/

theorem length_columns {column : Nat → List UInt8} {w : Nat}
    (hcolumn : ∀ ptr, (column ptr).length = w) (n ptr : Nat) :
    (columns column n ptr).length = w * n := by
  induction n generalizing ptr with
  | zero => rfl
  | succ n ih => rw [columns, List.length_append, hcolumn, ih, Nat.mul_succ, Nat.add_comm]

/-- The columns do not come around the end of memory. -/
theorem columns_eq (column : Nat → List UInt8) (h : ptr + n < 2 ^ 32) :
    columns column n ptr = (List.range n).flatMap fun i => column (ptr + i) := by
  induction n generalizing ptr with
  | zero => rfl
  | succ n ih =>
    have hnext : add32 ptr 1 = ptr + 1 := Nat.mod_eq_of_lt (by omega)
    rw [columns, hnext, ih (by omega), List.range_succ_eq_map, List.flatMap_cons,
      List.flatMap_map]
    simp only [Nat.succ_eq_add_one, Nat.add_zero, Nat.add_assoc, Nat.add_comm 1]

theorem hexDigits_byte (byte : UInt8) :
    HexDigits byte.toNat 2 false (formatNumberHex byte.toNat 2 false) :=
  (hexRight (by decide : 2 ≤ 8)).text

theorem length_hexColumn (ptr : Nat) : (hexColumn m first last ptr).length = 3 := by
  rw [hexColumn]
  split
  · rw [List.length_append, (hexDigits_byte _).length]
    rfl
  · rfl

theorem length_charColumn (ptr : Nat) : (charColumn m first last ptr).length = 1 := by
  rw [charColumn]
  split_ifs
  · rfl
  · rfl
  · rfl

/-- The address in front of a line has 8 digits. -/
theorem length_lineAddr (lineAddr : Nat) : (formatNumberHex lineAddr 0 false).length = 8 :=
  (hexRight (by decide : 0 ≤ 8)).text.length

theorem length_line (lineAddr : Nat) : (line m first last lineAddr).length = 76 := by
  simp only [line, List.length_append, length_lineAddr, length_columns length_hexColumn,
    length_columns length_charColumn, List.length_cons, List.length_nil]

/-- Column `i` of a line. -/
theorem line_column (h : lineAddr + 16 < 2 ^ 32) {i : Nat} (hi : i < 16) :
    ((line m first last lineAddr).drop (9 + 3 * i)).take 3 =
      hexColumn m first last (lineAddr + i) := by
  have hprefix : (formatNumberHex lineAddr 0 false ++ [' '.toUInt8]).length = 9 := by
    rw [List.length_append, length_lineAddr]
    rfl
  have hcolumns : (columns (hexColumn m first last) 16 lineAddr).length = 3 * 16 :=
    length_columns length_hexColumn 16 lineAddr
  rw [line, List.append_assoc, List.append_assoc, List.append_assoc, ← hprefix,
    List.drop_length_add_append, List.take_drop_append_left (by omega), columns_eq _ h]
  have hlen : ∀ i, (hexColumn m first last (lineAddr + i)).length = 3 :=
    fun i => length_hexColumn (lineAddr + i)
  have hpart := List.take_drop_flatMap_range (r := 0) (m := 3) hlen hi (Nat.le_refl 3)
  rw [Nat.add_zero] at hpart
  rw [hpart, List.drop_zero]
  exact List.take_of_length_le (length_hexColumn _).le

/-! ## The lines -/

/-- The loop ends if a line follows the last one. -/
theorem lines_eq (hlast : lineAddr + 16 * n = lastAddr + 16) (hlt : lastAddr + 16 < 2 ^ 32) :
    lines m first last lastAddr (n + 1) lineAddr =
      some ((List.range n).flatMap fun l => line m first last (lineAddr + 16 * l)) := by
  induction n generalizing lineAddr with
  | zero =>
    rw [lines, if_neg (by omega)]
    rfl
  | succ n ih =>
    have hnext : add32 lineAddr 16 = lineAddr + 16 := Nat.mod_eq_of_lt (by omega)
    have hshift : ∀ l, lineAddr + 16 + 16 * l = lineAddr + 16 * (l + 1) := by
      intro l
      omega
    rw [lines, if_pos (by omega), hnext, ih (by omega), List.range_succ_eq_map, List.flatMap_cons,
      List.flatMap_map]
    simp only [hshift]
    rfl

/-- No line is above the last one of memory. -/
theorem lines_end_of_memory (hlt : lineAddr < 2 ^ 32) (hline : 16 ∣ lineAddr) (fuel : Nat) :
    lines m first last 0xFFFFFFF0 fuel lineAddr = none := by
  induction fuel generalizing lineAddr with
  | zero => rfl
  | succ fuel ih =>
    have hnext : 16 ∣ add32 lineAddr 16 := by
      simp only [add32]
      omega
    rw [lines, if_pos (by omega), ih (add32_lt lineAddr 16) hnext]
    rfl

theorem last_eq (hlength : 1 ≤ length) (hend : address + length ≤ 2 ^ 32) :
    sub32 (add32 address length) 1 = address + length - 1 := by
  simp only [sub32, add32]
  omega

theorem inside_iff (hlength : 1 ≤ length) (ptr : Nat) :
    inside address (address + length - 1) ptr = true ↔ address ≤ ptr ∧ ptr < address + length := by
  simp only [inside, ge_iff_le, Bool.and_eq_true, decide_eq_true_eq]
  omega

/-- The lines of a range that does not reach the last line of memory. -/
theorem lines_range (hlength : 1 ≤ length) (hend : address + length ≤ 0xFFFFFFF0) :
    ∃ fuel text, lines m address (address + length - 1) (lineOf (address + length - 1)) fuel
      (lineOf address) = some text ∧ ShowsRange m address length text := by
  have hlast : lineOf address + 16 * lineCount address length =
      lineOf (address + length - 1) + 16 := by
    simp only [lineOf, lineCount]
    omega
  have hlt : lineOf (address + length - 1) + 16 < 2 ^ 32 := by
    simp only [lineOf]
    omega
  have hlen : ∀ l, (line m address (address + length - 1) (lineOf address + 16 * l)).length = 76 :=
    fun l => length_line (lineOf address + 16 * l)
  -- column `j` of the text is a column of line `j / 16`
  have hcolumn : ∀ j < 16 * lineCount address length,
      columnAt ((List.range (lineCount address length)).flatMap fun l =>
        line m address (address + length - 1) (lineOf address + 16 * l)) j =
          hexColumn m address (address + length - 1) (lineOf address + j) := by
    intro j hj
    have hplace : lineOf address + 16 * (j / 16) + j % 16 = lineOf address + j := by omega
    rw [columnAt, List.take_drop_flatMap_range hlen (by omega) (by omega),
      line_column (by omega) (Nat.mod_lt j (by decide)), hplace]
  refine ⟨_, _, lines_eq hlast hlt, ?_, ?_, ?_, ?_⟩
  · simp only [List.length_flatMap, hlen]
    simp [Nat.mul_comm]
  · simp only [lineOf, lineCount]
    omega
  · intro j hj hfirst hlast
    refine ⟨_, hexDigits_byte _, ?_⟩
    rw [hcolumn j hj, hexColumn, if_pos ((inside_iff hlength _).mpr ⟨hfirst, hlast⟩)]
  · intro j hj hout
    have hnot : ¬ (address ≤ lineOf address + j ∧ lineOf address + j < address + length) := by
      omega
    rw [hcolumn j hj, hexColumn, if_neg (mt (inside_iff hlength _).mp hnot)]

/-- The lines of any other range. -/
theorem lines_of_end (hlength : 1 ≤ length) (hend : address + length ≤ 2 ^ 32)
    (hlong : 0xFFFFFFF0 < address + length) (fuel : Nat) :
    lines m address (address + length - 1) (lineOf (address + length - 1)) fuel
      (lineOf address) = none := by
  have hlast : lineOf (address + length - 1) = 0xFFFFFFF0 := by
    simp only [lineOf]
    omega
  rw [hlast]
  apply lines_end_of_memory
  · simp only [lineOf]
    omega
  · simp only [lineOf]
    omega

end Memdump

/-- A dump ends, and shows every byte of its range, exactly if the range does not reach the last
    16 bytes of memory. -/
theorem memdump_iff (c : Console) (m : Mem) (address length : Nat) (hlength : 1 ≤ length)
    (hend : address + length ≤ 2 ^ 32) :
    (DebugRight m address length ↔ address + length ≤ 0xFFFFFFF0) ∧
      (ConsoleRight c m address length ↔ address + length ≤ 0xFFFFFFF0) := by
  simp only [DebugRight, ConsoleRight, debugBochsMemdump, Console.dump, last_eq hlength hend]
  constructor
  · constructor
    · rintro ⟨fuel, text, htext, -⟩
      by_contra hlong
      rw [lines_of_end hlength hend (by omega)] at htext
      cases htext
    · exact lines_range hlength
  · constructor
    · rintro ⟨fuel, text, htext, -⟩
      by_contra hlong
      rw [lines_of_end hlength hend (by omega)] at htext
      cases htext
    · intro hshort
      obtain ⟨fuel, text, htext, hshows⟩ := lines_range (m := m) hlength hshort
      exact ⟨fuel, text, by rw [htext]; rfl, hshows⟩

theorem memdump_iff_boot :
    (DebugRight (fun _ => 0) 0x7C00 20 ↔ 0x7C00 + 20 ≤ 0xFFFFFFF0) ∧
      (ConsoleRight (.construct fun _ => Console.blank) (fun _ => 0) 0x7C00 20 ↔
        0x7C00 + 20 ≤ 0xFFFFFFF0) :=
  memdump_iff (.construct fun _ => Console.blank) (fun _ => 0) 0x7C00 20 (by decide) (by decide)

/-- A dump of the last byte of memory does not end. -/
theorem memdump_last_byte :
    ¬ ∀ (c : Console) (m : Mem) (address length : Nat), 1 ≤ length → address + length ≤ 2 ^ 32 →
      DebugRight m address length ∧ ConsoleRight c m address length := by
  intro h
  obtain ⟨⟨fuel, text, htext, -⟩, -⟩ :=
    h (.construct fun _ => Console.blank) (fun _ => 0) 0xFFFFFFFF 1 (by decide) (by decide)
  rw [debugBochsMemdump, last_eq (by decide) (by decide),
    lines_of_end (by decide) (by decide) (by decide)] at htext
  cases htext

end TimbOS.Native.Memdump
