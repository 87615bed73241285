import TimbOS.Native.Console
import TimbOS.Native.Format

/-!
# Memory dumps

`debug_bochs_memdump` of `debug.cpp` prints to the port of the emulator, and `CONSOLE::dump` of
`console.cpp` prints the same lines on the console. The memory that is dumped does not change
in between.
-/

namespace TimbOS.Native

open ForStd Format

namespace Memdump

/-- `(uintptr_t)p & ~0xF` -/
def lineOf (p : Nat) : Nat := p - p % 16

/-- `isprintable( ch )`. A negative `char` is not printable. -/
def isprintable (ch : UInt8) : Bool := 0x20 ≤ ch && ch ≤ 0x7E

/-- `ptr >= begin && ptr <= end`, where `last` is `end`. -/
def inside (first last ptr : Nat) : Bool := ptr ≥ first && ptr ≤ last

/-- A column of the first loop: `"%2x "` or `"?? "`. -/
def hexColumn (m : Mem) (first last ptr : Nat) : List UInt8 :=
  if inside first last ptr then
    formatNumberHex (m.load8 ptr).toNat 2 false ++ [' '.toUInt8]
  else
    ['?'.toUInt8, '?'.toUInt8, ' '.toUInt8]

/-- A column of the second loop: `"%c"`, `"."` or `" "`. -/
def charColumn (m : Mem) (first last ptr : Nat) : List UInt8 :=
  if inside first last ptr then
    if isprintable (m.load8 ptr) then [m.load8 ptr] else ['.'.toUInt8]
  else
    [' '.toUInt8]

/-- The loops over the columns, with `n` columns left. -/
def columns (column : Nat → List UInt8) : Nat → Nat → List UInt8
  | 0, _ => []
  | n + 1, ptr => column ptr ++ columns column n (add32 ptr 1)

/-- A line, which begins with `"%p "`. -/
def line (m : Mem) (first last lineAddr : Nat) : List UInt8 :=
  formatNumberHex lineAddr 0 false ++ [' '.toUInt8] ++
    columns (hexColumn m first last) 16 lineAddr ++ [' '.toUInt8, ' '.toUInt8] ++
    columns (charColumn m first last) 16 lineAddr ++ [Console.newline]

/-- The loop over the lines. Running out of fuel is `none`. -/
def lines (m : Mem) (first last lastAddr : Nat) : Nat → Nat → Option (List UInt8)
  | 0, _ => none
  | fuel + 1, lineAddr =>
    if lineAddr ≤ lastAddr then do
      let text ← lines m first last lastAddr fuel (add32 lineAddr 16)
      return line m first last lineAddr ++ text
    else
      some []

end Memdump

/-- `debug_bochs_memdump( address, length )`: what it prints. -/
def debugBochsMemdump (m : Mem) (fuel address length : Nat) : Option (List UInt8) :=
  let first := address
  let last := sub32 (add32 first length) 1
  Memdump.lines m first last (Memdump.lineOf last) fuel (Memdump.lineOf first)

/-- `CONSOLE::dump( address, length )` -/
def Console.dump (c : Console) (m : Mem) (fuel address length : Nat) : Option Console :=
  let first := address
  let last := sub32 (add32 first length) 1
  (Memdump.lines m first last (Memdump.lineOf last) fuel (Memdump.lineOf first)).map c.write

end TimbOS.Native
