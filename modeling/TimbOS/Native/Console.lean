import TimbOS.Native.Mmdef

/-!
# The console

`console.cpp` writes characters into a buffer of 100 screens and shows 25 rows of it. Cells
are numbered from the start of the buffer, row by row; what lies behind the buffer in memory
has numbers too, since nothing keeps the cursor inside. `size_t` has 32 bits.
-/

namespace TimbOS.Native

/-- `struct VIDEO_CHAR` -/
structure VideoChar where
  ch : UInt8
  color : UInt8
  deriving DecidableEq, Repr

/-- `struct CONSOLE`, with the memory from `buffer` on, by cell. -/
structure Console where
  bufferWidth : Nat
  bufferHeight : Nat
  buffer : Nat → VideoChar
  cursorColumn : Nat
  cursorRow : Nat
  topRow : Nat

namespace Console

/-- `'\n'` -/
def newline : UInt8 := 10

/-- A blank cell. -/
def blank : VideoChar := ⟨32, 0x07⟩

/-- The number of rows that `video_display` shows. -/
def screenHeight : Nat := 25

/-- `CONSOLE()`, where `memory` is what the cells held before. -/
def construct (memory : Nat → VideoChar) : Console where
  bufferWidth := 80
  bufferHeight := 100 * 25
  buffer := fun i => if i < 80 * 25 * 100 then blank else memory i
  cursorColumn := 0
  cursorRow := 0
  topRow := 0

/-- `buffer + buffer_width * cursor_row + cursor_column` -/
def dest (c : Console) : Nat := (c.bufferWidth * c.cursorRow + c.cursorColumn) % 2 ^ 32

/-- The first half of `write_char_to_console`: the cell and the cursor. -/
def putChar (c : Console) (ch : UInt8) : Console :=
  if ch = newline then
    { c with cursorColumn := 0, cursorRow := add32 c.cursorRow 1 }
  else
    -- the cell is written wherever `dest` points, also past the end of the buffer
    let d := c.dest
    let c := { c with
      buffer := fun i => if i = d then ⟨ch, 0x07⟩ else c.buffer i
      cursorColumn := add32 c.cursorColumn 1 }
    if c.cursorColumn ≥ c.bufferWidth then
      -- the end of a row
      { c with cursorRow := add32 c.cursorRow 1, cursorColumn := 0 }
    else
      c

/-- The second half: the visible rows follow the cursor. -/
def scroll (c : Console) : Console :=
  if c.cursorRow < c.topRow then
    -- the cursor is above the visible rows
    { c with topRow := c.cursorRow }
  else if sub32 c.cursorRow c.topRow ≥ 25 then
    -- the cursor is below them
    { c with topRow := sub32 c.cursorRow 24 }
  else
    c

/-- `write_char_to_console( ch, console )` -/
def writeChar (c : Console) (ch : UInt8) : Console := (c.putChar ch).scroll

/-- The cell that `write_char_to_console` writes, if it writes one. -/
def written (c : Console) (ch : UInt8) : Option Nat :=
  if ch = newline then none else some c.dest

/-- The characters of `printf` and `printn`, one after the other. -/
def write (c : Console) (text : List UInt8) : Console := text.foldl writeChar c

end Console

end TimbOS.Native
