import Mathlib

/-!
# The keyboard

The interrupt handler of `kb.cpp` gets one byte from the keyboard each time. It keeps the shift
and lock flags, sets the LEDs and prints the character of a key. It returns the frame that it
gets, and waits as long as the keyboard cannot take a command.
-/

namespace TimbOS.Native

/-- `shift`, `numlock` and `capslock`. -/
structure Keyboard where
  shift : Bool
  numlock : Bool
  capslock : Bool
  deriving DecidableEq, Repr

/-- What the handler does outside: the status that it sends to the LEDs, and the character that it
    prints on the console. -/
structure Reaction where
  leds : Option UInt8
  printed : Option UInt8
  deriving DecidableEq, Repr

namespace Keyboard

/-- The flags at the start of the kernel. -/
def start : Keyboard := ⟨false, false, false⟩

/-! ## German layout -/

/-- The source has one byte for each of these characters. -/
def latin1 (s : String) : List UInt8 := s.toList.map Char.toUInt8

/-- `kbdger`; what comes behind are zeros. -/
def kbdger : List UInt8 :=
  [0, 27] ++ latin1 "1234567890ß´" ++ [8] ++ -- Backspace
  [9] ++ latin1 "qwertzuiopü+" ++ [10] ++ -- Enter key
  [0] ++ latin1 "asdfghjklö'ä" ++
  [0] ++ latin1 "\\yxcvbnm,.-" ++ -- behind left shift
  [0] ++ latin1 "*" ++ -- behind right shift
  [0] ++ latin1 " " ++ List.replicate 16 0 ++ latin1 "-" ++ [0, 0, 0] ++ latin1 "+"

/-- `kbdger_upper` -/
def kbdgerUpper : List UInt8 :=
  [0, 27] ++ latin1 "!\"§$%&/()=?`" ++ [8] ++
  [9] ++ latin1 "QWERTZUIOPÜ*" ++ [10] ++
  [0] ++ latin1 "ASDFGHJKLÖ'Ä" ++
  [0] ++ latin1 "\\YXCVBNM;:_" ++
  [0] ++ latin1 "*" ++
  [0] ++ latin1 " " ++ List.replicate 16 0 ++ latin1 "-" ++ [0, 0, 0] ++ latin1 "+"

/-! ## The handler -/

/-- `NUM_LED` -/
def numLed : UInt8 := 2

/-- `CAPS_LED` -/
def capsLed : UInt8 := 4

/-- `handle_lock_flags( scancode )` -/
def handleLockFlags (k : Keyboard) (scancode : UInt8) : Keyboard :=
  let k := if scancode = 69 then { k with numlock := !k.numlock } else k
  if scancode = 58 then { k with capslock := !k.capslock } else k

/-- `handle_kbdleds()`: the status for `kbd_update_leds`. -/
def handleKbdleds (k : Keyboard) : UInt8 :=
  if k.numlock ∧ ¬ k.capslock then numLed
  else if k.numlock ∧ k.capslock then numLed ||| capsLed
  else if ¬ k.numlock ∧ k.capslock then capsLed
  else 0

/-- `keyboard_handler( r )`, where `scancode` is the byte from the port. -/
def keyboardHandler (k : Keyboard) (scancode : UInt8) : Reaction × Keyboard :=
  if scancode &&& 0x80 ≠ 0 then
    -- a key has just been released
    let scancode := scancode &&& ~~~0x80
    (⟨none, none⟩,
      if scancode = 0x2a ∨ scancode = 0x36 then { k with shift := false } else k)
  else
    -- pressed, or held down
    let k := if scancode = 0x2a ∨ scancode = 0x36 then { k with shift := true } else k
    let k := handleLockFlags k scancode
    let ch := if k.shift then kbdgerUpper.getD scancode.toNat 0 else kbdger.getD scancode.toNat 0
    (⟨some (handleKbdleds k), if kbdger.getD scancode.toNat 0 ≠ 0 then some ch else none⟩, k)

end Keyboard

end TimbOS.Native
