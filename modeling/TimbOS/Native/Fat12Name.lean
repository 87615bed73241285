import TimbOS.Native.Fat12

/-!
# The buffer for a file name

`extract_file_name` once more, with the array of 13 bytes that `FAT12DirectoryEnumBase::next` has
for the name. `dest` is an index into the array.
-/

namespace TimbOS.Native.Fat12

/-- The array and `dest`. -/
structure NameBuffer where
  array : List UInt8
  dest : Nat
  deriving DecidableEq, Repr

namespace NameBuffer

/-- `char entry_name[13] = {};` -/
def entryName : NameBuffer := ⟨List.replicate 13 0, 0⟩

/-- `*dest++ = ch;` where `none` is a write outside of the array. -/
def put (b : NameBuffer) (ch : UInt8) : Option NameBuffer :=
  if b.dest < b.array.length then some ⟨b.array.set b.dest ch, b.dest + 1⟩ else none

/-- `extract_fn_part( src, dest, count )`: where `src` points to afterwards, and the buffer.
    `none` is also a read behind the field. -/
def extractFnPart : Nat → List UInt8 → NameBuffer → Option (List UInt8 × NameBuffer)
  | 0, src, b => some (src, b)
  | _ + 1, [], _ => none
  | count + 1, ch :: src, b =>
    if ch ≠ ' '.toUInt8 then do
      let b ← b.put ch
      extractFnPart count src b
    else
      extractFnPart count src b

/-- `if( *(dest - 1) == '.' ) *(dest - 1) = 0;` -/
def takeBackDot (b : NameBuffer) : Option NameBuffer :=
  match b.array[b.dest - 1]? with
  | some ch => some (if ch = '.'.toUInt8 then { b with array := b.array.set (b.dest - 1) 0 } else b)
  | none => none

/-- `extract_file_name( fn, dest )` -/
def extractFileName (fn : List UInt8) (b : NameBuffer) : Option NameBuffer := do
  let (fn, b) ← extractFnPart 8 fn b
  let b ← b.put '.'.toUInt8
  let (_, b) ← extractFnPart 3 fn b
  b.takeBackDot

/-- The string that the array holds. -/
def string (b : NameBuffer) : List UInt8 := b.array.takeWhile (· ≠ 0)

end NameBuffer

end TimbOS.Native.Fat12
