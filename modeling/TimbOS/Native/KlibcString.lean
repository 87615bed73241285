import TimbOS.ForStd.Memory

/-!
# Strings and memory in the C library

Some functions of `lib/klibc/string.cpp`. A string is what a pointer sees: the byte at each
offset from it.
-/

namespace TimbOS.Native.Klibc

open ForStd

/-- The loop of `memcpy`, with `count` bytes left. -/
def copyLoop : Nat → Mem → Nat → Nat → Mem
  | 0, m, _, _ => m
  | count + 1, m, dest, src => copyLoop count (m.store8 dest (m.load8 src)) (dest + 1) (src + 1)

/-- `memcpy( destination, source, count )`: the pointer that it returns, and the memory. -/
def memcpy (m : Mem) (destination source count : Nat) : Nat × Mem :=
  (destination, copyLoop count m destination source)

/-- `memmove( destination, source, count )` -/
def memmove (m : Mem) (destination source count : Nat) : Nat × Mem :=
  memcpy m destination source count

/-- A `char`, which is signed. -/
def char (byte : UInt8) : Int := byte.toInt8.toInt

/-- `strcmp( s1, s2 )`, for at most `rounds` rounds of its loop. The loop does not move the
    pointers. -/
def strcmp (s1 s2 : Nat → UInt8) : Nat → Option Int
  | 0 => none
  | rounds + 1 =>
    if s1 0 ≠ s2 0 then
      some (char (s1 0) - char (s2 0))
    else if s1 0 = 0 ∧ s2 0 = 0 then
      some 0
    else if s1 0 = 0 then
      some (-1)
    else if s2 0 = 0 then
      some 1
    else
      strcmp s1 s2 rounds

/-- `strncmp( s1, s2, count )`. The loop does not move the pointers. -/
def strncmp (s1 s2 : Nat → UInt8) : Nat → Int
  | 0 => 0
  | count + 1 =>
    if s1 0 ≠ s2 0 then
      char (s1 0) - char (s2 0)
    else if s1 0 = 0 then
      -1
    else if s2 0 = 0 then
      1
    else
      strncmp s1 s2 count

end TimbOS.Native.Klibc
