import TimbOS.ForStd.X86

/-!
# Interlocked operations

The routines of `interlocked_.s`, as their declarations in `interlocked.h` have them called,
and the inline functions for `uint64_t`. `uint64_t` is `unsigned long` in `stdint.h`, which
has 32 bits on this processor.
-/

namespace TimbOS.Native.Interlocked

open ForStd ForStd.X86

/-- `sizeof( uint64_t )` -/
def sizeofUint64 : Nat := 4

/-- The words that are pushed for an argument of `size` bytes, the lowest first. -/
def argWords (size v : Nat) : List Nat :=
  (List.range (size / 4)).map fun i => v / 2 ^ (32 * i) % 2 ^ 32

/-! ## The assembly -/

def interlockedExchange : List Instr :=
  [.load .ecx .esp 4, .load .eax .esp 8, .xchg .eax .ecx, .ret]

def interlockedCompareExchange : List Instr :=
  [.load .eax .esp 8, .load .ecx .esp 12, .load .edx .esp 4, .cmpxchg .edx .ecx, .ret]

def interlockedCompareExchange64 : List Instr :=
  [.push .ebp, .mov .ebp .esp, .push .ebx, .push .edi,
    -- `comp`
    .load .edx .ebp 16, .load .eax .ebp 12,
    -- `exch`
    .load .ecx .ebp 24, .load .ebx .ebp 20,
    .load .edi .ebp 8, .cmpxchg8b .edi,
    .pop .edi, .pop .ebx, .pop .ebp, .ret]

/-! ## The inline functions -/

/-- `exchange( p, x )` -/
def exchange (c : Cpu) (returnAddress p x : Nat) : Nat × Cpu :=
  let c := c.call interlockedExchange (argWords 4 p ++ argWords 4 x) returnAddress
  (c.reg .eax, c)

/-- `compare_exchange( uint32_t* p, uint32_t comp, uint32_t exch )` -/
def compareExchange32 (c : Cpu) (returnAddress p comp exch : Nat) : Bool × Cpu :=
  let c := c.call interlockedCompareExchange (argWords 4 p ++ argWords 4 comp ++ argWords 4 exch)
    returnAddress
  (c.reg .eax == comp, c)

/-- `compare_exchange( uint64_t* p, uint64_t comp, uint64_t exch )`. A result of 4 bytes is in
    `eax`. -/
def compareExchange64 (c : Cpu) (returnAddress p comp exch : Nat) : Bool × Cpu :=
  let c := c.call interlockedCompareExchange64
    (argWords 4 p ++ argWords sizeofUint64 comp ++ argWords sizeofUint64 exch) returnAddress
  (c.reg .eax == comp, c)

/-- The loop of `increment` and `decrement`: add `delta` and return the sum. `none` means that
    the loop has not ended within `fuel` rounds. -/
def addLoop (returnAddress p delta : Nat) : Nat → Cpu → Option (Nat × Cpu)
  | 0, _ => none
  | fuel + 1, c =>
    let old := c.mem.load32 p
    let (ok, c) := compareExchange64 c returnAddress p old ((old + delta) % 2 ^ 32)
    if ok then some ((old + delta) % 2 ^ 32, c) else addLoop returnAddress p delta fuel c

/-- `increment( uint64_t* p )` -/
def increment64 (fuel : Nat) (c : Cpu) (returnAddress p : Nat) : Option (Nat × Cpu) :=
  addLoop returnAddress p 1 fuel c

/-- `decrement( uint64_t* p )` -/
def decrement64 (fuel : Nat) (c : Cpu) (returnAddress p : Nat) : Option (Nat × Cpu) :=
  addLoop returnAddress p (2 ^ 32 - 1) fuel c

/-- The condition of the loop of `enter`: the exchange finds the word taken. -/
def enterRound (c : Cpu) (returnAddress cs : Nat) : Bool × Cpu :=
  let (old, c) := exchange c returnAddress cs 1
  (decide (old > 0), c)

/-- `enter( cs )`. `none` means that the loop has not ended within `fuel` rounds. -/
def enter (returnAddress cs : Nat) : Nat → Cpu → Option Cpu
  | 0, _ => none
  | fuel + 1, c =>
    let (again, c) := enterRound c returnAddress cs
    if again then enter returnAddress cs fuel c else some c

/-- `leave( cs )` -/
def leave (c : Cpu) (returnAddress cs : Nat) : Cpu := (exchange c returnAddress cs 0).2

end TimbOS.Native.Interlocked
