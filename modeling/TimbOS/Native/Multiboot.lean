import TimbOS.ForStd.Memory
import TimbOS.Native.Mmdef

/-!
# The memory map of the boot loader

The walk of `mbtutil.h` over the entries of the map, and the two numbers that `mm::init`
takes from it. `none` stands for a walk that never ends.
-/

namespace TimbOS.Native.Multiboot

open ForStd

/-- The fields of `multiboot_info` that describe the memory map. -/
structure MultibootInfo where
  flags : Nat
  mmapLength : Nat
  mmapAddr : Nat

/-- `MULTIBOOT_INFO_MEM_MAP` -/
def infoMemMap : Nat := 0x40

/-- `MULTIBOOT_MEMORY_AVAILABLE` -/
def memoryAvailable : Nat := 1

/-- `multiboot_mmap_entry`, which is packed. -/
structure MmapEntry where
  size : Nat
  addr : Nat
  len : Nat
  type : Nat
  deriving DecidableEq, Repr

/-- The entry at address `p`. -/
def MmapEntry.read (m : Mem) (p : Nat) : MmapEntry where
  size := m.load32 p
  addr := m.load64 (p + 4)
  len := m.load64 (p + 12)
  type := m.load32 (p + 20)

/-- The loop of `iterate_mmap`. An entry does not count the 4 bytes of its own `size`. -/
def iterateMmapLoop {σ : Type} (cb : MmapEntry → σ → Option σ) (m : Mem) (mmapEnd : Nat) :
    Nat → Nat → σ → Option σ
  | 0, _, _ => none
  | fuel + 1, mmap, s =>
    if mmap < mmapEnd then
      -- the callback may not return, and then the walk does not either
      match cb (MmapEntry.read m mmap) s with
      | some s =>
        iterateMmapLoop cb m mmapEnd fuel
          (add32 (add32 mmap 4) (MmapEntry.read m mmap).size) s
      | none => none
    else
      some s

/-- `iterate_mmap( mbt, cb )`. A walk that takes more steps than there are addresses comes
    back to one of them, and so never ends. -/
def iterateMmap {σ : Type} (m : Mem) (mbt : MultibootInfo) (cb : MmapEntry → σ → Option σ)
    (s : σ) : Option σ :=
  if mbt.flags &&& infoMemMap ≠ 0 then
    iterateMmapLoop cb m (add32 mbt.mmapAddr mbt.mmapLength) (2 ^ 32 + 1) mbt.mmapAddr s
  else
    some s

/-- The entries that a walk comes by. -/
def entries (m : Mem) (mbt : MultibootInfo) : Option (List MmapEntry) :=
  iterateMmap m mbt (fun entry seen => some (seen ++ [entry])) []

/-- `find_memory_end( mbt )`. The end of an entry is cut to 32 bits. -/
def findMemoryEnd (m : Mem) (mbt : MultibootInfo) : Option Nat :=
  iterateMmap m mbt (fun entry memoryEnd =>
    if entry.type = memoryAvailable then
      -- `uintptr_t block_end = mmap->addr + mmap->len;`
      let blockEnd := (entry.addr + entry.len) % 2 ^ 32
      if memoryEnd < blockEnd then some blockEnd else some memoryEnd
    else
      some memoryEnd) 0

/-- `kernel_dynamic_end` in `mm::init` -/
def kernelDynamicEnd (memoryEnd : Nat) : Nat :=
  if memoryEnd > kernelVirtualSizeMax then kernelVirtualSizeMax else memoryEnd

/-- The kernel's part of the memory ends no later than the memory. -/
theorem kernelDynamicEnd_le (memoryEnd : Nat) : kernelDynamicEnd memoryEnd ≤ memoryEnd := by
  unfold kernelDynamicEnd
  split <;> omega

/-! ## Walks and their entries -/

section Walk

variable {σ : Type} {cb : MmapEntry → σ → Option σ} {m : Mem}

/-- The entries of a walk do not depend on those that came before. -/
private theorem collect_append (mmapEnd fuel mmap : Nat) (seen : List MmapEntry) :
    iterateMmapLoop (fun entry seen => some (seen ++ [entry])) m mmapEnd fuel mmap seen =
      (iterateMmapLoop (fun entry seen => some (seen ++ [entry])) m mmapEnd fuel mmap []).map
        (seen ++ ·) := by
  induction fuel generalizing mmap seen with
  | zero => rfl
  | succ fuel ih =>
    rw [iterateMmapLoop, iterateMmapLoop]
    by_cases hin : mmap < mmapEnd
    · simp only [if_pos hin, List.nil_append]
      rw [ih _ (seen ++ [_]), ih _ [_], Option.map_map]
      congr 1
      funext list
      simp
    · simp [if_neg hin]

private theorem iterateMmapLoop_eq (mmapEnd fuel mmap : Nat) (s : σ) :
    iterateMmapLoop cb m mmapEnd fuel mmap s =
      (iterateMmapLoop (fun entry seen => some (seen ++ [entry])) m mmapEnd fuel mmap []).bind
        fun list => list.foldlM (fun s entry => cb entry s) s := by
  induction fuel generalizing mmap s with
  | zero => rfl
  | succ fuel ih =>
    rw [iterateMmapLoop, iterateMmapLoop]
    by_cases hin : mmap < mmapEnd
    · simp only [if_pos hin, List.nil_append]
      rw [collect_append, Option.bind_map]
      cases hcb : cb (MmapEntry.read m mmap) s with
      | none =>
        simp [hcb]
      | some s₁ =>
        simp only [Function.comp_def, List.singleton_append, List.foldlM_cons, hcb]
        exact ih _ s₁
    · simp [if_neg hin]

/-- A walk hands its entries to the callback, one after the other. -/
theorem iterateMmap_eq (mbt : MultibootInfo) (s : σ) :
    iterateMmap m mbt cb s =
      (entries m mbt).bind fun list => list.foldlM (fun s entry => cb entry s) s := by
  unfold entries iterateMmap
  by_cases hflag : mbt.flags &&& infoMemMap ≠ 0
  · rw [if_pos hflag, if_pos hflag]
    exact iterateMmapLoop_eq _ _ _ _
  · rw [if_neg hflag, if_neg hflag]
    rfl

end Walk

end TimbOS.Native.Multiboot
