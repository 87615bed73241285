import TimbOS.Native.Fat12

/-!
# The directory tree

`dirtree` of the kernel lists a directory and calls itself for each subdirectory
(`kernel.cpp`, `FAT12Directory.cpp`). The recursion and the loop in the constructor of
`FAT12DirectoryEnum` are a machine here, because neither has to come to an end. What is
printed is left out.
-/

namespace TimbOS.Native.Fat12

/-- `file->name() == "." || file->name() == ".."` -/
def isDotName (name : List UInt8) : Bool :=
  name == ['.'].map Char.toUInt8 || name == ['.', '.'].map Char.toUInt8

/-- The calls of `dirtree` that are active, the heap and the device. -/
structure DirTree (σ : Type) where
  /-- The constructor of an enumerator that is running: the sectors that it has added and the
      cluster that is next. -/
  building : Option (List UInt16 × ClusterId)
  /-- The argument `dir` of each call, of the innermost one first. -/
  calls : List DirectoryEnum
  /-- The number of calls of `next` so far. -/
  rounds : Nat
  device : σ

namespace DirTree

variable {σ : Type}

/-- `dirtree( dir )` is called. -/
def start (dir : DirectoryEnum) (s : σ) : DirTree σ := ⟨none, [dir], 0, s⟩

/-- One round of the loop in the constructor, or of the loop in the innermost call. The result
    says whether `dirtree` calls itself in it; there is none if nothing is left to do, or if
    something panics. `stack n` is what `sector_cache` holds when `next` is called for the
    `n`-th time. -/
def step (fs : FileSystem) (dev : BlockDevice σ) (stack : Nat → List UInt8) (t : DirTree σ) :
    Option (Bool × DirTree σ) :=
  match t.building with
  | some (sectors, cluster) =>
    match DirectoryEnum.addCluster fs cluster with
    | .error _ => none
    | .ok (more, next) =>
      if next ≠ 0xFF0 ∧ next ≠ 0xFFF then
        some (false, { t with building := some (sectors ++ more, next) })
      else
        -- `dirtree( *children, indent + 2 )`
        some (true, { t with building := none, calls := ⟨sectors ++ more, 0⟩ :: t.calls })
  | none =>
    match t.calls with
    | [] => none
    | dir :: callers =>
      match dir.next dev t.device (stack t.rounds) with
      | .error _ => none
      | .ok (none, _, s) =>
        some (false, { t with calls := callers, rounds := t.rounds + 1, device := s })
      | .ok (some file, dir, s) =>
        let t := { t with calls := dir :: callers, rounds := t.rounds + 1, device := s }
        match file with
        -- `children()` of a file is null
        | .file .. => some (false, t)
        | .directory name firstCluster =>
          if isDotName name then some (false, t)
          else some (false, { t with building := some ([], firstCluster) })

end DirTree

end TimbOS.Native.Fat12
