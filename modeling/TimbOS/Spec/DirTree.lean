import TimbOS.ForStd.Traversal
import TimbOS.Native.DirTree
import TimbOS.Spec.Fat12Enum
import TimbOS.Spec.Fat12Mount

/-!
# The directory tree of a crafted disk

`dirtree` goes down into every subdirectory that is not called `.` or `..`, wherever its first
cluster is. On a disk it is a traversal of a graph whose nodes are the first clusters, and it
has no memory of the directories that it is in: it calls itself finitely often exactly if no
directory that it comes to leads back to itself.

## Key results

- `explores`: the machine goes through the graph of the directories
- `dirtree_finite_iff`: when there are finitely many recursive calls
- `dirtree_goes_round`: a disk with a directory that contains itself
-/

namespace TimbOS.Native.Fat12

namespace DirTree

open DirectoryEnum ForStd

/-! ## The graph of the directories -/

/-- Every read of one block into a buffer of its size succeeds and delivers the bytes of the
    disk. -/
def ReadsImage {σ : Type} (dev : BlockDevice σ) (image : Nat → List UInt8) : Prop :=
  ∀ sectors, ReadsInto (fun buffer => buffer.length = blockSize) dev image sectors

/-- The first cluster of the directory that `dirtree` is called for. -/
def followed (entry : DirectoryEntry) : Option ClusterId :=
  match entry.item with
  | .directory name firstCluster => if isDotName name then none else some firstCluster
  | .file .. => none

/-- The subdirectories among the entries of a directory. -/
def subdirectories (l : List DirectoryEntry) : List ClusterId := (inUse l).filterMap followed

/-- The constructor of the enumerator collects the sectors of the directory in cluster `c`. -/
def Builds (fs : FileSystem) (c : ClusterId) (sectors : List UInt16) : Prop :=
  ∃ fuel, collectSectors fs fuel c = some (.ok sectors)

open Classical in
/-- The subdirectories of a directory, unless its enumerator panics or is never ready. -/
noncomputable def children (fs : FileSystem) (image : Nat → List UInt8) (c : ClusterId) :
    Option (List ClusterId) :=
  if h : ∃ sectors, Builds fs c sectors then
    some (subdirectories (entries image h.choose))
  else
    none

/-- `dirtree( dir )` calls itself finitely many times. -/
def FinitelyManyCalls {σ : Type} (fs : FileSystem) (dev : BlockDevice σ) (stack : Nat → List UInt8)
    (dir : DirectoryEnum) (s : σ) : Prop :=
  FinitelyMarked (step fs dev stack) (start dir s)

/-- A traversal from `dir` comes to a subdirectory that leads back to itself. -/
def LeadsBack (fs : FileSystem) (image : Nat → List UInt8) (dir : DirectoryEnum) : Prop :=
  Loops (children fs image) (subdirectories (entries image dir.sectors))

section Build

variable {fs : FileSystem} {c : ClusterId} {sectors sectors' : List UInt16} {fuel fuel' : Nat}

theorem builds_unique (h : Builds fs c sectors) (h' : Builds fs c sectors') :
    sectors = sectors' := by
  obtain ⟨fuel, h⟩ := h
  obtain ⟨fuel', h'⟩ := h'
  -- both loops make the same rounds
  induction fuel generalizing c sectors sectors' fuel' with
  | zero => cases h
  | succ fuel ih =>
    cases fuel' with
    | zero => cases h'
    | succ fuel' =>
      obtain ⟨more, next, hadd, hround⟩ := collectSectors_cases h
      obtain ⟨more', next', hadd', hround'⟩ := collectSectors_cases h'
      cases hadd.symm.trans hadd'
      rcases hround with ⟨hstop, rfl⟩ | ⟨hgo, rest, hrest, rfl⟩
      · rcases hround' with ⟨-, rfl⟩ | ⟨hgo, -⟩
        · rfl
        · exact absurd hgo hstop
      · rcases hround' with ⟨hstop, -⟩ | ⟨-, rest', hrest', rfl⟩
        · exact absurd hgo hstop
        · rw [ih hrest fuel' hrest']

theorem children_eq {image : Nat → List UInt8} (h : Builds fs c sectors) :
    children fs image c = some (subdirectories (entries image sectors)) := by
  have hex : ∃ sectors, Builds fs c sectors := ⟨sectors, h⟩
  rw [children, dif_pos hex, builds_unique hex.choose_spec h]

theorem not_builds_of_children {image : Nat → List UInt8} (h : children fs image c = none) :
    ∀ sectors, ¬ Builds fs c sectors := by
  intro sectors hbuilds
  rw [children_eq hbuilds] at h
  cases h

end Build

/-! ## The machine -/

section Machine

variable {σ : Type} {fs : FileSystem} {dev : BlockDevice σ} {image : Nat → List UInt8}
  {stack : Nat → List UInt8} {t : DirTree σ} {dir : DirectoryEnum} {callers : List DirectoryEnum}
  {c : ClusterId} {before sectors : List UInt16}

/-- The entries that an enumerator still has to deliver. -/
def remaining (image : Nat → List UInt8) (dir : DirectoryEnum) : List DirectoryEntry :=
  inUse ((entries image dir.sectors).drop dir.index)

/-- The enumerator still has to deliver these subdirectories. -/
structure Delivers (image : Nat → List UInt8) (l : List ClusterId) (dir : DirectoryEnum) :
    Prop where
  inside : dir.index ≤ dir.entryCount
  rest : (remaining image dir).filterMap followed = l

/-- No constructor is running, and each call has its own list of subdirectories left. -/
structure Represents (image : Nat → List UInt8) (lists : List (List ClusterId)) (t : DirTree σ) :
    Prop where
  building : t.building = none
  calls : List.Forall₂ (Delivers image) lists t.calls

/-- A constructor that comes to an end is followed by the recursive call. -/
theorem steps_build {fuel : Nat} (h : collectSectors fs fuel c = some (.ok sectors))
    (ht : t.building = some (before, c)) :
    Steps (step fs dev stack) t 1
      { t with building := none, calls := ⟨before ++ sectors, 0⟩ :: t.calls } := by
  induction fuel generalizing c before sectors t with
  | zero => cases h
  | succ fuel ih =>
    obtain ⟨more, next, hadd, ⟨hstop, rfl⟩ | ⟨hgo, rest, hrest, rfl⟩⟩ := collectSectors_cases h
    · have hround : step fs dev stack t = some (true,
          { t with building := none, calls := ⟨before ++ sectors, 0⟩ :: t.calls }) := by
        simp only [step, ht, hadd, if_neg hstop]
      exact .one hround
    · have hround : step fs dev stack t =
          some (false, { t with building := some (before ++ more, next) }) := by
        simp only [step, ht, hadd, if_pos hgo]
      have hrun := ih hrest (t := { t with building := some (before ++ more, next) }) rfl
      rw [List.append_assoc] at hrun
      exact .head hround hrun

/-- A constructor that panics or goes on for ever keeps `dirtree` from being called again. -/
theorem silent_build (h : ∀ sectors, ¬ Builds fs c sectors) (ht : t.building = some (before, c)) :
    Silent (step fs dev stack) t := by
  intro n
  induction n generalizing c before t with
  | zero => rfl
  | succ n ih =>
    cases hadd : addCluster fs c with
    | error e =>
      apply silent_of_stop
      simp only [step, ht, hadd]
    | ok p =>
      obtain ⟨more, next⟩ := p
      by_cases hgo : next ≠ 0xFF0 ∧ next ≠ 0xFFF
      · have hround : step fs dev stack t =
            some (false, { t with building := some (before ++ more, next) }) := by
          simp only [step, ht, hadd, if_pos hgo]
        have hnext : ∀ sectors, ¬ Builds fs next sectors := by
          rintro sectors ⟨fuel, hrun⟩
          apply h (more ++ sectors)
          refine ⟨fuel + 1, ?_⟩
          simp only [collectSectors, hadd, if_pos hgo, hrun]
          rfl
        have hrest := ih (t := { t with building := some (before ++ more, next) }) hnext rfl
        rw [marked_succ hround, hrest]
        rfl
      · -- the constructor is ready
        refine absurd ⟨1, ?_⟩ (h more)
        simp only [collectSectors, hadd, if_neg hgo]

variable (hdev : ReadsImage dev image) (hstack : ∀ n, (stack n).length = blockSize)
include hdev hstack

/-- The loop of the innermost call ends behind the last entry. -/
theorem step_end (ht : t.building = none) (hcalls : t.calls = dir :: callers)
    (hdir : dir.index ≤ dir.entryCount) (hrest : remaining image dir = []) :
    ∃ t', step fs dev stack t = some (false, t') ∧ t'.building = none ∧ t'.calls = callers := by
  obtain ⟨dir', s', hnext, -⟩ :=
    next_eq dir (hdev dir.sectors) t.device (stack t.rounds) (hstack t.rounds) hdir
  rw [remaining] at hrest
  rw [hrest] at hnext
  refine ⟨{ t with calls := callers, rounds := t.rounds + 1, device := s' }, ?_, ht, rfl⟩
  simp only [step, ht, hcalls, hnext, List.head?_nil, Option.map_none]

/-- One round of the loop with an entry. -/
theorem step_entry {entry : DirectoryEntry} {l : List DirectoryEntry} (ht : t.building = none)
    (hcalls : t.calls = dir :: callers) (hdir : dir.index ≤ dir.entryCount)
    (hrest : remaining image dir = entry :: l) :
    ∃ dir' t', step fs dev stack t = some (false, t') ∧
      t'.building = (followed entry).map (fun c => ([], c)) ∧ t'.calls = dir' :: callers ∧
      dir'.index ≤ dir'.entryCount ∧ remaining image dir' = l := by
  obtain ⟨dir', s', hnext, -, hle, htail⟩ :=
    next_eq dir (hdev dir.sectors) t.device (stack t.rounds) (hstack t.rounds) hdir
  rw [remaining] at hrest
  rw [hrest] at hnext htail
  cases hitem : entry.item with
  | file name size c =>
    refine ⟨dir', ⟨none, dir' :: callers, t.rounds + 1, s'⟩, ?_, ?_, rfl, hle, htail⟩
    · simp only [step, ht, hcalls, hnext, List.head?_cons, Option.map_some, hitem]
    · simp only [followed, hitem, Option.map_none]
  | directory name c =>
    by_cases hdot : isDotName name = true
    · refine ⟨dir', ⟨none, dir' :: callers, t.rounds + 1, s'⟩, ?_, ?_, rfl, hle, htail⟩
      · simp only [step, ht, hcalls, hnext, List.head?_cons, Option.map_some, hitem, if_pos hdot]
      · simp only [followed, hitem, if_pos hdot, Option.map_none]
    · refine ⟨dir', ⟨some ([], c), dir' :: callers, t.rounds + 1, s'⟩, ?_, ?_, rfl, hle, htail⟩
      · simp only [step, ht, hcalls, hnext, List.head?_cons, Option.map_some, hitem, if_neg hdot]
      · simp only [followed, hitem, if_neg hdot, Option.map_some]

variable (fs) in
/-- The rounds of the innermost call up to the next subdirectory, or to its end. -/
theorem steps_to_subdirectory {l : List DirectoryEntry} (ht : t.building = none)
    (hcalls : t.calls = dir :: callers) (hdir : dir.index ≤ dir.entryCount)
    (hrest : remaining image dir = l) :
    match l.filterMap followed with
    | [] => ∃ t', Steps (step fs dev stack) t 0 t' ∧ t'.building = none ∧ t'.calls = callers
    | c :: l' => ∃ dir' t', Steps (step fs dev stack) t 0 t' ∧ t'.building = some ([], c) ∧
        t'.calls = dir' :: callers ∧ Delivers image l' dir' := by
  induction l generalizing t dir with
  | nil =>
    obtain ⟨t', hstep, ht', hcalls'⟩ := step_end hdev hstack ht hcalls hdir hrest
    exact ⟨t', .one hstep, ht', hcalls'⟩
  | cons entry l ih =>
    -- a round delivers one entry, and goes into it if it is a subdirectory
    obtain ⟨dir', t', hstep, hbuilding, hcalls', hdir', hrest'⟩ :=
      step_entry hdev hstack ht hcalls hdir hrest
    cases hfollowed : followed entry with
    | some c =>
      rw [List.filterMap_cons_some hfollowed]
      rw [hfollowed] at hbuilding
      exact ⟨dir', t', .one hstep, hbuilding, hcalls', hdir', by rw [hrest']⟩
    | none =>
      rw [List.filterMap_cons_none hfollowed]
      rw [hfollowed] at hbuilding
      have hrun := ih hbuilding hcalls' hdir' hrest'
      cases hl : l.filterMap followed with
      | nil =>
        rw [hl] at hrun
        obtain ⟨t'', hsteps, hstate⟩ := hrun
        exact ⟨t'', .head hstep hsteps, hstate⟩
      | cons c l' =>
        rw [hl] at hrun
        obtain ⟨dir'', t'', hsteps, hstate⟩ := hrun
        exact ⟨dir'', t'', .head hstep hsteps, hstate⟩

variable (fs) in
/-- Before the next subdirectory is entered its enumerator is made. -/
theorem steps_to_constructor {l : List ClusterId} {lists : List (List ClusterId)}
    (h : Represents image ((c :: l) :: lists) t) :
    ∃ dir' callers t', Steps (step fs dev stack) t 0 t' ∧ t'.building = some ([], c) ∧
      t'.calls = dir' :: callers ∧ Delivers image l dir' ∧
      List.Forall₂ (Delivers image) lists callers := by
  obtain ⟨dir, callers, hdir, hcallers, hcalls⟩ := List.forall₂_cons_left_iff.mp h.calls
  have hrun := steps_to_subdirectory fs hdev hstack h.building hcalls hdir.inside rfl
  rw [hdir.rest] at hrun
  obtain ⟨dir', t', hsteps, hbuilding, hcalls', hdelivers⟩ := hrun
  exact ⟨dir', callers, t', hsteps, hbuilding, hcalls', hdelivers, hcallers⟩

/-- `dirtree` goes through the graph of the directories. -/
theorem explores : Explores (children fs image) (step fs dev stack)
    (Represents image : List (List ClusterId) → DirTree σ → Prop) where
  finish := by
    intro t h
    apply silent_of_stop
    rw [step, h.building, List.forall₂_nil_left_iff.mp h.calls]
  back := by
    intro lists t h
    obtain ⟨dir, callers, hdir, hcallers, hcalls⟩ := List.forall₂_cons_left_iff.mp h.calls
    have hrun := steps_to_subdirectory fs hdev hstack h.building hcalls hdir.inside rfl
    rw [hdir.rest] at hrun
    obtain ⟨t', hsteps, ht', hcalls'⟩ := hrun
    exact ⟨t', hsteps, ht', by rw [hcalls']; exact hcallers⟩
  enter := by
    intro c l l' lists t hchildren h
    obtain ⟨dir', callers, t', hsteps, hbuilding, hcalls, hdir', hcallers⟩ :=
      steps_to_constructor fs hdev hstack h
    -- a chain that goes round has no sectors, and the constructor does not come to an end
    by_cases hex : ∃ sectors, Builds fs c sectors
    · obtain ⟨sectors, hbuilds⟩ := hex
      rw [children_eq hbuilds] at hchildren
      cases hchildren
      obtain ⟨fuel, hcollect⟩ := hbuilds
      refine ⟨_, hsteps.trans (steps_build hcollect hbuilding), rfl, ?_⟩
      rw [List.nil_append, hcalls]
      refine .cons ⟨Nat.zero_le _, rfl⟩ (.cons hdir' hcallers)
    · rw [children, dif_neg hex] at hchildren
      cases hchildren
  stop := by
    intro c l lists t hchildren h
    obtain ⟨dir', callers, t', hsteps, hbuilding, -⟩ :=
      steps_to_constructor fs hdev hstack h
    exact ⟨t', hsteps, silent_build (not_builds_of_children hchildren) hbuilding⟩

end Machine

/-- The call for the directory `dir` starts with all its subdirectories. -/
theorem represents_start {σ : Type} (image : Nat → List UInt8) (sectors : List UInt16) (s : σ) :
    Represents image [subdirectories (entries image sectors)] (start ⟨sectors, 0⟩ s) where
  building := rfl
  calls := .cons ⟨Nat.zero_le _, rfl⟩ .nil

/-- `dirtree( root_directory() )` calls itself finitely many times exactly if no subdirectory
    that it comes to leads back to itself, whatever first clusters the entries have. -/
theorem dirtree_finite_iff {σ : Type} {fs : FileSystem} {root : DirectoryEnum}
    {dev : BlockDevice σ} {image : Nat → List UInt8} {stack : Nat → List UInt8}
    (hdev : ReadsImage dev image) (hstack : ∀ n, (stack n).length = blockSize)
    (hroot : fs.rootDirectory = .ok root) (s : σ) :
    FinitelyManyCalls fs dev stack root s ↔ ¬ LeadsBack fs image root := by
  have hindex : root = ⟨root.sectors, 0⟩ := by
    rw [FileSystem.rootDirectory] at hroot
    by_cases hsector : fs.bootSector.bytesPerSector = 0
    · rw [if_pos hsector] at hroot
      cases hroot
    · rw [if_neg hsector] at hroot
      cases hroot
      rfl
  rw [FinitelyManyCalls, LeadsBack, hindex]
  exact (explores hdev hstack).finitelyMarked_iff (represents_start image root.sectors s)

/-! ## A directory that contains itself -/

/-- The disk with the given blocks. -/
def imageDisk (image : Nat → List UInt8) : Disk Unit where
  read := fun _ first count buffer =>
    let blocks := (List.range count).flatMap fun i => image (first + i)
    (true, (blocks ++ buffer.drop blocks.length).take buffer.length, ())
  length_read := by
    intro s first count buffer
    simp only [List.length_take, List.length_append, List.length_drop]
    omega

theorem imageDisk_reads {image : Nat → List UInt8} (h : ∀ n, (image n).length = blockSize) :
    ReadsImage (imageDisk image).toBlockDevice image := by
  intro sectors sector _
  refine ⟨h _, fun s buffer hbuffer => ⟨(), ?_⟩⟩
  have hblock : (image sector.toNat ++ buffer.drop (image sector.toNat).length).take
      buffer.length = image sector.toNat := by
    rw [hbuffer, List.take_left' (h _)]
  simp only [imageDisk, List.range_one, List.flatMap_singleton, Nat.add_zero, hblock]

/-- A sector of a directory whose only entry is a directory in cluster 2. -/
def directorySector : List UInt8 := DirectoryEnum.bootSector

theorem length_directorySector : directorySector.length = blockSize := by
  simp only [directorySector, DirectoryEnum.bootSector, List.length_append, List.length_replicate]
  rfl

/-- The boot sector, the first table and, from then on, only sectors with the same entry: in
    the root directory as well as in cluster 2. -/
def loopImage : Nat → List UInt8
  | 0 => FileSystem.floppyBootSector 3 224
  | 1 => [0xF0, 0xFF, 0xFF, 0xFF, 0x0F, 0x00] ++ List.replicate 506 0
  | 2 => List.replicate 512 0
  | 3 => List.replicate 512 0
  | _ => directorySector

theorem length_loopImage : ∀ n, (loopImage n).length = blockSize
  | 0 => by
    simp only [loopImage, FileSystem.floppyBootSector, List.length_append, List.length_replicate,
      List.length_map]
    rfl
  | 1 => by
    simp only [loopImage, List.length_append, List.length_replicate]
    rfl
  | 2 => List.length_replicate
  | 3 => List.length_replicate
  | _ + 4 => length_directorySector

theorem loopImage_table :
    (List.range 3).flatMap (fun i => loopImage (1 + i)) = smallFat 0xFF := by
  rw [show List.range 3 = [0, 1, 2] from rfl]
  simp only [List.flatMap_cons, List.flatMap_nil, List.append_nil, loopImage, smallFat,
    List.append_assoc, List.replicate_append_replicate]

theorem loopImage_mounts :
    FileSystem.tryCreate (imageDisk loopImage) () (some (loopImage 0)) =
      .ok (some (smallFileSystem 0xFF), ()) := by
  have hboot : BootSector.ofBytes (loopImage 0) = smallBootSector := by decide
  have htable : FileSystem.readFat (imageDisk loopImage) () smallBootSector =
      (true, smallFat 0xFF, ()) := by
    rw [FileSystem.readFat]
    simp only [imageDisk]
    rw [show smallBootSector.reservedSectorCount.toNat = 1 from rfl,
      show smallBootSector.fatSize.toNat = 3 from rfl, loopImage_table, List.take_left']
    rw [List.length_replicate, length_smallFat]
    rfl
  have haccept : isFAT12 (loopImage 0) = true := FileSystem.floppyBootSector_accepted 3 224
  rw [FileSystem.tryCreate, if_pos haccept, hboot,
    FileSystem.mount_eq _ _ (by decide) (.inr (by decide)), htable,
    smallFileSystem_construct 0xFF]
  rfl

/-- All sectors from 4 on have the same entries. -/
theorem subdirectories_loopImage {first : UInt16} (hfirst : 4 ≤ first.toNat)
    (sectors : List UInt16) :
    subdirectories (entries loopImage (first :: sectors)) = [2] := by
  obtain ⟨k, hk⟩ := Nat.exists_eq_add_of_le' hfirst
  have hsector : loopImage first.toNat = directorySector := by
    rw [hk]
    rfl
  have hrange : List.range 16 = 0 :: 1 :: (List.range 14).map (· + 2) := by decide
  have huse : (entryAt directorySector 0).firstByte = 0x42 := by decide
  have hend : (entryAt directorySector 1).firstByte = 0x00 := by decide
  have hfollowed : followed (entryAt directorySector 0) = some 2 := by decide
  rw [subdirectories, entries, List.flatMap_cons, hrange, hsector, List.map_cons, List.map_cons,
    List.cons_append, List.cons_append, inUse_cons_use (by omega) (by omega), inUse_cons_end hend,
    List.filterMap_cons_some hfollowed, List.filterMap_nil]

/-- The directory in cluster 2 is a subdirectory of itself. -/
theorem loopImage_loops {first : UInt16} (hfirst : 4 ≤ first.toNat) (sectors : List UInt16) :
    LeadsBack (smallFileSystem 0xFF) loopImage ⟨first :: sectors, 0⟩ := by
  have hbuilds : Builds (smallFileSystem 0xFF) 2 [21] :=
    ⟨1, collectSectors_stop (by decide) (smallFileSystem_chain 0xFF (by decide)).links (by decide)⟩
  have hchildren : children (smallFileSystem 0xFF) loopImage 2 = some [2] := by
    rw [children_eq hbuilds, subdirectories_loopImage (by decide)]
  have henters : Enters (children (smallFileSystem 0xFF) loopImage) [2] 2 :=
    ⟨[], [], rfl, fun d hd => absurd hd List.not_mem_nil⟩
  rw [LeadsBack, subdirectories_loopImage hfirst]
  exact ⟨2, 2, henters, .refl, .single ⟨[2], hchildren, henters⟩⟩

/-- The root directory of the disk, in the sectors 7 to 20. -/
theorem loopImage_root : ∃ first sectors, 4 ≤ first.toNat ∧
    (smallFileSystem 0xFF).rootDirectory = .ok ⟨first :: sectors, 0⟩ :=
  ⟨7, (List.range 13).map fun i => .ofNat (8 + i), by decide, rfl⟩

/-- With a directory that is a subdirectory of itself there is no end of the recursive calls. -/
theorem dirtree_goes_round : ¬ ∀ (disk : Disk Unit) (image stack : Nat → List UInt8)
    (fs : FileSystem) (root : DirectoryEnum) (s : Unit), ReadsImage disk.toBlockDevice image →
    (∀ n, (stack n).length = blockSize) →
    FileSystem.tryCreate disk () (some (image 0)) = .ok (some fs, s) →
    fs.rootDirectory = .ok root → FinitelyManyCalls fs disk.toBlockDevice stack root s := by
  intro h
  obtain ⟨first, sectors, hfirst, hroot⟩ := loopImage_root
  have hreads := imageDisk_reads length_loopImage
  have hstack : ∀ n : Nat, (directorySector).length = blockSize := fun _ => length_directorySector
  have hfinite := h (imageDisk loopImage) loopImage (fun _ => directorySector) _ _ () hreads hstack
    loopImage_mounts hroot
  exact ((explores hreads hstack).finitelyMarked_iff
    (represents_start loopImage (first :: sectors) ())).mp hfinite (loopImage_loops hfirst sectors)

/-- The same disk: the calls go on because the directory leads back to itself. -/
theorem dirtree_finite_loop : ∃ root, (smallFileSystem 0xFF).rootDirectory = .ok root ∧
    ¬ FinitelyManyCalls (smallFileSystem 0xFF) (imageDisk loopImage).toBlockDevice
      (fun _ => directorySector) root () := by
  obtain ⟨first, sectors, hfirst, hroot⟩ := loopImage_root
  have hiff := dirtree_finite_iff (imageDisk_reads length_loopImage)
    (fun _ : Nat => length_directorySector) hroot ()
  exact ⟨_, hroot, fun hfinite => hiff.mp hfinite (loopImage_loops hfirst sectors)⟩

end DirTree

end TimbOS.Native.Fat12
