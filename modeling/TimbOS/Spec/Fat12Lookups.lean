import TimbOS.Spec.Fat12Walk

/-!
# Which entries of the table the walk reads

`next_cluster` panics for clusters outside of the table, but its check lets the first number
behind the table through and reads the entry there. The walk along a chain makes one call for
each cluster that it comes to, whatever the entries of the table are.

## Key results

- `mem_lookups_iff`: the calls of `next_cluster` that the walk makes
- `staysInTable_iff`: exactly when one call panics or reads an entry of the table
- `lookups_stay_iff`: exactly when all calls of a walk do
-/

namespace TimbOS.Native.Fat12.DirectoryEnum

open ForStd Relation

/-- The clusters for which the loop calls `next_cluster`, in its first rounds. -/
def lookups (fs : FileSystem) : Nat → ClusterId → List ClusterId
  | 0, _ => []
  | rounds + 1, cluster =>
    match fs.sectorFromCluster cluster with
    -- the panic of `sector_from_cluster` comes first
    | .error _ => []
    | .ok _ =>
      cluster ::
        match fs.nextCluster cluster with
        | .error _ => []
        | .ok next => if next ≠ 0xFF0 ∧ next ≠ 0xFFF then lookups fs rounds next else []

/-- `next_cluster` panics, or reads an entry of the table. -/
def StaysInTable (fs : FileSystem) (cluster : ClusterId) : Prop :=
  (∃ p, fs.nextCluster cluster = .error (.panic p)) ∨
    ∃ next, fs.nextCluster cluster = .ok next ∧ cluster.toNat < fs.fat.length ∧
      fs.fat[cluster.toNat]? = some next

section Lookups

variable {fs : FileSystem} {c d : ClusterId}

theorem staysInTable_iff : StaysInTable fs c ↔ c.toNat ≠ fs.fat.length := by
  rcases nextCluster_cases fs c with ⟨next, hnext, hentry⟩ | ⟨e, hnext, hentry, hpanic⟩
  · obtain ⟨hlt, -⟩ := List.getElem?_eq_some_iff.mp hentry
    exact iff_of_true (.inr ⟨next, hnext, hlt, hentry⟩) (Nat.ne_of_lt hlt)
  · rw [← hpanic]
    constructor
    · rintro (⟨p, hp⟩ | ⟨next, hok, -⟩)
      · rw [hnext] at hp
        exact ⟨p, Except.error.inj hp⟩
      · rw [hnext] at hok
        cases hok
    · rintro ⟨p, rfl⟩
      exact .inl ⟨p, hnext⟩

/-- A round looks its cluster up, and the loop goes on with the follower. -/
theorem lookups_succ (fs : FileSystem) (rounds : Nat) (c : ClusterId) :
    lookups fs (rounds + 1) c =
      if c = 1 then [] else c :: (follower fs c).elim [] (lookups fs rounds) := by
  rw [lookups, follower]
  by_cases hone : c = 1
  · rw [if_pos hone, hone]
    rfl
  · rw [if_neg hone, if_neg hone, sectorFromCluster_eq hone]
    rcases nextCluster_cases fs c with ⟨next, hnext, hentry⟩ | ⟨e, hnext, hentry, -⟩
    · rw [hnext, hentry, Option.filter_some]
      by_cases hgo : next ≠ 0xFF0 ∧ next ≠ 0xFFF
      · simp [hgo]
      · simp only [hgo, if_false, decide_false]
        rfl
    · rw [hnext, hentry]
      rfl

/-- The walk calls `next_cluster` for the clusters that it can reach, but for cluster 1. -/
theorem mem_lookups_iff :
    (∃ rounds, d ∈ lookups fs rounds c) ↔ d ≠ 1 ∧ ReflTransGen (Link (follower fs)) c d := by
  constructor
  · -- induction on the rounds of the walk
    rintro ⟨rounds, hd⟩
    induction rounds generalizing c with
    | zero => cases hd
    | succ rounds ih =>
      rw [lookups_succ] at hd
      by_cases hone : c = 1
      · rw [if_pos hone] at hd
        cases hd
      · rw [if_neg hone] at hd
        rcases List.mem_cons.mp hd with rfl | hd
        · exact ⟨hone, .refl⟩
        · cases hfollow : follower fs c with
          | none =>
            rw [hfollow] at hd
            cases hd
          | some next =>
            rw [hfollow] at hd
            obtain ⟨hne, hreach⟩ := ih hd
            exact ⟨hne, hreach.head hfollow⟩
  · -- induction on the way to `d`, from its first link on
    rintro ⟨hne, hreach⟩
    induction hreach using ReflTransGen.head_induction_on with
    | refl =>
      refine ⟨1, ?_⟩
      rw [lookups_succ, if_neg hne]
      exact List.mem_cons_self
    | @head c next hlink _ ih =>
      obtain ⟨rounds, hd⟩ := ih
      have hone : c ≠ 1 := by
        rintro rfl
        cases hlink
      refine ⟨rounds + 1, ?_⟩
      rw [lookups_succ, if_neg hone, show follower fs c = some next from hlink]
      exact List.mem_cons_of_mem c hd

end Lookups

/-! ## Tables from a disk -/

/-- Mounting reads the table from the bytes of the FAT. -/
theorem fat_of_construct {boot : BootSector} {fat : List UInt8} {fs : FileSystem}
    (h : FileSystem.construct boot fat = .ok fs) : fs.fat = FAT12FAT.readEntries fat := by
  by_cases hsector : boot.bytesPerSector = 0
  · rw [FileSystem.construct, if_pos hsector] at h
    cases h
  · by_cases hlen : fat.length % 3 = 0
    · rw [construct_eq hsector hlen] at h
      cases h
      rfl
    · rw [FileSystem.construct, if_neg hsector, FAT12FAT.read, if_pos hlen] at h
      cases h

/-- Each call of `next_cluster` in the walk from a first cluster, of which both calls take the
    low 16 bits, panics or reads an entry of the table, exactly if the chain does not come to the
    first number behind the table. -/
theorem lookups_stay_iff {boot : BootSector} {fat : List UInt8} {fs : FileSystem}
    (h : FileSystem.construct boot fat = .ok fs) (first : UInt32) :
    (∀ rounds, ∀ c ∈ lookups fs rounds first.toUInt16, StaysInTable fs c) ↔
      ∀ c, ReflTransGen (Link (follower fs)) first.toUInt16 c → c.toNat ≠ fs.fat.length := by
  -- the table has an even number of entries
  have hone : ∀ c : ClusterId, c.toNat = fs.fat.length → c ≠ 1 := by
    rintro c hc rfl
    rw [fat_of_construct h, FAT12FAT.length_readEntries, show (1 : UInt16).toNat = 1 from rfl] at hc
    omega
  constructor
  · intro hall c hreach hc
    obtain ⟨rounds, hmem⟩ := mem_lookups_iff.mpr ⟨hone c hc, hreach⟩
    exact staysInTable_iff.mp (hall rounds c hmem) hc
  · intro hall rounds c hmem
    exact staysInTable_iff.mpr (hall c (mem_lookups_iff.mp ⟨rounds, hmem⟩).2)

/-- Three sectors of table with 1024 entries, where cluster 2 is followed by cluster 1024. -/
def behindFat : List UInt8 := [0xF0, 0xFF, 0xFF, 0x00, 0x04, 0x00] ++ List.replicate 1530 0

theorem length_behindFat : behindFat.length = 1536 := by
  rw [behindFat, List.length_append, List.length_replicate]
  rfl

theorem follower_behindFat {fs : FileSystem} (h : fs.fat = FAT12FAT.readEntries behindFat) :
    Link (follower fs) 2 1024 := by
  -- the third entry of the table
  simp only [Link, follower, h, behindFat, List.cons_append, FAT12FAT.readEntries_cons]
  rfl

/-- The walk through the chain of three clusters. -/
theorem chainFileSystem_visits : Visits (follower chainFileSystem) 2 [2, 3, 4] := by
  obtain ⟨h2, h3, h4⟩ := chainFileSystem_entries
  have hfollow : ∀ c : ClusterId, c ≠ 1 → follower chainFileSystem c =
      chainFileSystem.fat[c.toNat]?.filter fun next => next ≠ 0xFF0 ∧ next ≠ 0xFFF :=
    fun c hc => if_neg hc
  refine .go ?_ (.go ?_ (.stop ?_))
  · rw [hfollow 2 (by decide), show (2 : ClusterId).toNat = 2 from rfl, h2]
    rfl
  · rw [hfollow 3 (by decide), show (3 : ClusterId).toNat = 3 from rfl, h3]
    rfl
  · rw [hfollow 4 (by decide), show (4 : ClusterId).toNat = 4 from rfl, h4]
    rfl

/-- None of the three clusters is the first number behind the table. -/
theorem lookups_stay_iff_three :
    Visits (follower chainFileSystem) 2 [2, 3, 4] ∧
      ∀ rounds, ∀ c ∈ lookups chainFileSystem rounds (2 : UInt32).toUInt16,
        StaysInTable chainFileSystem c := by
  refine ⟨chainFileSystem_visits, (lookups_stay_iff chainFileSystem_construct 2).mpr ?_⟩
  intro c hreach
  have hc : c ∈ [(2 : ClusterId), 3, 4] := chainFileSystem_visits.mem_iff.mpr hreach
  rw [chainFileSystem_length]
  simp only [List.mem_cons, List.not_mem_nil, or_false] at hc
  rcases hc with rfl | rfl | rfl <;> decide

/-- A table of 1024 entries is read at the index 1024. -/
theorem lookup_behind_table : ¬ ∀ (boot : BootSector) (fat : List UInt8) (fs : FileSystem)
    (first : UInt32), FileSystem.construct boot fat = .ok fs →
    ∀ rounds, ∀ c ∈ lookups fs rounds first.toUInt16, StaysInTable fs c := by
  intro h
  have hlen : behindFat.length % 3 = 0 := by
    rw [length_behindFat]
  have hmount := (show FileSystem.construct smallBootSector behindFat = .ok _ from
    construct_eq (by decide) hlen)
  have hfat := fat_of_construct hmount
  obtain ⟨rounds, hmem⟩ := mem_lookups_iff.mpr
    ⟨show (1024 : ClusterId) ≠ 1 by decide, .single (follower_behindFat hfat)⟩
  apply staysInTable_iff.mp (h smallBootSector behindFat _ 2 hmount rounds 1024 hmem)
  rw [hfat, FAT12FAT.length_readEntries, length_behindFat]
  rfl

end TimbOS.Native.Fat12.DirectoryEnum
