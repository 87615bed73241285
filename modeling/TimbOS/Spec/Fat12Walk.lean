import TimbOS.ForStd.Walk
import TimbOS.Spec.Fat12Chain

/-!
# Does the walk along a cluster chain end?

The loop of the constructor of `FAT12DirectoryEnum` goes from cluster to cluster as the table
says. Only `0xFF0` and `0xFFF` end it, and values outside of the table, for which it panics. It
does not notice that it comes back to a cluster, and collects the sectors once more.

## Key results

- `addCluster_cases`: one round of the loop
- `collectSectors_of_visits`, `visits_of_collectSectors`: the loop is a walk through the table
- `walk_finishes_iff`: exactly when it returns or panics
- `walk_goes_round`: a cluster that is its own successor
-/

namespace TimbOS.Native.Fat12.DirectoryEnum

open ForStd Relation

/-- The cluster with which the loop goes on after `c`. -/
def follower (fs : FileSystem) (c : ClusterId) : Option ClusterId :=
  if c = 1 then none else fs.fat[c.toNat]?.filter fun next => next ≠ 0xFF0 ∧ next ≠ 0xFFF

/-- The first number behind the table, which the check of `next_cluster` lets through. -/
def BehindTable (fs : FileSystem) (c : ClusterId) : Prop := c ≠ 1 ∧ c.toNat = fs.fat.length

/-- The loop has returned or panicked. -/
def Settled : Except Fault (List UInt16) → Prop
  | .ok _ => True
  | .error e => ∃ p, e = .panic p

/-- The loop finishes after finitely many rounds, by returning or by a panic. -/
def Finishes (fs : FileSystem) (first : ClusterId) : Prop :=
  ∃ fuel result, collectSectors fs fuel first = some result ∧ Settled result

section Walk

variable {fs : FileSystem} {c : ClusterId} {l : List ClusterId} {fuel : Nat}
  {result : Except Fault (List UInt16)}

theorem nextCluster_cases (fs : FileSystem) (c : ClusterId) :
    (∃ next, fs.nextCluster c = .ok next ∧ fs.fat[c.toNat]? = some next) ∨
      ∃ e, fs.nextCluster c = .error e ∧ fs.fat[c.toNat]? = none ∧
        ((∃ p, e = .panic p) ↔ c.toNat ≠ fs.fat.length) := by
  unfold FileSystem.nextCluster FAT12FAT.nextCluster
  by_cases hout : c.toNat > fs.fat.length
  · rw [if_pos hout]
    refine .inr ⟨_, rfl, List.getElem?_eq_none (by omega), ?_⟩
    exact ⟨fun _ => by omega, fun _ => ⟨_, rfl⟩⟩
  · rw [if_neg hout]
    cases hnext : fs.fat[c.toNat]? with
    | some next => exact .inl ⟨next, rfl, rfl⟩
    | none =>
      have hlen := List.getElem?_eq_none_iff.mp hnext
      refine .inr ⟨_, rfl, rfl, ?_⟩
      constructor
      · rintro ⟨p, hp⟩
        cases hp
      · intro hne
        omega

/-- A round ends the loop with a fault, which is a panic unless the cluster lies just behind the
    table, or it adds the sectors of the cluster and looks its successor up. -/
theorem addCluster_cases (fs : FileSystem) (c : ClusterId) :
    (∃ e, addCluster fs c = .error e ∧ follower fs c = none ∧
        ((∃ p, e = .panic p) ↔ ¬ BehindTable fs c)) ∨
      ∃ more next, addCluster fs c = .ok (more, next) ∧ ¬ BehindTable fs c ∧
        follower fs c = if next ≠ 0xFF0 ∧ next ≠ 0xFFF then some next else none := by
  by_cases hone : c = 1
  · subst hone
    exact .inl ⟨_, rfl, rfl, fun _ h => h.1 rfl, fun _ => ⟨_, rfl⟩⟩
  · have hsector : fs.sectorFromCluster c = .ok (sectorOf fs c) := sectorFromCluster_eq hone
    rcases nextCluster_cases fs c with ⟨next, hnext, hentry⟩ | ⟨e, hnext, hentry, hpanic⟩
    · obtain ⟨hlt, -⟩ := List.getElem?_eq_some_iff.mp hentry
      refine .inr ⟨_, next, by simp only [addCluster, hsector, hnext]; rfl, ?_, ?_⟩
      · rintro ⟨-, hlen⟩
        omega
      · simp [follower, if_neg hone, hentry, Option.filter]
    · refine .inl ⟨e, by simp only [addCluster, hsector, hnext]; rfl, ?_, ?_⟩
      · simp [follower, hentry]
      · rw [hpanic, BehindTable]
        simp [hone]

/-- A walk that ends is a loop that ends, and not just behind the table if it settles. -/
theorem collectSectors_of_visits (h : Visits (follower fs) c l) :
    ∃ result, collectSectors fs l.length c = some result ∧
      (Settled result ↔ ∀ d ∈ l, ¬ BehindTable fs d) := by
  induction h with
  | @stop c hstop =>
    rw [List.length_singleton, collectSectors]
    rcases addCluster_cases fs c with ⟨e, hadd, -, hpanic⟩ | ⟨more, next, hadd, hin, hfollow⟩
    · refine ⟨_, by rw [hadd], ?_⟩
      simpa [Settled] using hpanic
    · rw [hstop] at hfollow
      -- without a follower the loop stops at this cluster
      have hend : ¬ (next ≠ 0xFF0 ∧ next ≠ 0xFFF) := by
        intro hgo
        rw [if_pos hgo] at hfollow
        cases hfollow
      refine ⟨.ok more, by simp only [hadd, if_neg hend], ?_⟩
      simpa [Settled] using hin
  | @go c d l hgo _ ih =>
    obtain ⟨result, hrest, hsettled⟩ := ih
    rw [List.length_cons, collectSectors]
    rcases addCluster_cases fs c with ⟨e, -, hfollow, -⟩ | ⟨more, next, hadd, hin, hfollow⟩
    · rw [hgo] at hfollow
      cases hfollow
    · rw [hgo] at hfollow
      -- the loop goes on exactly where the walk does
      by_cases hnext : next ≠ 0xFF0 ∧ next ≠ 0xFFF
      · rw [if_pos hnext] at hfollow
        cases hfollow
        refine ⟨result.map fun l => more ++ l, ?_, ?_⟩
        · simp only [hadd, if_pos hnext, hrest, Option.map_some]
        · cases result <;> simpa [Settled, Except.map, hin] using hsettled
      · rw [if_neg hnext] at hfollow
        cases hfollow

/-- The clusters that a loop comes by that ends. -/
theorem visits_of_collectSectors (h : collectSectors fs fuel c = some result) :
    ∃ l, Visits (follower fs) c l ∧ (Settled result ↔ ∀ d ∈ l, ¬ BehindTable fs d) := by
  induction fuel generalizing c result with
  | zero => cases h
  | succ fuel ih =>
    rw [collectSectors] at h
    rcases addCluster_cases fs c with ⟨e, hadd, hfollow, hpanic⟩ | ⟨more, next, hadd, hin, hfollow⟩
    · rw [hadd] at h
      cases h
      refine ⟨[c], .stop hfollow, ?_⟩
      simpa [Settled] using hpanic
    · simp only [hadd] at h
      by_cases hnext : next ≠ 0xFF0 ∧ next ≠ 0xFFF
      · rw [if_pos hnext] at h hfollow
        obtain ⟨rest, hrest, hmap⟩ := Option.map_eq_some_iff.mp h
        obtain ⟨l, hvisits, hsettled⟩ := ih hrest
        refine ⟨c :: l, .go hfollow hvisits, ?_⟩
        rw [← hmap]
        cases rest <;> simpa [Settled, Except.map, hin] using hsettled
      · rw [if_neg hnext] at h hfollow
        cases h
        refine ⟨[c], .stop hfollow, ?_⟩
        simpa [Settled] using hin

end Walk

/-- The constructor's loop finishes exactly if the chain from the first cluster neither comes
    back to one of its clusters nor reaches the first number behind the table. -/
theorem walk_finishes_iff (fs : FileSystem) (first : ClusterId) :
    Finishes fs first ↔ ¬ GoesRound (follower fs) first ∧
      ∀ c, ReflTransGen (Link (follower fs)) first c → ¬ BehindTable fs c := by
  rw [← visits_iff (Set.toFinite _)]
  constructor
  · rintro ⟨fuel, result, hrun, hsettled⟩
    obtain ⟨l, hvisits, hiff⟩ := visits_of_collectSectors hrun
    exact ⟨⟨l, hvisits⟩, fun c hc => hiff.mp hsettled c (hvisits.mem_iff.mpr hc)⟩
  · rintro ⟨⟨l, hvisits⟩, hin⟩
    obtain ⟨result, hrun, hiff⟩ := collectSectors_of_visits hvisits
    exact ⟨l.length, result, hrun, hiff.mpr fun d hd => hin d (hvisits.mem_iff.mp hd)⟩

/-! ## A circular chain -/

/-- Three sectors of table, where cluster 2 is followed by itself. -/
def circularFat : List UInt8 := [0xF0, 0xFF, 0xFF, 0x02, 0x00, 0x00] ++ List.replicate 1530 0

/-- The constructor never finishes with cluster 2 of this disk. -/
theorem walk_goes_round : ¬ ∀ (boot : BootSector) (fat : List UInt8) (fs : FileSystem)
    (first : ClusterId), FileSystem.construct boot fat = .ok fs → Finishes fs first := by
  intro h
  have hlen : circularFat.length % 3 = 0 := by
    rw [circularFat, List.length_append, List.length_replicate]
    rfl
  have hfinish := h smallBootSector circularFat _ 2 (construct_eq (by decide) hlen)
  apply ((walk_finishes_iff _ _).mp hfinish).1
  refine ⟨2, .refl, .single ?_⟩
  -- the third entry of the table
  simp only [Link, follower, circularFat, List.cons_append, FAT12FAT.readEntries_cons]
  rfl

end TimbOS.Native.Fat12.DirectoryEnum
