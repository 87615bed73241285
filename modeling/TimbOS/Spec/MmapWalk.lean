import TimbOS.ForStd.List
import TimbOS.ForStd.Walk
import TimbOS.Native.Multiboot

/-!
# The walk over the memory map

An entry says with its `size` where the next one begins, modulo `2 ^ 32`. `iterate_mmap` only
checks that an entry begins in front of the end of the buffer. So the sizes decide whether the
walk ends, and whether the entries that it hands to its callback lie inside the buffer.

## Key results

- `iterateMmap_addresses`: the walk is a fold over the entries at some addresses
- `entryAddresses_iff`: these are the addresses that a walk along the sizes visits
- `walk_inside_iff`: exactly when the walk ends and stays inside
- `walk_stuck`: an entry that leads back to itself
-/

namespace TimbOS.Native.Multiboot

open ForStd Relation

/-- `sizeof( multiboot_mmap_entry )` -/
def sizeofMmapEntry : Nat := 24

/-- `mmap_end` -/
def MultibootInfo.mmapEnd (mbt : MultibootInfo) : Nat := add32 mbt.mmapAddr mbt.mmapLength

/-- A callback that keeps the addresses: its state holds the address of the entry that comes
    next, and those of the entries so far. -/
def keepAddress (entry : MmapEntry) (s : Nat × List Nat) : Option (Nat × List Nat) :=
  some (add32 (add32 s.1 4) entry.size, s.2 ++ [s.1])

/-- The addresses of the entries that a walk hands to its callback, if the walk ends. -/
def entryAddresses (m : Mem) (mbt : MultibootInfo) : Option (List Nat) :=
  (iterateMmap m mbt keepAddress (mbt.mmapAddr, [])).map Prod.snd

/-- Where the entry at `p` leads. -/
def nextEntry (m : Mem) (p : Nat) : Nat := add32 (add32 p 4) (m.load32 p)

/-- The entry with which the walk goes on behind the one at `p`. -/
def follower (m : Mem) (mmapEnd p : Nat) : Option Nat :=
  if nextEntry m p < mmapEnd then some (nextEntry m p) else none

/-! ## The loop as a walk -/

section Loop

variable {σ : Type} {cb : MmapEntry → σ → Option σ} {m : Mem} {mmapEnd p q fuel : Nat}
  {l : List Nat}

theorem link_iff : Link (follower m mmapEnd) p q ↔ nextEntry m p = q ∧ q < mmapEnd := by
  rw [Link, follower]
  by_cases hlt : nextEntry m p < mmapEnd
  · rw [if_pos hlt, Option.some.injEq]
    exact ⟨fun h => ⟨h, h ▸ hlt⟩, fun h => h.1⟩
  · rw [if_neg hlt]
    constructor
    · intro h
      cases h
    · rintro ⟨rfl, h⟩
      exact absurd h hlt

/-- The loop hands the entries of a walk that ends to the callback. -/
theorem iterateMmapLoop_of_visits (h : Visits (follower m mmapEnd) p l) (hp : p < mmapEnd)
    (hfuel : l.length < fuel) (s : σ) :
    iterateMmapLoop cb m mmapEnd fuel p s =
      l.foldlM (fun s p => cb (MmapEntry.read m p) s) s := by
  induction h generalizing fuel s with
  | @stop p hstop =>
    have hend : ¬ nextEntry m p < mmapEnd := by
      intro hlt
      rw [follower, if_pos hlt] at hstop
      cases hstop
    -- one round for the last entry, and one that finds the end
    obtain ⟨fuel, rfl⟩ : ∃ f, fuel = f + 2 := ⟨fuel - 2, by
      rw [List.length_singleton] at hfuel
      omega⟩
    rw [iterateMmapLoop, if_pos hp, List.foldlM_cons]
    cases cb (MmapEntry.read m p) s with
    | none => rfl
    | some s' => exact if_neg hend
  | @go p q l hgo _ ih =>
    obtain ⟨rfl, hlt⟩ := link_iff.mp hgo
    obtain ⟨fuel, rfl⟩ : ∃ f, fuel = f + 1 := ⟨fuel - 1, by omega⟩
    rw [iterateMmapLoop, if_pos hp, List.foldlM_cons]
    cases cb (MmapEntry.read m p) s with
    | none => rfl
    | some s' =>
      rw [List.length_cons] at hfuel
      exact ih hlt (by omega) s'

/-- The callback that keeps the addresses is never the reason why a loop does not end. -/
theorem visits_of_iterateMmapLoop {s r : Nat × List Nat} (hp : p < mmapEnd)
    (h : iterateMmapLoop keepAddress m mmapEnd fuel p s = some r) :
    ∃ l, Visits (follower m mmapEnd) p l := by
  induction fuel generalizing p s with
  | zero => cases h
  | succ fuel ih =>
    rw [iterateMmapLoop, if_pos hp] at h
    simp only [keepAddress] at h
    by_cases hnext : nextEntry m p < mmapEnd
    · obtain ⟨l, hl⟩ := ih hnext h
      exact ⟨p :: l, .go (if_pos hnext) hl⟩
    · -- the entry leads to the end or behind it
      exact ⟨[p], .stop (if_neg hnext)⟩

/-- It keeps the addresses of the walk. -/
theorem keepAddress_foldlM (h : Visits (follower m mmapEnd) p l) (seen : List Nat) :
    ∃ q, l.foldlM (fun s p => keepAddress (MmapEntry.read m p) s) (p, seen) =
      some (q, seen ++ l) := by
  induction h generalizing seen with
  | @stop p _ => exact ⟨nextEntry m p, rfl⟩
  | @go p q l hgo _ ih =>
    obtain ⟨rfl, -⟩ := link_iff.mp hgo
    obtain ⟨r, hr⟩ := ih (seen ++ [p])
    refine ⟨r, ?_⟩
    rw [List.foldlM_cons]
    show l.foldlM _ (nextEntry m p, seen ++ [p]) = _
    rw [hr, List.append_assoc, List.singleton_append]

/-- Addresses have 32 bits. -/
theorem reach_lt (hp : p < 2 ^ 32) (h : ReflTransGen (Link (follower m mmapEnd)) p q) :
    q < 2 ^ 32 := by
  rcases ReflTransGen.cases_tail h with rfl | ⟨r, -, hlink⟩
  · exact hp
  · rw [← (link_iff.mp hlink).1]
    exact Nat.mod_lt _ (Nat.two_pow_pos 32)

theorem reach_finite (hp : p < 2 ^ 32) :
    {q | ReflTransGen (Link (follower m mmapEnd)) p q}.Finite :=
  (Set.finite_Iio (2 ^ 32)).subset fun _ hq => reach_lt hp hq

/-- A walk that ends is shorter than the number of steps that the loop is given. -/
theorem length_lt_of_visits (hp : p < 2 ^ 32) (h : Visits (follower m mmapEnd) p l) :
    l.length < 2 ^ 32 + 1 := by
  have hle := List.length_le_of_nodup_of_lt h.nodup fun q hq => reach_lt hp (h.mem_iff.mp hq)
  omega

end Loop

section Walk

variable {m : Mem} {mbt : MultibootInfo}

theorem mmapEnd_lt (mbt : MultibootInfo) : mbt.mmapEnd < 2 ^ 32 :=
  Nat.mod_lt _ (Nat.two_pow_pos 32)

/-- Without a map, or with one that ends before it begins, there are no entries. -/
theorem entryAddresses_none (h : mbt.flags &&& infoMemMap ≠ 0 → ¬ mbt.mmapAddr < mbt.mmapEnd) :
    entryAddresses m mbt = some [] := by
  unfold entryAddresses iterateMmap
  by_cases hflag : mbt.flags &&& infoMemMap ≠ 0
  · rw [if_pos hflag, iterateMmapLoop]
    exact congrArg (Option.map Prod.snd) (if_neg (h hflag))
  · rw [if_neg hflag]
    rfl

/-- The addresses are those that a walk along the sizes visits. -/
theorem entryAddresses_iff (hflag : mbt.flags &&& infoMemMap ≠ 0)
    (hlt : mbt.mmapAddr < mbt.mmapEnd) {l : List Nat} :
    entryAddresses m mbt = some l ↔ Visits (follower m mbt.mmapEnd) mbt.mmapAddr l := by
  have hend := mmapEnd_lt mbt
  have hvisits : ∀ {l}, Visits (follower m mbt.mmapEnd) mbt.mmapAddr l →
      entryAddresses m mbt = some l := by
    intro l h
    obtain ⟨q, hq⟩ := keepAddress_foldlM h []
    have hloop : iterateMmapLoop keepAddress m mbt.mmapEnd (2 ^ 32 + 1) mbt.mmapAddr
        (mbt.mmapAddr, []) = some (q, [] ++ l) :=
      (iterateMmapLoop_of_visits h hlt (length_lt_of_visits (by omega) h) _).trans hq
    unfold entryAddresses iterateMmap
    rw [if_pos hflag]
    exact congrArg (Option.map Prod.snd) hloop
  constructor
  · intro h
    obtain ⟨r, hr, -⟩ := Option.map_eq_some_iff.mp h
    rw [iterateMmap, if_pos hflag] at hr
    obtain ⟨l', hl'⟩ := visits_of_iterateMmapLoop hlt hr
    rw [hvisits hl'] at h
    cases h
    exact hl'
  · exact hvisits

/-- Whatever the callback does: it is called with the entries at these addresses, in this
    order. -/
theorem iterateMmap_addresses {σ : Type} {cb : MmapEntry → σ → Option σ} {l : List Nat}
    (h : entryAddresses m mbt = some l) (s : σ) :
    iterateMmap m mbt cb s = l.foldlM (fun s p => cb (MmapEntry.read m p) s) s := by
  have hend := mmapEnd_lt mbt
  by_cases hcalls : mbt.flags &&& infoMemMap ≠ 0 ∧ mbt.mmapAddr < mbt.mmapEnd
  · obtain ⟨hflag, hlt⟩ := hcalls
    have hvisits := (entryAddresses_iff hflag hlt).mp h
    rw [iterateMmap, if_pos hflag]
    exact iterateMmapLoop_of_visits hvisits hlt (length_lt_of_visits (by omega) hvisits) s
  · have hnone : mbt.flags &&& infoMemMap ≠ 0 → ¬ mbt.mmapAddr < mbt.mmapEnd :=
      fun hflag hlt => hcalls ⟨hflag, hlt⟩
    rw [entryAddresses_none hnone] at h
    cases h
    unfold iterateMmap
    by_cases hflag : mbt.flags &&& infoMemMap ≠ 0
    · rw [if_pos hflag, iterateMmapLoop]
      exact if_neg (hnone hflag)
    · rw [if_neg hflag]
      rfl

end Walk

/-! ## Staying inside -/

/-- The walk calls its callback finitely often, and with entries that lie completely inside the
    buffer. -/
def StaysInside (m : Mem) (mbt : MultibootInfo) : Prop :=
  ∃ l, entryAddresses m mbt = some l ∧
    ∀ p ∈ l, mbt.mmapAddr ≤ p ∧ p + sizeofMmapEntry ≤ mbt.mmapAddr + mbt.mmapLength

/-- The sizes lead through the buffer: there is room for a first entry, each entry leads to the
    end or to a place inside with room for another entry, and never back to an earlier one. -/
structure WellSized (m : Mem) (mbt : MultibootInfo) : Prop where
  room : sizeofMmapEntry ≤ mbt.mmapLength
  size : ∀ p, ReflTransGen (Link (follower m mbt.mmapEnd)) mbt.mmapAddr p →
    nextEntry m p < mbt.mmapEnd →
    mbt.mmapAddr ≤ nextEntry m p ∧ nextEntry m p + sizeofMmapEntry ≤ mbt.mmapEnd
  onward : ¬ GoesRound (follower m mbt.mmapEnd) mbt.mmapAddr

/-- `iterate_mmap` ends and stays inside exactly if there is nothing to walk over, or the sizes
    lead through the buffer. -/
theorem walk_inside_iff (m : Mem) {mbt : MultibootInfo} (haddr : mbt.mmapAddr < 2 ^ 32)
    (hlen : mbt.mmapLength < 2 ^ 32) :
    StaysInside m mbt ↔
      (mbt.flags &&& infoMemMap ≠ 0 → mbt.mmapAddr < mbt.mmapEnd → WellSized m mbt) := by
  by_cases hcalls : mbt.flags &&& infoMemMap ≠ 0 ∧ mbt.mmapAddr < mbt.mmapEnd
  · obtain ⟨hflag, hlt⟩ := hcalls
    -- the end of the buffer has not wrapped around
    have hend : mbt.mmapEnd = mbt.mmapAddr + mbt.mmapLength := by
      simp only [MultibootInfo.mmapEnd, add32] at hlt ⊢
      omega
    have hfin : {q | ReflTransGen (Link (follower m mbt.mmapEnd)) mbt.mmapAddr q}.Finite :=
      reach_finite haddr
    constructor
    · rintro ⟨l, hl, hinside⟩ _ _
      have hvisits := (entryAddresses_iff hflag hlt).mp hl
      refine ⟨?_, ?_, hvisits.not_goesRound⟩
      · have hfirst := hinside _ (hvisits.mem_iff.mpr .refl)
        omega
      · intro p hp hnext
        rw [hend]
        exact hinside _ (hvisits.mem_iff.mpr (hp.tail (link_iff.mpr ⟨rfl, hnext⟩)))
    · intro hsized
      obtain ⟨hroom, hsize, honward⟩ := hsized hflag hlt
      obtain ⟨l, hvisits⟩ := (visits_iff hfin).mpr honward
      refine ⟨l, (entryAddresses_iff hflag hlt).mpr hvisits, ?_⟩
      intro q hq
      rcases ReflTransGen.cases_tail (hvisits.mem_iff.mp hq) with rfl | ⟨p, hp, hlink⟩
      · omega
      · obtain ⟨rfl, hnext⟩ := link_iff.mp hlink
        rw [← hend]
        exact hsize p hp hnext
  · have hnone : mbt.flags &&& infoMemMap ≠ 0 → ¬ mbt.mmapAddr < mbt.mmapEnd :=
      fun hflag hlt => hcalls ⟨hflag, hlt⟩
    constructor
    · intro _ hflag hlt
      exact absurd hlt (hnone hflag)
    · intro _
      exact ⟨[], entryAddresses_none hnone, fun p hp => absurd hp List.not_mem_nil⟩

/-! ## Small maps -/

/-- The sizes of three entries at `0x500`, where the second entry has four bytes more. -/
def threeEntries : Mem :=
  ((Mem.store32 (fun _ => 0) 0x500 20).store32 0x518 24).store32 0x534 20

def threeEntriesInfo : MultibootInfo := ⟨infoMemMap, 3 * sizeofMmapEntry + 4, 0x500⟩

/-- The walk leads through the three entries. -/
theorem walk_inside_three : StaysInside threeEntries threeEntriesInfo := by
  refine (walk_inside_iff _ (by decide) (by decide)).mpr fun _ _ => ?_
  have hvisits : Visits (follower threeEntries threeEntriesInfo.mmapEnd)
      threeEntriesInfo.mmapAddr [0x500, 0x518, 0x534] :=
    .go (by decide) (.go (by decide) (.stop (by decide)))
  refine ⟨by decide, ?_, hvisits.not_goesRound⟩
  intro p hp hnext
  have hmem := hvisits.mem_iff.mpr hp
  simp only [List.mem_cons, List.not_mem_nil, or_false] at hmem
  rcases hmem with rfl | rfl | rfl
  · decide
  · decide
  · exact absurd hnext (by decide)

/-- The first word of a map at `0x500`, with the size of its only entry. -/
def oneEntry (size : Nat) : Mem := Mem.store32 (fun _ => 0) 0x500 size

def oneEntryInfo : MultibootInfo := ⟨infoMemMap, sizeofMmapEntry, 0x500⟩

/-- The size `2 ^ 32 - 4` leads back to the entry itself. -/
theorem walk_stuck : ¬ ∀ (m : Mem) (mbt : MultibootInfo), mbt.mmapAddr < 2 ^ 32 →
    mbt.mmapLength < 2 ^ 32 → StaysInside m mbt := by
  intro h
  have hinside := h (oneEntry 0xFFFFFFFC) oneEntryInfo (by decide) (by decide)
  have hsized := (walk_inside_iff _ (by decide) (by decide)).mp hinside (by decide) (by decide)
  apply hsized.onward
  exact ⟨0x500, .refl, .single (link_iff.mpr (by decide))⟩

end TimbOS.Native.Multiboot
