import TimbOS.ForStd.List
import TimbOS.Spec.KHeapRepresents

/-!
# Release refines the abstract heap

`mm::heap::free` of a used object never faults on a heap that represents an abstract
heap, and is the abstract step `Freed`. The chunk either keeps another used object,
and may enter its group's list again, or gives its pages back.

## Key results

- `findPrev_eq`: the walk for a chunk's predecessor ends, and finds it
- `Represents.freeKept`, `Represents.freeLast`: the two cases
- `Represents.free`: `mm::heap::free` of a used object
-/

namespace TimbOS.Native.KHeap

open ForStd

/-- Object `i` of the chunk of group `g` at `b` becomes free. -/
structure Freed (h h' : Heap) (a a' : AbsHeap) (g : Group) (b i : Nat)
    (calls : List PageCall) : Prop where
  rep : Represents h' a'
  used : ∀ g' b' i', a'.Used g' b' i' ↔ a.Used g' b' i' ∧ ¬ (g' = g ∧ b' = b ∧ i' = i)
  /-- The pages are returned when this was the last used object, and only then. -/
  pages : (calls = [] ∧ (∃ j, j ≠ i ∧ a.Used g b j) ∧ ∀ g' b', a'.Held g' b' ↔ a.Held g' b') ∨
    (calls = [.freePages b (sizeClass g).pageCount] ∧ (∀ j, a.Used g b j → j = i) ∧
      ∀ g' b', a'.Held g' b' ↔ a.Held g' b' ∧ b' ≠ b)
  agree : ∀ x, (∀ g b, a.Held g b → ¬ IsHeader (sizeClass g) b x) → h'.mem x = h.mem x

section Held

variable {h h' : Heap} {a a' : AbsHeap} {g g' : Group} {b b' i : Nat} {calls : List PageCall}

/-- No chunk comes to be held. -/
theorem Freed.held_of (hf : Freed h h' a a' g b i calls) (hb : a'.Held g' b') : a.Held g' b' := by
  rcases hf.pages with ⟨_, _, hheld⟩ | ⟨_, _, hheld⟩
  · exact (hheld g' b').mp hb
  · exact ((hheld g' b').mp hb).1

/-- The other chunks stay held. -/
theorem Freed.held_ne (hf : Freed h h' a a' g b i calls) (hb : a.Held g' b') (hne : b' ≠ b) :
    a'.Held g' b' := by
  rcases hf.pages with ⟨_, _, hheld⟩ | ⟨_, _, hheld⟩
  · exact (hheld g' b').mpr hb
  · exact (hheld g' b').mpr ⟨hb, hne⟩

end Held

/-- The walk ends at the chunk in front of `y`. -/
theorem findPrev_eq {m : Mem} {p x y fuel : Nat} {l₁ l₂ : List Nat}
    (hl : Linked (HeapChunk.next m) 0 p (l₁ ++ x :: y :: l₂)) (hfuel : l₁.length < fuel) :
    HeapChunkGroup.findPrev m y fuel p = some x := by
  induction l₁ generalizing p fuel with
  | nil =>
    obtain ⟨fuel, rfl⟩ : ∃ n, fuel = n + 1 := ⟨fuel - 1, by simp at hfuel; omega⟩
    obtain ⟨hp, _, hnext, _⟩ := hl
    have hstop : ¬ (p ≠ 0 ∧ HeapChunk.next m p ≠ y) := by
      rw [hp, hnext]
      simp
    rw [HeapChunkGroup.findPrev, if_neg hstop, hp]
  | cons z l₁ ih =>
    obtain ⟨fuel, rfl⟩ : ∃ n, fuel = n + 1 := ⟨fuel - 1, by simp at hfuel; omega⟩
    have hnodup := hl.nodup
    obtain ⟨hp, hz, hrest⟩ := hl
    -- the chunk after `z` is in front of `y` in the list, so it is not `y`
    have hnext : HeapChunk.next m z ≠ y := by
      intro heq
      rw [heq] at hrest
      cases l₁ with
      | nil =>
        have hxy : y = x := hrest.1
        simp [hxy] at hnodup
      | cons w l₁ =>
        have hwy : y = w := hrest.1
        simp [hwy] at hnodup
    have hgo : p ≠ 0 ∧ HeapChunk.next m p ≠ y := by
      rw [hp]
      exact ⟨hz, hnext⟩
    rw [HeapChunkGroup.findPrev, if_pos hgo, hp]
    apply ih hrest
    simp only [List.length_cons] at hfuel
    omega

section Free

variable {h : Heap} {a : AbsHeap} {g : Group} {b i : Nat} {s : ChunkState}

/-- The list of a group has fewer chunks than there are addresses. -/
theorem Represents.length_avail_le (hr : Represents h a) (g : Group) :
    (a.avail g).length ≤ 2 ^ 32 := by
  apply List.length_le_of_nodup_of_lt (hr.lists g).nodup
  intro b hb
  obtain ⟨s, hs, _, _⟩ := (hr.inv.mem_avail g b).mp hb
  have hbound := (hr.inv.placed b s hs).bound
  have hroom := (fits_sizeClass s.group).room
  omega

theorem Represents.firstChunk_lt (hr : Represents h a) (g : Group) : h.firstChunk g < 2 ^ 32 := by
  by_cases hfirst : h.firstChunk g = 0
  · omega
  · obtain ⟨l, hl⟩ := (hr.lists g).exists_cons hfirst
    obtain ⟨r, hr', _, _⟩ := (hr.inv.mem_avail g (h.firstChunk g)).mp (by simp [hl])
    have hbound := (hr.inv.placed _ r hr').bound
    have hroom := (fits_sizeClass r.group).room
    omega

/-- The middle of `heap_chunk_group::free`: object `i` is back on the free list of its
    chunk, and the list of chunks is still as it was. -/
structure GivenBack (h : Heap) (a : AbsHeap) (s : ChunkState) (b i : Nat) (m' : Mem) : Prop where
  rep : ChunkRep (sizeClass s.group) m' b (i :: s.frees)
  agree : AgreeOffHeader (sizeClass s.group) b h.mem m'
  list : Linked (HeapChunk.next m') 0 (h.firstChunk s.group) (a.avail s.group)
  run : HeapChunkGroup.free h s.group (HeapChunk.dataAddr (sizeClass s.group) b i) =
    if s.frees.length + 1 = (sizeClass s.group).objectCount then
      (if s.frees = [] then Except.ok { h with mem := m' }
        else HeapChunkGroup.unlink { h with mem := m' } s.group b).bind fun h' =>
          .ok (h', [.freePages b (sizeClass s.group).pageCount])
    else if s.frees = [] then
      .ok (HeapChunkGroup.setFirstChunk
        { h with mem := HeapChunk.chain m' b (h.firstChunk s.group) } s.group b, [])
    else
      .ok ({ h with mem := m' }, [])

theorem Represents.giveBack (hr : Represents h a) (hs : a.chunk b = some s)
    (hi : i < (sizeClass s.group).objectCount) (hnot : i ∉ s.frees) :
    ∃ m', GivenBack h a s b i m' := by
  have hc := fits_sizeClass s.group
  have hplaced := hr.inv.placed b s hs
  have hrep := hr.chunks b s hs
  obtain ⟨hrep', hnext, hagree⟩ := hrep.free hc hplaced.bound hi hnot
  refine ⟨HeapChunk.free h.mem b (HeapChunk.dataAddr (sizeClass s.group) b i), hrep', hagree,
    ?_, ?_⟩
  · apply (hr.lists s.group).congr
    intro b' hb'
    by_cases hb : b' = b
    · rw [hb, hnext]
    · obtain ⟨r, hr', _, _⟩ := (hr.inv.mem_avail s.group b').mp hb'
      exact (hr.other hplaced hagree hb hr').2
  · -- the chunk is found from the pointer, since a chunk of several pages has one object
    have hchunk := pageOf_dataAddr hc hplaced.aligned hi
    have hempty := hrep'.empty_iff
    rw [List.length_cons] at hempty
    unfold HeapChunkGroup.free
    simp only [hchunk, hempty]
    -- the last object in use makes the chunk empty; a full chunk was in no list before
    by_cases hlast : s.frees.length + 1 = (sizeClass s.group).objectCount
    · rw [if_pos hlast, if_pos hlast]
      by_cases hfull : s.frees = []
      · have hwas : HeapChunk.full h.mem b = true := hrep.full_iff.mpr hfull
        simp [hwas, hfull, bind]
      · have hwas : HeapChunk.full h.mem b = false := by
          rw [Bool.eq_false_iff, Ne, hrep.full_iff]
          exact hfull
        simp [hwas, hfull, bind]
    · rw [if_neg hlast, if_neg hlast]
      simp only [hrep.full_iff]

/-- Freeing an object of a chunk that keeps another used object. -/
theorem Represents.freeKept (hr : Represents h a) (hs : a.chunk b = some s)
    (hi : i < (sizeClass s.group).objectCount) (hnot : i ∉ s.frees)
    (hlen : s.frees.length + 1 < (sizeClass s.group).objectCount) :
    ∃ h' a', HeapChunkGroup.free h s.group (HeapChunk.dataAddr (sizeClass s.group) b i) =
        .ok (h', []) ∧
      Freed h h' a a' s.group b i [] := by
  have hc := fits_sizeClass s.group
  have hplaced := hr.inv.placed b s hs
  have hold := AbsHeap.group_eq hs
  obtain ⟨m', hmid⟩ := hr.giveBack hs hi hnot
  have hrun := hmid.run
  rw [if_neg (by omega)] at hrun
  let t : ChunkState :=
    { group := s.group, frees := i :: s.frees, nodup := hmid.rep.nodup,
      lt_count := hmid.rep.bound, some_used := hlen }
  have hgive : ∀ j, j < (sizeClass s.group).objectCount →
      (j ∉ t.frees ↔ a.Used s.group b j ∧ j ≠ i) := by
    intro j hj
    rw [AbsHeap.used_iff hs]
    show j ∉ i :: s.frees ↔ _
    simp only [List.mem_cons, not_or, hj, true_and]
    exact and_comm
  have hmore : ∃ j, j ≠ i ∧ a.Used s.group b j := by
    obtain ⟨j, hj, hjt⟩ := List.exists_notMem_of_length_lt t.some_used
    obtain ⟨hused, hji⟩ := (hgive j hj).mp hjt
    exact ⟨j, hji, hused⟩
  have hheld : ∀ l g' b', (a.set b (some t) s.group l).Held g' b' ↔ a.Held g' b' := by
    intro l g' b'
    rw [AbsHeap.held_set (t := t) rfl hold]
    constructor
    · rintro (hx | ⟨rfl, rfl⟩)
      · exact hx
      · exact ⟨s, hs, rfl⟩
    · intro hx
      exact Or.inl hx
  have hset : ∀ l, (∀ b', b' ∈ l ↔ (b' ≠ b ∧ b' ∈ a.avail s.group) ∨ b' = b) →
      RepresentsBut s.group { h with mem := m' } (a.set b (some t) s.group l) := by
    intro l hl
    apply hr.setSome (t := t) hplaced hold _ hmid.agree hmid.rep
    intro b'
    rw [hl b']
    simp only [ne_eq, t, reduceCtorEq, not_false_eq_true, and_true]
  by_cases hfull : s.frees = []
  · -- the chunk was full and enters the list again, in front
    have hb_avail : b ∉ a.avail s.group := by
      intro hb
      exact (hr.inv.mem_avail_iff hs).mp hb hfull
    have hbut := (hset (b :: a.avail s.group) (by
      intro b'
      by_cases hb : b' = b
      · simp [hb]
      · simp [hb])).chain AbsHeap.set_chunk_same rfl (h.firstChunk s.group)
    have hagree := hmid.agree.trans
      (agreeOffHeader_chain hc hplaced.bound m' (h.firstChunk s.group))
    rw [if_pos hfull] at hrun
    refine ⟨_, _, hrun, hbut.represents ?_, AbsHeap.used_set_give rfl hold hgive,
      Or.inl ⟨rfl, hmore, hheld _⟩, ?_⟩
    · rw [AbsHeap.set_avail_same]
      apply Linked.push _ (Nat.ne_of_gt hplaced.pos) (next_chain m' b (hr.firstChunk_lt s.group))
      apply hr.linkedOther hplaced hagree (hr.lists s.group)
      intro b' hb'
      refine ⟨?_, s.group, hb'⟩
      intro heq
      exact hb_avail (heq ▸ hb')
    · intro x hx
      exact hagree x (hx s.group b ⟨s, hs, rfl⟩)
  · have hb_avail : b ∈ a.avail s.group := (hr.inv.mem_avail_iff hs).mpr hfull
    have hbut := hset (a.avail s.group) (by
      intro b'
      by_cases hb : b' = b
      · simp [hb, hb_avail]
      · simp [hb])
    have hrep : Represents (HeapChunkGroup.setFirstChunk { h with mem := m' } s.group
        (h.firstChunk s.group)) (a.set b (some t) s.group (a.avail s.group)) := by
      apply hbut.represents
      rw [AbsHeap.set_avail_same]
      exact hmid.list
    rw [setFirstChunk_self h s.group m'] at hrep
    rw [if_neg hfull] at hrun
    refine ⟨_, _, hrun, hrep, AbsHeap.used_set_give rfl hold hgive,
      Or.inl ⟨rfl, hmore, hheld _⟩, ?_⟩
    intro x hx
    exact hmid.agree x (hx s.group b ⟨s, hs, rfl⟩)

/-- The links of two held chunks are apart. -/
theorem Represents.next_chain_ne (hr : Represents h a) {y z : Nat} {t r : ChunkState}
    (ht : a.chunk y = some t) (hr' : a.chunk z = some r) (hzy : z ≠ y) (m : Mem) (next : Nat) :
    HeapChunk.next (HeapChunk.chain m y next) z = HeapChunk.next m z := by
  have hy := hr.inv.placed y t ht
  have hz := hr.inv.placed z r hr'
  have hdis := hy.disjoint z r hr' hzy
  have hroom := (fits_sizeClass t.group).room
  have hroom' := (fits_sizeClass r.group).room
  have hbound := hy.bound
  have hbound' := hz.bound
  simp only [BlocksDisjoint] at hdis
  exact Mem.load32_store32_sep _ _ (by omega)

/-- Taking the first chunk out of a list. -/
theorem unlink_first {l : List Nat}
    (hl : Linked (HeapChunk.next h.mem) 0 (h.firstChunk g) (b :: l)) :
    HeapChunkGroup.unlink h g b =
      .ok (HeapChunkGroup.setFirstChunk h g (HeapChunk.next h.mem b)) := by
  have hfirst : b = h.firstChunk g := hl.1.symm
  unfold HeapChunkGroup.unlink
  rw [if_pos hfirst]

/-- Taking the chunk behind `y` out of a list. -/
theorem unlink_next {y : Nat} {l₁ l₂ : List Nat}
    (hl : Linked (HeapChunk.next h.mem) 0 (h.firstChunk g) (l₁ ++ y :: b :: l₂))
    (hlen : l₁.length < 2 ^ 32) :
    HeapChunkGroup.unlink h g b =
      .ok { h with mem := HeapChunk.chain h.mem y (HeapChunk.next h.mem b) } := by
  have hy : y ≠ 0 := hl.ne_null_of_mem (by simp)
  have hnodup := hl.nodup
  have hfirst : b ≠ h.firstChunk g := by
    intro heq
    cases l₁ with
    | nil =>
      have hyb : h.firstChunk g = y := hl.1
      simp [← hyb, ← heq] at hnodup
    | cons z l₁ =>
      have hzb : h.firstChunk g = z := hl.1
      simp [← hzb, ← heq] at hnodup
  unfold HeapChunkGroup.unlink
  rw [if_neg hfirst, findPrev_eq hl hlen]
  show (if y ≠ 0 then _ else _) = _
  rw [if_pos hy]

/-- A chunk in the list of its group is taken out, wherever it stands. -/
theorem Represents.unlink {m' : Mem} (hr : Represents h a) (hs : a.chunk b = some s)
    (hmem : b ∈ a.avail s.group) (hmid : GivenBack h a s b i m')
    (hset : ∀ l, (∀ b', b' ∈ l ↔ b' ≠ b ∧ b' ∈ a.avail s.group) →
      RepresentsBut s.group { h with mem := m' } (a.set b none s.group l)) :
    ∃ h' l, HeapChunkGroup.unlink { h with mem := m' } s.group b = .ok h' ∧
      Represents h' (a.set b none s.group l) ∧
      (∀ x, (∀ g b, a.Held g b → ¬ IsHeader (sizeClass g) b x) → h'.mem x = h.mem x) ∧
      ∀ x, InBlock (sizeClass s.group) b x → h'.mem x = m' x := by
  have hagree : ∀ x, (∀ g b, a.Held g b → ¬ IsHeader (sizeClass g) b x) → m' x = h.mem x := by
    intro x hx
    exact hmid.agree x (hx s.group b ⟨s, hs, rfl⟩)
  have hlist := hmid.list
  have hlen := hr.length_avail_le s.group
  have havail := hr.inv.mem_avail s.group
  obtain ⟨l₁, l₂, hsplit⟩ := List.append_of_mem hmem
  rw [hsplit] at hlist hlen
  have hnot : b ∉ l₁ ++ l₂ := by
    have hperm := (List.perm_middle.nodup_iff).mp hlist.nodup
    exact (List.nodup_cons.mp hperm).1
  have hbut := hset (l₁ ++ l₂) (by
    intro b'
    rw [hsplit]
    by_cases hb' : b' = b
    · rw [hb']
      simp only [hnot, ne_eq, not_true_eq_false, false_and]
    · simp [hb'])
  rcases List.eq_nil_or_concat l₁ with hnil | ⟨l₀, y, hcons⟩
  · -- the chunk is the first one
    subst hnil
    refine ⟨_, l₂, unlink_first hlist, ?_, hagree, fun _ _ => rfl⟩
    apply hbut.represents
    rw [AbsHeap.set_avail_same]
    exact hlist.2.2
  · -- the walk finds the chunk in front of it
    subst hcons
    simp only [List.concat_eq_append, List.append_assoc, List.singleton_append] at *
    have hy : y ∈ a.avail s.group := by
      rw [hsplit]
      simp
    obtain ⟨t, ht, hgroup, _⟩ := (havail y).mp hy
    have hyb : y ≠ b := by
      intro heq
      simp [heq] at hnot
    simp only [List.length_append] at hlen
    have hbound := (hr.inv.placed y t ht).bound
    have hkeep := agreeOffHeader_chain (fits_sizeClass t.group) hbound m' (HeapChunk.next m' b)
    refine ⟨_, l₀ ++ y :: l₂, unlink_next hlist (by simp at hlen; omega), ?_, ?_, ?_⟩
    · have hchain := hbut.chain (AbsHeap.set_chunk_ne hyb ▸ ht) hgroup (HeapChunk.next m' b)
      have hrep : Represents (HeapChunkGroup.setFirstChunk
          { h with mem := HeapChunk.chain m' y (HeapChunk.next m' b) } s.group
          (h.firstChunk s.group)) (a.set b none s.group (l₀ ++ y :: l₂)) := by
        apply hchain.represents
        rw [AbsHeap.set_avail_same]
        apply hlist.unlink
        · exact next_chain m' y (Mem.load32_lt m' b)
        · intro z hz hzy
          rw [← hsplit] at hz
          obtain ⟨r, hr', _, _⟩ := (havail z).mp hz
          exact hr.next_chain_ne ht hr' hzy m' _
      rwa [setFirstChunk_self] at hrep
    · intro x hx
      have hyx := hx t.group y ⟨t, ht, rfl⟩
      show HeapChunk.chain m' y (HeapChunk.next m' b) x = h.mem x
      rw [hkeep x hyx, hagree x hx]
    · intro x hx
      apply hkeep x
      intro hhead
      have hdis := (hr.inv.placed b s hs).disjoint y t ht hyb
      exact hdis.not_inBlock hx (hhead.inBlock (fits_sizeClass t.group))

/-- When the last used object is given back, all objects are on the free list. -/
theorem GivenBack.mem_frees {m' : Mem} (hmid : GivenBack h a s b i m')
    (hlen : s.frees.length + 1 = (sizeClass s.group).objectCount) {j : Nat}
    (hj : j < (sizeClass s.group).objectCount) : j ∈ i :: s.frees :=
  List.mem_of_nodup_of_length_eq hmid.rep.nodup hmid.rep.bound hlen hj

/-- Then they are marked as free, in every memory with the same block. -/
theorem GivenBack.status_free {m' m'' : Mem} (hmid : GivenBack h a s b i m')
    (hbound : b + (sizeClass s.group).totalSize ≤ 2 ^ 32)
    (hlen : s.frees.length + 1 = (sizeClass s.group).objectCount)
    (hblock : ∀ x, InBlock (sizeClass s.group) b x → m'' x = m' x) {j : Nat}
    (hj : j < (sizeClass s.group).objectCount) :
    m''.load32 (HeapChunk.objAddr (sizeClass s.group) b j) = HeapObjectStatus.free.value := by
  have hge := objAddr_ge (sizeClass s.group) b j
  have hend := objAddr_end (b := b) (fits_sizeClass s.group) hj
  simp only [sizeofHeapObject] at hend
  rw [← hmid.rep.status_free j (hmid.mem_frees hlen hj)]
  apply Mem.load32_congr (by omega)
  intro x hlo hhi
  exact hblock x ⟨by omega, by omega⟩

/-- Freeing the last used object of a chunk. All its objects stay marked as free. -/
theorem Represents.freeLast (hr : Represents h a) (hs : a.chunk b = some s)
    (hi : i < (sizeClass s.group).objectCount) (hnot : i ∉ s.frees)
    (hlen : s.frees.length + 1 = (sizeClass s.group).objectCount) :
    ∃ h' a', HeapChunkGroup.free h s.group (HeapChunk.dataAddr (sizeClass s.group) b i) =
        .ok (h', [.freePages b (sizeClass s.group).pageCount]) ∧
      Freed h h' a a' s.group b i [.freePages b (sizeClass s.group).pageCount] ∧
      ∀ j, j < (sizeClass s.group).objectCount →
        h'.mem.load32 (HeapChunk.objAddr (sizeClass s.group) b j) =
          HeapObjectStatus.free.value := by
  have hplaced := hr.inv.placed b s hs
  have hold := AbsHeap.group_eq hs
  obtain ⟨m', hmid⟩ := hr.giveBack hs hi hnot
  have hrun := hmid.run
  rw [if_pos hlen] at hrun
  -- every other object is free
  have honly : ∀ j, a.Used s.group b j → j = i := by
    intro j hj
    obtain ⟨_, hj', hjnot⟩ := (AbsHeap.used_iff hs).mp hj
    exact (List.mem_cons.mp (hmid.mem_frees hlen hj')).resolve_right hjnot
  have hset : ∀ l, (∀ b', b' ∈ l ↔ b' ≠ b ∧ b' ∈ a.avail s.group) →
      RepresentsBut s.group { h with mem := m' } (a.set b none s.group l) := by
    intro l hl
    have hnone : ∀ (P : ChunkState → Prop) (t : ChunkState), none = some t → P t := by
      intro P t ht
      cases ht
    apply hr.set hplaced hold (hnone _) _ hmid.agree (hnone _)
    intro b'
    rw [hl b']
    simp
  by_cases hfull : s.frees = []
  · -- the chunk was full, so it is in no list
    have hb_avail : b ∉ a.avail s.group := by
      intro hb
      exact (hr.inv.mem_avail_iff hs).mp hb hfull
    have hbut := hset (a.avail s.group) (by
      intro b'
      by_cases hb : b' = b
      · simp [hb, hb_avail]
      · simp [hb])
    have hrep : Represents (HeapChunkGroup.setFirstChunk { h with mem := m' } s.group
        (h.firstChunk s.group)) (a.set b none s.group (a.avail s.group)) := by
      apply hbut.represents
      rw [AbsHeap.set_avail_same]
      exact hmid.list
    rw [setFirstChunk_self h s.group m'] at hrep
    rw [if_pos hfull] at hrun
    refine ⟨_, _, hrun, ⟨hrep, fun _ _ _ => AbsHeap.used_set_none_iff hs honly,
      Or.inr ⟨rfl, honly, fun _ _ => AbsHeap.held_set_none⟩, ?_⟩,
      fun j hj => hmid.status_free hplaced.bound hlen (fun _ _ => rfl) hj⟩
    intro x hx
    exact hmid.agree x (hx s.group b ⟨s, hs, rfl⟩)
  · have hb_avail : b ∈ a.avail s.group := (hr.inv.mem_avail_iff hs).mpr hfull
    obtain ⟨h', l, hunlink, hrep, hagree, hblock⟩ := hr.unlink hs hb_avail hmid hset
    rw [if_neg hfull, hunlink] at hrun
    exact ⟨_, _, hrun,
      ⟨hrep, fun _ _ _ => AbsHeap.used_set_none_iff hs honly,
        Or.inr ⟨rfl, honly, fun _ _ => AbsHeap.held_set_none⟩, hagree⟩,
      fun j hj => hmid.status_free hplaced.bound hlen hblock hj⟩

/-- The header of a used object says "used" and leads back to its group. -/
theorem Represents.free_eq (hr : Represents h a) (hused : a.Used g b i) :
    h.free (HeapChunk.dataAddr (sizeClass g) b i) =
      HeapChunkGroup.free h g (HeapChunk.dataAddr (sizeClass g) b i) := by
  obtain ⟨s, hs, rfl, hi, hnot⟩ := hused
  have hrep := hr.chunks b s hs
  have hobj := sub32_dataAddr (fits_sizeClass s.group) (hr.inv.placed b s hs).bound hi
  have hstatus := hrep.status_used i hi hnot
  have hsize := hrep.size_used i hi hnot
  unfold Heap.free
  simp only [hobj, HeapObject.isUsed, hstatus, beq_self_eq_true, if_true, HeapObject.size, hsize,
    findChunkGroup_objSize]

/-- `mm::heap::free` of a used object takes exactly that object out of use. In its chunk all
    objects that are not used are marked as free then. -/
theorem Represents.free (hr : Represents h a) (hused : a.Used g b i) :
    ∃ h' a' calls, h.free (HeapChunk.dataAddr (sizeClass g) b i) = .ok (h', calls) ∧
      Freed h h' a a' g b i calls ∧
      ∀ j, j < (sizeClass g).objectCount → ¬ a'.Used g b j →
        h'.mem.load32 (HeapChunk.objAddr (sizeClass g) b j) = HeapObjectStatus.free.value := by
  rw [hr.free_eq hused]
  obtain ⟨s, hs, rfl, hi, hnot⟩ := hused
  have hlt := s.some_used
  by_cases hlen : s.frees.length + 1 = (sizeClass s.group).objectCount
  · obtain ⟨h', a', hfree, hfreed, hmarked⟩ := hr.freeLast hs hi hnot hlen
    exact ⟨h', a', _, hfree, hfreed, fun j hj _ => hmarked j hj⟩
  · obtain ⟨h', a', hfree, hfreed⟩ := hr.freeKept hs hi hnot (by omega)
    refine ⟨h', a', _, hfree, hfreed, ?_⟩
    intro j hj hnused
    rcases hfreed.pages with ⟨_, _, hheld⟩ | ⟨hcalls, _⟩
    · exact hfreed.rep.status_free ((hheld s.group b).mpr ⟨s, hs, rfl⟩) hj hnused
    · cases hcalls

end Free

end TimbOS.Native.KHeap
