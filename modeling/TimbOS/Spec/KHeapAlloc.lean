import TimbOS.Spec.KHeapRepresents

/-!
# Allocation refines the abstract heap

`mm::heap::alloc` never faults on a heap that represents an abstract heap. Either it
changes nothing and returns null, or it is the abstract step `Allocated`, which makes
a free object used.

## Key results

- `Represents.allocFirst`: the first chunk of the list hands out an object
- `Represents.allocFromNew`: a new chunk is built and hands out its first object
- `Represents.alloc`: the two together, behind `mm::heap::alloc`
-/

namespace TimbOS.Native.KHeap

open ForStd

/-- Group `g` hands out object `i` of its chunk at `b`. -/
structure Allocated (h h' : Heap) (a a' : AbsHeap) (g : Group) (b i : Nat)
    (calls : List PageCall) : Prop where
  rep : Represents h' a'
  lt_count : i < (sizeClass g).objectCount
  fresh : ¬ a.Used g b i
  used : ∀ g' b' i', a'.Used g' b' i' ↔ a.Used g' b' i' ∨ (g' = g ∧ b' = b ∧ i' = i)
  held : ∀ g' b', a'.Held g' b' ↔ a.Held g' b' ∨ (g' = g ∧ b' = b)
  /-- The chunk was held before, or its pages are new. -/
  pages : (calls = [] ∧ a.Held g b) ∨
    (calls = [.allocPages g (sizeClass g).pageCount b] ∧ ∀ g', ¬ a.Held g' b)
  agree : AgreeOffHeader (sizeClass g) b h.mem h'.mem

section Alloc

variable {h : Heap} {a : AbsHeap} {g : Group} {p : Nat}

/-- The first chunk of a group's list hands out the head of its free list. -/
theorem Represents.allocFirst (hr : Represents h a) (hfirst : h.firstChunk g ≠ 0) :
    ∃ h' a' b i, HeapChunkGroup.alloc h g p =
        .ok (HeapChunk.dataAddr (sizeClass g) b i, h', []) ∧
      Allocated h h' a a' g b i [] := by
  generalize hb : h.firstChunk g = b at hfirst
  have hlist := hr.lists g
  rw [hb] at hlist
  obtain ⟨bs, hbs⟩ := hlist.exists_cons hfirst
  rw [hbs] at hlist
  obtain ⟨hb_bs, _⟩ := List.nodup_cons.mp hlist.nodup
  have hmem : b ∈ a.avail g := by
    rw [hbs]
    exact List.mem_cons_self
  obtain ⟨s, hs, hgroup, hfree⟩ := (hr.inv.mem_avail g b).mp hmem
  subst hgroup
  have hplaced := hr.inv.placed b s hs
  have hrep := hr.chunks b s hs
  obtain ⟨i, frees, hfrees⟩ := List.exists_cons_of_ne_nil hfree
  rw [hfrees] at hrep
  obtain ⟨m', halloc, hrep', hnext, hagree⟩ := hrep.alloc (fits_sizeClass _) hplaced.bound
  have hi := hrep.bound i List.mem_cons_self
  obtain ⟨hnot, _⟩ := List.nodup_cons.mp hrep.nodup
  have hlen : frees.length + 1 < (sizeClass s.group).objectCount := by
    have hused := s.some_used
    rwa [hfrees] at hused
  -- the chunk without the head of its free list
  let t : ChunkState :=
    { group := s.group, frees := frees, nodup := hrep'.nodup, lt_count := hrep'.bound,
      some_used := by omega }
  have hold := AbsHeap.group_eq hs
  have htake : ∀ j, j < (sizeClass s.group).objectCount →
      (j ∉ t.frees ↔ a.Used s.group b j ∨ j = i) := by
    intro j hj
    rw [AbsHeap.used_iff hs, hfrees]
    show j ∉ frees ↔ _
    by_cases hji : j = i
    · simp [hji, hnot]
    · simp [hji, hj]
  have htail : Linked (HeapChunk.next m') 0 (HeapChunk.next m' b) bs := by
    rw [hnext]
    apply hr.linkedOther hplaced hagree hlist.2.2
    intro b' hb'
    refine ⟨?_, s.group, by rw [hbs]; exact List.mem_cons_of_mem b hb'⟩
    intro heq
    exact hb_bs (heq ▸ hb')
  -- what is left to show about the group's new list
  have hstep : ∀ first l, Linked (HeapChunk.next m') 0 first l →
      (∀ b', b' ∈ l ↔ b' ∈ bs ∨ b' = b ∧ frees ≠ []) →
      Allocated h (HeapChunkGroup.setFirstChunk { h with mem := m' } s.group first) a
        (a.set b (some t) s.group l) s.group b i [] := by
    intro first l hl hmem_l
    refine ⟨?_, hi, ?_, AbsHeap.used_set_take rfl hi hold htake,
      fun _ _ => AbsHeap.held_set rfl hold, Or.inl ⟨rfl, s, hs, rfl⟩, hagree⟩
    · apply RepresentsBut.represents _ (by rwa [AbsHeap.set_avail_same])
      apply hr.setSome (t := t) hplaced hold _ hagree hrep'
      intro b'
      rw [hmem_l b', hbs]
      apply or_congr_left
      constructor
      · intro hb'
        refine ⟨?_, List.mem_cons_of_mem b hb'⟩
        intro heq
        exact hb_bs (heq ▸ hb')
      · rintro ⟨hne, hb'⟩
        exact (List.mem_cons.mp hb').resolve_left hne
    · rw [AbsHeap.used_iff hs, hfrees]
      simp
  by_cases hempty : frees = []
  · -- the chunk is full now and leaves the list
    refine ⟨_, _, b, i, ?_, hstep (HeapChunk.next m' b) bs htail (by simp [hempty])⟩
    have hfull : HeapChunk.full m' b = true := hrep'.full_iff.mpr hempty
    simp only [HeapChunkGroup.alloc, hb, if_pos hfirst, halloc, bind, Except.bind, hfull, if_true]
  · refine ⟨_, _, b, i, ?_, hstep b (b :: bs) ?_ ?_⟩
    · have hfull : HeapChunk.full m' b = false := by
        rw [Bool.eq_false_iff, Ne, hrep'.full_iff]
        exact hempty
      have hself := setFirstChunk_self h s.group m'
      rw [hb] at hself
      rw [hself]
      simp only [HeapChunkGroup.alloc, hb, if_pos hfirst, halloc, bind, Except.bind, hfull,
        Bool.false_eq_true, if_false]
    · exact htail.push hfirst rfl
    · intro b'
      simp [hempty, or_comm]

/-- A group without a chunk in its list builds one in new pages and hands out its first
    object. -/
theorem Represents.allocFromNew (hr : Represents h a) (hfirst : h.firstChunk g = 0) (hp : p ≠ 0)
    (hplaced : a.Placed g p) (hfresh : a.chunk p = none) :
    ∃ h' a', HeapChunkGroup.allocFromNew h g p =
        .ok (HeapChunk.dataAddr (sizeClass g) p 0, h',
          [.allocPages g (sizeClass g).pageCount p]) ∧
      Allocated h h' a a' g p 0 [.allocPages g (sizeClass g).pageCount p] := by
  have hc := fits_sizeClass g
  have hcount := hc.count_pos
  have havail : a.avail g = [] := (hr.lists g).eq_null_iff.mp hfirst
  obtain ⟨hrep₀, hagree₀⟩ := chunkRep_construct hc hplaced.pos hplaced.bound h.mem
  -- the free list of the new chunk without its head
  obtain ⟨n, hn⟩ : ∃ n, (sizeClass g).objectCount = n + 1 := ⟨_, (Nat.sub_add_cancel hcount).symm⟩
  have hrange : List.range (sizeClass g).objectCount = 0 :: List.range' 1 n := by
    rw [hn, List.range_eq_range', List.range'_succ]
  rw [hrange] at hrep₀
  obtain ⟨m', halloc, hrep', _, hagree'⟩ := hrep₀.alloc hc hplaced.bound
  have hagree := hagree₀.trans hagree'
  let t : ChunkState :=
    { group := g, frees := List.range' 1 n, nodup := hrep'.nodup, lt_count := hrep'.bound,
      some_used := by
        rw [List.length_range']
        omega }
  have hold : ∀ r, a.chunk p = some r → r.group = g := by
    intro r hr'
    rw [hfresh] at hr'
    cases hr'
  have hnone : ∀ g', ¬ a.Held g' p := by
    rintro g' ⟨r, hr', _⟩
    rw [hfresh] at hr'
    cases hr'
  have hunused : ∀ j, ¬ a.Used g p j := by
    rintro j ⟨r, hr', _⟩
    rw [hfresh] at hr'
    cases hr'
  have htake : ∀ j, j < (sizeClass g).objectCount → (j ∉ t.frees ↔ a.Used g p j ∨ j = 0) := by
    intro j hj
    show j ∉ List.range' 1 n ↔ _
    rw [List.mem_range'_1]
    have hj' := hunused j
    constructor
    · intro hx
      exact Or.inr (by omega)
    · rintro (hx | hx)
      · exact absurd hx hj'
      · omega
  have hstep : ∀ m'' first l, AgreeOffHeader (sizeClass g) p h.mem m'' →
      ChunkRep (sizeClass g) m'' p (List.range' 1 n) → Linked (HeapChunk.next m'') 0 first l →
      (∀ b', b' ∈ l ↔ b' = p ∧ List.range' 1 n ≠ []) →
      Allocated h (HeapChunkGroup.setFirstChunk { h with mem := m'' } g first) a
        (a.set p (some t) g l) g p 0 [.allocPages g (sizeClass g).pageCount p] := by
    intro m'' first l hagree'' hrep'' hl hmem_l
    refine ⟨?_, hcount, hunused 0, AbsHeap.used_set_take rfl hcount hold htake,
      fun _ _ => AbsHeap.held_set rfl hold, Or.inr ⟨rfl, hnone⟩, hagree''⟩
    apply RepresentsBut.represents _ (by rwa [AbsHeap.set_avail_same])
    apply hr.setSome (t := t) hplaced hold _ hagree'' hrep''
    intro b'
    rw [hmem_l b', havail]
    simp only [List.not_mem_nil, and_false, false_or, t]
  by_cases hempty : List.range' 1 n = []
  · -- "Don't have to chain a already-full chunk"
    refine ⟨_, _, ?_, hstep m' (h.firstChunk g) [] hagree hrep' hfirst (by simp [hempty])⟩
    have hfull : HeapChunk.full m' p = true := hrep'.full_iff.mpr hempty
    rw [setFirstChunk_self]
    simp only [HeapChunkGroup.allocFromNew, if_neg hp, halloc, bind, Except.bind, hfull,
      Bool.not_true, Bool.false_eq_true, if_false]
  · refine ⟨_, _, ?_, hstep (HeapChunk.chain m' p (h.firstChunk g)) p [p] ?_ ?_ ?_ ?_⟩
    · have hfull : HeapChunk.full m' p = false := by
        rw [Bool.eq_false_iff, Ne, hrep'.full_iff]
        exact hempty
      simp only [HeapChunkGroup.allocFromNew, if_neg hp, halloc, bind, Except.bind, hfull,
        Bool.not_false, if_true]
    · exact hagree.trans (agreeOffHeader_chain hc hplaced.bound m' _)
    · exact hrep'.chain_next hc hplaced.bound _
    · refine ⟨rfl, hp, ?_⟩
      rw [hfirst, next_chain m' p (by omega)]
      exact rfl
    · intro b'
      simp [hempty]

/-- `mm::heap::alloc` hands out an object of the group it finds, or returns null and
    changes nothing. The page allocator's answer `p` only matters when it is asked. -/
theorem Represents.alloc (hr : Represents h a) (size : Nat)
    (hp : ∀ g, findChunkGroup size = some g → h.firstChunk g = 0 → p ≠ 0 →
      a.Placed g p ∧ a.chunk p = none) :
    ∃ ptr h' calls, h.alloc size p = .ok (ptr, h', calls) ∧
      ((ptr = 0 ∧ h' = h ∧
          (calls = [] ∨ ∃ g, calls = [.allocPages g (sizeClass g).pageCount 0])) ∨
        ∃ g a' b i, findChunkGroup size = some g ∧ ptr = HeapChunk.dataAddr (sizeClass g) b i ∧
          Allocated h h' a a' g b i calls) := by
  cases hg : findChunkGroup size with
  | none =>
    refine ⟨0, h, [], ?_, Or.inl ⟨rfl, rfl, Or.inl rfl⟩⟩
    simp only [Heap.alloc, hg]
  | some g =>
    have hrun : h.alloc size p = HeapChunkGroup.alloc h g p := by
      simp only [Heap.alloc, hg]
    rw [hrun]
    by_cases hfirst : h.firstChunk g = 0
    · have hnew : HeapChunkGroup.alloc h g p = HeapChunkGroup.allocFromNew h g p := by
        simp only [HeapChunkGroup.alloc, hfirst, ne_eq, not_true_eq_false, if_false]
      rw [hnew]
      by_cases hp0 : p = 0
      · -- out of pages
        refine ⟨0, h, [.allocPages g (sizeClass g).pageCount 0], ?_,
          Or.inl ⟨rfl, rfl, Or.inr ⟨g, rfl⟩⟩⟩
        simp only [HeapChunkGroup.allocFromNew, hp0, if_true]
      · obtain ⟨hplaced, hfresh⟩ := hp g hg hfirst hp0
        obtain ⟨h', a', halloc, hstep⟩ := hr.allocFromNew hfirst hp0 hplaced hfresh
        exact ⟨_, h', _, halloc, Or.inr ⟨g, a', p, 0, rfl, rfl, hstep⟩⟩
    · obtain ⟨h', a', b, i, halloc, hstep⟩ := hr.allocFirst (p := p) hfirst
      exact ⟨_, h', _, halloc, Or.inr ⟨g, a', b, i, rfl, rfl, hstep⟩⟩

end Alloc

end TimbOS.Native.KHeap
