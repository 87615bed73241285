import TimbOS.Spec.KHeapAbstract
import TimbOS.Spec.KHeapChunk

/-!
# How memory represents the abstract heap

`Represents h a` connects an abstract heap `a` with the heap `h` in memory. An
operation changes the headers of one chunk, perhaps a link of another one, and the
list of one group; there is one lemma for each of the three.

## Key results

- `Represents.other`: a chunk is kept while the headers of another chunk change
- `Represents.set`, `Represents.setSome`, `RepresentsBut.chain`, `RepresentsBut.represents`: the
  three parts of an operation
- `Represents.client`: writes outside the headers keep the representation
-/

namespace TimbOS.Native.KHeap

open ForStd

/-! ## Representation -/

/-- Memory holds the abstract heap. -/
structure Represents (h : Heap) (a : AbsHeap) : Prop where
  inv : a.Inv
  chunks : ∀ b s, a.chunk b = some s → ChunkRep (sizeClass s.group) h.mem b s.frees
  lists : ∀ g, Linked (HeapChunk.next h.mem) 0 (h.firstChunk g) (a.avail g)

/-- Writing back the `_first_chunk` that is there. -/
theorem setFirstChunk_self (h : Heap) (g : Group) (m : Mem) :
    HeapChunkGroup.setFirstChunk { h with mem := m } g (h.firstChunk g) = { h with mem := m } := by
  simp only [HeapChunkGroup.setFirstChunk, Heap.mk.injEq, true_and]
  funext g'
  by_cases hg : g' = g
  · simp [hg]
  · simp [hg]

/-- Empty groups represent the heap without chunks, whatever the memory holds. -/
theorem represents_init (m : Mem) : Represents ⟨m, fun _ => 0⟩ AbsHeap.init := by
  refine ⟨⟨?_, ?_⟩, ?_, ?_⟩
  · intro b s hs
    simp [AbsHeap.init] at hs
  · intro g b
    simp [AbsHeap.init]
  · intro b s hs
    simp [AbsHeap.init] at hs
  · intro g
    exact rfl

section Represents

variable {h : Heap} {a : AbsHeap} {b b' : Nat} {g : Group} {s' : ChunkState} {m' : Mem}

/-- A chunk and its link are kept while only headers of another block change. -/
theorem ChunkRep.other {m : Mem} {g' : Group} {frees : List Nat}
    (h : ChunkRep (sizeClass g') m b' frees) (hb' : b' + (sizeClass g').totalSize ≤ 2 ^ 32)
    (hdis : BlocksDisjoint g b g' b') (hagree : AgreeOffHeader (sizeClass g) b m m') :
    ChunkRep (sizeClass g') m' b' frees ∧ HeapChunk.next m' b' = HeapChunk.next m b' := by
  have hkeep : ∀ x, IsHeader (sizeClass g') b' x → m' x = m x := by
    intro x hx
    apply hagree x
    intro hx'
    exact hdis.not_inBlock (hx'.inBlock (fits_sizeClass g)) (hx.inBlock (fits_sizeClass g'))
  constructor
  · exact h.congr (fits_sizeClass g') hb' fun x _ hx => hkeep x hx
  · have hroom := (fits_sizeClass g').room
    apply Mem.load32_congr (by omega)
    intro x hlo hhi
    exact hkeep x (Or.inl ⟨by omega, by omega⟩)

/-- The chunks other than the one at `b` are kept while its headers change. -/
theorem Represents.other (hr : Represents h a) (hplaced : a.Placed g b)
    (hagree : AgreeOffHeader (sizeClass g) b h.mem m') (hb' : b' ≠ b)
    (hs' : a.chunk b' = some s') :
    ChunkRep (sizeClass s'.group) m' b' s'.frees ∧
      HeapChunk.next m' b' = HeapChunk.next h.mem b' :=
  (hr.chunks b' s' hs').other (hr.inv.placed b' s' hs').bound (hplaced.disjoint b' s' hs' hb')
    hagree

/-- A list of other chunks is kept while the headers of the chunk at `b` change. -/
theorem Represents.linkedOther (hr : Represents h a) (hplaced : a.Placed g b)
    (hagree : AgreeOffHeader (sizeClass g) b h.mem m') {first : Nat} {l : List Nat}
    (hl : Linked (HeapChunk.next h.mem) 0 first l)
    (hmem : ∀ b' ∈ l, b' ≠ b ∧ ∃ g', b' ∈ a.avail g') : Linked (HeapChunk.next m') 0 first l := by
  apply hl.congr
  intro b' hb'
  obtain ⟨hne, g', havail⟩ := hmem b' hb'
  obtain ⟨t, ht, _, _⟩ := (hr.inv.mem_avail g' b').mp havail
  exact (hr.other hplaced hagree hne ht).2

/-- The list of another group is kept while the headers of the chunk at `b` change. -/
theorem Represents.otherList (hr : Represents h a) (hplaced : a.Placed g b)
    (hold : ∀ t, a.chunk b = some t → t.group = g)
    (hagree : AgreeOffHeader (sizeClass g) b h.mem m') {g' : Group} (hg' : g' ≠ g) :
    Linked (HeapChunk.next m') 0 (h.firstChunk g') (a.avail g') := by
  apply hr.linkedOther hplaced hagree (hr.lists g')
  intro b' hb'
  refine ⟨?_, g', hb'⟩
  intro heq
  subst heq
  obtain ⟨t, ht, hgroup, _⟩ := (hr.inv.mem_avail g' b').mp hb'
  exact hg' (hgroup.symm.trans (hold t ht))

/-- Memory holds the abstract heap, except perhaps for the list of group `g`. -/
structure RepresentsBut (g : Group) (h : Heap) (a : AbsHeap) : Prop where
  inv : a.Inv
  chunks : ∀ b s, a.chunk b = some s → ChunkRep (sizeClass s.group) h.mem b s.frees
  lists : ∀ g', g' ≠ g → Linked (HeapChunk.next h.mem) 0 (h.firstChunk g') (a.avail g')

/-- Change the headers of one chunk, its state and its group's list together. -/
theorem Represents.set {s : Option ChunkState} {l : List Nat} (hr : Represents h a)
    (hplaced : a.Placed g b) (hold : ∀ t, a.chunk b = some t → t.group = g)
    (hnew : ∀ t, s = some t → t.group = g)
    (hl : ∀ b', b' ∈ l ↔ (b' ≠ b ∧ b' ∈ a.avail g) ∨ (b' = b ∧ ∃ t, s = some t ∧ t.frees ≠ []))
    (hagree : AgreeOffHeader (sizeClass g) b h.mem m')
    (hrep : ∀ t, s = some t → ChunkRep (sizeClass g) m' b t.frees) :
    RepresentsBut g { h with mem := m' } (a.set b s g l) := by
  refine ⟨hr.inv.set hplaced hold hnew hl, ?_, ?_⟩
  · intro b' t ht
    by_cases hb' : b' = b
    · subst hb'
      rw [AbsHeap.set_chunk_same] at ht
      rw [hnew t ht]
      exact hrep t ht
    · rw [AbsHeap.set_chunk_ne hb'] at ht
      exact (hr.other hplaced hagree hb' ht).1
  · intro g' hg'
    rw [AbsHeap.set_avail_ne hg']
    exact hr.otherList hplaced hold hagree hg'

/-- The same with a chunk that stays or becomes held. It is in the list unless it is full. -/
theorem Represents.setSome {t : ChunkState} {l : List Nat} (hr : Represents h a)
    (hplaced : a.Placed t.group b) (hold : ∀ r, a.chunk b = some r → r.group = t.group)
    (hl : ∀ b', b' ∈ l ↔ (b' ≠ b ∧ b' ∈ a.avail t.group) ∨ (b' = b ∧ t.frees ≠ []))
    (hagree : AgreeOffHeader (sizeClass t.group) b h.mem m')
    (hrep : ChunkRep (sizeClass t.group) m' b t.frees) :
    RepresentsBut t.group { h with mem := m' } (a.set b (some t) t.group l) := by
  have hsome : ∀ (P : ChunkState → Prop), P t → ∀ r, some t = some r → P r := by
    intro P ht r hr'
    cases hr'
    exact ht
  apply hr.set hplaced hold (hsome _ rfl) _ hagree (hsome _ hrep)
  intro b'
  rw [hl b']
  constructor
  · rintro (hother | ⟨heq, hfree⟩)
    · exact Or.inl hother
    · exact Or.inr ⟨heq, t, rfl, hfree⟩
  · rintro (hother | ⟨heq, r, hr', hfree⟩)
    · exact Or.inl hother
    · cases hr'
      exact Or.inr ⟨heq, hfree⟩

/-- Changing the link of a chunk of group `g` keeps everything but that group's list. -/
theorem RepresentsBut.chain (hr : RepresentsBut g h a) (hs' : a.chunk b = some s')
    (hg : s'.group = g) (next : Nat) :
    RepresentsBut g { h with mem := HeapChunk.chain h.mem b next } a := by
  subst hg
  have hplaced := hr.inv.placed b s' hs'
  have hagree := agreeOffHeader_chain (fits_sizeClass s'.group) hplaced.bound h.mem next
  refine ⟨hr.inv, ?_, ?_⟩
  · intro b' t ht
    by_cases hb' : b' = b
    · subst hb'
      exact (hr.chunks b' t ht).chain_next (fits_sizeClass _) (hr.inv.placed b' t ht).bound next
    · exact ((hr.chunks b' t ht).other (hr.inv.placed b' t ht).bound
        (hplaced.disjoint b' t ht hb') hagree).1
  · intro g' hg'
    apply (hr.lists g' hg').congr
    intro b' hb'
    obtain ⟨t, ht, hgroup, _⟩ := (hr.inv.mem_avail g' b').mp hb'
    have hne : b' ≠ b := by
      intro heq
      subst heq
      rw [hs'] at ht
      cases ht
      exact hg' hgroup.symm
    exact ((hr.chunks b' t ht).other (hr.inv.placed b' t ht).bound
      (hplaced.disjoint b' t ht hne) hagree).2

/-- Put the missing list in place. -/
theorem RepresentsBut.represents (hr : RepresentsBut g h a) {first : Nat}
    (hl : Linked (HeapChunk.next h.mem) 0 first (a.avail g)) :
    Represents (HeapChunkGroup.setFirstChunk h g first) a := by
  refine ⟨hr.inv, hr.chunks, ?_⟩
  intro g'
  by_cases hg' : g' = g
  · subst hg'
    simpa [HeapChunkGroup.setFirstChunk] using hl
  · simpa [HeapChunkGroup.setFirstChunk, hg'] using hr.lists g' hg'

/-- The objects of a held chunk that are not used are marked as free. -/
theorem Represents.status_free (hr : Represents h a) (hb : a.Held g b) {i : Nat}
    (hi : i < (sizeClass g).objectCount) (hnot : ¬ a.Used g b i) :
    h.mem.load32 (HeapChunk.objAddr (sizeClass g) b i) = HeapObjectStatus.free.value := by
  obtain ⟨s, hs, rfl⟩ := hb
  apply (hr.chunks b s hs).status_free
  by_contra hfree
  exact hnot ⟨s, hs, rfl, hi, hfree⟩

/-- Writes outside the headers of the held chunks keep the representation. -/
theorem Represents.client (hr : Represents h a)
    (hm : ∀ x, (∃ g b, a.Held g b ∧ IsHeader (sizeClass g) b x) → m' x = h.mem x) :
    Represents { h with mem := m' } a := by
  have hkeep : ∀ b s, a.chunk b = some s → ∀ x, IsHeader (sizeClass s.group) b x →
      m' x = h.mem x := fun b s hs x hx => hm x ⟨s.group, b, ⟨s, hs, rfl⟩, hx⟩
  refine ⟨hr.inv, ?_, ?_⟩
  · intro b s hs
    exact (hr.chunks b s hs).congr (fits_sizeClass _) (hr.inv.placed b s hs).bound
      fun x _ hx => hkeep b s hs x hx
  · intro g
    apply (hr.lists g).congr
    intro b hb
    obtain ⟨s, hs, _, _⟩ := (hr.inv.mem_avail g b).mp hb
    have hroom := (fits_sizeClass s.group).room
    have hbound := (hr.inv.placed b s hs).bound
    apply Mem.load32_congr (by omega)
    intro x hlo hhi
    exact hkeep b s hs x (Or.inl ⟨by omega, by omega⟩)

end Represents

end TimbOS.Native.KHeap
