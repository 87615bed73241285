import TimbOS.ForStd.Linked
import TimbOS.ForStd.List
import TimbOS.Spec.KHeapLayout

/-!
# What the chunk operations do

`ChunkRep c m b frees` says that memory `m` holds, at address `b`, a chunk whose
free objects are `frees`, in the order of its free list. Every other object is
used. Each operation of `heap_chunk` gets one lemma that says how the
representation changes and that no byte outside the headers changes.

## Key results

- `ChunkRep.alloc`: `alloc` takes the head of the free list
- `ChunkRep.free`: `free` puts the object in front of the free list
- `chunkRep_construct`: a new chunk has all its objects free, in order
- `ChunkRep.congr`: the representation reads header bytes only
-/

namespace TimbOS.Native.KHeap

open ForStd

/-- The link word of a free object. -/
def objLink (m : Mem) (o : Nat) : Nat := m.load32 (o + 4)

/-- Memory holds a chunk at `b` whose free list is `frees`. -/
structure ChunkRep (c : SizeClass) (m : Mem) (b : Nat) (frees : List Nat) : Prop where
  /-- The free list is threaded through the free objects' headers. -/
  chain : Linked (objLink m) 0 (HeapChunk.firstFree m b) (frees.map (HeapChunk.objAddr c b))
  count : HeapChunk.freeCount m b = frees.length
  bound : ∀ i ∈ frees, i < c.objectCount
  status_free : ∀ i ∈ frees, m.load32 (HeapChunk.objAddr c b i) = HeapObjectStatus.free.value
  status_used : ∀ i, i < c.objectCount → i ∉ frees →
    m.load32 (HeapChunk.objAddr c b i) = HeapObjectStatus.used.value
  size_used : ∀ i, i < c.objectCount → i ∉ frees →
    m.load32 (HeapChunk.objAddr c b i + 4) = c.objSize

/-- Memories that agree outside the headers of the chunk at `b`. -/
def AgreeOffHeader (c : SizeClass) (b : Nat) (m m' : Mem) : Prop :=
  ∀ x, ¬ IsHeader c b x → m' x = m x

section Chunk

variable {c : SizeClass} {m m' : Mem} {b i : Nat} {frees : List Nat}

theorem AgreeOffHeader.trans {m'' : Mem} (h : AgreeOffHeader c b m m')
    (h' : AgreeOffHeader c b m' m'') : AgreeOffHeader c b m m'' := by
  intro x hx
  rw [h' x hx, h x hx]

theorem ChunkRep.nodup (h : ChunkRep c m b frees) : frees.Nodup :=
  h.chain.nodup.of_map _

theorem ChunkRep.firstFree_eq_zero_iff (h : ChunkRep c m b frees) :
    HeapChunk.firstFree m b = 0 ↔ frees = [] := by
  rw [h.chain.eq_null_iff, List.map_eq_nil_iff]

/-- `full()` tells whether the free list is empty. -/
theorem ChunkRep.full_iff (h : ChunkRep c m b frees) :
    HeapChunk.full m b = true ↔ frees = [] := by
  simp only [HeapChunk.full, beq_iff_eq]
  exact h.firstFree_eq_zero_iff

/-- `empty()` tells whether every object is free. -/
theorem ChunkRep.empty_iff (h : ChunkRep c m b frees) :
    HeapChunk.empty c m b = true ↔ frees.length = c.objectCount := by
  simp only [HeapChunk.empty, beq_iff_eq, h.count]

/-- The representation reads header bytes only, and none of the `_next` word. -/
theorem ChunkRep.congr (hc : c.Fits) (hb : b + c.totalSize ≤ 2 ^ 32)
    (h : ChunkRep c m b frees) (hm : ∀ x, b + 4 ≤ x → IsHeader c b x → m' x = m x) :
    ChunkRep c m' b frees := by
  have hroom := hc.room
  -- the words `_first_free` and `_free_count` of the chunk header
  have hhead : ∀ k, 4 ≤ k → k ≤ 8 → m'.load32 (b + k) = m.load32 (b + k) := by
    intro k hk hk'
    apply Mem.load32_congr (by omega)
    intro x hlo hhi
    exact hm x (by omega) (Or.inl ⟨by omega, by omega⟩)
  -- both words of an object header
  have hobj : ∀ i, i < c.objectCount →
      m'.load32 (HeapChunk.objAddr c b i) = m.load32 (HeapChunk.objAddr c b i) ∧
        objLink m' (HeapChunk.objAddr c b i) = objLink m (HeapChunk.objAddr c b i) := by
    intro i hi
    have hge := objAddr_ge c b i
    have hend := objAddr_end (b := b) hc hi
    simp only [sizeofHeapObject] at hend
    constructor
    · apply Mem.load32_congr (by omega)
      intro x hlo hhi
      exact hm x (by omega) (Or.inr ⟨i, hi, by omega, by omega⟩)
    · apply Mem.load32_congr (by omega)
      intro x hlo hhi
      exact hm x (by omega) (Or.inr ⟨i, hi, by omega, by omega⟩)
  refine ⟨?_, ?_, h.bound, ?_, ?_, ?_⟩
  · have hfirst : HeapChunk.firstFree m' b = HeapChunk.firstFree m b :=
      hhead 4 (by omega) (by omega)
    rw [hfirst]
    apply h.chain.congr
    intro o ho
    obtain ⟨i, hi, rfl⟩ := List.mem_map.mp ho
    exact (hobj i (h.bound i hi)).2
  · rw [← h.count]
    exact hhead 8 (by omega) (by omega)
  · intro i hi
    rw [(hobj i (h.bound i hi)).1]
    exact h.status_free i hi
  · intro i hi hfree
    rw [(hobj i hi).1]
    exact h.status_used i hi hfree
  · intro i hi hfree
    have hlink := (hobj i hi).2
    simp only [objLink] at hlink
    rw [hlink]
    exact h.size_used i hi hfree

/-- `chain` changes the `_next` word and keeps the chunk. -/
theorem ChunkRep.chain_next (hc : c.Fits) (hb : b + c.totalSize ≤ 2 ^ 32)
    (h : ChunkRep c m b frees) (next : Nat) :
    ChunkRep c (HeapChunk.chain m b next) b frees := by
  have hroom := hc.room
  apply h.congr hc hb
  intro x hx _
  exact Mem.store32_apply _ _ (by omega) (by omega)

theorem agreeOffHeader_chain (hc : c.Fits) (hb : b + c.totalSize ≤ 2 ^ 32) (m : Mem)
    (next : Nat) : AgreeOffHeader c b m (HeapChunk.chain m b next) := by
  have hroom := hc.room
  intro x hx
  simp only [IsHeader, not_or] at hx
  exact Mem.store32_apply _ _ (by omega) (by omega)

theorem next_chain (m : Mem) (b : Nat) {next : Nat} (hnext : next < 2 ^ 32) :
    HeapChunk.next (HeapChunk.chain m b next) b = next := by
  show (m.store32 b next).load32 b = next
  rw [Mem.load32_store32_same, Nat.mod_eq_of_lt hnext]

/-! ## `heap_chunk::alloc` and `heap_chunk::free`

Both operations write the two list words of the chunk header and the header of one
object, and nothing else. -/

/-- Only the list words of the chunk header and the header of object `i` may differ. -/
def TouchesOnly (c : SizeClass) (b i : Nat) (m m' : Mem) : Prop :=
  ∀ x, (x < b + 4 ∨ b + 12 ≤ x) →
    (x < HeapChunk.objAddr c b i ∨ HeapChunk.objAddr c b i + 8 ≤ x) → m' x = m x

theorem TouchesOnly.refl (c : SizeClass) (b i : Nat) (m : Mem) : TouchesOnly c b i m m :=
  fun _ _ _ => rfl

/-- Storing a list word or a word of the object's header. -/
theorem TouchesOnly.store32 (h : TouchesOnly c b i m m') {a : Nat} (v : Nat)
    (h32 : a + 4 ≤ 2 ^ 32)
    (ha : b + 4 ≤ a ∧ a ≤ b + 8 ∨ HeapChunk.objAddr c b i ≤ a ∧ a ≤ HeapChunk.objAddr c b i + 4) :
    TouchesOnly c b i m (m'.store32 a v) := by
  intro x hxb hxo
  rw [Mem.store32_apply _ _ h32 (by omega)]
  exact h x hxb hxo

theorem TouchesOnly.agreeOffHeader (hi : i < c.objectCount) (h : TouchesOnly c b i m m') :
    AgreeOffHeader c b m m' := by
  intro x hx
  simp only [IsHeader, not_or, not_exists] at hx
  have hobj := hx.2 i
  apply h x
  · omega
  · omega

/-- The `_next` word of the chunk stays. -/
theorem TouchesOnly.next (hc : c.Fits) (hb : b + c.totalSize ≤ 2 ^ 32)
    (h : TouchesOnly c b i m m') : HeapChunk.next m' b = HeapChunk.next m b := by
  have hroom := hc.room
  have hge := objAddr_ge c b i
  apply Mem.load32_congr (by omega)
  intro x hlo hhi
  exact h x (by omega) (by omega)

/-- The headers of the other objects stay. -/
theorem TouchesOnly.other (hc : c.Fits) (hb : b + c.totalSize ≤ 2 ^ 32)
    (h : TouchesOnly c b i m m') {j : Nat} (hji : j ≠ i) (hj : j < c.objectCount) :
    m'.load32 (HeapChunk.objAddr c b j) = m.load32 (HeapChunk.objAddr c b j) ∧
      objLink m' (HeapChunk.objAddr c b j) = objLink m (HeapChunk.objAddr c b j) := by
  have hdis := objAddr_disjoint (c := c) (b := b) hji
  have hge := objAddr_ge c b j
  have hend := objAddr_end (b := b) hc hj
  simp only [sizeofHeapObject] at hdis hend
  constructor
  · apply Mem.load32_congr (by omega)
    intro x hlo hhi
    exact h x (by omega) (by omega)
  · apply Mem.load32_congr (by omega)
    intro x hlo hhi
    exact h x (by omega) (by omega)

/-- The free list without object `i` keeps its links. -/
theorem TouchesOnly.chain (hc : c.Fits) (hb : b + c.totalSize ≤ 2 ^ 32)
    (h : TouchesOnly c b i m m') {p : Nat} (hbound : ∀ j ∈ frees, j < c.objectCount)
    (hnot : i ∉ frees) (hl : Linked (objLink m) 0 p (frees.map (HeapChunk.objAddr c b))) :
    Linked (objLink m') 0 p (frees.map (HeapChunk.objAddr c b)) := by
  apply hl.congr
  intro o ho
  obtain ⟨j, hj, rfl⟩ := List.mem_map.mp ho
  have hji : j ≠ i := by
    intro hji
    exact hnot (hji ▸ hj)
  exact (h.other hc hb hji (hbound j hj)).2

/-- `alloc` takes the head of the free list. -/
theorem ChunkRep.alloc (hc : c.Fits) (hb : b + c.totalSize ≤ 2 ^ 32)
    (h : ChunkRep c m b (i :: frees)) :
    ∃ m', HeapChunk.alloc c m b = .ok (HeapChunk.dataAddr c b i, m') ∧
      ChunkRep c m' b frees ∧ HeapChunk.next m' b = HeapChunk.next m b ∧
      AgreeOffHeader c b m m' := by
  have hroom := hc.room
  have hi : i < c.objectCount := h.bound i List.mem_cons_self
  obtain ⟨hnot, _⟩ := List.nodup_cons.mp h.nodup
  have hge := objAddr_ge c b i
  have hend := objAddr_end (b := b) hc hi
  obtain ⟨hfirst, hne, hchain⟩ := h.chain
  have hcount : m.load32 (b + 8) = frees.length + 1 := h.count
  simp only [sizeofHeapObject] at hend
  generalize ho : HeapChunk.objAddr c b i = o at *
  -- the four words that change
  let m₁ := m.store32 (b + 4) (m.load32 (o + 4))
  let m₂ := m₁.store32 o HeapObjectStatus.used.value
  let m₃ := m₂.store32 (o + 4) c.objSize
  let m' := m₃.store32 (b + 8) (sub32 (m₃.load32 (b + 8)) 1)
  have htouch : TouchesOnly c b i m m' := by
    apply TouchesOnly.store32 _ _ (by omega) (by omega)
    apply TouchesOnly.store32 _ _ (by omega) (by omega)
    apply TouchesOnly.store32 _ _ (by omega) (by omega)
    apply TouchesOnly.store32 _ _ (by omega) (by omega)
    exact TouchesOnly.refl c b i m
  have hcount₃ : m₃.load32 (b + 8) = frees.length + 1 := by
    rw [Mem.load32_store32_sep _ _ (by omega), Mem.load32_store32_sep _ _ (by omega),
      Mem.load32_store32_sep _ _ (by omega), hcount]
  have hcount' : m'.load32 (b + 8) = frees.length := by
    have hlt := Mem.load32_lt m (b + 8)
    rw [Mem.load32_store32_same, hcount₃, sub32_eq (by omega) (by omega)]
    omega
  have hfirst' : m'.load32 (b + 4) = m.load32 (o + 4) := by
    rw [Mem.load32_store32_sep _ _ (by omega), Mem.load32_store32_sep _ _ (by omega),
      Mem.load32_store32_sep _ _ (by omega), Mem.load32_store32_same,
      Nat.mod_eq_of_lt (Mem.load32_lt m (o + 4))]
  have hstatus' : m'.load32 o = HeapObjectStatus.used.value := by
    rw [Mem.load32_store32_sep _ _ (by omega), Mem.load32_store32_sep _ _ (by omega),
      Mem.load32_store32_same]
    rfl
  have hsize' : m'.load32 (o + 4) = c.objSize := by
    rw [Mem.load32_store32_sep _ _ (by omega), Mem.load32_store32_same,
      Nat.mod_eq_of_lt (by omega)]
  refine ⟨m', ?_, ⟨?_, hcount', ?_, ?_, ?_, ?_⟩, htouch.next hc hb, htouch.agreeOffHeader hi⟩
  · simp only [HeapChunk.alloc, HeapChunk.dataAddr, hfirst, if_neg hne, HeapObject.alloc, ho]
    rfl
  · have hfirst'' : HeapChunk.firstFree m' b = objLink m o := hfirst'
    rw [hfirst'']
    exact htouch.chain hc hb (fun j hj => h.bound j (List.mem_cons_of_mem i hj)) hnot hchain
  · intro j hj
    exact h.bound j (List.mem_cons_of_mem i hj)
  · intro j hj
    have hmem := List.mem_cons_of_mem i hj
    have hji : j ≠ i := by
      intro hji
      exact hnot (hji ▸ hj)
    rw [(htouch.other hc hb hji (h.bound j hmem)).1]
    exact h.status_free j hmem
  · intro j hj hfree
    by_cases hji : j = i
    · rw [hji, ho, hstatus']
    · rw [(htouch.other hc hb hji hj).1]
      exact h.status_used j hj (by simp [hji, hfree])
  · intro j hj hfree
    by_cases hji : j = i
    · rw [hji, ho, hsize']
    · have hlink := (htouch.other hc hb hji hj).2
      simp only [objLink] at hlink
      rw [hlink]
      exact h.size_used j hj (by simp [hji, hfree])

/-- `free` puts the object in front of the free list. -/
theorem ChunkRep.free (hc : c.Fits) (hb : b + c.totalSize ≤ 2 ^ 32)
    (h : ChunkRep c m b frees) (hi : i < c.objectCount) (hnot : i ∉ frees) :
    ChunkRep c (HeapChunk.free m b (HeapChunk.dataAddr c b i)) b (i :: frees) ∧
      HeapChunk.next (HeapChunk.free m b (HeapChunk.dataAddr c b i)) b = HeapChunk.next m b ∧
      AgreeOffHeader c b m (HeapChunk.free m b (HeapChunk.dataAddr c b i)) := by
  have hroom := hc.room
  have hge := objAddr_ge c b i
  have hend := objAddr_end (b := b) hc hi
  have hcount : m.load32 (b + 8) = frees.length := h.count
  have hsize := hc.objSize_pos
  simp only [sizeofHeapObject] at hend
  have hobj := sub32_dataAddr hc hb hi
  generalize ho : HeapChunk.objAddr c b i = o at *
  -- the four words that change
  let m₁ := m.store32 (o + 4) (m.load32 (b + 4))
  let m₂ := m₁.store32 (b + 4) o
  let m₃ := m₂.store32 o HeapObjectStatus.free.value
  let m' := m₃.store32 (b + 8) (add32 (m₃.load32 (b + 8)) 1)
  have hm' : HeapChunk.free m b (HeapChunk.dataAddr c b i) = m' := by
    simp only [HeapChunk.free, HeapObject.free, hobj]
    rfl
  have htouch : TouchesOnly c b i m m' := by
    apply TouchesOnly.store32 _ _ (by omega) (by omega)
    apply TouchesOnly.store32 _ _ (by omega) (by omega)
    apply TouchesOnly.store32 _ _ (by omega) (by omega)
    apply TouchesOnly.store32 _ _ (by omega) (by omega)
    exact TouchesOnly.refl c b i m
  have hcount₃ : m₃.load32 (b + 8) = frees.length := by
    rw [Mem.load32_store32_sep _ _ (by omega), Mem.load32_store32_sep _ _ (by omega),
      Mem.load32_store32_sep _ _ (by omega), hcount]
  have hcount' : m'.load32 (b + 8) = frees.length + 1 := by
    -- there are at most as many free objects as objects, and these fit in memory
    have hlen : frees.length ≤ c.objectCount := by
      apply List.length_le_of_nodup_of_lt h.nodup h.bound
    have hmul := Nat.le_mul_of_pos_right c.objectCount (show 0 < sizeofHeapObject c.objSize by
      simp only [sizeofHeapObject]; omega)
    rw [Mem.load32_store32_same, hcount₃, add32]
    omega
  have hfirst' : m'.load32 (b + 4) = o := by
    rw [Mem.load32_store32_sep _ _ (by omega), Mem.load32_store32_sep _ _ (by omega),
      Mem.load32_store32_same, Nat.mod_eq_of_lt (by omega)]
  have hstatus' : m'.load32 o = HeapObjectStatus.free.value := by
    rw [Mem.load32_store32_sep _ _ (by omega), Mem.load32_store32_same]
    rfl
  have hlink' : objLink m' o = HeapChunk.firstFree m b := by
    show m'.load32 (o + 4) = m.load32 (b + 4)
    rw [Mem.load32_store32_sep _ _ (by omega), Mem.load32_store32_sep _ _ (by omega),
      Mem.load32_store32_sep _ _ (by omega), Mem.load32_store32_same,
      Nat.mod_eq_of_lt (Mem.load32_lt m (b + 4))]
  rw [hm']
  refine ⟨⟨?_, hcount', ?_, ?_, ?_, ?_⟩, htouch.next hc hb, htouch.agreeOffHeader hi⟩
  · have hfirst'' : HeapChunk.firstFree m' b = o := hfirst'
    rw [hfirst'', List.map_cons, ho]
    apply Linked.push _ (by omega) hlink'
    exact htouch.chain hc hb h.bound hnot h.chain
  · intro j hj
    rcases List.mem_cons.mp hj with rfl | hj
    · exact hi
    · exact h.bound j hj
  · intro j hj
    by_cases hji : j = i
    · rw [hji, ho, hstatus']
    · have hmem := (List.mem_cons.mp hj).resolve_left hji
      rw [(htouch.other hc hb hji (h.bound j hmem)).1]
      exact h.status_free j hmem
  · intro j hj hfree
    simp only [List.mem_cons, not_or] at hfree
    rw [(htouch.other hc hb hfree.1 hj).1]
    exact h.status_used j hj hfree.2
  · intro j hj hfree
    simp only [List.mem_cons, not_or] at hfree
    have hlink := (htouch.other hc hb hfree.1 hj).2
    simp only [objLink] at hlink
    rw [hlink]
    exact h.size_used j hj hfree.2

/-! ## The constructor of `heap_chunk` -/

/-- Only the headers of the objects below index `k` may differ. -/
def TouchesBelow (c : SizeClass) (b k : Nat) (m m' : Mem) : Prop :=
  ∀ x, (∀ j, j < k → x < HeapChunk.objAddr c b j ∨ HeapChunk.objAddr c b j + 8 ≤ x) →
    m' x = m x

/-- Both constructors of `heap_object` write two words of the object's header. -/
theorem touchesBelow_construct (hc : c.Fits) (hb : b + c.totalSize ≤ 2 ^ 32)
    (hi : i < c.objectCount) (status next : Nat) :
    TouchesBelow c b (i + 1) m ((m.store32 (HeapChunk.objAddr c b i) status).store32
      (HeapChunk.objAddr c b i + 4) next) := by
  have hend := objAddr_end (b := b) hc hi
  simp only [sizeofHeapObject] at hend
  intro x hx
  have hxi := hx i (by omega)
  rw [Mem.store32_apply _ _ (by omega) (by omega), Mem.store32_apply _ _ (by omega) (by omega)]

theorem TouchesBelow.mono {k l : Nat} (hkl : k ≤ l) (h : TouchesBelow c b k m m') :
    TouchesBelow c b l m m' := by
  intro x hx
  exact h x fun j hj => hx j (by omega)

theorem TouchesBelow.trans {m'' : Mem} {k : Nat} (h : TouchesBelow c b k m m')
    (h' : TouchesBelow c b k m' m'') : TouchesBelow c b k m m'' := by
  intro x hx
  rw [h' x hx]
  exact h x hx

/-- The chunk header and the later objects' headers stay. -/
theorem TouchesBelow.load32 {k : Nat} (hc : c.Fits) (hb : b + c.totalSize ≤ 2 ^ 32)
    (h : TouchesBelow c b k m m') :
    (∀ d, d ≤ 8 → m'.load32 (b + d) = m.load32 (b + d)) ∧
      ∀ j, k ≤ j → j < c.objectCount → ∀ d, d ≤ 4 →
        m'.load32 (HeapChunk.objAddr c b j + d) = m.load32 (HeapChunk.objAddr c b j + d) := by
  have hroom := hc.room
  constructor
  · intro d hd
    apply Mem.load32_congr (by omega)
    intro x hlo hhi
    apply h x
    intro j hj
    have hge := objAddr_ge c b j
    omega
  · intro j hkj hj d hd
    have hend := objAddr_end (b := b) hc hj
    simp only [sizeofHeapObject] at hend
    apply Mem.load32_congr (by omega)
    intro x hlo hhi
    apply h x
    intro l hl
    have hsep := objAddr_sep (c := c) (b := b) (show l < j by omega)
    simp only [sizeofHeapObject] at hsep
    omega

/-- The loop that builds the free list: from a list of the objects `k, …, k + r - 1`
    to a list of all objects below `k + r`. -/
theorem buildFreeList_spec (hc : c.Fits) (hb : b + c.totalSize ≤ 2 ^ 32)
    {k r p : Nat} (hkr : k + r ≤ c.objectCount) (hp : p < 2 ^ 32)
    (hl : Linked (objLink m) 0 p ((List.range' k r).map (HeapChunk.objAddr c b)))
    (hs : ∀ j, k ≤ j → j < k + r →
      m.load32 (HeapChunk.objAddr c b j) = HeapObjectStatus.free.value) :
    ∃ m' p', HeapChunk.buildFreeList c b k m p = (m', p') ∧
      Linked (objLink m') 0 p' ((List.range' 0 (k + r)).map (HeapChunk.objAddr c b)) ∧
      (∀ j, j < k + r → m'.load32 (HeapChunk.objAddr c b j) = HeapObjectStatus.free.value) ∧
      p' < 2 ^ 32 ∧ TouchesBelow c b k m m' := by
  induction k generalizing m r p with
  | zero =>
    refine ⟨m, p, rfl, ?_, ?_, hp, fun _ _ => rfl⟩
    · rw [Nat.zero_add]
      exact hl
    · intro j hj
      exact hs j (Nat.zero_le j) hj
  | succ k ih =>
    have hk : k < c.objectCount := by omega
    have hge := objAddr_ge c b k
    have hend := objAddr_end (b := b) hc hk
    simp only [sizeofHeapObject] at hend
    -- one round: object `k` is written in front of the list
    let m₁ := HeapObject.constructFree m (HeapChunk.objAddr c b k) p
    have htouch : TouchesBelow c b (k + 1) m m₁ := touchesBelow_construct hc hb hk _ _
    obtain ⟨_, hlater⟩ := htouch.load32 hc hb
    have hlink : objLink m₁ (HeapChunk.objAddr c b k) = p := by
      show ((m.store32 _ _).store32 (HeapChunk.objAddr c b k + 4) p).load32 _ = p
      rw [Mem.load32_store32_same, Nat.mod_eq_of_lt hp]
    have hstatus : m₁.load32 (HeapChunk.objAddr c b k) = HeapObjectStatus.free.value := by
      show ((m.store32 _ _).store32 _ _).load32 _ = _
      rw [Mem.load32_store32_sep _ _ (by omega), Mem.load32_store32_same]
      rfl
    have hl₁ : Linked (objLink m₁) 0 (HeapChunk.objAddr c b k)
        ((List.range' k (r + 1)).map (HeapChunk.objAddr c b)) := by
      rw [List.range'_succ, List.map_cons]
      apply Linked.push _ (by omega) hlink
      apply hl.congr
      intro o ho
      obtain ⟨j, hj, rfl⟩ := List.mem_map.mp ho
      have hj' := List.mem_range'_1.mp hj
      exact hlater j hj'.1 (by omega) 4 (by omega)
    have hs₁ : ∀ j, k ≤ j → j < k + (r + 1) →
        m₁.load32 (HeapChunk.objAddr c b j) = HeapObjectStatus.free.value := by
      intro j hkj hj
      by_cases hjk : j = k
      · rw [hjk, hstatus]
      · have heq := hlater j (by omega) (by omega) 0 (by omega)
        rw [Nat.add_zero] at heq
        rw [heq]
        exact hs j (by omega) (by omega)
    obtain ⟨m', p', hrun, hl', hs', hp', htouch'⟩ := ih (by omega) (by omega) hl₁ hs₁
    have hsum : k + (r + 1) = k + 1 + r := by omega
    rw [hsum] at hl' hs'
    exact ⟨m', p', hrun, hl', hs', hp', htouch.trans (htouch'.mono (by omega))⟩

/-- Default construction of the objects touches their headers only. -/
theorem touchesBelow_foldl_constructInit (hc : c.Fits) (hb : b + c.totalSize ≤ 2 ^ 32) (k : Nat)
    (hk : k ≤ c.objectCount) (m : Mem) :
    TouchesBelow c b k m ((List.range k).foldl
      (fun m i => HeapObject.constructInit m (HeapChunk.objAddr c b i)) m) := by
  induction k with
  | zero => exact fun _ _ => rfl
  | succ k ih =>
    rw [List.range_succ, List.foldl_append, List.foldl_cons, List.foldl_nil]
    apply ((ih (by omega)).mono (by omega)).trans
    exact touchesBelow_construct hc hb (by omega) HeapObjectStatus.init.value 0

/-- A new chunk has all its objects free, in order of their addresses. -/
theorem chunkRep_construct (hc : c.Fits) (hpos : 0 < b) (hb : b + c.totalSize ≤ 2 ^ 32)
    (m : Mem) :
    ChunkRep c (HeapChunk.construct c m b) b (List.range c.objectCount) ∧
      AgreeOffHeader c b m (HeapChunk.construct c m b) := by
  have hroom := hc.room
  have hcount_pos := hc.count_pos
  have hcount_lt : c.objectCount < 2 ^ 32 := by
    have hmul := Nat.le_mul_of_pos_right c.objectCount (show 0 < sizeofHeapObject c.objSize by
      simp only [sizeofHeapObject]; omega)
    omega
  let last := HeapChunk.objAddr c b (c.objectCount - 1)
  have hlast_ge := objAddr_ge c b (c.objectCount - 1)
  have hlast_end := objAddr_end (b := b) hc (show c.objectCount - 1 < c.objectCount by omega)
  simp only [sizeofHeapObject] at hlast_end
  -- the member initialisers, the default construction, the last object
  let m₀ := ((m.store32 b 0).store32 (b + 4) 0).store32 (b + 8) c.objectCount
  let m₁ := (List.range c.objectCount).foldl
    (fun m i => HeapObject.constructInit m (HeapChunk.objAddr c b i)) m₀
  let m₂ := HeapObject.constructFree m₁ last 0
  have htouch₁ : TouchesBelow c b c.objectCount m₀ m₁ :=
    touchesBelow_foldl_constructInit hc hb _ (Nat.le_refl _) m₀
  have htouch₂ : TouchesBelow c b c.objectCount m₁ m₂ := by
    have h := touchesBelow_construct (m := m₁) hc hb
      (show c.objectCount - 1 < c.objectCount by omega) HeapObjectStatus.free.value 0
    rwa [Nat.sub_add_cancel hcount_pos] at h
  have hlast_status : m₂.load32 last = HeapObjectStatus.free.value := by
    show ((m₁.store32 last _).store32 (last + 4) 0).load32 last = _
    rw [Mem.load32_store32_sep _ _ (by omega), Mem.load32_store32_same]
    rfl
  have hlast_link : objLink m₂ last = 0 := by
    show ((m₁.store32 last _).store32 (last + 4) 0).load32 (last + 4) = _
    rw [Mem.load32_store32_same, Nat.zero_mod]
  -- the loop
  obtain ⟨m₃, p, hrun, hl, hs, hp, htouch₃⟩ := buildFreeList_spec (m := m₂) (p := last) hc hb
    (show c.objectCount - 1 + 1 ≤ c.objectCount by omega) (by omega)
    (by
      show last = last ∧ last ≠ 0 ∧ objLink m₂ last = 0
      exact ⟨rfl, by omega, hlast_link⟩)
    (by
      intro j hj hj'
      have hjl : j = c.objectCount - 1 := by omega
      rw [hjl]
      exact hlast_status)
  rw [Nat.sub_add_cancel hcount_pos, ← List.range_eq_range'] at hl
  rw [Nat.sub_add_cancel hcount_pos] at hs
  let m' := m₃.store32 (b + 4) p
  have hm' : HeapChunk.construct c m b = m' := by
    show (HeapChunk.buildFreeList c b (c.objectCount - 1) m₂ last).1.store32 (b + 4)
      (HeapChunk.buildFreeList c b (c.objectCount - 1) m₂ last).2 = m'
    rw [hrun]
  have htouch : TouchesBelow c b c.objectCount m₀ m₃ :=
    (htouch₁.trans htouch₂).trans (htouch₃.mono (by omega))
  have hobj : ∀ j, j < c.objectCount → ∀ d, d ≤ 4 →
      m'.load32 (HeapChunk.objAddr c b j + d) = m₃.load32 (HeapChunk.objAddr c b j + d) := by
    intro j hj d hd
    have hge := objAddr_ge c b j
    have hend := objAddr_end (b := b) hc hj
    simp only [sizeofHeapObject] at hend
    exact Mem.load32_store32_sep _ _ (by omega)
  rw [hm']
  refine ⟨⟨?_, ?_, ?_, ?_, ?_, ?_⟩, ?_⟩
  · have hfirst : HeapChunk.firstFree m' b = p := by
      show (m₃.store32 (b + 4) p).load32 (b + 4) = p
      rw [Mem.load32_store32_same, Nat.mod_eq_of_lt hp]
    rw [hfirst]
    apply hl.congr
    intro o ho
    obtain ⟨j, hj, rfl⟩ := List.mem_map.mp ho
    exact hobj j (List.mem_range.mp hj) 4 (by omega)
  · show (m₃.store32 (b + 4) p).load32 (b + 8) = _
    rw [Mem.load32_store32_sep _ _ (by omega), (htouch.load32 hc hb).1 8 (by omega),
      Mem.load32_store32_same, Nat.mod_eq_of_lt hcount_lt, List.length_range]
  · intro j hj
    exact List.mem_range.mp hj
  · intro j hj
    have hj := List.mem_range.mp hj
    have heq := hobj j hj 0 (by omega)
    rw [Nat.add_zero] at heq
    rw [heq]
    exact hs j hj
  · intro j hj hnot
    exact absurd (List.mem_range.mpr hj) hnot
  · intro j hj hnot
    exact absurd (List.mem_range.mpr hj) hnot
  · intro x hx
    simp only [IsHeader, not_or, not_exists] at hx
    have hhead : x < b ∨ b + 12 ≤ x := by omega
    have h₀ : m₀ x = m x := by
      show (((m.store32 b 0).store32 (b + 4) 0).store32 (b + 8) _) x = m x
      rw [Mem.store32_apply _ _ (by omega) (by omega), Mem.store32_apply _ _ (by omega) (by omega),
        Mem.store32_apply _ _ (by omega) (by omega)]
    have h₃ : m₃ x = m₀ x := by
      apply htouch x
      intro j hj
      have hxj := hx.2 j
      omega
    show m₃.store32 (b + 4) p x = m x
    rw [Mem.store32_apply _ _ (by omega) (by omega), h₃, h₀]

end Chunk

end TimbOS.Native.KHeap
