import TimbOS.Spec.KHeapLayout

/-!
# The abstract heap

What the allocator keeps track of, without memory: which chunks are held, which of
their objects are free, and in what order each group tries its chunks.

## Key results

- `AbsHeap.Inv.set`: one rule for the change of one chunk and of its group's list
- `AbsHeap.used_set_take`, `AbsHeap.used_set_give`, `AbsHeap.used_set_none`: what the
  change of one chunk does to the set of used objects
-/

namespace TimbOS.Native.KHeap

/-- A held chunk. Its pages are given back when the last object is freed, so a held
    chunk always has a used object. -/
@[ext] structure ChunkState where
  group : Group
  /-- The free list, as indices of objects. -/
  frees : List Nat
  nodup : frees.Nodup
  lt_count : ∀ i ∈ frees, i < (sizeClass group).objectCount
  some_used : frees.length < (sizeClass group).objectCount

/-- The chunks the heap holds and the list of chunks with a free object of every group. -/
structure AbsHeap where
  chunk : Nat → Option ChunkState
  avail : Group → List Nat

/-- The blocks of two chunks are disjoint. -/
def BlocksDisjoint (g : Group) (b : Nat) (g' : Group) (b' : Nat) : Prop :=
  b + (sizeClass g).totalSize ≤ b' ∨ b' + (sizeClass g').totalSize ≤ b

/-- No byte lies in both. -/
theorem BlocksDisjoint.not_inBlock {g g' : Group} {b b' x : Nat} (h : BlocksDisjoint g b g' b')
    (hx : InBlock (sizeClass g) b x) : ¬ InBlock (sizeClass g') b' x := by
  intro hx'
  simp only [BlocksDisjoint] at h
  simp only [InBlock] at hx hx'
  omega

namespace AbsHeap

/-- The heap holds a chunk of group `g` at `b`. -/
def Held (a : AbsHeap) (g : Group) (b : Nat) : Prop :=
  ∃ s, a.chunk b = some s ∧ s.group = g

/-- Object `i` of the chunk at `b` is in use. -/
def Used (a : AbsHeap) (g : Group) (b i : Nat) : Prop :=
  ∃ s, a.chunk b = some s ∧ s.group = g ∧ i < (sizeClass g).objectCount ∧ i ∉ s.frees

/-- Group `g` has a page-aligned block at `b` inside the address space that overlaps no
    other chunk. -/
structure Placed (a : AbsHeap) (g : Group) (b : Nat) : Prop where
  aligned : b % pageSize = 0
  pos : 0 < b
  bound : b + (sizeClass g).totalSize ≤ 2 ^ 32
  disjoint : ∀ b' s', a.chunk b' = some s' → b' ≠ b → BlocksDisjoint g b s'.group b'

/-- The invariant of the abstract heap. -/
structure Inv (a : AbsHeap) : Prop where
  placed : ∀ b s, a.chunk b = some s → a.Placed s.group b
  /-- A group's list holds exactly its chunks with a free object. -/
  mem_avail : ∀ g b, b ∈ a.avail g ↔ ∃ s, a.chunk b = some s ∧ s.group = g ∧ s.frees ≠ []

/-- Change the chunk at `b` and the list of group `g`. -/
def set (a : AbsHeap) (b : Nat) (s : Option ChunkState) (g : Group) (l : List Nat) : AbsHeap where
  chunk := Function.update a.chunk b s
  avail := Function.update a.avail g l

section Set

variable {a : AbsHeap} {b b' : Nat} {s : Option ChunkState} {g g' : Group} {l : List Nat}

@[simp] theorem set_chunk_same : (a.set b s g l).chunk b = s := by simp [set]

@[simp] theorem set_chunk_ne (h : b' ≠ b) : (a.set b s g l).chunk b' = a.chunk b' := by
  simp [set, h]

@[simp] theorem set_avail_same : (a.set b s g l).avail g = l := by simp [set]

@[simp] theorem set_avail_ne (h : g' ≠ g) : (a.set b s g l).avail g' = a.avail g' := by
  simp [set, h]

/-- Changing one chunk and its group's list keeps the invariant when the new list is the
    old one with `b` put in or left out as the new free list asks for. -/
theorem Inv.set (h : a.Inv) (hplaced : a.Placed g b)
    (hold : ∀ t, a.chunk b = some t → t.group = g) (hnew : ∀ t, s = some t → t.group = g)
    (hl : ∀ b', b' ∈ l ↔ (b' ≠ b ∧ b' ∈ a.avail g) ∨ (b' = b ∧ ∃ t, s = some t ∧ t.frees ≠ [])) :
    (a.set b s g l).Inv := by
  constructor
  · -- blocks stay apart: only `b` is new, and it has been placed
    intro b₁ s₁ h₁
    by_cases hb₁ : b₁ = b
    · subst hb₁
      rw [set_chunk_same] at h₁
      rw [hnew s₁ h₁]
      refine ⟨hplaced.aligned, hplaced.pos, hplaced.bound, ?_⟩
      intro b₂ s₂ h₂ hne
      rw [set_chunk_ne hne] at h₂
      exact hplaced.disjoint b₂ s₂ h₂ hne
    · rw [set_chunk_ne hb₁] at h₁
      have hp := h.placed b₁ s₁ h₁
      refine ⟨hp.aligned, hp.pos, hp.bound, ?_⟩
      intro b₂ s₂ h₂ hne
      by_cases hb₂ : b₂ = b
      · subst hb₂
        rw [set_chunk_same] at h₂
        rw [hnew s₂ h₂]
        exact (hplaced.disjoint b₁ s₁ h₁ hb₁).symm
      · rw [set_chunk_ne hb₂] at h₂
        exact hp.disjoint b₂ s₂ h₂ hne
  · -- a list names the chunks with free objects: only the list of `g` changes
    intro g' b'
    by_cases hg : g' = g
    · subst hg
      rw [set_avail_same, hl b']
      by_cases hb' : b' = b
      · subst hb'
        rw [set_chunk_same]
        constructor
        · intro hor
          rcases hor with ⟨hne, _⟩ | ⟨_, t, ht, hfree⟩
          · exact absurd rfl hne
          · exact ⟨t, ht, hnew t ht, hfree⟩
        · rintro ⟨t, ht, _, hfree⟩
          exact Or.inr ⟨rfl, t, ht, hfree⟩
      · rw [set_chunk_ne hb', ← h.mem_avail g' b']
        simp [hb']
    · rw [set_avail_ne hg, h.mem_avail g' b']
      by_cases hb' : b' = b
      · subst hb'
        rw [set_chunk_same]
        constructor
        · rintro ⟨t, ht, hgroup, _⟩
          exact absurd ((hold t ht).symm.trans hgroup).symm hg
        · rintro ⟨t, ht, hgroup, _⟩
          exact absurd ((hnew t ht).symm.trans hgroup).symm hg
      · rw [set_chunk_ne hb']

end Set

end AbsHeap

/-- The heap without chunks. -/
def AbsHeap.init : AbsHeap where
  chunk := fun _ => none
  avail := fun _ => []

/-! ## Used objects and held chunks -/

section Used

variable {a : AbsHeap} {b b' i : Nat} {g g' : Group} {s t : ChunkState} {l : List Nat}

theorem AbsHeap.group_eq (hs : a.chunk b = some s) (r : ChunkState) (hr : a.chunk b = some r) :
    r.group = s.group := by
  rw [hs] at hr
  rw [Option.some.inj hr]

/-- The chunk at `b` is in its group's list exactly when it has a free object. -/
theorem AbsHeap.Inv.mem_avail_iff (h : a.Inv) (hs : a.chunk b = some s) :
    b ∈ a.avail s.group ↔ s.frees ≠ [] := by
  rw [h.mem_avail]
  constructor
  · rintro ⟨r, hr, _, hne⟩
    rw [hs] at hr
    cases hr
    exact hne
  · intro hne
    exact ⟨s, hs, rfl, hne⟩

/-- A chunk has one group. -/
theorem AbsHeap.Held.group_eq (h : a.Held g b) (h' : a.Held g' b) : g' = g := by
  obtain ⟨s, hs, rfl⟩ := h
  obtain ⟨t, ht, rfl⟩ := h'
  rw [hs] at ht
  rw [Option.some.inj ht]

theorem AbsHeap.used_iff (hs : a.chunk b = some s) :
    a.Used g b i ↔ s.group = g ∧ i < (sizeClass g).objectCount ∧ i ∉ s.frees := by
  constructor
  · rintro ⟨t, ht, hgroup, hi, hnot⟩
    rw [hs] at ht
    cases ht
    exact ⟨hgroup, hi, hnot⟩
  · rintro ⟨hgroup, hi, hnot⟩
    exact ⟨s, hs, hgroup, hi, hnot⟩

/-- Used objects after a chunk takes the state `t`. -/
theorem AbsHeap.used_set (hgroup : t.group = g) :
    (a.set b (some t) g l).Used g' b' i ↔
      (b' ≠ b ∧ a.Used g' b' i) ∨
        (b' = b ∧ g' = g ∧ i < (sizeClass g).objectCount ∧ i ∉ t.frees) := by
  by_cases hb : b' = b
  · subst hb
    rw [used_iff set_chunk_same, hgroup]
    constructor
    · rintro ⟨rfl, hi, hnot⟩
      exact Or.inr ⟨rfl, rfl, hi, hnot⟩
    · intro hor
      rcases hor with ⟨hne, _⟩ | ⟨_, rfl, hi, hnot⟩
      · exact absurd rfl hne
      · exact ⟨rfl, hi, hnot⟩
  · simp only [Used, set_chunk_ne hb]
    simp [hb]

theorem AbsHeap.held_set (hgroup : t.group = g) (hold : ∀ s, a.chunk b = some s → s.group = g) :
    (a.set b (some t) g l).Held g' b' ↔ a.Held g' b' ∨ (g' = g ∧ b' = b) := by
  by_cases hb : b' = b
  · subst hb
    constructor
    · rintro ⟨s, hs, hs'⟩
      rw [set_chunk_same] at hs
      cases hs
      exact Or.inr ⟨hs'.symm.trans hgroup, rfl⟩
    · intro hor
      rcases hor with ⟨s, hs, hs'⟩ | ⟨rfl, _⟩
      · exact ⟨t, set_chunk_same, (hgroup.trans (hold s hs).symm).trans hs'⟩
      · exact ⟨t, set_chunk_same, hgroup⟩
  · simp only [Held, set_chunk_ne hb]
    simp [hb]

/-- Used objects after object `i` of the chunk at `b` leaves the free list. -/
theorem AbsHeap.used_set_take (hgroup : t.group = g) (hi : i < (sizeClass g).objectCount)
    (hold : ∀ s, a.chunk b = some s → s.group = g)
    (htake : ∀ j, j < (sizeClass g).objectCount → (j ∉ t.frees ↔ a.Used g b j ∨ j = i))
    (g' : Group) (b' i' : Nat) :
    (a.set b (some t) g l).Used g' b' i' ↔ a.Used g' b' i' ∨ (g' = g ∧ b' = b ∧ i' = i) := by
  rw [used_set hgroup]
  by_cases hb : b' = b
  · subst hb
    constructor
    · intro hor
      rcases hor with ⟨hne, _⟩ | ⟨_, rfl, hi', hnot⟩
      · exact absurd rfl hne
      · rcases (htake i' hi').mp hnot with hused | hii
        · exact Or.inl hused
        · exact Or.inr ⟨rfl, rfl, hii⟩
    · intro hor
      rcases hor with hused | ⟨rfl, _, rfl⟩
      · obtain ⟨s, hs, rfl, hi', hnot⟩ := hused
        have hgg : s.group = g := hold s hs
        subst hgg
        exact Or.inr ⟨rfl, rfl, hi', (htake i' hi').mpr (Or.inl ⟨s, hs, rfl, hi', hnot⟩)⟩
      · exact Or.inr ⟨rfl, rfl, hi, (htake i' hi).mpr (Or.inr rfl)⟩
  · simp [hb]

/-- Used objects after object `i` of the chunk at `b` joins the free list. -/
theorem AbsHeap.used_set_give (hgroup : t.group = g)
    (hold : ∀ s, a.chunk b = some s → s.group = g)
    (hgive : ∀ j, j < (sizeClass g).objectCount → (j ∉ t.frees ↔ a.Used g b j ∧ j ≠ i))
    (g' : Group) (b' i' : Nat) :
    (a.set b (some t) g l).Used g' b' i' ↔ a.Used g' b' i' ∧ ¬ (g' = g ∧ b' = b ∧ i' = i) := by
  rw [used_set hgroup]
  by_cases hb : b' = b
  · subst hb
    constructor
    · intro hor
      rcases hor with ⟨hne, _⟩ | ⟨_, rfl, hi', hnot⟩
      · exact absurd rfl hne
      · obtain ⟨hused, hne⟩ := (hgive i' hi').mp hnot
        refine ⟨hused, ?_⟩
        intro heq
        exact hne heq.2.2
    · rintro ⟨⟨s, hs, rfl, hi', hnot⟩, hne⟩
      have hgg : s.group = g := hold s hs
      subst hgg
      have hii : i' ≠ i := by
        intro heq
        exact hne ⟨rfl, rfl, heq⟩
      exact Or.inr ⟨rfl, rfl, hi', (hgive i' hi').mpr ⟨⟨s, hs, rfl, hi', hnot⟩, hii⟩⟩
  · simp [hb]

/-- Used objects after the chunk at `b` is given back. -/
theorem AbsHeap.used_set_none :
    (a.set b none g l).Used g' b' i ↔ b' ≠ b ∧ a.Used g' b' i := by
  by_cases hb : b' = b
  · subst hb
    constructor
    · rintro ⟨s, hs, _⟩
      rw [set_chunk_same] at hs
      cases hs
    · intro hx
      exact absurd rfl hx.1
  · simp only [Used, set_chunk_ne hb]
    simp [hb]

/-- When the chunk goes with its last used object, no other object goes out of use. -/
theorem AbsHeap.used_set_none_iff (hs : a.chunk b = some s)
    (honly : ∀ j, a.Used s.group b j → j = i) {i' : Nat} :
    (a.set b none s.group l).Used g' b' i' ↔
      a.Used g' b' i' ∧ ¬ (g' = s.group ∧ b' = b ∧ i' = i) := by
  rw [AbsHeap.used_set_none]
  constructor
  · intro hx
    exact ⟨hx.2, fun heq => hx.1 heq.2.1⟩
  · intro hx
    refine ⟨?_, hx.1⟩
    intro heq
    subst heq
    obtain ⟨r, hr, hgroup, _⟩ := hx.1
    have hg : g' = s.group := hgroup.symm.trans (AbsHeap.group_eq hs r hr)
    subst hg
    exact hx.2 ⟨rfl, rfl, honly i' hx.1⟩

theorem AbsHeap.held_set_none : (a.set b none g l).Held g' b' ↔ a.Held g' b' ∧ b' ≠ b := by
  by_cases hb : b' = b
  · subst hb
    constructor
    · rintro ⟨s, hs, _⟩
      rw [set_chunk_same] at hs
      cases hs
    · intro hx
      exact absurd rfl hx.2
  · simp only [Held, set_chunk_ne hb]
    simp [hb]

end Used

/-! ## Where used objects lie -/

section Placement

variable {a : AbsHeap} {b b' i i' x : Nat} {g g' : Group}

theorem AbsHeap.Used.held (h : a.Used g b i) : a.Held g b := by
  obtain ⟨s, hs, hgroup, _⟩ := h
  exact ⟨s, hs, hgroup⟩

theorem AbsHeap.Used.lt_count (h : a.Used g b i) : i < (sizeClass g).objectCount := by
  obtain ⟨_, _, _, hi, _⟩ := h
  exact hi

theorem AbsHeap.Inv.held_placed (h : a.Inv) (hb : a.Held g b) : a.Placed g b := by
  obtain ⟨s, hs, rfl⟩ := hb
  exact h.placed b s hs

/-- Two held chunks do not overlap. -/
theorem AbsHeap.Inv.held_disjoint (h : a.Inv) (hb : a.Held g b) (hb' : a.Held g' b')
    (hne : b' ≠ b) : BlocksDisjoint g b g' b' := by
  obtain ⟨s', hs', rfl⟩ := hb'
  exact (h.held_placed hb).disjoint b' s' hs' hne

/-- A byte lies in the block of one held chunk at most. -/
theorem AbsHeap.Inv.held_unique (h : a.Inv) (hb : a.Held g b) (hb' : a.Held g' b')
    (hx : InBlock (sizeClass g) b x) (hx' : InBlock (sizeClass g') b' x) : g' = g ∧ b' = b := by
  by_cases hne : b' = b
  · subst hne
    exact ⟨hb.group_eq hb', rfl⟩
  · exact absurd hx' ((h.held_disjoint hb hb' hne).not_inBlock hx)

/-- A pointer names its object. -/
theorem AbsHeap.Inv.used_unique (h : a.Inv) (hu : a.Used g b i) (hu' : a.Used g' b' i')
    (heq : HeapChunk.dataAddr (sizeClass g') b' i' = HeapChunk.dataAddr (sizeClass g) b i) :
    g' = g ∧ b' = b ∧ i' = i := by
  have hpage := pageOf_dataAddr (fits_sizeClass g) (h.held_placed hu.held).aligned hu.lt_count
  have hpage' := pageOf_dataAddr (fits_sizeClass g') (h.held_placed hu'.held).aligned hu'.lt_count
  have hb : b' = b := by
    rw [← hpage', heq, hpage]
  subst hb
  have hg := hu.held.group_eq hu'.held
  subst hg
  exact ⟨rfl, rfl, dataAddr_injective _ _ heq⟩

/-- The data of two used objects does not overlap. -/
theorem AbsHeap.Inv.used_disjoint (h : a.Inv) (hu : a.Used g b i) (hu' : a.Used g' b' i')
    (hne : ¬ (g' = g ∧ b' = b ∧ i' = i)) :
    HeapChunk.dataAddr (sizeClass g) b i + (sizeClass g).objSize ≤
        HeapChunk.dataAddr (sizeClass g') b' i' ∨
      HeapChunk.dataAddr (sizeClass g') b' i' + (sizeClass g').objSize ≤
        HeapChunk.dataAddr (sizeClass g) b i := by
  by_cases hb : b' = b
  · subst hb
    have hg := hu.held.group_eq hu'.held
    subst hg
    apply data_disjoint
    intro hi
    exact hne ⟨rfl, rfl, hi.symm⟩
  · have hdis := h.held_disjoint hu.held hu'.held hb
    have hge := objAddr_ge (sizeClass g) b i
    have hge' := objAddr_ge (sizeClass g') b' i'
    have hend := objAddr_end (b := b) (fits_sizeClass g) hu.lt_count
    have hend' := objAddr_end (b := b') (fits_sizeClass g') hu'.lt_count
    simp only [BlocksDisjoint] at hdis
    simp only [sizeofHeapObject] at hend hend'
    simp only [HeapChunk.dataAddr]
    omega

/-- The data of a used object holds no header byte of any held chunk. -/
theorem AbsHeap.Inv.used_not_header (h : a.Inv) (hu : a.Used g b i)
    (hx : HeapChunk.dataAddr (sizeClass g) b i ≤ x)
    (hx' : x < HeapChunk.dataAddr (sizeClass g) b i + (sizeClass g).objSize)
    (hb' : a.Held g' b') : ¬ IsHeader (sizeClass g') b' x := by
  by_cases hb : b' = b
  · subst hb
    have hg := hu.held.group_eq hb'
    subst hg
    exact not_isHeader_of_data hx hx'
  · intro hhead
    have hin := data_inBlock (fits_sizeClass g) hu.lt_count hx hx'
    exact hb (h.held_unique hu.held hb' hin (hhead.inBlock (fits_sizeClass g'))).2

end Placement

end TimbOS.Native.KHeap
