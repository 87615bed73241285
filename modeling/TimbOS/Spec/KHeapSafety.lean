import TimbOS.Spec.KHeapRuns

/-!
# Safety of the kernel heap

What the clients of `mm::heap` and the page allocator see in every reachable world:
objects that never overlap, exact chunk lists, and exact page accounting.

## Key results

- `heap_safe`: live objects stay apart from each other and from all headers
- `chunkLists_exact`: the chunk lists and free counts, and no fault
- `pages_exact`: the blocks held are the chunks with live objects
-/

namespace TimbOS.Native.KHeap

open ForStd

namespace World

/-- Live objects, given by pointer and requested size, lie inside one held block, apart
    from each other and from every header. -/
structure Safe (w : World) : Prop where
  inside : ∀ q ∈ w.live, ∃ k ∈ w.held,
    k.base ≤ q.1 ∧ q.1 + q.2 ≤ k.base + k.count * pageSize
  apart : ∀ q ∈ w.live, ∀ r ∈ w.live, q ≠ r →
    q.1 ≠ r.1 ∧ (q.1 + q.2 ≤ r.1 ∨ r.1 + r.2 ≤ q.1)
  clear : ∀ q ∈ w.live, ∀ k ∈ w.held, ∀ x, q.1 ≤ x → x < q.1 + q.2 → ¬ k.Header x

/-- The bytes of the object at `q` are the same. -/
def SameData (w w' : World) (q : Nat × Nat) : Prop :=
  ∀ x, q.1 ≤ x → x < q.1 + q.2 → w'.heap.mem x = w.heap.mem x

/-- Number of live objects in a block. -/
def liveIn (w : World) (k : Block) : Nat := w.live.countP fun q => k.Contains q.1

end World

/-- The world at boot, over cleared memory. -/
def World.empty : World := ⟨⟨fun _ => 0, fun _ => 0⟩, [], [], []⟩

theorem World.empty_initial : machine.init World.empty := ⟨fun _ => rfl, rfl, rfl, rfl⟩

/-- At boot, the pages at 4 MB are a legal answer to any request. -/
theorem World.empty_supplies (size : Nat) : World.empty.Legal (.alloc size 0x400000) := by
  have hbound : ∀ g : Group, 0x400000 + (sizeClass g).pageCount * pageSize ≤ 2 ^ 32 := by decide
  intro g _ _
  exact ⟨by decide, hbound g, fun k hk => nomatch hk⟩

instance (w : World) (count p : Nat) : Decidable (w.Supplies count p) :=
  inferInstanceAs (Decidable (p ≠ 0 → _))

/-- What the environment promises about a call, to be computed. -/
def World.promised (w : World) : Op → Bool
  | .alloc size p =>
    decide (∀ g, findChunkGroup size = some g → w.Supplies (sizeClass g).pageCount p)
  | .free ptr => (w.live.map Prod.fst).contains ptr
  | .write _ => false

theorem World.legal_of_promised (w : World) (op : Op) (h : w.promised op = true) :
    machine.legal w op := by
  cases op with
  | alloc size p =>
    intro g hg
    exact of_decide_eq_true h g hg
  | free ptr =>
    obtain ⟨q, hq, rfl⟩ := List.mem_map.mp (List.contains_iff_mem.mp h)
    exact ⟨q.2, hq⟩
  | write mem => cases h

/-- The world after some calls: two chunks of objects of 2032 bytes, of which the first was full
    until an object was freed, and one chunk of small objects. -/
def World.busy : World :=
  (machine.exec World.empty [.alloc 2000 0x400000, .alloc 2000 0, .alloc 2000 0x401000,
    .free 0x400014, .alloc 100 0x402000]).2

theorem World.busy_reachable : machine.Reachable World.busy :=
  (Machine.Reachable.init World.empty_initial).run
    (Machine.run_exec World.legal_of_promised (by decide +kernel))

theorem World.busy_live :
    World.busy.live = [(0x402014, 100), (0x401014, 2000), (0x40080C, 2000)] := by
  decide +kernel

/-- The group of 2032 bytes. -/
def bigGroup : Group := ⟨8, by decide⟩

theorem World.busy_held : World.busy.held =
    [⟨⟨4, by decide⟩, 0x402000, 1⟩, ⟨bigGroup, 0x401000, 1⟩, ⟨bigGroup, 0x400000, 1⟩] := by
  decide +kernel

section Safety

variable {w w' : World} {a : AbsHeap} {g : Group} {b i : Nat}

theorem Inv.safe (hi : Inv w a) : w.Safe := by
  constructor
  · intro q hq
    obtain ⟨g, b, i, hu, hptr, hle⟩ := hi.live_used q hq
    have hge := objAddr_ge (sizeClass g) b i
    have hend := objAddr_end (b := b) (fits_sizeClass g) hu.lt_count
    simp only [sizeofHeapObject, SizeClass.totalSize] at hend
    refine ⟨_, hi.block_mem hu.held, ?_, ?_⟩
    · simp only [hptr, HeapChunk.dataAddr]
      omega
    · simp only [hptr, HeapChunk.dataAddr]
      omega
  · intro q hq r hr hne
    have hptr_ne : q.1 ≠ r.1 := by
      intro heq
      exact hne (List.inj_on_of_nodup_map hi.live_nodup hq hr heq)
    obtain ⟨g, b, i, hu, hptr, hle⟩ := hi.live_used q hq
    obtain ⟨g', b', i', hu', hptr', hle'⟩ := hi.live_used r hr
    have hdis := hi.rep.inv.used_disjoint hu hu' (by
      rintro ⟨rfl, rfl, rfl⟩
      exact hptr_ne (hptr.trans hptr'.symm))
    refine ⟨hptr_ne, ?_⟩
    omega
  · intro q hq k hk x hlo hhi
    obtain ⟨g, b, i, hu, hptr, hle⟩ := hi.live_used q hq
    exact hi.rep.inv.used_not_header hu (by omega) (by omega) ((hi.held_iff k).mp hk).1

/-- Changes to headers of held chunks leave the data of live objects alone. -/
theorem Inv.sameData {a' : AbsHeap} {q : Nat × Nat} (hi : Inv w a) (hi' : Inv w' a')
    (hq : q ∈ w.live) (hused : ∀ g b i, a.Used g b i →
      q.1 = HeapChunk.dataAddr (sizeClass g) b i → a'.Used g b i)
    (hmem : ∀ x, (∀ g b, a'.Held g b → ¬ IsHeader (sizeClass g) b x) →
      w'.heap.mem x = w.heap.mem x) :
    w.SameData w' q := by
  obtain ⟨g, b, i, hu, hptr, hle⟩ := hi.live_used q hq
  intro x hlo hhi
  apply hmem x
  intro g' b' hb'
  exact hi'.rep.inv.used_not_header (hused g b i hu hptr) (by omega) (by omega) hb'

/-- `alloc` changes no byte of a live object. -/
theorem Inv.alloc_keeps {o : Outcome} {size p : Nat} {q : Nat × Nat} (hi : Inv w a)
    (hl : w.Legal (.alloc size p)) (hs : w.step (.alloc size p) = .ok (o, w')) (hq : q ∈ w.live) :
    q ∈ w'.live ∧ w.SameData w' q := by
  obtain ⟨o', w'', hstep, hcase⟩ := hi.alloc hl
  rw [hs] at hstep
  cases hstep
  rcases hcase with ⟨-, -, hheap, hlive, -⟩ | ⟨g, a', b, i, -, halloc, hlive, hi'⟩
  · refine ⟨hlive ▸ hq, ?_⟩
    intro x _ _
    rw [hheap]
  · have hnew : a'.Used g b i := (halloc.used g b i).mpr (Or.inr ⟨rfl, rfl, rfl⟩)
    refine ⟨by rw [hlive]; exact List.mem_cons_of_mem _ hq, ?_⟩
    apply hi.sameData hi' hq
    · intro g' b' i' hu _
      exact (halloc.used g' b' i').mpr (Or.inl hu)
    · intro x hx
      exact halloc.agree x (hx g b hnew.held)

/-- `free` changes no byte of another live object. -/
theorem Inv.free_keeps {o : Outcome} {ptr : Nat} {q : Nat × Nat} (hi : Inv w a)
    (hl : w.Legal (.free ptr)) (hs : w.step (.free ptr) = .ok (o, w')) (hq : q ∈ w.live)
    (hne : q.1 ≠ ptr) : q ∈ w'.live ∧ w.SameData w' q := by
  obtain ⟨o', w'', g, a', b, i, hstep, -, -, hfreed, hlive, -⟩ := hi.free hl
  rw [hs] at hstep
  cases hstep
  refine ⟨by rw [hlive]; simpa using ⟨hq, hne⟩, ?_⟩
  -- the memory changes in headers of chunks held before, which the data avoids
  obtain ⟨g', b', i', hu', hptr', hle'⟩ := hi.live_used q hq
  intro x hlo hhi
  apply hfreed.agree x
  intro g'' b'' hb''
  exact hi.rep.inv.used_not_header hu' (by omega) (by omega) hb''

/-- The kernel heap over whole runs. In every reachable world the live objects are safe,
    `alloc` makes its result one of them, and neither `alloc` nor `free` changes a byte of
    another live object. -/
theorem heap_safe (hw : machine.Reachable w) :
    w.Safe ∧
      (∀ size p, w.Legal (.alloc size p) → ∃ o w', w.step (.alloc size p) = .ok (o, w') ∧
        w'.Safe ∧ (o.ptr ≠ 0 → (o.ptr, size) ∈ w'.live ∧ ∀ q ∈ w.live, q.1 ≠ o.ptr) ∧
        ∀ q ∈ w.live, q ∈ w'.live ∧ w.SameData w' q) ∧
      ∀ ptr, w.Legal (.free ptr) → ∃ o w', w.step (.free ptr) = .ok (o, w') ∧
        w'.Safe ∧ ∀ q ∈ w.live, q.1 ≠ ptr → q ∈ w'.live ∧ w.SameData w' q := by
  obtain ⟨a, hi⟩ := reachable_inv hw
  refine ⟨hi.safe, ?_, ?_⟩
  · intro size p hl
    obtain ⟨o, w', hstep, hcase⟩ := hi.alloc hl
    have hkeep : ∀ q ∈ w.live, q ∈ w'.live ∧ w.SameData w' q :=
      fun q hq => hi.alloc_keeps hl hstep hq
    refine ⟨o, w', hstep, ?_⟩
    rcases hcase with ⟨hnull, _, _, _, hi'⟩ | ⟨g, a', b, i, _, _, hlive, hi'⟩
    · exact ⟨hi'.safe, fun hne => absurd hnull hne, hkeep⟩
    · refine ⟨hi'.safe, ?_, hkeep⟩
      intro _
      refine ⟨by rw [hlive]; exact List.mem_cons_self, ?_⟩
      intro q hq heq
      have hnodup := hi'.live_nodup
      rw [hlive, List.map_cons, List.nodup_cons] at hnodup
      exact hnodup.1 (List.mem_map.mpr ⟨q, hq, heq⟩)
  · intro ptr hl
    obtain ⟨o, w', _, _, _, _, hstep, _, _, _, _, hi', _⟩ := hi.free hl
    exact ⟨o, w', hstep, hi'.safe, fun q hq hne => hi.free_keeps hl hstep hq hne⟩

/-- Freeing the object of one chunk leaves the data of another chunk alone. -/
theorem heap_safe_busy : ∃ o w', World.busy.Safe ∧
    World.busy.step (.free 0x401014) = .ok (o, w') ∧ w'.Safe ∧
      (0x40080C, 2000) ∈ w'.live ∧ World.busy.SameData w' (0x40080C, 2000) := by
  obtain ⟨hsafe, -, hfree⟩ := heap_safe World.busy_reachable
  have hlegal : World.busy.Legal (.free 0x401014) := by
    refine ⟨2000, ?_⟩
    rw [World.busy_live]
    decide
  obtain ⟨o, w', hstep, hsafe', hkeep⟩ := hfree 0x401014 hlegal
  have hother := hkeep (0x40080C, 2000) (by rw [World.busy_live]; decide) (by decide)
  exact ⟨o, w', hsafe, hstep, hsafe', hother⟩

/-! ## Chunk lists -/

/-- Live objects and free objects of a chunk make up all its objects. -/
theorem Inv.liveIn_add_length {s : ChunkState} (hi : Inv w a) (hs : a.chunk b = some s) :
    w.liveIn ⟨s.group, b, (sizeClass s.group).pageCount⟩ + s.frees.length =
      (sizeClass s.group).objectCount := by
  have hb : a.Held s.group b := ⟨s, hs, rfl⟩
  have hsplit := List.length_add_length_filter_notMem s.nodup s.lt_count
  let k : Block := ⟨s.group, b, (sizeClass s.group).pageCount⟩
  -- the live pointers in the block are those of the objects off the free list
  have hperm : ((w.live.map Prod.fst).filter fun x => k.Contains x).Perm
      (((List.range (sizeClass s.group).objectCount).filter fun i => i ∉ s.frees).map
        (HeapChunk.dataAddr (sizeClass s.group) b)) := by
    apply (List.perm_ext_iff_of_nodup (hi.live_nodup.filter _)
      ((List.nodup_range.filter _).map (dataAddr_injective _ b))).mpr
    intro x
    simp only [List.mem_filter, List.mem_map, decide_eq_true_eq, List.mem_range]
    constructor
    · rintro ⟨⟨q, hq, rfl⟩, hin⟩
      obtain ⟨g', b', i', hu, hptr, _⟩ := hi.live_used q hq
      have hin' := dataAddr_inBlock (b := b') (fits_sizeClass g') hu.lt_count
      obtain ⟨rfl, rfl⟩ := hi.rep.inv.held_unique hb hu.held hin (hptr ▸ hin')
      obtain ⟨_, hi', hnot⟩ := (AbsHeap.used_iff hs).mp hu
      exact ⟨i', ⟨hi', hnot⟩, hptr.symm⟩
    · rintro ⟨i, ⟨hi', hnot⟩, rfl⟩
      have hu : a.Used s.group b i := (AbsHeap.used_iff hs).mpr ⟨rfl, hi', hnot⟩
      obtain ⟨n, hn⟩ := hi.used_live _ _ _ hu
      exact ⟨⟨_, hn, rfl⟩, dataAddr_inBlock (fits_sizeClass _) hi'⟩
  have hlive : w.liveIn k = ((w.live.map Prod.fst).filter fun x => k.Contains x).length := by
    rw [← List.countP_eq_length_filter, List.countP_map]
    rfl
  show w.liveIn k + _ = _
  rw [hlive, hperm.length_eq, List.length_map]
  omega

/-- The chunk lists in every reachable world: each group's list is finite, without
    duplicates, and holds exactly the group's chunks with a free and a used object; every
    free count is the length of the free list. No legal call faults, so no walk is endless,
    no half-full chunk gets lost and `_first_free` is never null where it is used. -/
theorem chunkLists_exact (hw : machine.Reachable w) :
    (∀ g, ∃ l, Linked (HeapChunk.next w.heap.mem) 0 (w.heap.firstChunk g) l ∧ l.Nodup ∧
        ∀ b, b ∈ l ↔ ∃ k ∈ w.held, k.group = g ∧ k.base = b ∧
          w.liveIn k < (sizeClass g).objectCount ∧ 0 < w.liveIn k) ∧
      (∀ k ∈ w.held, ∃ frees : List Nat,
        Linked (objLink w.heap.mem) 0 (HeapChunk.firstFree w.heap.mem k.base)
          (frees.map (HeapChunk.objAddr (sizeClass k.group) k.base)) ∧
        HeapChunk.freeCount w.heap.mem k.base = frees.length ∧
        frees.length + w.liveIn k = (sizeClass k.group).objectCount) ∧
      ∀ op, w.Legal op → ∃ o w', w.step op = .ok (o, w') := by
  obtain ⟨a, hi⟩ := reachable_inv hw
  have hblock : ∀ k ∈ w.held, ∃ s, a.chunk k.base = some s ∧
      k = ⟨s.group, k.base, (sizeClass s.group).pageCount⟩ := by
    intro k hk
    obtain ⟨⟨s, hs, hgroup⟩, hcount⟩ := (hi.held_iff k).mp hk
    refine ⟨s, hs, ?_⟩
    obtain ⟨group, base, count⟩ := k
    simp only at hgroup hcount
    rw [hcount, hgroup]
  refine ⟨?_, ?_, ?_⟩
  · intro g
    refine ⟨a.avail g, hi.rep.lists g, (hi.rep.lists g).nodup, ?_⟩
    intro b
    rw [hi.rep.inv.mem_avail]
    constructor
    · -- a chunk in the list has a free object, and never only free ones
      rintro ⟨s, hs, rfl, hfree⟩
      have hsum := hi.liveIn_add_length hs
      have hused := s.some_used
      have hpos := List.length_pos_of_ne_nil hfree
      exact ⟨_, hi.block_mem ⟨s, hs, rfl⟩, rfl, rfl, by omega, by omega⟩
    · -- fewer live objects than places leave a free one
      rintro ⟨k, hk, rfl, rfl, hlt, _⟩
      obtain ⟨s, hs, heq⟩ := hblock k hk
      have hsum := hi.liveIn_add_length hs
      rw [← heq] at hsum
      have hgroup : k.group = s.group := by rw [heq]
      refine ⟨s, hs, hgroup.symm, ?_⟩
      intro hnil
      rw [hgroup] at hlt
      simp only [hnil, List.length_nil] at hsum
      omega
  · intro k hk
    obtain ⟨s, hs, heq⟩ := hblock k hk
    have hsum := hi.liveIn_add_length hs
    rw [← heq] at hsum
    have hrep := hi.rep.chunks k.base s hs
    have hgroup : k.group = s.group := by rw [heq]
    rw [hgroup]
    exact ⟨s.frees, hrep.chain, hrep.count, by omega⟩
  · intro op hl
    obtain ⟨o, w', hstep, _⟩ := hi.step hl
    exact ⟨o, w', hstep⟩

/-- Both chunks of the big group have a live and a free object, and are in its list. -/
theorem chunkLists_exact_busy : ∃ l,
    Linked (HeapChunk.next World.busy.heap.mem) 0 (World.busy.heap.firstChunk bigGroup) l ∧
      l.Nodup ∧ 0x400000 ∈ l ∧ 0x401000 ∈ l := by
  obtain ⟨hlists, -, -⟩ := chunkLists_exact World.busy_reachable
  obtain ⟨l, hl, hnodup, hmem⟩ := hlists bigGroup
  have hblock : ∀ b, ⟨bigGroup, b, 1⟩ ∈ World.busy.held →
      World.busy.liveIn ⟨bigGroup, b, 1⟩ = 1 → b ∈ l := by
    intro b hk hlive
    refine (hmem b).mpr ⟨_, hk, rfl, rfl, ?_, ?_⟩
    · rw [hlive]
      decide
    · rw [hlive]
      decide
  refine ⟨l, hl, hnodup, hblock _ ?_ ?_, hblock _ ?_ ?_⟩
  · rw [World.busy_held]
    decide
  · rw [World.liveIn, World.busy_live]
    decide
  · rw [World.busy_held]
    decide
  · rw [World.liveIn, World.busy_live]
    decide

/-! ## Pages -/

/-- The block of a chunk with a used object has live objects. -/
theorem Inv.liveIn_pos (hi : Inv w a) (hu : a.Used g b i) :
    0 < w.liveIn ⟨g, b, (sizeClass g).pageCount⟩ := by
  obtain ⟨s, hs, rfl, _⟩ := hu
  have hsum := hi.liveIn_add_length hs
  have hused := s.some_used
  omega

/-- A chunk whose objects are all free would have been given back. -/
theorem Inv.liveIn_held (hi : Inv w a) {k : Block} (hk : k ∈ w.held) : 0 < w.liveIn k := by
  obtain ⟨⟨s, hs, hgroup⟩, hcount⟩ := (hi.held_iff k).mp hk
  obtain ⟨i, hi', hnot⟩ := List.exists_notMem_of_length_lt s.some_used
  have hu : a.Used k.group k.base i := ⟨s, hs, hgroup, hgroup ▸ hi', hnot⟩
  have hpos := hi.liveIn_pos hu
  rwa [← hcount] at hpos

/-- An object is the only live one of its block when it is the chunk's only used one. -/
theorem Inv.liveIn_eq_one_iff (hi : Inv w a) (hu : a.Used g b i) :
    w.liveIn ⟨g, b, (sizeClass g).pageCount⟩ = 1 ↔ ∀ j, a.Used g b j → j = i := by
  obtain ⟨s, hs, rfl, hi', hnot⟩ := hu
  have hsum := hi.liveIn_add_length hs
  have hnodup : (i :: s.frees).Nodup := List.nodup_cons.mpr ⟨hnot, s.nodup⟩
  have hbound : ∀ j ∈ i :: s.frees, j < (sizeClass s.group).objectCount := by
    intro j hj
    rcases List.mem_cons.mp hj with rfl | hj
    · exact hi'
    · exact s.lt_count j hj
  constructor
  · intro hone j hj
    obtain ⟨_, hj', hjnot⟩ := (AbsHeap.used_iff hs).mp hj
    have hall := List.mem_of_nodup_of_length_eq hnodup hbound
      (by rw [List.length_cons]; omega) hj'
    exact (List.mem_cons.mp hall).resolve_right hjnot
  · intro honly
    by_cases hlt : (i :: s.frees).length < (sizeClass s.group).objectCount
    · -- some object is neither `i` nor free
      obtain ⟨j, hj, hjnot⟩ := List.exists_notMem_of_length_lt hlt
      simp only [List.mem_cons, not_or] at hjnot
      exact absurd (honly j ((AbsHeap.used_iff hs).mpr ⟨rfl, hj, hjnot.2⟩)) hjnot.1
    · have hle := List.length_le_of_nodup_of_lt hnodup hbound
      rw [List.length_cons] at hlt hle
      omega

/-- A live pointer lies in the block of its chunk and in no other one. -/
theorem Inv.block_unique (hi : Inv w a) (hu : a.Used g b i) {k : Block} (hk : k ∈ w.held)
    (hin : k.Contains (HeapChunk.dataAddr (sizeClass g) b i)) :
    k = ⟨g, b, (sizeClass g).pageCount⟩ := by
  obtain ⟨hheld, hcount⟩ := (hi.held_iff k).mp hk
  obtain ⟨group, base, count⟩ := k
  simp only at hheld hcount
  subst hcount
  have hin' := dataAddr_inBlock (b := b) (fits_sizeClass g) hu.lt_count
  obtain ⟨rfl, rfl⟩ := hi.rep.inv.held_unique hu.held hheld hin' hin
  rfl

/-- Page accounting in every reachable world: the blocks held are the chunks with a live
    object, `free` gives a block back exactly when its last live object goes, as it was
    obtained, and over the whole history no block is given back more often than obtained. -/
theorem pages_exact (hw : machine.Reachable w) :
    (∀ k ∈ w.held, 0 < w.liveIn k) ∧
      (∀ q ∈ w.live, ∃ k ∈ w.held, k.Contains q.1 ∧ ∀ k' ∈ w.held, k'.Contains q.1 → k' = k) ∧
      (∀ ptr, w.Legal (.free ptr) → ∃ o w', w.step (.free ptr) = .ok (o, w') ∧
        ∀ k ∈ w.held, k.Contains ptr →
          o.calls = if w.liveIn k = 1 then [.freePages k.base k.count] else []) ∧
      (∀ size p, w.Legal (.alloc size p) → ∃ o w', w.step (.alloc size p) = .ok (o, w') ∧
        ∀ base count, .freePages base count ∉ o.calls) ∧
      (∀ base count, base ≠ 0 →
        timesObtained w.history base count =
          timesReturned w.history base count + timesHeld w.held base count) ∧
      w.held.Nodup ∧ (w.live = [] → w.held = []) := by
  obtain ⟨a, hi⟩ := reachable_inv hw
  have hlive : ∀ k ∈ w.held, 0 < w.liveIn k := fun k hk => hi.liveIn_held hk
  refine ⟨hlive, ?_, ?_, ?_, hi.balance, hi.held_nodup, ?_⟩
  · intro q hq
    obtain ⟨g, b, i, hu, hptr, _⟩ := hi.live_used q hq
    refine ⟨_, hi.block_mem hu.held, ?_, ?_⟩
    · rw [hptr]
      exact dataAddr_inBlock (fits_sizeClass g) hu.lt_count
    · intro k' hk' hin
      rw [hptr] at hin
      exact hi.block_unique hu hk' hin
  · intro ptr hl
    obtain ⟨o, w', g, a', b, i, hstep, hu, rfl, hfreed, _, _⟩ := hi.free hl
    refine ⟨o, w', hstep, ?_⟩
    intro k hk hin
    have heq := hi.block_unique hu hk hin
    rw [heq]
    have hone := hi.liveIn_eq_one_iff hu
    rcases hfreed.pages with ⟨hcalls, ⟨j, hj, hused⟩, _⟩ | ⟨hcalls, honly, _⟩
    · have hne : w.liveIn ⟨g, b, (sizeClass g).pageCount⟩ ≠ 1 := by
        intro h1
        exact hj (hone.mp h1 j hused)
      rw [if_neg hne, hcalls]
    · -- the object was the last one in use, and the chunk goes back
      rw [if_pos (hone.mpr honly), hcalls]
  · intro size p hl
    obtain ⟨o, w', hstep, hcase⟩ := hi.alloc hl
    refine ⟨o, w', hstep, ?_⟩
    intro base count hmem
    rcases hcase with ⟨_, hcalls | ⟨g, hcalls⟩, _⟩ | ⟨g, a', b, i, _, halloc, _⟩
    · simp [hcalls] at hmem
    · simp [hcalls] at hmem
    · rcases halloc.pages with ⟨hcalls, _⟩ | ⟨hcalls, _⟩
      · simp [hcalls] at hmem
      · simp [hcalls] at hmem
  · intro hnil
    apply List.eq_nil_iff_forall_not_mem.mpr
    intro k hk
    have hpos := hlive k hk
    simp [World.liveIn, hnil] at hpos

/-- The last object of a chunk is freed, and its page goes back. -/
theorem pages_exact_busy : ∃ o w', World.busy.step (.free 0x40080C) = .ok (o, w') ∧
    o.calls = [.freePages 0x400000 1] := by
  obtain ⟨-, -, hfree, -⟩ := pages_exact World.busy_reachable
  have hlegal : World.busy.Legal (.free 0x40080C) := by
    refine ⟨2000, ?_⟩
    rw [World.busy_live]
    decide
  obtain ⟨o, w', hstep, hcalls⟩ := hfree 0x40080C hlegal
  refine ⟨o, w', hstep, ?_⟩
  rw [hcalls ⟨bigGroup, 0x400000, 1⟩ (by rw [World.busy_held]; decide) (by decide),
    if_pos (by rw [World.liveIn, World.busy_live]; decide)]

end Safety

end TimbOS.Native.KHeap
