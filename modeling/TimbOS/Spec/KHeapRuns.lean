import TimbOS.ForStd.Transition
import TimbOS.Spec.KHeapAlloc
import TimbOS.Spec.KHeapFree

/-!
# Runs of the kernel heap

The heap together with its clients and the page allocator: clients allocate, free live
pointers and write to their objects, and the page allocator answers with any block it
has not handed out. `World` keeps the two sides' accounts, the live pointers and the
blocks the heap holds.

## Key results

- `Inv.alloc`, `Inv.free`, `Inv.write`: what the three kinds of steps do
- `Inv.step`, `reachable_inv`: the invariant of the whole, and no legal call faults
-/

namespace TimbOS.Native.KHeap

open ForStd

/-! ## The heap and its environment -/

/-- Pages that `mm::alloc_pages( count )` handed to a group. -/
structure Block where
  group : Group
  base : Nat
  count : Nat
  deriving DecidableEq, Repr

namespace Block

/-- Byte `x` is one of the block's. -/
def Contains (k : Block) (x : Nat) : Prop := k.base ≤ x ∧ x < k.base + k.count * pageSize

instance (k : Block) (x : Nat) : Decidable (k.Contains x) := inferInstanceAs (Decidable (_ ∧ _))

/-- Byte `x` belongs to a `heap_chunk` or `heap_object` header of the block. -/
def Header (k : Block) (x : Nat) : Prop := IsHeader (sizeClass k.group) k.base x

end Block

/-- What a call to the page allocator does to the blocks that are handed out. -/
def PageCall.settle (held : List Block) : PageCall → List Block
  | .allocPages g count result => if result = 0 then held else ⟨g, result, count⟩ :: held
  | .freePages addr count => held.filter fun k => ¬ (k.base = addr ∧ k.count = count)

/-- The heap, its live pointers with the requested sizes, and the blocks it holds. -/
structure World where
  heap : Heap
  live : List (Nat × Nat)
  held : List Block
  /-- All calls to the page allocator, last one first. -/
  history : List PageCall

/-- What happens next. -/
inductive Op where
  /-- `mm::heap::alloc( size )`, where `mm::alloc_pages` returns `p` if it is asked. -/
  | alloc (size p : Nat)
  /-- `mm::heap::free( ptr )` -/
  | free (ptr : Nat)
  /-- The clients and the rest of the system write to memory. -/
  | write (mem : Mem)

/-- The pointer that `alloc` returns, and the calls to the page allocator. -/
structure Outcome where
  ptr : Nat
  calls : List PageCall

namespace World

/-- A legal answer to `mm::alloc_pages( count )`: null, or a page-aligned block inside the
    address space that overlaps no block which is handed out. -/
def Supplies (w : World) (count p : Nat) : Prop :=
  p ≠ 0 → p % pageSize = 0 ∧ p + count * pageSize ≤ 2 ^ 32 ∧
    ∀ k ∈ w.held, p + count * pageSize ≤ k.base ∨ k.base + k.count * pageSize ≤ p

/-- What the environment promises. -/
def Legal (w : World) : Op → Prop
  | .alloc size p => ∀ g, findChunkGroup size = some g → w.Supplies (sizeClass g).pageCount p
  | .free ptr => ∃ size, (ptr, size) ∈ w.live
  | .write mem => ∀ x, mem x ≠ w.heap.mem x →
      (∃ ptr size, (ptr, size) ∈ w.live ∧ ptr ≤ x ∧ x < ptr + size) ∨
        ∀ k ∈ w.held, ¬ k.Contains x

def step (w : World) : Op → Except Fault (Outcome × World)
  | .alloc size p => do
    let (ptr, heap, calls) ← w.heap.alloc size p
    .ok (⟨ptr, calls⟩,
      { heap := heap
        live := if ptr = 0 then w.live else (ptr, size) :: w.live
        held := calls.foldl PageCall.settle w.held
        history := calls ++ w.history })
  | .free ptr => do
    let (heap, calls) ← w.heap.free ptr
    .ok (⟨0, calls⟩,
      { heap := heap
        live := w.live.filter fun q => q.1 ≠ ptr
        held := calls.foldl PageCall.settle w.held
        history := calls ++ w.history })
  | .write mem => .ok (⟨0, []⟩, { w with heap := { w.heap with mem := mem } })

/-- Empty groups, over whatever memory holds. -/
def Initial (w : World) : Prop :=
  (∀ g, w.heap.firstChunk g = 0) ∧ w.live = [] ∧ w.held = [] ∧ w.history = []

end World

/-- The heap as a machine. -/
def machine : Machine World Op Outcome Fault where
  init := World.Initial
  legal := World.Legal
  step := World.step

/-! ## The invariant -/

/-- How often `mm::alloc_pages( count )` returned the block at `base`. -/
def timesObtained (history : List PageCall) (base count : Nat) : Nat :=
  history.countP fun
    | .allocPages _ n p => p = base ∧ n = count
    | .freePages _ _ => false

/-- How often the block was given to `mm::free_pages`. -/
def timesReturned (history : List PageCall) (base count : Nat) : Nat :=
  history.count (.freePages base count)

def timesHeld (held : List Block) (base count : Nat) : Nat :=
  held.countP fun k => k.base = base ∧ k.count = count

/-- The world agrees with the abstract heap `a`. -/
structure Inv (w : World) (a : AbsHeap) : Prop where
  rep : Represents w.heap a
  held_iff : ∀ k, k ∈ w.held ↔ a.Held k.group k.base ∧ k.count = (sizeClass k.group).pageCount
  held_nodup : w.held.Nodup
  live_used : ∀ q ∈ w.live, ∃ g b i, a.Used g b i ∧
    q.1 = HeapChunk.dataAddr (sizeClass g) b i ∧ q.2 ≤ (sizeClass g).objSize
  used_live : ∀ g b i, a.Used g b i →
    ∃ size, (HeapChunk.dataAddr (sizeClass g) b i, size) ∈ w.live
  live_nodup : (w.live.map Prod.fst).Nodup
  /-- Every block was returned as often as it was obtained, but for the time it is held. -/
  balance : ∀ base count, base ≠ 0 →
    timesObtained w.history base count =
      timesReturned w.history base count + timesHeld w.held base count

section Inv

variable {w w' : World} {a : AbsHeap} {g : Group} {b i size p ptr : Nat}

theorem Inv.init (h : w.Initial) : Inv w AbsHeap.init := by
  obtain ⟨hfirst, hlive, hheld, hhistory⟩ := h
  have hnone : ∀ g b, ¬ AbsHeap.init.Held g b := by
    intro g b hb
    obtain ⟨s, hs, _⟩ := hb
    cases hs
  refine ⟨?_, ?_, ?_, ?_, ?_, ?_, ?_⟩
  · have hheap : w.heap = ⟨w.heap.mem, fun _ => 0⟩ := by
      rw [← funext hfirst]
    rw [hheap]
    exact represents_init _
  · intro k
    rw [hheld]
    constructor
    · intro hk
      cases hk
    · intro hk
      exact absurd hk.1 (hnone _ _)
  · rw [hheld]
    exact List.nodup_nil
  · rw [hlive]
    intro q hq
    cases hq
  · intro g b i hu
    exact absurd hu.held (hnone g b)
  · rw [hlive]
    exact List.nodup_nil
  · intro base count _
    rw [hheld, hhistory]
    rfl

/-- A held chunk as a block of pages. -/
theorem Inv.block_mem (hi : Inv w a) (hb : a.Held g b) :
    ⟨g, b, (sizeClass g).pageCount⟩ ∈ w.held :=
  (hi.held_iff _).mpr ⟨hb, rfl⟩

/-- A legal answer of the page allocator is a place for a new chunk. -/
theorem Inv.placed (hi : Inv w a) (hp : p ≠ 0)
    (hs : w.Supplies (sizeClass g).pageCount p) : a.Placed g p ∧ a.chunk p = none := by
  obtain ⟨haligned, hbound, hdis⟩ := hs hp
  have hblocks : ∀ g' b', a.Held g' b' → BlocksDisjoint g p g' b' := by
    intro g' b' hb'
    exact hdis _ (hi.block_mem hb')
  constructor
  · refine ⟨haligned, Nat.pos_of_ne_zero hp, hbound, ?_⟩
    intro b' s' hs' _
    exact hblocks s'.group b' ⟨s', hs', rfl⟩
  · cases hchunk : a.chunk p with
    | none => rfl
    | some s =>
      -- a chunk there would overlap the block
      have hself := hblocks s.group p ⟨s, hchunk, rfl⟩
      have hroom := (fits_sizeClass g).room
      have hroom' := (fits_sizeClass s.group).room
      simp only [BlocksDisjoint] at hself
      omega

theorem timesObtained_append (calls history : List PageCall) (base count : Nat) :
    timesObtained (calls ++ history) base count =
      timesObtained calls base count + timesObtained history base count :=
  List.countP_append

theorem timesReturned_append (calls history : List PageCall) (base count : Nat) :
    timesReturned (calls ++ history) base count =
      timesReturned calls base count + timesReturned history base count :=
  List.count_append

/-- A held chunk's block is in the account once. -/
theorem Inv.timesHeld_eq_one (hi : Inv w a) (hb : a.Held g b) :
    timesHeld w.held b (sizeClass g).pageCount = 1 := by
  have hmem := hi.block_mem hb
  rw [← List.count_eq_one_of_mem hi.held_nodup hmem]
  apply List.countP_congr
  intro k hk
  obtain ⟨hheld, _⟩ := (hi.held_iff k).mp hk
  simp only [decide_eq_true_eq, beq_iff_eq]
  constructor
  · intro heq
    obtain ⟨group, base, count⟩ := k
    obtain ⟨hbase, hcount⟩ := heq
    simp only at hbase hcount hheld
    subst hbase hcount
    rw [hb.group_eq hheld]
  · intro heq
    rw [heq]
    exact ⟨rfl, rfl⟩

/-- Pages that are obtained are held. -/
theorem timesHeld_settle_alloc (held : List Block) (g : Group) {b n : Nat} (hb : b ≠ 0)
    (base count : Nat) :
    timesHeld (PageCall.settle held (.allocPages g n b)) base count =
      timesHeld held base count + timesObtained [.allocPages g n b] base count := by
  show timesHeld (if b = 0 then held else _) base count = _
  simp [if_neg hb, timesHeld, timesObtained, List.countP_cons]

/-- Pages that are returned were held, if the account has them once. -/
theorem timesHeld_settle_free {held : List Block} {b n : Nat} (hone : timesHeld held b n = 1)
    (base count : Nat) :
    timesHeld held base count =
      timesReturned [.freePages b n] base count +
        timesHeld (PageCall.settle held (.freePages b n)) base count := by
  have hfilter : timesHeld (PageCall.settle held (.freePages b n)) base count =
      held.countP fun k => (k.base = base ∧ k.count = count) ∧ ¬ (k.base = b ∧ k.count = n) := by
    show timesHeld (held.filter _) base count = _
    simp only [timesHeld, List.countP_filter, Bool.decide_and]
  rw [hfilter]
  by_cases heq : b = base ∧ n = count
  · -- the one held block is the one that goes back
    obtain ⟨rfl, rfl⟩ := heq
    have hreturned : timesReturned [.freePages b n] b n = 1 := by
      simp [timesReturned]
    have hzero : (held.countP fun k => (k.base = b ∧ k.count = n) ∧
        ¬ (k.base = b ∧ k.count = n)) = 0 := by
      simp
    rw [hreturned, hzero, hone]
  · have hreturned : timesReturned [.freePages b n] base count = 0 := by
      simp only [timesReturned, List.count_eq_zero, List.mem_singleton, PageCall.freePages.injEq]
      intro h
      exact heq ⟨h.1.symm, h.2.symm⟩
    have hsame : (held.countP fun k => (k.base = base ∧ k.count = count) ∧
        ¬ (k.base = b ∧ k.count = n)) = timesHeld held base count := by
      apply List.countP_congr
      intro k _
      simp only [decide_eq_true_eq]
      constructor
      · intro hk
        exact hk.1
      · intro hk
        refine ⟨hk, ?_⟩
        intro hk'
        exact heq ⟨hk'.1.symm.trans hk.1, hk'.2.symm.trans hk.2⟩
    rw [hreturned, hsame, Nat.zero_add]

/-- Handing out an object keeps the invariant. -/
theorem Inv.allocated {h' : Heap} {a' : AbsHeap} {calls : List PageCall} (hi : Inv w a)
    (ha : Allocated w.heap h' a a' g b i calls) (hsize : size ≤ (sizeClass g).objSize) :
    Inv { heap := h'
          live := (HeapChunk.dataAddr (sizeClass g) b i, size) :: w.live
          held := calls.foldl PageCall.settle w.held
          history := calls ++ w.history } a' := by
  have hused : a'.Used g b i := (ha.used g b i).mpr (Or.inr ⟨rfl, rfl, rfl⟩)
  have hpos : b ≠ 0 := Nat.ne_of_gt (ha.rep.inv.held_placed hused.held).pos
  have hmono : ∀ g' b' i', a.Used g' b' i' → a'.Used g' b' i' := by
    intro g' b' i' hu
    exact (ha.used g' b' i').mpr (Or.inl hu)
  refine ⟨ha.rep, ?_, ?_, ?_, ?_, ?_, ?_⟩
  · intro k
    rw [ha.held]
    rcases ha.pages with ⟨rfl, hheld⟩ | ⟨rfl, _⟩
    · show k ∈ w.held ↔ _
      rw [hi.held_iff]
      constructor
      · intro hk
        exact ⟨Or.inl hk.1, hk.2⟩
      · rintro ⟨hk | ⟨hg, hb⟩, hcount⟩
        · exact ⟨hk, hcount⟩
        · rw [hg, hb]
          exact ⟨hheld, hg ▸ hcount⟩
    · show k ∈ (if b = 0 then w.held else _) ↔ _
      rw [if_neg hpos, List.mem_cons, hi.held_iff]
      obtain ⟨group, base, count⟩ := k
      simp only [Block.mk.injEq]
      constructor
      · rintro (⟨rfl, rfl, rfl⟩ | hk)
        · exact ⟨Or.inr ⟨rfl, rfl⟩, rfl⟩
        · exact ⟨Or.inl hk.1, hk.2⟩
      · rintro ⟨hk | ⟨rfl, rfl⟩, hcount⟩
        · exact Or.inr ⟨hk, hcount⟩
        · exact Or.inl ⟨rfl, rfl, hcount⟩
  · rcases ha.pages with ⟨rfl, _⟩ | ⟨rfl, hnew⟩
    · exact hi.held_nodup
    · show (if b = 0 then w.held else _).Nodup
      rw [if_neg hpos, List.nodup_cons]
      refine ⟨?_, hi.held_nodup⟩
      intro hmem
      exact hnew g ((hi.held_iff _).mp hmem).1
  · intro q hq
    rcases List.mem_cons.mp hq with rfl | hq
    · exact ⟨g, b, i, hused, rfl, hsize⟩
    · obtain ⟨g', b', i', hu, hptr, hle⟩ := hi.live_used q hq
      exact ⟨g', b', i', hmono g' b' i' hu, hptr, hle⟩
  · intro g' b' i' hu
    rcases (ha.used g' b' i').mp hu with hu | ⟨rfl, rfl, rfl⟩
    · obtain ⟨n, hn⟩ := hi.used_live g' b' i' hu
      exact ⟨n, List.mem_cons_of_mem _ hn⟩
    · exact ⟨size, List.mem_cons_self⟩
  · -- a live pointer at that address would name the same object
    show (HeapChunk.dataAddr (sizeClass g) b i :: w.live.map Prod.fst).Nodup
    rw [List.nodup_cons]
    refine ⟨?_, hi.live_nodup⟩
    intro hmem
    obtain ⟨q, hq, hptr⟩ := List.mem_map.mp hmem
    obtain ⟨g', b', i', hu, hptr', _⟩ := hi.live_used q hq
    obtain ⟨rfl, rfl, rfl⟩ := ha.rep.inv.used_unique hused (hmono g' b' i' hu)
      (hptr'.symm.trans hptr)
    exact ha.fresh hu
  · intro base count hbase
    have hbal := hi.balance base count hbase
    show timesObtained (calls ++ w.history) base count =
      timesReturned (calls ++ w.history) base count + timesHeld (calls.foldl _ w.held) base count
    rw [timesObtained_append, timesReturned_append, hbal]
    rcases ha.pages with ⟨rfl, _⟩ | ⟨rfl, _⟩
    · show 0 + (_ + timesHeld w.held base count) = 0 + _ + timesHeld w.held base count
      omega
    · have hheld := timesHeld_settle_alloc w.held g (n := (sizeClass g).pageCount) hpos base count
      have hreturned : timesReturned [.allocPages g (sizeClass g).pageCount b] base count = 0 :=
        rfl
      rw [List.foldl_cons, List.foldl_nil, hheld, hreturned]
      omega

/-- Taking an object back keeps the invariant. -/
theorem Inv.freed {h' : Heap} {a' : AbsHeap} {calls : List PageCall} (hi : Inv w a)
    (hu : a.Used g b i) (hf : Freed w.heap h' a a' g b i calls) :
    Inv { heap := h'
          live := w.live.filter fun q => q.1 ≠ HeapChunk.dataAddr (sizeClass g) b i
          held := calls.foldl PageCall.settle w.held
          history := calls ++ w.history } a' := by
  have hgroup : ∀ k ∈ w.held, k.base = b → k.group = g ∧ k.count = (sizeClass g).pageCount := by
    intro k hk hbase
    obtain ⟨hheld, hcount⟩ := (hi.held_iff k).mp hk
    rw [hbase] at hheld
    have hg := hu.held.group_eq hheld
    rw [hg] at hcount
    exact ⟨hg, hcount⟩
  -- a live pointer names its object: two used objects have different data addresses
  have hptr : ∀ g' b' i', a.Used g' b' i' →
      (HeapChunk.dataAddr (sizeClass g') b' i' ≠ HeapChunk.dataAddr (sizeClass g) b i ↔
        ¬ (g' = g ∧ b' = b ∧ i' = i)) := by
    intro g' b' i' hu'
    constructor
    · rintro hne ⟨rfl, rfl, rfl⟩
      exact hne rfl
    · intro hne heq
      exact hne (hi.rep.inv.used_unique hu hu' heq)
  refine ⟨hf.rep, ?_, ?_, ?_, ?_, ?_, ?_⟩
  · intro k
    rcases hf.pages with ⟨rfl, _, hheld⟩ | ⟨rfl, _, hheld⟩
    · rw [hheld]
      exact hi.held_iff k
    · show k ∈ w.held.filter _ ↔ _
      simp only [List.mem_filter, decide_eq_true_eq, hheld]
      rw [hi.held_iff]
      constructor
      · -- a block that stays in `held` has another base than the one given back
        rintro ⟨⟨hk, hcount⟩, hne⟩
        refine ⟨⟨hk, ?_⟩, hcount⟩
        intro hbase
        exact hne ⟨hbase, (hgroup k ((hi.held_iff k).mpr ⟨hk, hcount⟩) hbase).2⟩
      · rintro ⟨⟨hk, hne⟩, hcount⟩
        exact ⟨⟨hk, hcount⟩, fun heq => hne heq.1⟩
  · rcases hf.pages with ⟨rfl, _, _⟩ | ⟨rfl, _, _⟩
    · exact hi.held_nodup
    · exact hi.held_nodup.filter _
  · intro q hq
    simp only [List.mem_filter, decide_eq_true_eq] at hq
    obtain ⟨g', b', i', hu', hq', hle⟩ := hi.live_used q hq.1
    rw [hq'] at hq
    exact ⟨g', b', i', (hf.used g' b' i').mpr ⟨hu', (hptr g' b' i' hu').mp hq.2⟩, hq', hle⟩
  · intro g' b' i' hu'
    obtain ⟨hu', hne⟩ := (hf.used g' b' i').mp hu'
    obtain ⟨n, hn⟩ := hi.used_live g' b' i' hu'
    refine ⟨n, ?_⟩
    simp only [List.mem_filter, decide_eq_true_eq]
    exact ⟨hn, (hptr g' b' i' hu').mpr hne⟩
  · exact hi.live_nodup.sublist ((List.filter_sublist).map Prod.fst)
  · -- the balance: giving a block back moves it from held to returned
    intro base count hbase
    have hbal := hi.balance base count hbase
    show timesObtained (calls ++ w.history) base count =
      timesReturned (calls ++ w.history) base count + timesHeld (calls.foldl _ w.held) base count
    rw [timesObtained_append, timesReturned_append, hbal]
    rcases hf.pages with ⟨rfl, _, _⟩ | ⟨rfl, _, _⟩
    · show 0 + (_ + timesHeld w.held base count) = 0 + _ + timesHeld w.held base count
      omega
    · have hheld := timesHeld_settle_free (hi.timesHeld_eq_one hu.held) base count
      have hobtained : timesObtained [.freePages b (sizeClass g).pageCount] base count = 0 := rfl
      rw [List.foldl_cons, List.foldl_nil, hobtained]
      omega

/-! ## Steps -/

/-- A call of `mm::heap::alloc` returns null and leaves everything as it was, or hands
    out an object of at least the requested size. -/
theorem Inv.alloc (hi : Inv w a) (hl : w.Legal (.alloc size p)) :
    ∃ o w', w.step (.alloc size p) = .ok (o, w') ∧
      ((o.ptr = 0 ∧ (o.calls = [] ∨ ∃ g, o.calls = [.allocPages g (sizeClass g).pageCount 0]) ∧
          w'.heap = w.heap ∧ w'.live = w.live ∧ Inv w' a) ∨
        ∃ g a' b i, o.ptr = HeapChunk.dataAddr (sizeClass g) b i ∧
          Allocated w.heap w'.heap a a' g b i o.calls ∧ w'.live = (o.ptr, size) :: w.live ∧
          Inv w' a') := by
  obtain ⟨ptr, h', calls, hrun, hcase⟩ := hi.rep.alloc size (p := p) (by
    intro g hg _ hp
    exact hi.placed hp (hl g hg))
  have hstep : w.step (.alloc size p) = .ok (⟨ptr, calls⟩,
      { heap := h'
        live := if ptr = 0 then w.live else (ptr, size) :: w.live
        held := calls.foldl PageCall.settle w.held
        history := calls ++ w.history }) := by
    simp only [World.step, hrun, bind, Except.bind]
  refine ⟨_, _, hstep, ?_⟩
  rcases hcase with ⟨rfl, rfl, hcalls⟩ | ⟨g, a', b, i, hg, rfl, halloc⟩
  · refine Or.inl ⟨rfl, hcalls, rfl, rfl, ?_⟩
    -- a supplier that has nothing changes no account
    have hheld : calls.foldl PageCall.settle w.held = w.held := by
      rcases hcalls with rfl | ⟨g, rfl⟩
      · rfl
      · rfl
    have hbalance : ∀ base count, base ≠ 0 →
        timesObtained (calls ++ w.history) base count =
          timesReturned (calls ++ w.history) base count + timesHeld w.held base count := by
      intro base count hbase
      rw [timesObtained_append, timesReturned_append, hi.balance base count hbase]
      rcases hcalls with rfl | ⟨g, rfl⟩
      · show 0 + (_ + timesHeld w.held base count) = 0 + _ + timesHeld w.held base count
        omega
      · have hobtained :
            timesObtained [.allocPages g (sizeClass g).pageCount 0] base count = 0 := by
          simp [timesObtained, Ne.symm hbase]
        have hreturned : timesReturned [.allocPages g (sizeClass g).pageCount 0] base count = 0 :=
          rfl
        rw [hobtained, hreturned]
        omega
    rw [hheld]
    exact ⟨hi.rep, hi.held_iff, hi.held_nodup, hi.live_used, hi.used_live, hi.live_nodup, hbalance⟩
  · -- data never starts at address 0, since a header comes first
    have hpos : HeapChunk.dataAddr (sizeClass g) b i ≠ 0 := by
      have hge := objAddr_ge (sizeClass g) b i
      simp only [HeapChunk.dataAddr]
      omega
    rw [if_neg hpos]
    exact Or.inr ⟨g, a', b, i, rfl, halloc, rfl,
      hi.allocated halloc (le_objSize_of_findChunkGroup hg)⟩

/-- A call of `mm::heap::free` with a live pointer takes its object back, and marks it. -/
theorem Inv.free (hi : Inv w a) (hl : w.Legal (.free ptr)) :
    ∃ o w' g a' b i, w.step (.free ptr) = .ok (o, w') ∧ a.Used g b i ∧
      ptr = HeapChunk.dataAddr (sizeClass g) b i ∧ Freed w.heap w'.heap a a' g b i o.calls ∧
      w'.live = (w.live.filter fun q => q.1 ≠ ptr) ∧ Inv w' a' ∧
      ∀ j, j < (sizeClass g).objectCount → ¬ a'.Used g b j →
        w'.heap.mem.load32 (HeapChunk.objAddr (sizeClass g) b j) =
          HeapObjectStatus.free.value := by
  obtain ⟨size, hmem⟩ := hl
  obtain ⟨g, b, i, hu, hptr, _⟩ := hi.live_used _ hmem
  obtain ⟨h', a', calls, hrun, hfreed, hmarked⟩ := hi.rep.free hu
  simp only at hptr
  subst hptr
  have hstep : w.step (.free (HeapChunk.dataAddr (sizeClass g) b i)) = .ok (⟨0, calls⟩,
      { heap := h'
        live := w.live.filter fun q => q.1 ≠ HeapChunk.dataAddr (sizeClass g) b i
        held := calls.foldl PageCall.settle w.held
        history := calls ++ w.history }) := by
    simp only [World.step, hrun, bind, Except.bind]
  exact ⟨_, _, g, a', b, i, hstep, hu, rfl, hfreed, rfl, hi.freed hu hfreed, hmarked⟩

/-- Writes to live objects and outside the heap's blocks do not reach the headers. -/
theorem Inv.write {mem : Mem} (hi : Inv w a) (hl : w.Legal (.write mem)) :
    Inv { w with heap := { w.heap with mem := mem } } a := by
  refine ⟨hi.rep.client ?_, hi.held_iff, hi.held_nodup, hi.live_used, hi.used_live, hi.live_nodup,
    hi.balance⟩
  rintro x ⟨g, b, hb, hhead⟩
  by_cases hsame : mem x = w.heap.mem x
  · exact hsame
  · rcases hl x hsame with ⟨ptr, size, hmem, hlo, hhi⟩ | hout
    · obtain ⟨g', b', i', hu, hptr, hle⟩ := hi.live_used _ hmem
      simp only at hptr hle
      subst hptr
      exact absurd hhead (hi.rep.inv.used_not_header hu hlo (by omega) hb)
    · exact absurd (hhead.inBlock (fits_sizeClass g)) (hout _ (hi.block_mem hb))

/-- A legal call never faults, and keeps the invariant. -/
theorem Inv.step {op : Op} (hi : Inv w a) (hl : w.Legal op) :
    ∃ o w', w.step op = .ok (o, w') ∧ ∃ a', Inv w' a' := by
  cases op with
  | alloc size p =>
    obtain ⟨o, w', hstep, hcase⟩ := hi.alloc hl
    rcases hcase with ⟨_, _, _, _, hinv⟩ | ⟨_, a', _, _, _, _, _, hinv⟩
    · exact ⟨o, w', hstep, a, hinv⟩
    · exact ⟨o, w', hstep, a', hinv⟩
  | free ptr =>
    obtain ⟨o, w', _, a', _, _, hstep, _, _, _, _, hinv, _⟩ := hi.free hl
    exact ⟨o, w', hstep, a', hinv⟩
  | write mem =>
    exact ⟨⟨0, []⟩, _, rfl, a, hi.write hl⟩

/-- Every reachable world agrees with an abstract heap. -/
theorem reachable_inv (hw : machine.Reachable w) : ∃ a, Inv w a := by
  apply hw.invariant (P := fun w => ∃ a, Inv w a)
  · intro w hinit
    exact ⟨AbsHeap.init, Inv.init hinit⟩
  · rintro w op o w' ⟨a, hi⟩ hl hs
    obtain ⟨o₂, w₂, hstep, hinv⟩ := hi.step hl
    have heq : w.step op = .ok (o, w') := hs
    rw [hstep] at heq
    cases heq
    exact hinv

end Inv

end TimbOS.Native.KHeap
