import TimbOS.Native.KernelMemory
import TimbOS.Spec.KHeapSafety
import TimbOS.Spec.PageAccounts

/-!
# The heap in the pages of the machine

The heap is safe with any page allocator that hands out separate blocks. Here it gets its pages
from the pools, whose bitmaps lie in the same memory, next to other owners of pages and
everything else that writes to memory.

## Key results

- `Inv.alloc`, `Inv.free`, `Inv.allocPages`, `Inv.freePages`, `Inv.write`: what every step keeps
- `reachable_inv`: the heap takes a run of its own, with answers that it may rely on
- `memory_sound`: the heap, the bitmaps and the frames in use in every reachable world
-/

namespace TimbOS.Native.KHeap

/-! ## The bytes that a call writes -/

section Bytes

variable {w w' : World} {a : AbsHeap} {o : Outcome} {size p ptr x : Nat}

/-- `alloc` writes inside of the blocks that are held behind it. -/
theorem Inv.mem_alloc (hi : Inv w a) (hl : w.Legal (.alloc size p))
    (hs : w.step (.alloc size p) = .ok (o, w')) (hx : ∀ k ∈ w'.held, ¬ k.Contains x) :
    w'.heap.mem x = w.heap.mem x := by
  obtain ⟨o', w'', hstep, hcase⟩ := hi.alloc hl
  rw [hs] at hstep
  cases hstep
  rcases hcase with ⟨-, -, hheap, -⟩ | ⟨g, a', b, i, -, halloc, -, hi'⟩
  · rw [hheap]
  · apply halloc.agree
    intro hheader
    have hb : a'.Held g b := (halloc.held g b).mpr (.inr ⟨rfl, rfl⟩)
    exact hx _ (hi'.block_mem hb) (hheader.inBlock (fits_sizeClass g))

/-- `free` writes inside of the blocks that were held before. -/
theorem Inv.mem_free (hi : Inv w a) (hl : w.Legal (.free ptr))
    (hs : w.step (.free ptr) = .ok (o, w')) (hx : ∀ k ∈ w.held, ¬ k.Contains x) :
    w'.heap.mem x = w.heap.mem x := by
  obtain ⟨o', w'', g, a', b, i, hstep, -, -, hfreed, -⟩ := hi.free hl
  rw [hs] at hstep
  cases hstep
  apply hfreed.agree
  intro g' b' hb hheader
  exact hx _ (hi.block_mem hb) (hheader.inBlock (fits_sizeClass g'))

end Bytes

/-! ## The calls of a step -/

section Calls

variable {h h' : Heap} {g : Group} {w w' : World} {o : Outcome} {size p ptr : Nat}
  {calls : List PageCall}

/-- A new chunk takes one call. -/
theorem allocFromNew_calls (hrun : HeapChunkGroup.allocFromNew h g p = .ok (ptr, h', calls)) :
    calls = [.allocPages g (sizeClass g).pageCount p] := by
  rw [HeapChunkGroup.allocFromNew] at hrun
  by_cases hp : p = 0
  · simp only [if_pos hp] at hrun
    cases hrun
    rfl
  · simp only [if_neg hp] at hrun
    cases halloc : HeapChunk.alloc (sizeClass g) (HeapChunk.construct (sizeClass g) h.mem p) p with
    | error fault =>
      simp only [halloc, bind, Except.bind] at hrun
      cases hrun
    | ok r =>
      simp only [halloc, bind, Except.bind] at hrun
      split at hrun <;> cases hrun <;> rfl

/-- A chunk that is chained takes none. -/
theorem alloc_calls_of_chained (hfirst : h.firstChunk g ≠ 0)
    (hrun : HeapChunkGroup.alloc h g p = .ok (ptr, h', calls)) : calls = [] := by
  rw [HeapChunkGroup.alloc] at hrun
  simp only [if_pos hfirst] at hrun
  cases halloc : HeapChunk.alloc (sizeClass g) h.mem (h.firstChunk g) with
  | error fault =>
    simp only [halloc, bind, Except.bind] at hrun
    cases hrun
  | ok r =>
    simp only [halloc, bind, Except.bind] at hrun
    split at hrun <;> cases hrun <;> rfl

/-- A step of the heap is a call of `alloc` and what it says about the accounts. -/
theorem World.step_alloc (hs : w.step (.alloc size p) = .ok (o, w')) :
    w.heap.alloc size p = .ok (o.ptr, w'.heap, o.calls) ∧
      w' = ⟨w'.heap, if o.ptr = 0 then w.live else (o.ptr, size) :: w.live,
        o.calls.foldl PageCall.settle w.held, o.calls ++ w.history⟩ := by
  cases hrun : w.heap.alloc size p with
  | error fault =>
    simp only [World.step, hrun, bind, Except.bind] at hs
    cases hs
  | ok r =>
    simp only [World.step, hrun, bind, Except.bind] at hs
    cases hs
    exact ⟨rfl, rfl⟩

theorem World.step_free (hs : w.step (.free ptr) = .ok (o, w')) :
    w.heap.free ptr = .ok (w'.heap, o.calls) ∧
      w' = ⟨w'.heap, w.live.filter fun q => q.1 ≠ ptr,
        o.calls.foldl PageCall.settle w.held, o.calls ++ w.history⟩ := by
  cases hrun : w.heap.free ptr with
  | error fault =>
    simp only [World.step, hrun, bind, Except.bind] at hs
    cases hs
  | ok r =>
    simp only [World.step, hrun, bind, Except.bind] at hs
    cases hs
    exact ⟨rfl, rfl⟩

/-- The pages that go back are those of one block. -/
theorem Inv.settle_free {a : AbsHeap} {b : Nat} (hi : Inv w a) (hb : a.Held g b) :
    w.held.Perm (⟨g, b, (sizeClass g).pageCount⟩ ::
      PageCall.settle w.held (.freePages b (sizeClass g).pageCount)) := by
  have herase : PageCall.settle w.held (.freePages b (sizeClass g).pageCount) =
      w.held.erase ⟨g, b, (sizeClass g).pageCount⟩ := by
    rw [hi.held_nodup.erase_eq_filter]
    apply List.filter_congr
    intro k hk
    obtain ⟨hheld, hcount⟩ := (hi.held_iff k).mp hk
    obtain ⟨group, base, count⟩ := k
    have hone : (base = b ∧ count = (sizeClass g).pageCount) ↔
        (⟨group, base, count⟩ : Block) = ⟨g, b, (sizeClass g).pageCount⟩ := by
      constructor
      · rintro ⟨rfl, rfl⟩
        have hgroup : group = g := hb.group_eq hheld
        rw [hgroup]
      · intro heq
        cases heq
        exact ⟨rfl, rfl⟩
    rw [Bool.eq_iff_iff, decide_eq_true_iff, bne_iff_ne]
    exact not_congr hone
  rw [herase]
  exact List.perm_cons_erase (hi.block_mem hb)

end Calls

end TimbOS.Native.KHeap

namespace TimbOS.Native.Mm

open ForStd KHeap
open Physical (State PoolId PhysicalPool Accounts KernelPools)

/-! ## The memory and its owners -/

/-- The page frames behind the pages at a virtual address. -/
def frames (addr count : Nat) : Physical.Block := ⟨kernelVirtualToPhysical addr, count⟩

/-- The page frames of the heap's blocks. -/
def heldFrames (held : List KHeap.Block) : List Physical.Block :=
  held.map fun k => frames k.base k.count

theorem mem_heldFrames {held : List KHeap.Block} {k : KHeap.Block} (hk : k ∈ held)
    (pages : List Physical.Block) : frames k.base k.count ∈ heldFrames held ++ pages :=
  List.mem_append_left pages (List.mem_map.mpr ⟨k, hk, rfl⟩)

/-- The pools, the heap with its accounts, and the blocks of the other owners of pages. -/
structure World where
  pool : PoolId → PhysicalPool
  heap : KHeap.World
  pages : List Physical.Block

inductive Op where
  /-- `mm::heap::alloc( size )` -/
  | alloc (size : Nat)
  /-- `mm::heap::free( ptr )` -/
  | free (ptr : Nat)
  /-- Another owner gets pages from the pool that is asked first. -/
  | allocPages (p : PoolId) (count align : Nat)
  /-- Another owner gives its pages back. -/
  | freePages (b : Physical.Block)
  /-- The owners of objects and pages, and everything else, write to memory. -/
  | write (mem : Mem)

namespace World

def memory (w : World) : KernelMemory := ⟨w.heap.heap.mem, w.pool, w.heap.heap.firstChunk⟩

/-- All blocks that are handed out. -/
def blocks (w : World) : List Physical.Block := heldFrames w.heap.held ++ w.pages

/-- The page allocator and its accounts. -/
def physical (w : World) : Physical.World := ⟨w.memory.physical, w.blocks⟩

def withMem (w : World) (mem : Mem) : World :=
  { w with heap := { w.heap with heap := { w.heap.heap with mem := mem } } }

def withPhysical (w : World) (s : State) : World := { w.withMem s.mem with pool := s.pool }

def step (w : World) : Op → Except KernelMemory.Fault (Nat × World)
  | .alloc size => do
    let (ptr, m, calls) ← w.memory.heapAlloc size
    .ok (ptr,
      { w with
        pool := m.pool
        heap :=
          { heap := m.heap
            live := if ptr = 0 then w.heap.live else (ptr, size) :: w.heap.live
            held := calls.foldl PageCall.settle w.heap.held
            history := calls ++ w.heap.history } })
  | .free ptr => do
    let (m, calls) ← w.memory.heapFree ptr
    .ok (0,
      { w with
        pool := m.pool
        heap :=
          { heap := m.heap
            live := w.heap.live.filter fun q => q.1 ≠ ptr
            held := calls.foldl PageCall.settle w.heap.held
            history := calls ++ w.heap.history } })
  | .allocPages p count align =>
    match w.memory.physical.allocPool p count align with
    | some (a, s) =>
      .ok (a, { w.withPhysical s with pages := if a = 0 then w.pages else ⟨a, count⟩ :: w.pages })
    | none => .error .pages
  | .freePages b =>
    .ok (0,
      { w.withPhysical (w.memory.physical.free b.addr b.pages) with pages := w.pages.erase b })
  | .write mem => .ok (0, w.withMem mem)

/-- What the callers promise. Live objects and blocks that one owns are freed, no call is served
    by a run that passes the end of its pool, and nobody writes to the bitmaps or to the chunks
    of the heap except for live objects. -/
def Legal (w : World) : Op → Prop
  | .alloc size => ∀ count, w.memory.pagesAsked size = some count →
      w.memory.physical.StaysInside count 1 PoolId.defaultPool.chain
  | .free ptr => ∃ size, (ptr, size) ∈ w.heap.live
  | .allocPages p count align =>
    w.physical.Callable (.alloc p count align) ∧ w.physical.Inside (.alloc p count align)
  | .freePages b => b ∈ w.pages
  | .write mem => ∀ x, mem x ≠ w.heap.heap.mem x →
      (∃ ptr size, (ptr, size) ∈ w.heap.live ∧ ptr ≤ x ∧ x < ptr + size) ∨
        ¬ w.memory.physical.BitmapByte x ∧ ∀ k ∈ w.heap.held, ¬ k.Contains x

end World

/-- The kernel's memory from the pools `s₀` on, with an empty heap. -/
def machine (s₀ : State) : Machine World Op Nat KernelMemory.Fault where
  init := fun w => w.memory.physical = s₀ ∧ w.heap.Initial ∧ w.pages = []
  legal := World.Legal
  step := World.step

/-- The pools as `mm::init` leaves them. -/
structure Boot (s₀ : State) : Prop where
  pools : KernelPools s₀
  framesUsed : s₀.KernelFramesUsed
  inv : Physical.Inv ⟨s₀, []⟩

/-- The object at `q` stays live, with the same data. -/
def World.Keeps (w w' : World) (q : Nat × Nat) : Prop :=
  q ∈ w'.heap.live ∧ w.heap.SameData w'.heap q

/-! ## The invariant -/

/-- Pages lie in the part of the address space through which the kernel sees its memory. -/
def Visible (addr count : Nat) : Prop :=
  kernelVirtualBase ≤ addr ∧ addr + count * pageSize ≤ kernelVirtualBase + kernelVirtualSizeMax

structure Inv (s₀ : State) (w : World) : Prop where
  heap : KHeap.machine.Reachable w.heap
  accounts : Accounts s₀ w.physical
  visible : ∀ k ∈ w.heap.held, Visible k.base k.count

section Inv

variable {s₀ s : State} {w w' : World} {k : KHeap.Block} {x : Nat}

theorem Visible.addr_eq {addr count : Nat} (h : Visible addr count) :
    kernelVirtualBase + (frames addr count).addr = addr := by
  obtain ⟨hlow, hhigh⟩ := h
  simp only [kernelVirtualBase, kernelVirtualSizeMax] at hlow hhigh
  simp only [frames, kernelVirtualToPhysical, sub32, kernelVirtualBase]
  omega

/-- The heap's blocks and the bitmaps have no byte in common. -/
theorem Visible.not_bitmapByte (hvisible : Visible k.base k.count) (hb : Boot s₀)
    {pw : Physical.World} (hacc : Accounts s₀ pw) (hk : frames k.base k.count ∈ pw.live)
    (hx : k.Contains x) : ¬ pw.state.BitmapByte x := by
  have haddr := hvisible.addr_eq
  obtain ⟨hlow, hhigh⟩ := hvisible
  obtain ⟨hfrom, hto⟩ := hx
  obtain ⟨a, rfl⟩ := Nat.exists_eq_add_of_le (Nat.le_trans hlow hfrom)
  have hpages : (frames k.base k.count).pages = k.count := rfl
  apply hacc.not_bitmapByte hb.framesUsed hk
  · omega
  · rw [hpages]
    omega
  · simp only [kernelVirtualBase, kernelVirtualSizeMax] at hto hhigh ⊢
    omega

theorem Inv.not_bitmapByte (hb : Boot s₀) (hi : Inv s₀ w) (hk : k ∈ w.heap.held)
    (hx : k.Contains x) : ¬ w.memory.physical.BitmapByte x :=
  (hi.visible k hk).not_bitmapByte hb hi.accounts (mem_heldFrames hk w.pages) hx

/-- Writes outside of the heap's blocks are none of its business. -/
theorem reachable_withMem {h : KHeap.World} (hr : KHeap.machine.Reachable h) {mem : Mem}
    (hmem : ∀ x, mem x ≠ h.heap.mem x → ∀ k ∈ h.held, ¬ k.Contains x) :
    KHeap.machine.Reachable { h with heap := { h.heap with mem := mem } } := by
  have hl : KHeap.machine.legal h (.write mem) := fun x hne => .inr (hmem x hne)
  exact hr.step hl rfl

/-- The heap does not see what the page allocator writes. -/
theorem Inv.reachable_withPhysical (hb : Boot s₀) (hi : Inv s₀ w)
    (hoff : w.memory.physical.AgreeOffBitmaps s) :
    KHeap.machine.Reachable (w.withPhysical s).heap := by
  apply reachable_withMem hi.heap
  intro x hne k hk hx
  exact hne (hoff x (hi.not_bitmapByte hb hk hx))

/-- What the page allocator writes is in no live object. -/
theorem Inv.sameData_withPhysical (hb : Boot s₀) (hi : Inv s₀ w)
    (hoff : w.memory.physical.AgreeOffBitmaps s) {q : Nat × Nat} (hq : q ∈ w.heap.live) :
    w.heap.SameData (w.withPhysical s).heap q := by
  obtain ⟨a, hinv⟩ := KHeap.reachable_inv hi.heap
  obtain ⟨k, hk, hfrom, hto⟩ := hinv.safe.inside q hq
  intro x hlow hhigh
  exact hoff x (hi.not_bitmapByte hb hk ⟨by omega, by omega⟩)

/-! ## Steps -/

/-- New pages for `count` frames at `p`, and the state `s` of the pools behind the call. -/
structure NewPages (s₀ : State) (w : World) (count p : Nat) (s : State) : Prop where
  pos : p ≠ 0
  aligned : p % pageSize = 0
  visible : Visible p count
  accounts : Accounts s₀ ⟨s, frames p count :: w.blocks⟩

/-- What a group gets for its request: nothing, or new pages for its request. -/
def Answer (s₀ : State) (w : World) (size p : Nat) (s : State) : Prop :=
  p = 0 ∧ s = w.memory.physical ∨
    ∃ count, w.memory.pagesAsked size = some count ∧ NewPages s₀ w count p s

/-- Every chunk takes a number of pages that a call may ask for. -/
theorem pageCount_bounds (g : Group) :
    0 < (sizeClass g).pageCount ∧ (sizeClass g).pageCount < 2 ^ 32 := by
  revert g
  decide

theorem pagesAsked_eq {m : KernelMemory} {size count : Nat} (h : m.pagesAsked size = some count) :
    ∃ g, findChunkGroup size = some g ∧ m.firstChunk g = 0 ∧ (sizeClass g).pageCount = count := by
  rw [KernelMemory.pagesAsked] at h
  cases hg : findChunkGroup size with
  | none =>
    rw [hg] at h
    cases h
  | some g =>
    rw [hg] at h
    by_cases hfirst : m.firstChunk g = 0
    · simp only [if_pos hfirst, Option.some.injEq] at h
      exact ⟨g, rfl, hfirst, h⟩
    · simp only [if_neg hfirst] at h
      cases h

/-- A run of frames in the first two pools, seen by the kernel. -/
theorem newPages_of_run (hb : Boot s₀) {a count first : Nat} {q : PoolId}
    (hq : q ∈ PoolId.defaultPool.chain) (hin : first + count ≤ s₀.numPageframes q)
    (hcount : 0 < count) (haddr : a = (s₀.pool q).frameStart first) (hne : a ≠ 0)
    (hacc : Accounts s₀ ⟨s, ⟨a, count⟩ :: w.blocks⟩) : NewPages s₀ w count (virtualOrNull a) s := by
  have hend := hb.pools.run_le (Physical.chain_ne_hiMemPool (by decide) hq) hin
  have haligned := hb.pools.frameStart_aligned (by omega : first < s₀.numPageframes q)
  rw [← haddr] at hend haligned
  simp only [kernelVirtualSizeMax, pageSize] at hend haligned
  obtain ⟨hvirtual, hnull, hback⟩ := Physical.virtual_spec hne
    (by simp only [kernelVirtualSizeMax]; omega)
  have hsum : kernelPhysicalToVirtual a = a + kernelVirtualBase := by
    simp only [kernelPhysicalToVirtual, add32, kernelVirtualBase]
    omega
  rw [hvirtual]
  refine ⟨hnull, ?_, ?_, ?_⟩
  · rw [hsum]
    simp only [kernelVirtualBase, pageSize]
    omega
  · simp only [Visible, hsum, kernelVirtualBase, kernelVirtualSizeMax, pageSize]
    omega
  · rw [frames, hback]
    exact hacc

/-- The page allocator answers, and writes to the bitmaps only. -/
theorem Inv.pagesFor (hb : Boot s₀) (hi : Inv s₀ w) {size : Nat} (hl : w.Legal (.alloc size)) :
    ∃ p s, w.memory.pagesFor size = some (p, s) ∧ w.memory.physical.AgreeOffBitmaps s ∧
      Answer s₀ w size p s := by
  cases hasked : w.memory.pagesAsked size with
  | none =>
    refine ⟨0, w.memory.physical, ?_, fun _ _ => rfl, .inl ⟨rfl, rfl⟩⟩
    simp only [KernelMemory.pagesFor, hasked]
  | some count =>
    obtain ⟨g, -, -, rfl⟩ := pagesAsked_eq hasked
    obtain ⟨hpos, hlt⟩ := pageCount_bounds g
    have hcall : w.physical.Callable (.alloc .defaultPool (sizeClass g).pageCount 1) :=
      ⟨hpos, hlt, by decide, by decide⟩
    obtain ⟨a, s, heq, hoff, hcase⟩ := hi.accounts.alloc hb.framesUsed hcall (hl _ hasked)
    have hanswer : w.memory.pagesFor size = some (virtualOrNull a, s) := by
      have halloc : w.memory.physical.alloc (sizeClass g).pageCount 1 = some (a, s) := heq
      simp only [KernelMemory.pagesFor, hasked, allocPages, halloc, Option.bind_eq_bind,
        Option.bind_some, pure]
    refine ⟨virtualOrNull a, s, hanswer, hoff, ?_⟩
    rcases hcase with ⟨rfl, rfl⟩ | ⟨hne, hacc, q, hq, first, hin, haddr⟩
    · exact .inl ⟨rfl, rfl⟩
    · exact .inr ⟨_, hasked, newPages_of_run hb hq hin hpos haddr hne hacc⟩

/-- New pages are an answer that the heap may rely on. -/
theorem NewPages.supplies {count p : Nat} (h : NewPages s₀ w count p s) (hb : Boot s₀)
    (hi : Inv s₀ w) : (w.withPhysical s).heap.Supplies count p := by
  intro _
  obtain ⟨hlow, hhigh⟩ := h.visible
  have haddr := h.visible.addr_eq
  refine ⟨h.aligned, ?_, ?_⟩
  · simp only [kernelVirtualBase, kernelVirtualSizeMax] at hhigh
    omega
  · intro k hk
    have haddr' := (hi.visible k hk).addr_eq
    have hpages : (frames p count).pages = count := rfl
    have hpages' : (frames k.base k.count).pages = k.count := rfl
    have hapart := h.accounts.apart hb.pools (mem_heldFrames hk w.pages)
    rw [hpages, hpages'] at hapart
    omega

/-- A call of `alloc` asks for pages exactly if no chunk of the group is chained. -/
theorem calls_of_asked {m : KernelMemory} {size p ptr count : Nat} {h : Heap}
    {calls : List PageCall} (hrun : m.heap.alloc size p = .ok (ptr, h, calls))
    (hasked : m.pagesAsked size = some count) : ∃ g, calls = [.allocPages g count p] := by
  obtain ⟨g, hg, hfirst, rfl⟩ := pagesAsked_eq hasked
  rw [Heap.alloc] at hrun
  simp only [hg] at hrun
  rw [HeapChunkGroup.alloc] at hrun
  simp only [KernelMemory.heap, hfirst, ne_eq, not_true_eq_false, if_false] at hrun
  exact ⟨g, allocFromNew_calls hrun⟩

theorem calls_of_not_asked {m : KernelMemory} {size p ptr : Nat} {h : Heap}
    {calls : List PageCall} (hrun : m.heap.alloc size p = .ok (ptr, h, calls))
    (hasked : m.pagesAsked size = none) : calls = [] := by
  rw [KernelMemory.pagesAsked] at hasked
  rw [Heap.alloc] at hrun
  cases hg : findChunkGroup size with
  | none =>
    simp only [hg] at hrun
    cases hrun
    rfl
  | some g =>
    simp only [hg] at hrun hasked
    by_cases hfirst : m.firstChunk g = 0
    · rw [if_pos hfirst] at hasked
      cases hasked
    · exact alloc_calls_of_chained hfirst hrun

/-- The blocks behind a call of `alloc`. -/
theorem Inv.alloc_blocks (hi : Inv s₀ w) {size p : Nat} {calls : List PageCall}
    (hanswer : Answer s₀ w size p s)
    (hnone : w.memory.pagesAsked size = none → calls = [])
    (hsome : ∀ count, w.memory.pagesAsked size = some count →
      ∃ g, calls = [.allocPages g count p]) :
    let held := calls.foldl PageCall.settle w.heap.held
    Accounts s₀ ⟨s, heldFrames held ++ w.pages⟩ ∧
      ∀ k ∈ held, Visible k.base k.count := by
  intro held
  rcases hanswer with ⟨rfl, rfl⟩ | ⟨count, hasked, hnew⟩
  · -- a call without an answer changes nothing
    have hheld : held = w.heap.held := by
      cases hasked : w.memory.pagesAsked size with
      | none =>
        show calls.foldl PageCall.settle w.heap.held = w.heap.held
        rw [hnone hasked]
        rfl
      | some count =>
        obtain ⟨g, hcalls⟩ := hsome count hasked
        show calls.foldl PageCall.settle w.heap.held = w.heap.held
        rw [hcalls]
        rfl
    rw [hheld]
    exact ⟨hi.accounts, hi.visible⟩
  · obtain ⟨g, hcalls⟩ := hsome count hasked
    have hheld : held = ⟨g, p, count⟩ :: w.heap.held := by
      show calls.foldl PageCall.settle w.heap.held = _
      rw [hcalls]
      exact if_neg hnew.pos
    rw [hheld]
    exact ⟨hnew.accounts, List.forall_mem_cons.mpr ⟨hnew.visible, hi.visible⟩⟩

/-- `alloc` returns, and keeps the invariant and the live objects. -/
theorem Inv.alloc (hb : Boot s₀) (hi : Inv s₀ w) {size : Nat} (hl : w.Legal (.alloc size)) :
    ∃ ptr w', w.step (.alloc size) = .ok (ptr, w') ∧ Inv s₀ w' ∧
      ∀ q ∈ w.heap.live, w.Keeps w' q := by
  obtain ⟨p, s, hpages, hoff, hanswer⟩ := hi.pagesFor hb hl
  -- for the heap somebody has written to the memory, and then it is called
  have hr := hi.reachable_withPhysical hb hoff
  have hlegal : (w.withPhysical s).heap.Legal (.alloc size p) := by
    intro g hg hp
    rcases hanswer with ⟨rfl, -⟩ | ⟨count, hasked, hnew⟩
    · exact absurd rfl hp
    · obtain ⟨g', hg', -, rfl⟩ := pagesAsked_eq hasked
      cases hg.symm.trans hg'
      exact hnew.supplies hb hi hp
  obtain ⟨a, hinv⟩ := KHeap.reachable_inv hr
  obtain ⟨o, h, hstep, -⟩ := hinv.alloc hlegal
  obtain ⟨hrun, heq⟩ := KHeap.World.step_alloc hstep
  have hrun' : (w.memory.withPhysical s).heap.alloc size p = .ok (o.ptr, h.heap, o.calls) := hrun
  -- whether it asks is not changed by what it gets
  have hnone := calls_of_not_asked hrun'
  have hsome : ∀ count, (w.memory.withPhysical s).pagesAsked size = some count →
      ∃ g, o.calls = [.allocPages g count p] := fun count => calls_of_asked hrun'
  obtain ⟨hacc, hvisible⟩ := hi.alloc_blocks hanswer hnone hsome
  have hheld : h.held = o.calls.foldl PageCall.settle w.heap.held := congrArg KHeap.World.held heq
  refine ⟨o.ptr, ⟨s.pool, h, w.pages⟩, ?_,
    ⟨hr.step (i := KHeap.Op.alloc size p) hlegal hstep, ?_, ?_⟩, ?_⟩
  · rw [heq]
    simp only [World.step, KernelMemory.heapAlloc, hpages, hrun', bind, Except.bind]
    rfl
  · show Accounts s₀ ⟨⟨h.heap.mem, s.pool⟩, heldFrames h.held ++ w.pages⟩
    rw [hheld]
    refine hacc.of_agree rfl ?_
    intro x hx
    apply hinv.mem_alloc hlegal hstep
    intro k hk hin
    rw [hheld] at hk
    exact (hvisible k hk).not_bitmapByte hb hacc (mem_heldFrames hk w.pages) hin hx
  · intro k hk
    rw [hheld] at hk
    exact hvisible k hk
  · intro q hq
    obtain ⟨hlive, hdata⟩ := hinv.alloc_keeps hlegal hstep hq
    refine ⟨hlive, ?_⟩
    intro x hlow hhigh
    exact (hdata x hlow hhigh).trans (hi.sameData_withPhysical hb hoff hq x hlow hhigh)

/-- `free` keeps the invariant and the other live objects. -/
theorem Inv.free (hb : Boot s₀) (hi : Inv s₀ w) {ptr : Nat} (hl : w.Legal (.free ptr)) :
    ∃ w', w.step (.free ptr) = .ok (0, w') ∧ Inv s₀ w' ∧
      ∀ q ∈ w.heap.live, q.1 ≠ ptr → w.Keeps w' q := by
  have hlegal : w.heap.Legal (.free ptr) := hl
  obtain ⟨a, hinv⟩ := KHeap.reachable_inv hi.heap
  obtain ⟨o, h, g, a', b, i, hstep, hu, -, hfreed, -⟩ := hinv.free hlegal
  obtain ⟨hrun, heq⟩ := KHeap.World.step_free hstep
  have hr := hi.heap.step (i := KHeap.Op.free ptr) hlegal hstep
  have hrun' : w.memory.heap.free ptr = .ok (h.heap, o.calls) := hrun
  have hheld : h.held = o.calls.foldl PageCall.settle w.heap.held := congrArg KHeap.World.held heq
  -- the heap has written to its blocks only
  have hacc : Accounts s₀ ⟨⟨h.heap.mem, w.pool⟩, w.blocks⟩ := hi.accounts.of_agree rfl
    fun x hx => hinv.mem_free hlegal hstep fun k hk hin => hi.not_bitmapByte hb hk hin hx
  rcases hfreed.pages with ⟨hcalls, -⟩ | ⟨hcalls, -⟩
  · rw [hcalls] at heq hheld
    refine ⟨⟨w.pool, h, w.pages⟩, ?_, ⟨hr, ?_, ?_⟩,
      fun q hq hne => hinv.free_keeps hlegal hstep hq hne⟩
    · rw [heq]
      simp only [World.step, KernelMemory.heapFree, hrun', hcalls, bind, Except.bind]
      rfl
    · show Accounts s₀ ⟨⟨h.heap.mem, w.pool⟩, heldFrames h.held ++ w.pages⟩
      rw [hheld]
      exact hacc
    · rw [hheld]
      exact hi.visible
  · rw [hcalls] at heq hheld
    have hperm : w.heap.held.Perm (⟨g, b, (sizeClass g).pageCount⟩ :: h.held) := by
      rw [hheld]
      exact hinv.settle_free hu.held
    have hsub : ∀ k ∈ h.held, k ∈ w.heap.held :=
      fun k hk => hperm.mem_iff.mpr (List.mem_cons_of_mem _ hk)
    have hblocks := (hperm.map fun k => frames k.base k.count).append_right w.pages
    have hgone := hacc.free hblocks
    have hoff := hacc.mem_free (hblocks.mem_iff.mpr List.mem_cons_self)
    -- nor does the page allocator write to what the heap still holds
    have hclear : ∀ k ∈ h.held, ∀ x, k.Contains x →
        (freePages ⟨h.heap.mem, w.pool⟩ b (sizeClass g).pageCount).mem x = h.heap.mem x := by
      intro k hk x hin
      apply hoff
      exact (hi.visible k (hsub k hk)).not_bitmapByte hb hacc
        (mem_heldFrames (hsub k hk) w.pages) hin
    refine ⟨World.withPhysical ⟨w.pool, h, w.pages⟩
      (freePages ⟨h.heap.mem, w.pool⟩ b (sizeClass g).pageCount), ?_, ⟨?_, hgone, ?_⟩, ?_⟩
    · rw [heq]
      simp only [World.step, KernelMemory.heapFree, hrun', hcalls, bind, Except.bind]
      rfl
    · exact reachable_withMem hr fun x hne k hk hin => hne (hclear k hk x hin)
    · exact fun k hk => hi.visible k (hsub k hk)
    · intro q hq hne
      obtain ⟨hlive, hdata⟩ := hinv.free_keeps hlegal hstep hq hne
      obtain ⟨a'', hinv'⟩ := KHeap.reachable_inv hr
      obtain ⟨k, hk, hfrom, hto⟩ := hinv'.safe.inside q hlive
      refine ⟨hlive, ?_⟩
      intro x hlow hhigh
      exact (hclear k hk x ⟨by omega, by omega⟩).trans (hdata x hlow hhigh)

/-- Another owner gets pages. -/
theorem Inv.allocPages (hb : Boot s₀) (hi : Inv s₀ w) {p : PoolId} {count align : Nat}
    (hl : w.Legal (.allocPages p count align)) :
    ∃ a w', w.step (.allocPages p count align) = .ok (a, w') ∧ Inv s₀ w' ∧
      ∀ q ∈ w.heap.live, w.Keeps w' q := by
  obtain ⟨a, s, heq, hoff, hcase⟩ := hi.accounts.alloc hb.framesUsed hl.1 hl.2
  have halloc : w.memory.physical.allocPool p count align = some (a, s) := heq
  refine ⟨a, { w.withPhysical s with pages := if a = 0 then w.pages else ⟨a, count⟩ :: w.pages },
    by simp only [World.step, halloc], ⟨hi.reachable_withPhysical hb hoff, ?_, hi.visible⟩,
    fun q hq => ⟨hq, hi.sameData_withPhysical hb hoff hq⟩⟩
  rcases hcase with ⟨rfl, rfl⟩ | ⟨hpos, hacc, -⟩
  · exact hi.accounts
  · rw [if_neg hpos]
    exact hacc.perm List.perm_middle.symm

/-- Another owner gives its pages back. -/
theorem Inv.freePages (hb : Boot s₀) (hi : Inv s₀ w) {b : Physical.Block}
    (hl : w.Legal (.freePages b)) :
    ∃ w', w.step (.freePages b) = .ok (0, w') ∧ Inv s₀ w' ∧ ∀ q ∈ w.heap.live, w.Keeps w' q := by
  have hmem : b ∈ w.pages := hl
  have hoff := hi.accounts.mem_free (List.mem_append_right _ hmem)
  refine ⟨_, rfl, ⟨hi.reachable_withPhysical hb hoff, ?_, hi.visible⟩,
    fun q hq => ⟨hq, hi.sameData_withPhysical hb hoff hq⟩⟩
  apply hi.accounts.free
  exact ((List.perm_cons_erase hmem).append_left _).trans List.perm_middle

/-- Writes to live objects, to pages of other owners and elsewhere. -/
theorem Inv.write (hb : Boot s₀) (hi : Inv s₀ w) {mem : Mem} (hl : w.Legal (.write mem)) :
    Inv s₀ (w.withMem mem) := by
  obtain ⟨a, hinv⟩ := KHeap.reachable_inv hi.heap
  have hlegal : w.heap.Legal (.write mem) := fun x hne => (hl x hne).imp_right And.right
  refine ⟨hi.heap.step (i := KHeap.Op.write mem) hlegal rfl, ?_, hi.visible⟩
  refine hi.accounts.of_agree rfl ?_
  intro x hx
  by_contra hne
  rcases hl x hne with ⟨ptr, size, hlive, hlow, hhigh⟩ | ⟨hnot, -⟩
  · -- live objects are in blocks of the heap
    obtain ⟨k, hk, hfrom, hto⟩ := hinv.safe.inside _ hlive
    exact hi.not_bitmapByte hb hk ⟨by omega, by omega⟩ hx
  · exact hnot hx

/-- A step that neither frees the object at `q` nor lets its owner write. -/
def Op.Spares (q : Nat × Nat) : Op → Prop
  | .alloc _ | .allocPages _ _ _ | .freePages _ => True
  | .free ptr => q.1 ≠ ptr
  | .write _ => False

/-- No legal call faults, and every one keeps the invariant and the objects that it spares. -/
theorem Inv.step (hb : Boot s₀) (hi : Inv s₀ w) {op : Op} (hl : w.Legal op) :
    ∃ r w', w.step op = .ok (r, w') ∧ Inv s₀ w' ∧
      ∀ q ∈ w.heap.live, op.Spares q → w.Keeps w' q := by
  cases op with
  | alloc size =>
    obtain ⟨ptr, w', hstep, hi', hkeeps⟩ := hi.alloc hb hl
    exact ⟨ptr, w', hstep, hi', fun q hq _ => hkeeps q hq⟩
  | free ptr => exact ⟨0, hi.free hb hl⟩
  | allocPages p count align =>
    obtain ⟨a, w', hstep, hi', hkeeps⟩ := hi.allocPages hb hl
    exact ⟨a, w', hstep, hi', fun q hq _ => hkeeps q hq⟩
  | freePages b =>
    obtain ⟨w', hstep, hi', hkeeps⟩ := hi.freePages hb hl
    exact ⟨0, w', hstep, hi', fun q hq _ => hkeeps q hq⟩
  | write mem => exact ⟨0, _, rfl, hi.write hb hl, fun q _ hspares => hspares.elim⟩

theorem Inv.init (hb : Boot s₀) (h : (machine s₀).init w) : Inv s₀ w := by
  obtain ⟨rfl, hheap, hpages⟩ := h
  have hheld : w.heap.held = [] := hheap.2.2.1
  refine ⟨.init hheap, ?_, ?_⟩
  · have hblocks : w.blocks = [] := by
      rw [World.blocks, hheld, hpages]
      rfl
    rw [World.physical, hblocks]
    exact Accounts.init hb.inv
  · rw [hheld]
    intro k hk
    cases hk

/-- In every reachable world the heap has a run of its own behind it. -/
theorem reachable_inv (hb : Boot s₀) (hw : (machine s₀).Reachable w) : Inv s₀ w := by
  refine hw.invariant (fun w h => Inv.init hb h) ?_
  intro w op r w' hi hl hs
  obtain ⟨r', w'', hstep, hi', -⟩ := hi.step hb hl
  rw [show (machine s₀).step w op = .ok (r', w'') from hstep] at hs
  cases hs
  exact hi'

end Inv

/-! ## The memory as a whole -/

section Memory

variable {s₀ : State} {w : World}

end Memory

section Boot

variable {boot mem : Mem} {mbt : Multiboot.MultibootInfo} {pool : PoolId → PhysicalPool}
  {kernelStaticEnd himemEnd : Nat} {s₀ : State} {w : World}

end Boot

/-! ## The small machine -/

/-- The memory behind `mm::init`, with an empty heap. -/
def World.boot (s₀ : State) : World := ⟨s₀.pool, ⟨⟨s₀.mem, fun _ => 0⟩, [], [], []⟩, []⟩

end TimbOS.Native.Mm
