import TimbOS.Spec.PhysicalBoot
import TimbOS.Spec.PageOwners

/-!
# Page frames of live blocks

The bitmaps of the pools as bytes of the memory, and what they say in every run: the frames
that are in use are those that are in use from the start and those of live blocks.

## Key results

- `mem_allocPool`, `mem_free`: calls write to the bitmaps only
- `Accounts.of_agree`: writes elsewhere change nothing for the allocator
- `Accounts.alloc`, `Accounts.free`: the frames in use after a call
-/

namespace TimbOS.Native.Physical

open ForStd Mem Multiboot

/-! ## Bytes of the bitmaps -/

/-- The byte at `x` belongs to the word of a frame. -/
def State.BitmapByte (s : State) (x : Nat) : Prop :=
  ∃ p idx, idx < s.numPageframes p ∧ InWord ((s.pool p).bitmap + 4 * idx) x

/-- Memories that agree outside of the bitmaps. -/
def State.AgreeOffBitmaps (s s' : State) : Prop := ∀ x, ¬ s.BitmapByte x → s'.mem x = s.mem x

section Bytes

variable {s s' : State} {p : PoolId} {pages align a x : Nat}

theorem bitmapByte_congr (h : ∀ p, (s.pool p).SameFrames (s'.pool p)) :
    s'.BitmapByte x ↔ s.BitmapByte x := by
  have hsame : ∀ p idx, idx < s'.numPageframes p ∧ InWord ((s'.pool p).bitmap + 4 * idx) x ↔
      idx < s.numPageframes p ∧ InWord ((s.pool p).bitmap + 4 * idx) x := by
    intro p idx
    obtain ⟨-, hnum, hbitmap⟩ := h p
    rw [State.numPageframes, hnum, hbitmap]
    rfl
  simp only [State.BitmapByte, hsame]

theorem mem_fill {idx v count : Nat} (hin : idx + count ≤ s.numPageframes p)
    (hx : ¬ s.BitmapByte x) : (s.fill p idx v count).mem x = s.mem x := by
  induction count with
  | zero => rfl
  | succ count ih =>
    rw [← ih (by omega), State.fill, State.setStatus, pool_fill]
    apply store32_of_not_inWord
    intro hword
    exact hx ⟨p, idx + count, by omega, hword⟩

/-- A call that stays inside its pool writes to the bitmaps only. -/
theorem mem_allocPool (halign : 0 < align) (hin : s.StaysInside pages align p.chain)
    (h : s.allocPool p pages align = some (a, s')) : s.AgreeOffBitmaps s' := by
  rw [State.allocPool] at h
  intro x hx
  rcases allocFrom_cases s pages halign p.chain with hzero | ⟨q, i, -, heq, hstays, -⟩
  · rw [hzero] at h
    cases h
    rfl
  · rw [heq] at h
    cases h
    exact mem_fill (hstays hin) hx

/-- Freeing a run inside a pool writes to the bitmaps only. -/
theorem mem_free (L : Layout s.pool) {first : Nat} (hin : first + pages ≤ s.numPageframes p) :
    s.AgreeOffBitmaps (s.free ((s.pool p).frameStart first) pages) := by
  intro x hx
  induction pages with
  | zero => rfl
  | succ pages ih =>
    have hpool := pool_free s ((s.pool p).frameStart first) pages
    have hnext : first + pages < (s.pool p).numPageframes := hin
    have haddr : add32 ((s.pool p).frameStart first) (pages * pageSize) =
        (s.pool p).frameStart (first + pages) := by
      have htop := L.pool_top_lt p
      have hlt := Layout.frameStart_lt_top s.pool hnext
      simp only [PhysicalPool.frameStart, add32, pageSize] at hlt ⊢
      omega
    -- the last page is a frame of the pool, and its word is written
    have L' : Layout (s.free ((s.pool p).frameStart first) pages).pool := by
      rw [hpool]
      exact L
    have hidx : first + pages < (s.free ((s.pool p).frameStart first) pages).numPageframes p := by
      rw [State.numPageframes, hpool]
      exact hnext
    have hframe : ((s.free ((s.pool p).frameStart first) pages).pool p).InFrame (first + pages)
        ((s.pool p).frameStart (first + pages)) := by
      rw [hpool]
      exact ⟨Nat.le_refl _, by simp only [pageSize]; omega⟩
    obtain ⟨hfind, hindex⟩ := L'.findPool_eq hidx hframe
    rw [State.free, haddr, State.setFrame, hfind]
    simp only [hindex]
    rw [← ih (by omega), State.setStatus, hpool]
    apply store32_of_not_inWord
    intro hword
    exact hx ⟨p, first + pages, hnext, hword⟩

/-- Writes outside of the bitmaps change no mark. -/
theorem status_of_agree (hpool : s'.pool = s.pool)
    (hmem : ∀ x, s.BitmapByte x → s'.mem x = s.mem x) {idx : Nat}
    (hidx : idx < s.numPageframes p) : s'.status p idx = s.status p idx := by
  rw [State.status, State.status, hpool]
  apply load32_of_inWord
  intro x hword
  exact hmem x ⟨p, idx, hidx, hword⟩

end Bytes

/-- The allocator does not see such writes. -/
theorem Inv.of_status {s s' : State} {live : List Block} (hi : Inv ⟨s, live⟩)
    (hpool : s'.pool = s.pool)
    (hstatus : ∀ p idx, idx < s.numPageframes p → s'.status p idx = s.status p idx) :
    Inv ⟨s', live⟩ := by
  refine ⟨by rw [hpool]; exact hi.layout, by rw [hpool]; exact hi.prevIdx_lt, ?_, hi.disjoint⟩
  intro b hb
  obtain ⟨hpos, hheld⟩ := hi.held b hb
  refine ⟨hpos, hheld.mono (fun q => by rw [hpool]; exact ⟨rfl, rfl, rfl⟩) ?_⟩
  intro q k hk _ hu
  rw [State.Used, hstatus q k hk]
  exact hu

/-! ## The frames in use -/

/-- The page at `a` is one of the block's. -/
def Block.Has (b : Block) (a : Nat) : Prop := ∃ i < b.pages, b.frame i = a

/-- From `s₀` on, the frames of live blocks have come into use, and no others. -/
structure Accounts (s₀ : State) (w : World) : Prop extends Inv w where
  sameFrames : ∀ p, (s₀.pool p).SameFrames (w.state.pool p)
  used_iff : ∀ p idx, idx < s₀.numPageframes p →
    (w.state.Used p idx ↔ s₀.Used p idx ∨ ∃ b ∈ w.live, b.Has ((s₀.pool p).frameStart idx))
  fresh : ∀ p idx, idx < s₀.numPageframes p → s₀.Used p idx →
    ∀ b ∈ w.live, ¬ b.Has ((s₀.pool p).frameStart idx)

section Accounts

variable {s₀ s s' : State} {w : World} {b c : Block} {live live' : List Block}

/-- The pages of a block of frames. -/
theorem Block.has_iff (L : Layout s.pool) {p q : PoolId} {first idx : Nat}
    (hin : first + b.pages ≤ s.numPageframes p) (haddr : b.addr = (s.pool p).frameStart first)
    (hidx : idx < s.numPageframes q) :
    b.Has ((s.pool q).frameStart idx) ↔ q = p ∧ first ≤ idx ∧ idx < first + b.pages := by
  constructor
  · rintro ⟨i, hi, heq⟩
    rw [Block.frame_eq haddr] at heq
    obtain ⟨rfl, rfl⟩ := L.frameStart_unique (by omega) hidx heq
    exact ⟨rfl, by omega, by omega⟩
  · rintro ⟨rfl, hlow, hhigh⟩
    refine ⟨idx - first, by omega, ?_⟩
    rw [Block.frame_eq haddr]
    congr 1
    omega

/-- The same in the words of the state at the start. -/
theorem Accounts.has_iff (hacc : Accounts s₀ w) {p q : PoolId} {first idx : Nat}
    (hin : first + b.pages ≤ w.state.numPageframes p)
    (haddr : b.addr = (w.state.pool p).frameStart first) (hidx : idx < s₀.numPageframes q) :
    b.Has ((s₀.pool q).frameStart idx) ↔ q = p ∧ first ≤ idx ∧ idx < first + b.pages := by
  rw [← (hacc.sameFrames q).frameStart_eq]
  exact b.has_iff hacc.layout hin haddr (Nat.lt_of_lt_of_eq hidx (hacc.sameFrames q).2.1.symm)

theorem Accounts.init (hi : Inv ⟨s₀, []⟩) : Accounts s₀ ⟨s₀, []⟩ where
  toInv := hi
  sameFrames := fun _ => ⟨rfl, rfl, rfl⟩
  used_iff := fun _ _ _ => ⟨Or.inl, fun h => h.resolve_right fun ⟨_, hb, _⟩ => nomatch hb⟩
  fresh := fun _ _ _ _ _ hb => nomatch hb

/-- The order of the blocks does not matter. -/
theorem Accounts.perm (hacc : Accounts s₀ ⟨s, live⟩) (hperm : live.Perm live') :
    Accounts s₀ ⟨s, live'⟩ where
  layout := hacc.layout
  prevIdx_lt := hacc.prevIdx_lt
  held := fun b hb => hacc.held b (hperm.mem_iff.mpr hb)
  disjoint := (hperm.pairwise_iff fun h => Block.Disjoint.symm h).mp hacc.disjoint
  sameFrames := hacc.sameFrames
  used_iff := by
    intro p idx hidx
    rw [hacc.used_iff p idx hidx]
    simp only [hperm.mem_iff]
  fresh := fun p idx hidx hused b hb => hacc.fresh p idx hidx hused b (hperm.mem_iff.mpr hb)

/-- Taking a run of free frames. -/
theorem Accounts.take (hacc : Accounts s₀ w) (hi : Inv ⟨s, b :: w.live⟩) {p : PoolId} {first : Nat}
    (hin : first + b.pages ≤ w.state.numPageframes p)
    (haddr : b.addr = (w.state.pool p).frameStart first)
    (hfree : ∀ j < b.pages, w.state.status p (first + j) = 0)
    (hsame : ∀ q, (w.state.pool q).SameFrames (s.pool q))
    (hstatus : ∀ q k, k < w.state.numPageframes q → s.status q k =
      if q = p ∧ first ≤ k ∧ k < first + b.pages then 1 else w.state.status q k) :
    Accounts s₀ ⟨s, b :: w.live⟩ := by
  have hnum : ∀ q, w.state.numPageframes q = s₀.numPageframes q := fun q => (hacc.sameFrames q).2.1
  refine ⟨hi, fun q => (hacc.sameFrames q).trans (hsame q), ?_, ?_⟩
  · intro q k hk
    rw [List.exists_mem_cons_iff, hacc.has_iff hin haddr hk, or_left_comm, ← hacc.used_iff q k hk,
      State.Used, hstatus q k (by rw [hnum]; exact hk)]
    by_cases hrun : q = p ∧ first ≤ k ∧ k < first + b.pages
    · rw [if_pos hrun]
      exact iff_of_true one_ne_zero (.inl hrun)
    · rw [if_neg hrun, or_iff_right hrun]
      rfl
  · intro q k hk hused
    rw [List.forall_mem_cons]
    refine ⟨?_, hacc.fresh q k hk hused⟩
    -- what is in use from the start is in use now, and not in the run
    intro hin'
    obtain ⟨rfl, hlow, hhigh⟩ := (hacc.has_iff hin haddr hk).mp hin'
    have hzero := hfree (k - first) (by omega)
    rw [show first + (k - first) = k by omega] at hzero
    exact (hacc.used_iff q k hk).mpr (.inl hused) hzero

/-- The very first frame of the memory is the kernel's. -/
theorem State.KernelFramesUsed.first (h : s₀.KernelFramesUsed) {p : PoolId} {idx : Nat}
    (hidx : idx < s₀.numPageframes p) (hzero : (s₀.pool p).frameStart idx = 0) : s₀.Used p idx := by
  refine h p idx hidx p 0 ?_ ⟨Nat.le_of_eq hzero, ?_⟩
  · rw [State.bitmapEnd]
    omega
  · rw [hzero]
    decide

/-- A call of an allocation function: nothing, or a block of frames that nobody had. -/
theorem Accounts.alloc (hacc : Accounts s₀ w) (hkernel : s₀.KernelFramesUsed) {p : PoolId}
    {pages align : Nat} (hc : w.Callable (.alloc p pages align))
    (hin : w.Inside (.alloc p pages align)) :
    ∃ a s, w.state.allocPool p pages align = some (a, s) ∧ w.state.AgreeOffBitmaps s ∧
      (a = 0 ∧ s = w.state ∨ a ≠ 0 ∧ Accounts s₀ ⟨s, ⟨a, pages⟩ :: w.live⟩ ∧
        ∃ q ∈ p.chain, ∃ first, first + pages ≤ s₀.numPageframes q ∧
          a = (s₀.pool q).frameStart first) := by
  obtain ⟨a, s, heq, hsame, -, hcase⟩ := allocPool_granted hacc.toInv hc.2.2.1 hin
  refine ⟨a, s, heq, mem_allocPool hc.2.2.1 hin heq, ?_⟩
  rcases hcase with hnone | ⟨q, hq, first, hend, haddr, hfree, hstatus⟩
  · exact .inl hnone
  · have hend' : first + pages ≤ s₀.numPageframes q :=
      le_of_le_of_eq hend (hacc.sameFrames q).2.1
    have haddr' : a = (s₀.pool q).frameStart first :=
      haddr.trans ((hacc.sameFrames q).frameStart_eq first)
    have hpages := hc.1
    have hpos : a ≠ 0 := by
      intro hzero
      have hused := hkernel.first (by omega) (haddr'.symm.trans hzero)
      exact (hacc.used_iff q first (by omega)).mpr (.inl hused) (hfree 0 hpages)
    obtain ⟨a', w', hstep, hi⟩ := hacc.toInv.step hc hin
    simp only [World.step, heq, if_neg hpos] at hstep
    cases hstep
    exact .inr ⟨hpos, hacc.take hi hend haddr hfree hsame hstatus, q, hq, first, hend', haddr'⟩

/-- Freeing a live block. -/
theorem Accounts.free (hacc : Accounts s₀ w) (hperm : w.live.Perm (b :: live)) :
    Accounts s₀ ⟨w.state.free b.addr b.pages, live⟩ := by
  obtain ⟨-, p, first, hin, haddr, -⟩ := hacc.held b (hperm.mem_iff.mpr List.mem_cons_self)
  have hpool : (w.state.free b.addr b.pages).pool = w.state.pool := pool_free _ _ _
  have hpair := (hperm.pairwise_iff fun h => Block.Disjoint.symm h).mp hacc.disjoint
  have hfirst := (List.pairwise_cons.mp hpair).1
  have hnum : ∀ q, w.state.numPageframes q = s₀.numPageframes q := fun q => (hacc.sameFrames q).2.1
  refine ⟨hacc.toInv.free hperm, fun q => by rw [hpool]; exact hacc.sameFrames q, ?_, ?_⟩
  · intro q k hk
    have hmarks : (w.state.free b.addr b.pages).Used q k ↔
        ¬ b.Has ((s₀.pool q).frameStart k) ∧ w.state.Used q k := by
      rw [State.Used, haddr, status_free hacc.layout hin (by rw [hnum]; exact hk),
        hacc.has_iff hin haddr hk]
      by_cases hrun : q = p ∧ first ≤ k ∧ k < first + b.pages
      · rw [if_pos hrun]
        exact iff_of_false (fun h => h rfl) fun h => h.1 hrun
      · rw [if_neg hrun, and_iff_right hrun]
        rfl
    rw [hmarks, hacc.used_iff q k hk]
    constructor
    · rintro ⟨hnot, hused | ⟨c, hc, hin'⟩⟩
      · exact .inl hused
      · rcases List.mem_cons.mp (hperm.mem_iff.mp hc) with rfl | hc
        · exact absurd hin' hnot
        · exact .inr ⟨c, hc, hin'⟩
    · rintro (hused | ⟨c, hc, i, hi', hframe⟩)
      · exact ⟨hacc.fresh q k hk hused b (hperm.mem_iff.mpr List.mem_cons_self), .inl hused⟩
      · refine ⟨?_, .inr ⟨c, hperm.mem_iff.mpr (List.mem_cons_of_mem b hc), i, hi', hframe⟩⟩
        rintro ⟨j, hj, hframe'⟩
        exact hfirst c hc j hj i hi' (hframe'.trans hframe.symm)
  · intro q k hk hused c hc
    exact hacc.fresh q k hk hused c (hperm.mem_iff.mpr (List.mem_cons_of_mem b hc))

/-- Freeing a live block writes to the bitmaps only. -/
theorem Accounts.mem_free (hacc : Accounts s₀ w) (hb : b ∈ w.live) :
    w.state.AgreeOffBitmaps (w.state.free b.addr b.pages) := by
  obtain ⟨-, p, first, hin, haddr, -⟩ := hacc.held b hb
  rw [haddr]
  exact Physical.mem_free hacc.layout hin

/-- Writes elsewhere change nothing for the allocator. -/
theorem Accounts.of_agree (hacc : Accounts s₀ ⟨s, live⟩) (hpool : s'.pool = s.pool)
    (hmem : ∀ x, s.BitmapByte x → s'.mem x = s.mem x) : Accounts s₀ ⟨s', live⟩ := by
  have hstatus : ∀ p idx, idx < s.numPageframes p → s'.status p idx = s.status p idx :=
    fun p idx hidx => status_of_agree hpool hmem hidx
  have hnum : ∀ q, s.numPageframes q = s₀.numPageframes q := fun q => (hacc.sameFrames q).2.1
  refine ⟨hacc.toInv.of_status hpool hstatus, fun q => by rw [hpool]; exact hacc.sameFrames q, ?_,
    hacc.fresh⟩
  intro q k hk
  rw [State.Used, hstatus q k (by rw [hnum]; exact hk)]
  exact hacc.used_iff q k hk

/-- The bitmaps lie in frames that no block has. -/
theorem Accounts.not_bitmapByte (hacc : Accounts s₀ w) (hkernel : s₀.KernelFramesUsed)
    (hb : b ∈ w.live) {a : Nat} (hlow : b.addr ≤ a) (hhigh : a < b.addr + b.pages * pageSize)
    (ha : kernelVirtualBase + a < 2 ^ 32) : ¬ w.state.BitmapByte (kernelVirtualBase + a) := by
  rw [bitmapByte_congr hacc.sameFrames]
  rintro ⟨q, k, hk, hword⟩
  have hbelow : a < s₀.bitmapEnd q := by
    simp only [Mem.InWord, kernelVirtualBase] at hword ha
    simp only [State.bitmapEnd, State.bitmapAddress, Mm.kernelVirtualToPhysical, sub32,
      kernelVirtualBase]
    omega
  obtain ⟨-, p, first, hin, haddr, -⟩ := hacc.held b hb
  have hpage : (a - b.addr) / pageSize < b.pages := by
    simp only [pageSize] at hhigh ⊢
    omega
  have hlt : first + (a - b.addr) / pageSize < s₀.numPageframes p :=
    Nat.lt_of_lt_of_le (Nat.add_lt_add_left hpage first)
      (le_of_le_of_eq hin (hacc.sameFrames p).2.1)
  have hframe : b.frame ((a - b.addr) / pageSize) =
      (s₀.pool p).frameStart (first + (a - b.addr) / pageSize) := by
    rw [Block.frame_eq haddr, (hacc.sameFrames p).frameStart_eq]
  refine hacc.fresh p _ hlt (hkernel p _ hlt q a hbelow ?_) b hb ⟨_, hpage, hframe⟩
  rw [PhysicalPool.InFrame, ← hframe, Block.frame]
  simp only [pageSize]
  omega

/-- The pools stay as `mm::init` built them. -/
theorem Accounts.kernelPools (hacc : Accounts s₀ w) (h : KernelPools s₀) : KernelPools w.state := by
  refine h.of_sameFrames ⟨hacc.layout, hacc.prevIdx_lt, ?_⟩ hacc.sameFrames
  intro p hpos
  obtain ⟨hbase, hnum, -⟩ := hacc.sameFrames p
  rw [State.numPageframes, hnum] at hpos
  rw [hbase]
  exact h.aligned p hpos

/-- Blocks without a common frame lie apart, since frames begin at page boundaries. -/
theorem Block.Disjoint.apart (h : b.Disjoint c) (hb : 0 < b.pages) (hc : 0 < c.pages)
    (hb' : b.addr % pageSize = 0) (hc' : c.addr % pageSize = 0) :
    b.addr + b.pages * pageSize ≤ c.addr ∨ c.addr + c.pages * pageSize ≤ b.addr := by
  simp only [pageSize] at hb' hc' ⊢
  by_contra hmeet
  -- the block that begins later begins at a frame of the other one
  rcases Nat.le_total b.addr c.addr with hle | hle
  · refine h ((c.addr - b.addr) / 0x1000) (by omega) 0 hc ?_
    simp only [Block.frame, pageSize]
    omega
  · refine h 0 hb ((b.addr - c.addr) / 0x1000) (by omega) ?_
    simp only [Block.frame, pageSize]
    omega

/-- A new block lies apart from the others. -/
theorem Accounts.apart (hacc : Accounts s₀ ⟨s, b :: live⟩) (h : KernelPools s₀) (hc : c ∈ live) :
    b.addr + b.pages * pageSize ≤ c.addr ∨ c.addr + c.pages * pageSize ≤ b.addr := by
  have haligned : ∀ d ∈ b :: live, d.addr % pageSize = 0 := by
    intro d hd
    obtain ⟨hpos, p, first, hin, haddr, -⟩ := hacc.held d hd
    rw [haddr]
    exact ((hacc.kernelPools h).frameStart_aligned
      (Nat.lt_of_lt_of_le (Nat.lt_add_of_pos_right hpos) hin)).1
  have hmem : c ∈ b :: live := List.mem_cons_of_mem b hc
  exact ((List.pairwise_cons.mp hacc.disjoint).1 c hc).apart (hacc.held b List.mem_cons_self).1
    (hacc.held c hmem).1 (haligned b List.mem_cons_self) (haligned c hmem)

end Accounts

end TimbOS.Native.Physical
