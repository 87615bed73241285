import TimbOS.ForStd.Transition
import TimbOS.Native.DiskCache

/-!
# Requests to the disk cache

A request for blocks that an earlier request has brought into memory should find them there.
No buffer ever gets into the map, so that every request creates a buffer, which has as many
blocks as were asked for.

## Key results

- `request_eq`: a request when the map is empty
- `Created`: what all requests so far have returned
- `served_iff`: exactly which runs are served as they should be
- `second_request_reads`: the same request twice
-/

namespace TimbOS.Native.DiskCache

open ForStd

/-! ## Runs -/

/-- A call of a client, with the answers that it gets from outside. -/
inductive Call where
  | prepare (env : DiskCacheEnvironment) (firstBlock blockCount : Nat)
  | cache (env : DiskCacheEnvironment) (firstBlock blockCount : Nat)

namespace Call

def firstBlock : Call → Nat
  | prepare _ firstBlock _ => firstBlock
  | cache _ firstBlock _ => firstBlock

def blockCount : Call → Nat
  | prepare _ _ blockCount => blockCount
  | cache _ _ blockCount => blockCount

end Call

/-- The cache as a machine. -/
def machine : Machine DiskCache Call Reply Empty where
  init := fun d => ∃ blockSize, d = construct blockSize
  legal := fun _ _ => True
  step := fun d call =>
    match call with
    | .prepare env firstBlock blockCount => .ok (prepare env d firstBlock blockCount)
    | .cache env firstBlock blockCount => .ok (cache env d firstBlock blockCount)

/-- The buffer has the blocks of the call. -/
def Holds (x : Call × Reply) : Prop :=
  x.2.buffer.firstBlock = x.1.firstBlock ∧ x.1.blockCount ≤ x.2.buffer.blockCount

/-- The blocks of the later call are among those of the earlier one. -/
def Covers (x y : Call × Reply) : Prop :=
  y.1.firstBlock = x.1.firstBlock ∧ y.1.blockCount ≤ x.1.blockCount

/-- Every call gets the blocks it asks for, without a read if it has been made before. -/
structure Served (t : List (Call × Reply)) : Prop where
  holds : ∀ x ∈ t, Holds x
  again : t.Pairwise fun x y => Covers x y → y.2.pointer = x.2.pointer ∧ y.2.reads = []

/-! ## The map -/

variable {d d' : DiskCache} {env : DiskCacheEnvironment} {load : Bool}
  {firstBlock blockCount : Nat} {call : Call} {reply : Reply} {t : List (Call × Reply)}

theorem firstBlock_construct (env : DiskCacheEnvironment) (blockSize firstBlock blockCount : Nat)
    (load : Bool) :
    (DiskCacheBuffer.construct env blockSize firstBlock blockCount load).firstBlock =
        firstBlock ∧
      (DiskCacheBuffer.construct env blockSize firstBlock blockCount load).blockCount =
        blockCount := by
  rw [DiskCacheBuffer.construct]
  split
  · simp only
    split
    · exact ⟨rfl, rfl⟩
    · exact ⟨rfl, rfl⟩
  · exact ⟨rfl, rfl⟩

/-- Without an entry in the map a request creates a buffer. -/
theorem request_eq (h : d.cacheMap firstBlock = none) :
    request load env d firstBlock blockCount = newBuffer env d firstBlock blockCount load := by
  unfold request
  split
  · rename_i i hi
    rw [h] at hi
    cases hi
  · rfl

/-- The map is empty, and all replies were new buffers with the blocks asked for. -/
structure Created (t : List (Call × Reply)) (d : DiskCache) : Prop where
  empty : ∀ block, d.cacheMap block = none
  count : d.buffers.length = t.length
  holds : ∀ x ∈ t, Holds x
  pointers : ∀ x ∈ t, x.2.pointer < t.length
  fresh : t.Pairwise fun x y => y.2.pointer ≠ x.2.pointer

/-- One more request. -/
theorem Created.newBuffer (h : Created t d) (hfirst : call.firstBlock = firstBlock)
    (hcount : call.blockCount = blockCount)
    (hs : newBuffer env d firstBlock blockCount load = (reply, d')) :
    Created (t ++ [(call, reply)]) d' := by
  obtain ⟨hempty, hlen, hholds, hpointers, hfresh⟩ := h
  rw [DiskCache.newBuffer] at hs
  cases hs
  obtain ⟨hblock, hblocks⟩ :=
    firstBlock_construct env d.blockSize firstBlock blockCount load
  constructor
  · exact hempty
  · rw [List.length_append, List.length_append, hlen]
    rfl
  · intro x hx
    rcases List.mem_append.mp hx with hx | hx
    · exact hholds x hx
    · rw [List.mem_singleton.mp hx]
      exact ⟨hblock.trans hfirst.symm, Nat.le_of_eq (hcount.trans hblocks.symm)⟩
  · intro x hx
    rw [List.length_append, List.length_singleton]
    rcases List.mem_append.mp hx with hx | hx
    · exact Nat.lt_succ_of_lt (hpointers x hx)
    · rw [List.mem_singleton.mp hx]
      exact Nat.lt_succ_of_le (Nat.le_of_eq hlen)
  · rw [List.pairwise_append]
    refine ⟨hfresh, List.pairwise_singleton _ _, ?_⟩
    intro x hx y hy
    -- the new place is behind all the others
    have hlt := hpointers x hx
    rw [List.mem_singleton.mp hy]
    simp only
    omega

theorem Created.step (h : Created t d) (hs : machine.step d call = .ok (reply, d')) :
    Created (t ++ [(call, reply)]) d' := by
  cases call with
  | prepare env firstBlock blockCount =>
    simp only [machine, prepare, request_eq (h.empty firstBlock), Except.ok.injEq] at hs
    exact h.newBuffer rfl rfl hs
  | cache env firstBlock blockCount =>
    simp only [machine, cache, request_eq (h.empty firstBlock), Except.ok.injEq] at hs
    exact h.newBuffer rfl rfl hs

/-- Every run creates a buffer for each of its requests. -/
theorem created (hinit : machine.init d) (h : machine.Run d t d') : Created t d' := by
  obtain ⟨blockSize, rfl⟩ := hinit
  apply h.invariant
  · exact ⟨fun _ => rfl, rfl, nofun, nofun, .nil⟩
  · intro t s' call reply s'' _ hcreated _ hs
    exact hcreated.step hs

/-- A run is served as it should be exactly if no call asks for blocks that an earlier call has
    asked for. -/
theorem served_iff (hinit : machine.init d) (h : machine.Run d t d') :
    Served t ↔ t.Pairwise fun x y => ¬ Covers x y := by
  have hcreated := created hinit h
  constructor
  · intro hserved
    apply (hserved.again.and hcreated.fresh).imp
    intro x y ⟨hagain, hfresh⟩ hcovers
    exact hfresh (hagain hcovers).1
  · intro hnew
    refine ⟨hcreated.holds, hnew.imp ?_⟩
    intro x y hnot hcovers
    exact absurd hcovers hnot

/-! ## The same request twice -/

/-- Memory and the device are always available. -/
def goodEnvironment : DiskCacheEnvironment where
  allocPages := fun _ => 0xC0100000
  read := fun _ _ => true

/-- Two calls `cache( 0, 1 )` for a device with blocks of 512 bytes. -/
def twoCalls : List (Call × Reply) :=
  let call := Call.cache goodEnvironment 0 1
  let (first, d) := cache goodEnvironment (construct 512) 0 1
  let (second, _) := cache goodEnvironment d 0 1
  [(call, first), (call, second)]

theorem twoCalls_run : ∃ d, machine.Run (construct 512) twoCalls d := by
  have hfirst : machine.Run (construct 512) [] (construct 512) := .nil
  exact ⟨_, (hfirst.snoc trivial rfl).snoc trivial rfl⟩

theorem served_iff_twoCalls :
    Served twoCalls ↔ twoCalls.Pairwise fun x y => ¬ Covers x y := by
  obtain ⟨d, hrun⟩ := twoCalls_run
  exact served_iff ⟨512, rfl⟩ hrun

/-- Both calls read the block, into different buffers. -/
theorem second_request_reads : (∃ d, machine.Run (construct 512) twoCalls d) ∧
    twoCalls.map (fun x => (x.2.pointer, x.2.reads)) = [(0, [(0, 1)]), (1, [(0, 1)])] ∧
    ¬ Served twoCalls := by
  refine ⟨twoCalls_run, by decide, ?_⟩
  intro hserved
  have hagain := List.pairwise_cons.mp hserved.again
  obtain ⟨hpointer, -⟩ := hagain.1 _ List.mem_cons_self ⟨rfl, Nat.le_refl _⟩
  exact absurd hpointer (by decide)

end TimbOS.Native.DiskCache
