import TimbOS.Spec.KHeapSafety

/-!
# Freeing a pointer twice

`mm::heap::free` looks at the status word in front of the data, whoever owns the page by
then. Until a page of the released object is handed out again that word says "free": later
calls of `free` write to the headers of other objects and of the chunks that are still held.

## Key results

- `Spent`: an object that was given back, in a chunk that is held or was returned
- `Spent.free`, `Spent.write`: what the clients do in the meantime keeps it
- `double_free_harmless`: the second `free` changes nothing
-/

namespace TimbOS.Native.KHeap

open ForStd

/-- What is legal until something is allocated again: to free live pointers, and to write to
    live objects and outside of the blocks, whether or not they have been returned. -/
def World.LegalUnreused (blocks : List Block) (w : World) (op : Op) : Prop :=
  w.Legal op ∧ match op with
    | .alloc _ _ => False
    | .free _ => True
    | .write mem => ∀ x, mem x ≠ w.heap.mem x →
        (∃ ptr size, (ptr, size) ∈ w.live ∧ ptr ≤ x ∧ x < ptr + size) ∨
          ∀ k ∈ blocks, ¬ k.Contains x

/-- The heap while nothing is allocated. -/
def unreused (blocks : List Block) : Machine World Op Outcome Fault :=
  { machine with legal := World.LegalUnreused blocks }

/-- Object `i` of the chunk of group `g` at `b` was given back, and perhaps the chunk was. -/
structure Spent (w : World) (a : AbsHeap) (g : Group) (b i : Nat) : Prop where
  lt_count : i < (sizeClass g).objectCount
  bound : b + (sizeClass g).totalSize ≤ 2 ^ 32
  dead : ∀ q ∈ w.live, q.1 ≠ HeapChunk.dataAddr (sizeClass g) b i
  status : w.heap.mem.load32 (HeapChunk.objAddr (sizeClass g) b i) = HeapObjectStatus.free.value
  /-- No other chunk has come to lie there. -/
  alone : ∀ g' b', a.Held g' b' → g' = g ∧ b' = b ∨ BlocksDisjoint g b g' b'

section DoubleFree

variable {w w' : World} {a a' : AbsHeap} {g g' : Group} {b b' i i' x ptr : Nat} {o : Outcome}
  {blocks : List Block}

/-- The bytes of the status word lie in the block. -/
theorem Spent.inBlock (h : Spent w a g b i) (hlo : HeapChunk.objAddr (sizeClass g) b i ≤ x)
    (hhi : x < HeapChunk.objAddr (sizeClass g) b i + 4) : InBlock (sizeClass g) b x := by
  apply IsHeader.inBlock (fits_sizeClass g)
  exact Or.inr ⟨i, h.lt_count, hlo, by omega⟩

/-- An object that was given back is not in use. -/
theorem Spent.not_used (hi : Inv w a) (h : Spent w a g b i) : ¬ a.Used g b i := by
  intro hu
  obtain ⟨size, hmem⟩ := hi.used_live g b i hu
  exact h.dead _ hmem rfl

/-- Memory that agrees on the status word keeps the mark. -/
theorem Spent.status_congr (h : Spent w a g b i) {m' : Mem}
    (hm : ∀ x, HeapChunk.objAddr (sizeClass g) b i ≤ x →
      x < HeapChunk.objAddr (sizeClass g) b i + 4 → m' x = w.heap.mem x) :
    m'.load32 (HeapChunk.objAddr (sizeClass g) b i) = HeapObjectStatus.free.value := by
  have hend := objAddr_end (b := b) (fits_sizeClass g) h.lt_count
  have hbound := h.bound
  simp only [sizeofHeapObject] at hend
  rw [← h.status]
  apply Mem.load32_congr (by omega)
  exact hm

/-- No live object reaches the status word. -/
theorem Spent.not_data (hi : Inv w a) (h : Spent w a g b i) {q : Nat × Nat} (hq : q ∈ w.live)
    (hlo : HeapChunk.objAddr (sizeClass g) b i ≤ x)
    (hhi : x < HeapChunk.objAddr (sizeClass g) b i + 4) : ¬ (q.1 ≤ x ∧ x < q.1 + q.2) := by
  obtain ⟨g', b', i', hu, hptr, hle⟩ := hi.live_used q hq
  rw [hptr]
  intro hx
  rcases h.alone g' b' hu.held with ⟨rfl, rfl⟩ | hdis
  · -- in the same chunk the word is a header
    exact not_isHeader_of_data hx.1 (by omega) (Or.inr ⟨i, h.lt_count, hlo, by omega⟩)
  · have hin := data_inBlock (fits_sizeClass g') hu.lt_count hx.1 (by omega)
    exact hdis.not_inBlock (h.inBlock hlo hhi) hin

/-- `mm::heap::free` makes its object such a one. -/
theorem Inv.spent (hi : Inv w a) (hl : w.Legal (.free ptr))
    (hs : w.step (.free ptr) = .ok (o, w')) :
    ∃ g b i a', ptr = HeapChunk.dataAddr (sizeClass g) b i ∧
      (⟨g, b, (sizeClass g).pageCount⟩ : Block) ∈ w.held ∧ Inv w' a' ∧ Spent w' a' g b i := by
  obtain ⟨o₂, w₂, g, a', b, i, hstep, hu, hptr, hfreed, hlive, hi', hmarked⟩ := hi.free hl
  rw [hstep] at hs
  cases hs
  refine ⟨g, b, i, a', hptr, hi.block_mem hu.held, hi', ?_⟩
  have hnot : ¬ a'.Used g b i := by
    rw [hfreed.used]
    simp
  refine ⟨hu.lt_count, (hi.rep.inv.held_placed hu.held).bound, ?_,
    hmarked i hu.lt_count hnot, ?_⟩
  · intro q hq
    rw [hlive, hptr] at hq
    simpa using (List.mem_filter.mp hq).2
  · intro g' b' hb'
    have hheld := hfreed.held_of hb'
    by_cases hne : b' = b
    · subst hne
      exact Or.inl ⟨hu.held.group_eq hheld, rfl⟩
    · exact Or.inr (hi.rep.inv.held_disjoint hu.held hheld hne)

/-- Another `free` leaves the mark alone, in a chunk that is held and in one that is not. -/
theorem Spent.free (hi : Inv w a) (h : Spent w a g b i) (hl : w.Legal (.free ptr))
    (hs : w.step (.free ptr) = .ok (o, w')) : ∃ a', Inv w' a' ∧ Spent w' a' g b i := by
  obtain ⟨o₂, w₂, g', a', b', i', hstep, hu, hptr, hfreed, hlive, hi', hmarked⟩ := hi.free hl
  rw [hstep] at hs
  cases hs
  have hdead : ∀ q ∈ w'.live, q.1 ≠ HeapChunk.dataAddr (sizeClass g) b i := by
    intro q hq
    rw [hlive] at hq
    exact h.dead q (List.mem_filter.mp hq).1
  have hnot : ¬ a'.Used g b i := by
    intro hused
    exact h.not_used hi ((hfreed.used g b i).mp hused).1
  refine ⟨a', hi', h.lt_count, h.bound, hdead, ?_,
    fun g'' b'' hb'' => h.alone g'' b'' (hfreed.held_of hb'')⟩
  by_cases hb : a.Held g b
  · by_cases hsame : b' = b
    · subst hsame
      have hgroup := hu.held.group_eq hb
      subst hgroup
      exact hmarked i h.lt_count hnot
    · exact hi'.rep.status_free (hfreed.held_ne hb (Ne.symm hsame)) h.lt_count hnot
  · -- the chunk was returned before, and no held chunk has a header there
    apply h.status_congr
    intro x hlo hhi
    apply hfreed.agree x
    intro g'' b'' hb'' hhead
    rcases h.alone g'' b'' hb'' with ⟨rfl, rfl⟩ | hdis
    · exact hb hb''
    · exact hdis.not_inBlock (h.inBlock hlo hhi) (hhead.inBlock (fits_sizeClass g''))

/-- Clients that write to live objects and outside of the blocks leave the mark alone. -/
theorem Spent.write {mem : Mem} (hi : Inv w a) (h : Spent w a g b i)
    (hk : ⟨g, b, (sizeClass g).pageCount⟩ ∈ blocks)
    (hl : w.LegalUnreused blocks (.write mem)) :
    Spent { w with heap := { w.heap with mem := mem } } a g b i := by
  refine ⟨h.lt_count, h.bound, h.dead, ?_, h.alone⟩
  apply h.status_congr
  intro x hlo hhi
  by_contra hne
  rcases hl.2 x hne with ⟨ptr, size, hmem, hdata⟩ | hout
  · exact h.not_data hi hmem hlo hhi hdata
  · exact hout _ hk (h.inBlock hlo hhi)

/-- The second `free` of such an object only reports it. -/
theorem Spent.step_free (h : Spent w a g b i) :
    w.step (.free (HeapChunk.dataAddr (sizeClass g) b i)) = .ok (⟨0, []⟩, w) := by
  have hobj := sub32_dataAddr (fits_sizeClass g) h.bound h.lt_count
  have hunused : HeapObject.isUsed w.heap.mem (HeapChunk.objAddr (sizeClass g) b i) = false := by
    simp only [HeapObject.isUsed, h.status]
    decide
  have hfree : w.heap.free (HeapChunk.dataAddr (sizeClass g) b i) = .ok (w.heap, []) := by
    unfold Heap.free
    simp [hobj, hunused]
  have hlive : (w.live.filter fun q => q.1 ≠ HeapChunk.dataAddr (sizeClass g) b i) = w.live := by
    apply List.filter_eq_self.mpr
    intro q hq
    simpa using h.dead q hq
  simp only [World.step, hfree, bind, Except.bind, hlive, List.foldl_nil, List.nil_append]

/-- While nothing is allocated the object stays given back. -/
theorem Spent.run {t : List (Op × Outcome)} (hi : Inv w a) (h : Spent w a g b i)
    (hk : ⟨g, b, (sizeClass g).pageCount⟩ ∈ blocks) (hrun : (unreused blocks).Run w t w') :
    ∃ a', Inv w' a' ∧ Spent w' a' g b i := by
  apply hrun.invariant (P := fun _ w => ∃ a, Inv w a ∧ Spent w a g b i)
  · exact ⟨a, hi, h⟩
  · rintro t w op o w' _ ⟨a, hi, h⟩ hl hs
    cases op with
    | alloc size p => exact hl.2.elim
    | free ptr => exact h.free hi hl.1 hs
    | write mem =>
      cases hs
      exact ⟨a, hi.write hl.1, h.write hi hk hl⟩

/-- A second `free` of a pointer does nothing, in every world that is reached from the first one
    without an allocation: no byte changes, no page is returned, and what is live stays live. -/
theorem double_free_harmless {w₀ w₁ w₂ : World} {t : List (Op × Outcome)}
    (hw : machine.Reachable w₀) (hl : w₀.Legal (.free ptr))
    (hs : w₀.step (.free ptr) = .ok (o, w₁)) (hrun : (unreused w₀.held).Run w₁ t w₂) :
    w₂.step (.free ptr) = .ok (⟨0, []⟩, w₂) := by
  obtain ⟨a, hi⟩ := reachable_inv hw
  obtain ⟨g, b, i, a₁, rfl, hk, hi₁, hspent⟩ := hi.spent hl hs
  obtain ⟨a₂, _, hspent₂⟩ := hspent.run hi₁ hk hrun
  exact hspent₂.step_free

/-- The first allocation after boot, with pages at 4 MB, is not refused. -/
theorem World.empty_alloc : ∃ o w', World.empty.step (.alloc 100 0x400000) = .ok (o, w') ∧
    w'.live = [(o.ptr, 100)] := by
  have hi := Inv.init World.empty_initial
  obtain ⟨o, w', hstep, hcase⟩ := hi.alloc (World.empty_supplies 100)
  refine ⟨o, w', hstep, ?_⟩
  rcases hcase with ⟨hnull, _⟩ | ⟨_, _, _, _, _, _, hlive, _⟩
  · obtain ⟨g, hgroup⟩ : ∃ g, findChunkGroup 100 = some g := ⟨⟨4, by decide⟩, by decide⟩
    obtain ⟨hplaced, hfresh⟩ := hi.placed (by decide) (World.empty_supplies 100 g hgroup)
    obtain ⟨h', _, halloc, _⟩ := hi.rep.allocFromNew rfl (by decide) hplaced hfresh
    have hrun : World.empty.heap.alloc 100 0x400000 =
        HeapChunkGroup.allocFromNew World.empty.heap g 0x400000 := by
      unfold Heap.alloc
      rw [hgroup]
      rfl
    rw [halloc] at hrun
    simp only [World.step, hrun, bind, Except.bind, Except.ok.injEq, Prod.mk.injEq] at hstep
    have hptr := congrArg Outcome.ptr hstep.1
    rw [hnull] at hptr
    cases hptr
  · exact hlive

/-- The only object of a chunk, whose page goes back with the first `free`. -/
theorem double_free_harmless_returned : ∃ w ptr o w', machine.Reachable w ∧
    w.step (.free ptr) = .ok (o, w') ∧ o.calls ≠ [] ∧ w'.step (.free ptr) = .ok (⟨0, []⟩, w') := by
  obtain ⟨o, w, halloc, hlive⟩ := World.empty_alloc
  have hw : machine.Reachable w :=
    .step (i := .alloc 100 0x400000) (.init World.empty_initial) (World.empty_supplies 100) halloc
  have hl : w.Legal (.free o.ptr) := by
    refine ⟨100, ?_⟩
    simp [hlive]
  obtain ⟨a, hi⟩ := reachable_inv hw
  obtain ⟨o', w', g, a', b, i, hstep, _, hptr, hfreed, _⟩ := hi.free hl
  refine ⟨w, o.ptr, o', w', hw, hstep, ?_, double_free_harmless hw hl hstep .nil⟩
  rcases hfreed.pages with ⟨_, ⟨j, hj, hused⟩, _⟩ | ⟨hcalls, _⟩
  · -- another object in use would be live
    obtain ⟨size, hmem⟩ := hi.used_live g b j hused
    rw [hlive, List.mem_singleton, Prod.mk.injEq, hptr] at hmem
    exact absurd (dataAddr_injective _ _ hmem.1) hj
  · rw [hcalls]
    simp

end DoubleFree

end TimbOS.Native.KHeap
