import TimbOS.Native.KHeap

/-!
# Layout of a heap chunk

Where the headers and the data of a chunk lie inside its pages. `SizeClass.Fits`
collects what the 17 instances of `heap_chunk_group` have in common; above all the
objects fit behind the real 12-byte chunk header, although `overhead_size` is 8.

## Key results

- `fits_sizeClass`: every group fits its pages
- `objAddr_end`, `objAddr_sep`: objects lie inside the block and apart from each other
- `pageOf_dataAddr`: masking a data pointer gives the chunk
- `findChunkGroup_objSize`: the size in a header names the group
-/

namespace TimbOS.Native.KHeap

open ForStd

/-- What the chunk code relies on about its template arguments. -/
structure SizeClass.Fits (c : SizeClass) : Prop where
  /-- An object has data. -/
  objSize_pos : 0 < c.objSize
  /-- A chunk holds an object. -/
  count_pos : 0 < c.objectCount
  /-- The objects fit behind the three words of the chunk header. -/
  room : 12 + c.objectCount * sizeofHeapObject c.objSize ≤ c.totalSize
  /-- "Multi-page chunks only contain 1 object" -/
  single : c.pageCount = 1 ∨ c.objectCount = 1

theorem fits_sizeClass (g : Group) : (sizeClass g).Fits := by
  have h : ∀ g : Group, 0 < (sizeClass g).objSize ∧ 0 < (sizeClass g).objectCount ∧
      12 + (sizeClass g).objectCount * sizeofHeapObject (sizeClass g).objSize ≤
        (sizeClass g).totalSize ∧
      ((sizeClass g).pageCount = 1 ∨ (sizeClass g).objectCount = 1) := by decide
  obtain ⟨hsize, hpos, hroom, hsingle⟩ := h g
  exact ⟨hsize, hpos, hroom, hsingle⟩

/-! ## Choosing the group -/

/-- The group found for a request is large enough for it. -/
theorem le_objSize_of_findChunkGroup {size : Nat} {g : Group}
    (h : findChunkGroup size = some g) : size ≤ (sizeClass g).objSize := by
  simpa using List.find?_some h

/-- The sizes increase along the groups, so the `_size` that `heap_object::alloc` leaves
    in a header leads `mm::heap::free` back to the group the object came from. -/
theorem findChunkGroup_objSize (g : Group) :
    findChunkGroup (sizeClass g).objSize = some g := by
  revert g
  decide

/-! ## Addresses -/

section Addresses

variable {c : SizeClass} {b i j : Nat}

theorem objAddr_ge (c : SizeClass) (b i : Nat) : b + 12 ≤ HeapChunk.objAddr c b i := by
  simp only [HeapChunk.objAddr]
  omega

/-- An object ends before any later object of the chunk starts. -/
theorem objAddr_sep (hij : i < j) :
    HeapChunk.objAddr c b i + sizeofHeapObject c.objSize ≤ HeapChunk.objAddr c b j := by
  have h := Nat.mul_le_mul_right (sizeofHeapObject c.objSize) (Nat.succ_le_of_lt hij)
  rw [Nat.succ_mul] at h
  simp only [HeapChunk.objAddr]
  omega

/-- Two objects of a chunk do not overlap. -/
theorem objAddr_disjoint (hij : i ≠ j) :
    HeapChunk.objAddr c b i + sizeofHeapObject c.objSize ≤ HeapChunk.objAddr c b j ∨
      HeapChunk.objAddr c b j + sizeofHeapObject c.objSize ≤ HeapChunk.objAddr c b i := by
  rcases Nat.lt_or_gt_of_ne hij with h | h
  · exact Or.inl (objAddr_sep h)
  · exact Or.inr (objAddr_sep h)

theorem objAddr_injective (c : SizeClass) (b : Nat) :
    Function.Injective (HeapChunk.objAddr c b) := by
  intro i j hij
  by_cases h : i = j
  · exact h
  · have hdis := objAddr_disjoint (c := c) (b := b) h
    simp only [sizeofHeapObject] at hdis
    omega

/-- Every object ends inside the block. -/
theorem objAddr_end (hc : c.Fits) (hi : i < c.objectCount) :
    HeapChunk.objAddr c b i + sizeofHeapObject c.objSize ≤ b + c.totalSize := by
  have h := objAddr_sep (c := c) (b := b) hi
  have hroom := hc.room
  have hlast : HeapChunk.objAddr c b c.objectCount ≤ b + c.totalSize := by
    simp only [HeapChunk.objAddr]
    omega
  omega

theorem dataAddr_injective (c : SizeClass) (b : Nat) :
    Function.Injective (HeapChunk.dataAddr c b) := by
  intro i j hij
  apply objAddr_injective c b
  simp only [HeapChunk.dataAddr] at hij
  omega

/-- `uintptr_t(ptr) - sizeof(heap_object<0>)` finds the header in front of the data. -/
theorem sub32_dataAddr (hc : c.Fits) (hb : b + c.totalSize ≤ 2 ^ 32) (hi : i < c.objectCount) :
    sub32 (HeapChunk.dataAddr c b i) (sizeofHeapObject 0) = HeapChunk.objAddr c b i := by
  have hend := objAddr_end (b := b) hc hi
  have hpos := hc.objSize_pos
  simp only [HeapChunk.dataAddr, sizeofHeapObject] at hend ⊢
  rw [sub32_eq (by omega) (by omega)]
  omega

/-- `uintptr_t(ptr) & ~PAGE_MASK` finds the chunk: the data of an object starts in the
    first page of its chunk, whatever the page count. -/
theorem pageOf_dataAddr (hc : c.Fits) (hb : b % pageSize = 0) (hi : i < c.objectCount) :
    pageOf (HeapChunk.dataAddr c b i) = b := by
  have hge := objAddr_ge c b i
  have hpage : HeapChunk.dataAddr c b i < b + pageSize := by
    rcases hc.single with h1 | h1
    · -- one page: the object ends inside it
      have hend := objAddr_end (b := b) hc hi
      have hsize := hc.objSize_pos
      simp only [SizeClass.totalSize, h1, sizeofHeapObject] at hend
      simp only [HeapChunk.dataAddr]
      omega
    · -- one object: it is the first
      have hi0 : i = 0 := by omega
      simp only [hi0, HeapChunk.dataAddr, HeapChunk.objAddr, pageSize]
      omega
  simp only [pageOf, HeapChunk.dataAddr, pageSize] at hpage hb ⊢
  omega

/-! ## Header bytes -/

/-- Byte `x` belongs to the chunk header or to the header of an object. -/
def IsHeader (c : SizeClass) (b x : Nat) : Prop :=
  (b ≤ x ∧ x < b + 12) ∨
    ∃ i, i < c.objectCount ∧ HeapChunk.objAddr c b i ≤ x ∧ x < HeapChunk.objAddr c b i + 8

/-- Byte `x` belongs to the block of a chunk. -/
def InBlock (c : SizeClass) (b x : Nat) : Prop := b ≤ x ∧ x < b + c.totalSize

theorem IsHeader.inBlock {x : Nat} (hc : c.Fits) (h : IsHeader c b x) : InBlock c b x := by
  rcases h with h | ⟨i, hi, hx⟩
  · have hroom := hc.room
    exact ⟨by omega, by omega⟩
  · have hge := objAddr_ge c b i
    have hend := objAddr_end (b := b) hc hi
    simp only [sizeofHeapObject] at hend
    exact ⟨by omega, by omega⟩

/-- The data of an object holds no header byte. -/
theorem not_isHeader_of_data {x : Nat} (hx : HeapChunk.dataAddr c b i ≤ x)
    (hx' : x < HeapChunk.dataAddr c b i + c.objSize) : ¬ IsHeader c b x := by
  simp only [HeapChunk.dataAddr] at hx hx'
  intro h
  rcases h with h | ⟨j, hj, hlo, hhi⟩
  · have hge := objAddr_ge c b i
    omega
  · by_cases hij : i = j
    · subst hij
      omega
    · have hdis := objAddr_disjoint (c := c) (b := b) hij
      simp only [sizeofHeapObject] at hdis
      omega

/-- The data of an object lies inside the block. -/
theorem data_inBlock {x : Nat} (hc : c.Fits) (hi : i < c.objectCount)
    (hx : HeapChunk.dataAddr c b i ≤ x) (hx' : x < HeapChunk.dataAddr c b i + c.objSize) :
    InBlock c b x := by
  have hge := objAddr_ge c b i
  have hend := objAddr_end (b := b) hc hi
  simp only [sizeofHeapObject, HeapChunk.dataAddr] at hend hx hx'
  exact ⟨by omega, by omega⟩

/-- A pointer to an object points into the block. -/
theorem dataAddr_inBlock (hc : c.Fits) (hi : i < c.objectCount) :
    InBlock c b (HeapChunk.dataAddr c b i) := by
  have hpos := hc.objSize_pos
  exact data_inBlock hc hi (Nat.le_refl _) (by omega)

/-- The data of two objects of a chunk do not overlap. -/
theorem data_disjoint (hij : i ≠ j) :
    HeapChunk.dataAddr c b i + c.objSize ≤ HeapChunk.dataAddr c b j ∨
      HeapChunk.dataAddr c b j + c.objSize ≤ HeapChunk.dataAddr c b i := by
  have hdis := objAddr_disjoint (c := c) (b := b) hij
  simp only [sizeofHeapObject, HeapChunk.dataAddr] at hdis ⊢
  omega

end Addresses

end TimbOS.Native.KHeap
