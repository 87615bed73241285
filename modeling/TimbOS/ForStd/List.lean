import Mathlib

/-!
# List lemmas

Generic lemmas about duplicate-free lists of indices below a bound, about concatenations, and
about loops that write to a table.
-/

namespace List

/-- A duplicate-free list of numbers below `n` has at most `n` elements. -/
theorem length_le_of_nodup_of_lt {l : List Nat} {n : Nat} (h : l.Nodup) (hlt : ∀ i ∈ l, i < n) :
    l.length ≤ n := by
  have hsub : l ⊆ List.range n := by
    intro i hi
    exact List.mem_range.mpr (hlt i hi)
  have hle := (List.subperm_of_subset h hsub).length_le
  rwa [List.length_range] at hle

/-- The indices below `n` split into the elements of `l` and the others. -/
theorem length_add_length_filter_notMem {l : List Nat} {n : Nat} (h : l.Nodup)
    (hlt : ∀ i ∈ l, i < n) :
    l.length + ((List.range n).filter fun i => i ∉ l).length = n := by
  have hperm : ((List.range n).filter fun i => i ∈ l).Perm l := by
    apply (List.perm_ext_iff_of_nodup (List.nodup_range.filter _) h).mpr
    intro i
    simp only [List.mem_filter, List.mem_range, decide_eq_true_eq]
    constructor
    · intro hi
      exact hi.2
    · intro hi
      exact ⟨hlt i hi, hi⟩
  have hsum := List.length_eq_length_filter_add (l := List.range n) fun i => decide (i ∈ l)
  rw [List.length_range, hperm.length_eq] at hsum
  simp only [decide_not] at hsum ⊢
  omega

/-- A list with fewer than `n` elements misses a number below `n`. -/
theorem exists_notMem_of_length_lt {l : List Nat} {n : Nat} (h : l.length < n) :
    ∃ i, i < n ∧ i ∉ l := by
  by_cases hall : ∀ i, i < n → i ∈ l
  · have hsub : List.range n ⊆ l := by
      intro i hi
      exact hall i (List.mem_range.mp hi)
    have hle := (List.subperm_of_subset List.nodup_range hsub).length_le
    rw [List.length_range] at hle
    omega
  · simp only [not_forall] at hall
    obtain ⟨i, hi, hnot⟩ := hall
    exact ⟨i, hi, hnot⟩

/-- A duplicate-free list of `n` numbers below `n` has them all. -/
theorem mem_of_nodup_of_length_eq {l : List Nat} {n i : Nat} (h : l.Nodup)
    (hlt : ∀ i ∈ l, i < n) (hlen : l.length = n) (hi : i < n) : i ∈ l := by
  by_cases hmem : i ∈ l
  · exact hmem
  · have hcons : ∀ j ∈ i :: l, j < n := by
      intro j hj
      rcases List.mem_cons.mp hj with rfl | hj
      · exact hi
      · exact hlt j hj
    have hle := length_le_of_nodup_of_lt (List.nodup_cons.mpr ⟨hmem, h⟩) hcons
    rw [List.length_cons] at hle
    omega

/-- Element `i` of a concatenation of parts of one length `n`. -/
theorem getElem?_flatMap_of_length {α β : Type*} {f : α → List β} {n : Nat} (hn : 0 < n)
    (hf : ∀ a, (f a).length = n) (l : List α) (i : Nat) :
    (l.flatMap f)[i]? = l[i / n]?.bind fun a => (f a)[i % n]? := by
  induction l generalizing i with
  | nil => simp
  | cons a l ih =>
    rw [List.flatMap_cons]
    by_cases hi : i < n
    · rw [List.getElem?_append_left (by rw [hf]; exact hi), Nat.div_eq_of_lt hi,
        Nat.mod_eq_of_lt hi]
      rfl
    · have hdiv : i / n = (i - n) / n + 1 := by
        rw [← Nat.div_eq_sub_div hn (by omega)]
      have hmod : i % n = (i - n) % n := Nat.mod_eq_sub_mod (by omega)
      rw [List.getElem?_append_right (by rw [hf]; omega), hf, ih, hdiv, hmod]
      rfl

/-- The concatenation of parts of one length, from part `k` on. -/
theorem drop_flatMap_of_length {α β : Type*} {f : α → List β} {n : Nat} {l : List α}
    (hf : ∀ a ∈ l, (f a).length = n) (k : Nat) :
    (l.flatMap f).drop (n * k) = (l.drop k).flatMap f := by
  induction k generalizing l with
  | zero => rfl
  | succ k ih =>
    cases l with
    | nil => simp
    | cons a l =>
      rw [List.forall_mem_cons] at hf
      have hfirst : n * (k + 1) = (f a).length + n * k := by rw [hf.1, Nat.mul_succ, Nat.add_comm]
      rw [List.flatMap_cons, hfirst, List.drop_length_add_append, ih hf.2, List.drop_succ_cons]

/-- A piece of the first of two parts. -/
theorem take_drop_append_left {α : Type*} {r m : Nat} {l₁ : List α} (h : r + m ≤ l₁.length)
    (l₂ : List α) : ((l₁ ++ l₂).drop r).take m = (l₁.drop r).take m := by
  rw [List.drop_append_of_le_length (by omega), List.take_append_of_le_length]
  rw [List.length_drop]
  omega

/-- A piece of part `k`. -/
theorem take_drop_flatMap_range {α : Type*} {f : Nat → List α} {n r m count : Nat}
    (hf : ∀ i, (f i).length = n) {k : Nat} (hk : k < count) (hr : r + m ≤ n) :
    (((List.range count).flatMap f).drop (n * k + r)).take m = ((f k).drop r).take m := by
  have hk' : k < (List.range count).length := by rwa [List.length_range]
  rw [← List.drop_drop, drop_flatMap_of_length fun i _ => hf i, List.drop_eq_getElem_cons hk',
    List.getElem_range, List.flatMap_cons, take_drop_append_left (by rw [hf]; exact hr)]

/-! ## Loops that write to a table -/

section Writes

variable {α κ β : Type*} [DecidableEq κ] (w : α → κ) (v : α → β) {l l' : List α}

/-- An entry that no round writes. -/
theorem foldl_update_of_forall_ne {k : κ} (h : ∀ a ∈ l, w a ≠ k) (t : κ → β) :
    l.foldl (fun t a => Function.update t (w a) (v a)) t k = t k := by
  induction l generalizing t with
  | nil => rfl
  | cons a l ih =>
    rw [List.foldl_cons, ih fun b hb => h b (List.mem_cons_of_mem a hb)]
    exact Function.update_of_ne (h a List.mem_cons_self).symm _ _

/-- An entry has what the last round wrote that wrote it. -/
theorem foldl_update_last {a : α} (h : ∀ b ∈ l', w b ≠ w a) (t : κ → β) :
    (l ++ a :: l').foldl (fun t a => Function.update t (w a) (v a)) t (w a) = v a := by
  rw [List.foldl_append, List.foldl_cons, foldl_update_of_forall_ne w v h]
  exact Function.update_self _ _ _

/-- If no entry is written twice, the order does not matter. -/
theorem foldl_update_of_nodup (h : (l.map w).Nodup) {a : α} (ha : a ∈ l) (t : κ → β) :
    l.foldl (fun t a => Function.update t (w a) (v a)) t (w a) = v a := by
  obtain ⟨l₁, l₂, rfl⟩ := List.append_of_mem ha
  apply foldl_update_last
  intro b hb heq
  rw [List.map_append, List.map_cons] at h
  have htail := (List.nodup_cons.mp h.of_append_right).1
  exact htail (heq ▸ List.mem_map_of_mem hb)

end Writes

/-! ## Splitting a text that grows at its end -/

/-- A separator at the end begins a new, empty part. -/
theorem splitOn_append_sep {α : Type*} [BEq α] [LawfulBEq α] (l : List α) (a : α) :
    (l ++ [a]).splitOn a = l.splitOn a ++ [[]] := by
  rw [List.splitOn_append_cons_of_beq l [] (beq_self_eq_true a), List.splitOn_nil]

/-- Any other element at the end goes to the last part. -/
theorem splitOn_append_ne {α : Type*} [BEq α] [LawfulBEq α] (l : List α) {a x : α} (h : x ≠ a) :
    ∃ parts last, l.splitOn a = parts ++ [last] ∧
      (l ++ [x]).splitOn a = parts ++ [last ++ [x]] := by
  induction l with
  | nil =>
    have hx : ([x] : List α).splitOn a = [[x]] := by
      rw [List.splitOn_cons_eq_if_modifyHead, if_neg (by simpa using h), List.splitOn_nil]
      rfl
    exact ⟨[], [], by simp, hx⟩
  | cons y l ih =>
    obtain ⟨parts, last, hl, hlx⟩ := ih
    rw [List.cons_append, List.splitOn_cons_eq_if_modifyHead, List.splitOn_cons_eq_if_modifyHead,
      hl, hlx]
    by_cases hy : (y == a) = true
    · exact ⟨[] :: parts, last, by rw [if_pos hy]; rfl, by rw [if_pos hy]; rfl⟩
    · rw [if_neg hy, if_neg hy]
      -- the first part grows, which is the last one if there is no other
      cases parts with
      | nil => exact ⟨[], y :: last, rfl, rfl⟩
      | cons part parts => exact ⟨(y :: part) :: parts, last, rfl, rfl⟩

end List
