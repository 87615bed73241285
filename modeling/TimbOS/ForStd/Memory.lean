import Mathlib

/-!
# Byte memory of a 32-bit machine

A memory maps addresses to bytes. Addresses are natural numbers and every
access reduces its address modulo `2 ^ 32`, so pointer arithmetic may be written
without an explicit wrap. Words are 32 bits wide, little-endian and need not be
aligned.

The two rules that the rest of a development uses are `load32_store32_same` and
`load32_store32_sep` (read back, and read past a store that does not overlap);
`store32_apply` and `load32_congr` are their byte-level counterparts.
-/

namespace ForStd

/-- A byte memory. Only the addresses below `2 ^ 32` are ever accessed. -/
abbrev Mem := Nat → UInt8

namespace Mem

/-- Read the byte at address `a`. -/
def load8 (m : Mem) (a : Nat) : UInt8 := m (a % 2 ^ 32)

/-- Write the byte `v` at address `a`. -/
def store8 (m : Mem) (a : Nat) (v : UInt8) : Mem :=
  fun x => if x = a % 2 ^ 32 then v else m x

/-- Read the little-endian 32-bit word at address `a`. -/
def load32 (m : Mem) (a : Nat) : Nat :=
  (m.load8 a).toNat + 2 ^ 8 * (m.load8 (a + 1)).toNat +
    2 ^ 16 * (m.load8 (a + 2)).toNat + 2 ^ 24 * (m.load8 (a + 3)).toNat

/-- Read the little-endian 64-bit word at address `a`. -/
def load64 (m : Mem) (a : Nat) : Nat := m.load32 a + 2 ^ 32 * m.load32 (a + 4)

/-- Write the low 32 bits of `v` as a little-endian word at address `a`. -/
def store32 (m : Mem) (a v : Nat) : Mem :=
  (((m.store8 a (UInt8.ofNat v)).store8 (a + 1) (UInt8.ofNat (v / 2 ^ 8))).store8 (a + 2)
    (UInt8.ofNat (v / 2 ^ 16))).store8 (a + 3) (UInt8.ofNat (v / 2 ^ 24))

/-! ## Bytes -/

theorem load8_store8_same (m : Mem) (a : Nat) (v : UInt8) : (m.store8 a v).load8 a = v := by
  simp [load8, store8]

theorem load8_store8_ne (m : Mem) {a b : Nat} (v : UInt8) (h : b % 2 ^ 32 ≠ a % 2 ^ 32) :
    (m.store8 a v).load8 b = m.load8 b := by
  simp only [load8, store8, if_neg h]

/-- A store changes only the four bytes it writes. -/
theorem store32_apply (m : Mem) {a x : Nat} (v : Nat) (ha : a + 4 ≤ 2 ^ 32)
    (hx : x < a ∨ a + 4 ≤ x) : m.store32 a v x = m x := by
  simp only [store32, store8]
  -- none of the four bytes is the one at `x`
  rw [if_neg (by omega), if_neg (by omega), if_neg (by omega), if_neg (by omega)]

theorem load8_store32_sep (m : Mem) {a b : Nat} (v : Nat)
    (h : a + 4 ≤ b ∧ b + 1 ≤ a + 2 ^ 32 ∨ b + 1 ≤ a ∧ a + 4 ≤ b + 2 ^ 32) :
    (m.store32 a v).load8 b = m.load8 b := by
  simp only [store32]
  rw [load8_store8_ne _ _ (by omega), load8_store8_ne _ _ (by omega),
    load8_store8_ne _ _ (by omega), load8_store8_ne _ _ (by omega)]

/-! ## Words -/

theorem load32_lt (m : Mem) (a : Nat) : m.load32 a < 2 ^ 32 := by
  have h0 := (m.load8 a).toNat_lt
  have h1 := (m.load8 (a + 1)).toNat_lt
  have h2 := (m.load8 (a + 2)).toNat_lt
  have h3 := (m.load8 (a + 3)).toNat_lt
  simp only [load32]
  omega

/-- Only the place of an address modulo `2 ^ 32` counts. -/
theorem load8_of_mod_eq (m : Mem) {a b : Nat} (h : a % 2 ^ 32 = b % 2 ^ 32) :
    m.load8 a = m.load8 b := by
  rw [load8, load8, h]

theorem load32_of_mod_eq (m : Mem) {a b : Nat} (h : a % 2 ^ 32 = b % 2 ^ 32) :
    m.load32 a = m.load32 b := by
  simp only [load32]
  rw [load8_of_mod_eq m h, load8_of_mod_eq m (a := a + 1) (b := b + 1) (by omega),
    load8_of_mod_eq m (a := a + 2) (b := b + 2) (by omega),
    load8_of_mod_eq m (a := a + 3) (b := b + 3) (by omega)]

/-- A word is determined by its four bytes. -/
theorem load32_congr {m m' : Mem} {a : Nat} (ha : a + 4 ≤ 2 ^ 32)
    (h : ∀ x, a ≤ x → x < a + 4 → m' x = m x) : m'.load32 a = m.load32 a := by
  -- a word does not wrap around, so its bytes are where one reads them
  have hb : ∀ k, k < 4 → m'.load8 (a + k) = m.load8 (a + k) := by
    intro k hk
    simp only [load8]
    rw [Nat.mod_eq_of_lt (by omega)]
    exact h _ (by omega) (by omega)
  have h0 := hb 0 (by omega)
  rw [Nat.add_zero] at h0
  simp only [load32]
  rw [h0, hb 1 (by omega), hb 2 (by omega), hb 3 (by omega)]

/-- Reading back the word just written. -/
@[simp] theorem load32_store32_same (m : Mem) (a v : Nat) :
    (m.store32 a v).load32 a = v % 2 ^ 32 := by
  -- each byte is behind the stores to the higher ones
  have h3 : (m.store32 a v).load8 (a + 3) = UInt8.ofNat (v / 2 ^ 24) := by
    simp only [store32, load8_store8_same]
  have h2 : (m.store32 a v).load8 (a + 2) = UInt8.ofNat (v / 2 ^ 16) := by
    simp only [store32]
    rw [load8_store8_ne _ _ (by omega), load8_store8_same]
  have h1 : (m.store32 a v).load8 (a + 1) = UInt8.ofNat (v / 2 ^ 8) := by
    simp only [store32]
    rw [load8_store8_ne _ _ (by omega), load8_store8_ne _ _ (by omega), load8_store8_same]
  have h0 : (m.store32 a v).load8 a = UInt8.ofNat v := by
    simp only [store32]
    rw [load8_store8_ne _ _ (by omega), load8_store8_ne _ _ (by omega),
      load8_store8_ne _ _ (by omega), load8_store8_same]
  simp only [load32, h0, h1, h2, h3, UInt8.toNat_ofNat']
  omega

/-- The last of two stores to one word counts. -/
theorem store32_store32_same (m : Mem) (a v w : Nat) :
    (m.store32 a v).store32 a w = m.store32 a w := by
  funext x
  simp only [store32, store8]
  -- inside the word the second store decides, outside neither does
  split_ifs <;> rfl

/-- Reading past a store that does not overlap the word read. -/
theorem load32_store32_sep (m : Mem) {a b : Nat} (v : Nat)
    (h : a + 4 ≤ b ∧ b + 4 ≤ a + 2 ^ 32 ∨ b + 4 ≤ a ∧ a + 4 ≤ b + 2 ^ 32) :
    (m.store32 a v).load32 b = m.load32 b := by
  simp only [load32]
  rw [load8_store32_sep _ _ (by omega), load8_store32_sep _ _ (by omega),
    load8_store32_sep _ _ (by omega), load8_store32_sep _ _ (by omega)]

/-! ## Words at a distance

Addresses count modulo `2 ^ 32`, so two words are apart when neither begins inside the
other, in whichever direction one goes around. -/

/-- The words at `a` and `b` do not overlap. -/
def Apart (a b : Nat) : Prop :=
  4 ≤ (b + 2 ^ 32 - a % 2 ^ 32) % 2 ^ 32 ∧ 4 ≤ (a + 2 ^ 32 - b % 2 ^ 32) % 2 ^ 32

theorem Apart.symm {a b : Nat} (h : Apart a b) : Apart b a := And.symm h

/-- Words of one array, or of arrays that follow one another, are apart. -/
theorem apart_of_le {a b : Nat} (hab : a + 4 ≤ b) (hba : b + 4 ≤ a + 2 ^ 32) : Apart a b := by
  unfold Apart
  omega

/-- Only the place of a word modulo `2 ^ 32` counts. -/
theorem apart_congr {a a' b b' : Nat} (ha : a % 2 ^ 32 = a' % 2 ^ 32)
    (hb : b % 2 ^ 32 = b' % 2 ^ 32) (h : Apart a b) : Apart a' b' := by
  unfold Apart at h ⊢
  omega

/-- Reading a word apart from the one just written. -/
theorem load32_store32_apart (m : Mem) {a b : Nat} (v : Nat) (h : Apart a b) :
    (m.store32 a v).load32 b = m.load32 b := by
  obtain ⟨hab, hba⟩ := h
  have hbyte : ∀ k, k < 4 → (m.store32 a v).load8 (b + k) = m.load8 (b + k) := by
    intro k hk
    simp only [store32]
    rw [load8_store8_ne _ _ (by omega), load8_store8_ne _ _ (by omega),
      load8_store8_ne _ _ (by omega), load8_store8_ne _ _ (by omega)]
  have h0 := hbyte 0 (by omega)
  rw [Nat.add_zero] at h0
  simp only [load32]
  rw [h0, hbyte 1 (by omega), hbyte 2 (by omega), hbyte 3 (by omega)]

/-! ## Bytes of a word -/

/-- The byte at `b` belongs to the word at `a`. -/
def InWord (a b : Nat) : Prop := (b + 2 ^ 32 - a % 2 ^ 32) % 2 ^ 32 < 4

/-- A store leaves the bytes outside its word alone. -/
theorem load8_store32_of_not_inWord (m : Mem) {a b : Nat} (v : Nat) (h : ¬ InWord a b) :
    (m.store32 a v).load8 b = m.load8 b := by
  unfold InWord at h
  simp only [store32]
  rw [load8_store8_ne _ _ (by omega), load8_store8_ne _ _ (by omega),
    load8_store8_ne _ _ (by omega), load8_store8_ne _ _ (by omega)]

theorem store32_of_not_inWord (m : Mem) {a x : Nat} (v : Nat) (h : ¬ InWord a x) :
    m.store32 a v x = m x := by
  unfold InWord at h
  simp only [store32, store8]
  rw [if_neg (by omega), if_neg (by omega), if_neg (by omega), if_neg (by omega)]

/-- Words with equal bytes are equal. -/
theorem load32_of_inWord {m m' : Mem} {a : Nat} (h : ∀ x, InWord a x → m' x = m x) :
    m'.load32 a = m.load32 a := by
  have hbyte : ∀ k < 4, m'.load8 (a + k) = m.load8 (a + k) := by
    intro k hk
    apply h
    unfold InWord
    omega
  have h0 := hbyte 0 (by omega)
  rw [Nat.add_zero] at h0
  rw [load32, load32, h0, hbyte 1 (by omega), hbyte 2 (by omega), hbyte 3 (by omega)]

/-- Equal words have equal bytes. -/
theorem load8_eq_of_load32_eq {m m' : Mem} {a b : Nat} (h : m'.load32 a = m.load32 a)
    (hb : InWord a b) : m'.load8 b = m.load8 b := by
  have h0 := (m.load8 a).toNat_lt
  have h1 := (m.load8 (a + 1)).toNat_lt
  have h2 := (m.load8 (a + 2)).toNat_lt
  have h3 := (m.load8 (a + 3)).toNat_lt
  have h0' := (m'.load8 a).toNat_lt
  have h1' := (m'.load8 (a + 1)).toNat_lt
  have h2' := (m'.load8 (a + 2)).toNat_lt
  have h3' := (m'.load8 (a + 3)).toNat_lt
  simp only [load32] at h
  have hbytes : ∀ k < 4, m'.load8 (a + k) = m.load8 (a + k) := by
    intro k hk
    apply UInt8.toNat_inj.mp
    interval_cases k
    · rw [Nat.add_zero]
      omega
    · omega
    · omega
    · omega
  unfold InWord at hb
  have hplace : b % 2 ^ 32 = (a + (b + 2 ^ 32 - a % 2 ^ 32) % 2 ^ 32) % 2 ^ 32 := by omega
  rw [load8_of_mod_eq m' hplace, load8_of_mod_eq m hplace]
  exact hbytes _ hb

/-! ## Structures

The words of a structure lie at offsets from its address. -/

/-- Store the words at some offsets of the structure at `base`. -/
def storeFields (m : Mem) (base : Nat) (fields : List (Nat × Nat)) : Mem :=
  fields.foldl (fun m f => m.store32 (base + f.1) f.2) m

/-- Storing fields changes nothing outside the record. -/
theorem storeFields_apply (m : Mem) {base size a : Nat} {fields : List (Nat × Nat)}
    (hfields : ∀ f ∈ fields, f.1 + 4 ≤ size) (hsize : base + size ≤ 2 ^ 32)
    (ha : a < base ∨ base + size ≤ a) : m.storeFields base fields a = m a := by
  induction fields generalizing m with
  | nil => rfl
  | cons f fields ih =>
    obtain ⟨hf, hrest⟩ := List.forall_mem_cons.mp hfields
    show (m.store32 (base + f.1) f.2).storeFields base fields a = m a
    rw [ih _ hrest, store32_apply _ _ (by omega) (by omega)]

/-- Offsets of words that do not overlap if they differ. -/
def WordOffset (o : Nat) : Prop := o % 4 = 0 ∧ o < 2 ^ 32

instance (o : Nat) : Decidable (WordOffset o) := inferInstanceAs (Decidable (_ ∧ _))

theorem load32_store32_offset (m : Mem) (base : Nat) {o o' : Nat} (v : Nat) (ho : WordOffset o)
    (ho' : WordOffset o') (hne : o ≠ o') :
    (m.store32 (base + o) v).load32 (base + o') = m.load32 (base + o') := by
  obtain ⟨hmod, hlt⟩ := ho
  obtain ⟨hmod', hlt'⟩ := ho'
  apply load32_store32_sep
  omega

/-- The value that is stored last at an offset. -/
def lastField : List (Nat × Nat) → Nat → Option Nat
  | [], _ => none
  | f :: fields, o => (lastField fields o).or (if f.1 = o then some f.2 else none)

variable {base o : Nat} {fields : List (Nat × Nat)}

theorem lastField_eq_none : lastField fields o = none ↔ o ∉ fields.map Prod.fst := by
  induction fields with
  | nil => simp [lastField]
  | cons f fields ih =>
    by_cases hf : f.1 = o
    · simp [lastField, hf]
    · simp [lastField, ih, hf, Ne.symm hf]

/-- A word of the structure has the value that was stored last, or else the old one. -/
theorem load32_storeFields (m : Mem) (hfields : ∀ f ∈ fields, WordOffset f.1)
    (ho : WordOffset o) : (m.storeFields base fields).load32 (base + o) =
      ((lastField fields o).map (· % 2 ^ 32)).getD (m.load32 (base + o)) := by
  induction fields generalizing m with
  | nil => rfl
  | cons f fields ih =>
    have hrest := ih (m.store32 (base + f.1) f.2) fun g hg =>
      hfields g (List.mem_cons_of_mem f hg)
    rw [storeFields, List.foldl_cons, ← storeFields, hrest, lastField]
    cases hlast : lastField fields o with
    | some v => rfl
    | none =>
      -- the first store is the last one to this word, or there is none
      by_cases hf : f.1 = o
      · rw [if_pos hf, ← hf]
        exact load32_store32_same m (base + f.1) f.2
      · rw [if_neg hf]
        exact load32_store32_offset m base f.2 (hfields f List.mem_cons_self) ho hf

/-- A word that is not stored stays as it was. -/
theorem load32_storeFields_of_notMem (m : Mem) (hfields : ∀ f ∈ fields, WordOffset f.1)
    (ho : WordOffset o) (hnot : o ∉ fields.map Prod.fst) :
    (m.storeFields base fields).load32 (base + o) = m.load32 (base + o) := by
  rw [load32_storeFields m hfields ho, lastField_eq_none.mpr hnot]
  rfl

/-- A word that is stored does not depend on what was there before. -/
theorem load32_storeFields_of_mem (m m' : Mem) (hfields : ∀ f ∈ fields, WordOffset f.1)
    (ho : WordOffset o) (hmem : o ∈ fields.map Prod.fst) :
    (m.storeFields base fields).load32 (base + o) =
      (m'.storeFields base fields).load32 (base + o) := by
  rw [load32_storeFields m hfields ho, load32_storeFields m' hfields ho]
  cases hlast : lastField fields o with
  | some v => rfl
  | none => exact absurd hmem (lastField_eq_none.mp hlast)

end Mem

end ForStd
