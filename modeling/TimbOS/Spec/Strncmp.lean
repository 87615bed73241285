import TimbOS.Native.KlibcString
import TimbOS.Spec.Fat12Mount

/-!
# Comparing strings

The loop of `strncmp` does not move its pointers, so it compares the first characters `count`
times. Two strings that begin with the same character are equal for it, unless the character is
NUL, and then they are different. `tryCreate` accepts every file system whose type begins with
an F.

## Key results

- `strncmp_eq_zero_iff`: which strings are equal for `strncmp`
- `strncmpRight_iff`: exactly which strings it compares correctly
- `tryCreate_returns_iff`: which boot sectors give a file system
- `typeTest_iff`: exactly when the comparison and the test of the file system type are right
-/

namespace TimbOS.Native.Klibc

/-! ## Strings -/

section Strings

variable {s1 s2 : Nat → UInt8} {count k : Nat}

/-- The strings agree on their first `count` characters, up to and including the first NUL. -/
def Agree (s1 s2 : Nat → UInt8) (count : Nat) : Prop :=
  ∀ k < count, (∀ i < k, s1 i ≠ 0) → s1 k = s2 k

/-- The strings differ at `k`, for the first time, and have not ended before. -/
def FirstDifference (s1 s2 : Nat → UInt8) (k : Nat) : Prop :=
  s1 k ≠ s2 k ∧ ∀ i < k, s1 i = s2 i ∧ s1 i ≠ 0

/-- A `char` as an `unsigned char`. -/
def unsignedChar (byte : UInt8) : Int := byte.toNat

/-- `strncmp` returns 0 for strings that agree, and otherwise a value with the sign of the first
    difference, where `value` says what number a character is. -/
structure StrncmpRight (value : UInt8 → Int) (s1 s2 : Nat → UInt8) (count : Nat) : Prop where
  zero : strncmp s1 s2 count = 0 ↔ Agree s1 s2 count
  sign : ∀ k < count, FirstDifference s1 s2 k →
    (strncmp s1 s2 count).sign = (value (s1 k) - value (s2 k)).sign

theorem Agree.not_firstDifference (h : Agree s1 s2 count) (hk : k < count) :
    ¬ FirstDifference s1 s2 k := by
  intro hfirst
  exact hfirst.1 (h k hk fun i hi => (hfirst.2 i hi).2)

theorem firstDifference_zero (h : s1 0 ≠ s2 0) : FirstDifference s1 s2 k ↔ k = 0 := by
  constructor
  · intro hfirst
    by_contra hk
    exact h (hfirst.2 0 (Nat.pos_of_ne_zero hk)).1
  · intro hk
    rw [hk]
    exact ⟨h, fun i hi => absurd hi (Nat.not_lt_zero i)⟩

theorem char_eq (byte : UInt8) :
    char byte = if byte.toNat < 128 then (byte.toNat : Int) else byte.toNat - 256 := by
  have hcond := BitVec.toInt_eq_toNat_cond byte.toBitVec
  have hhalf : 2 * byte.toNat < 2 ^ 8 ↔ byte.toNat < 128 := by omega
  rw [show byte.toBitVec.toNat = byte.toNat from rfl] at hcond
  simp only [hhalf] at hcond
  exact hcond

theorem char_sub_ne_zero {a b : UInt8} (h : a ≠ b) : char a - char b ≠ 0 := by
  have hne : a.toNat ≠ b.toNat := fun heq => h (UInt8.toNat_inj.mp heq)
  have ha := a.toNat_lt
  have hb := b.toNat_lt
  rw [char_eq, char_eq]
  split_ifs <;> omega

theorem sign_eq_sign_iff {x y : Int} (hx : x ≠ 0) (hy : y ≠ 0) :
    x.sign = y.sign ↔ (0 < x ↔ 0 < y) := by
  rcases Int.lt_or_gt_of_ne hx with hx | hx <;> rcases Int.lt_or_gt_of_ne hy with hy | hy
  · rw [Int.sign_eq_neg_one_of_neg hx, Int.sign_eq_neg_one_of_neg hy]
    omega
  · rw [Int.sign_eq_neg_one_of_neg hx, Int.sign_eq_one_of_pos hy]
    omega
  · rw [Int.sign_eq_one_of_pos hx, Int.sign_eq_neg_one_of_neg hy]
    omega
  · rw [Int.sign_eq_one_of_pos hx, Int.sign_eq_one_of_pos hy]
    omega

/-- A `char` from 0x80 on is negative. -/
theorem sign_char_sub_iff {a b : UInt8} (h : a ≠ b) :
    (char a - char b).sign = (unsignedChar a - unsignedChar b).sign ↔
      (a.toNat < 128 ↔ b.toNat < 128) := by
  have hne : a.toNat ≠ b.toNat := fun heq => h (UInt8.toNat_inj.mp heq)
  have ha := a.toNat_lt
  have hb := b.toNat_lt
  rw [sign_eq_sign_iff (char_sub_ne_zero h) (by simp only [unsignedChar]; omega), char_eq, char_eq,
    unsignedChar, unsignedChar]
  split_ifs <;> omega

/-! ## `strncmp` -/

/-- The same characters are compared again and again. -/
theorem strncmp_of_eq (heq : s1 0 = s2 0) (hne : s1 0 ≠ 0) : strncmp s1 s2 count = 0 := by
  induction count with
  | zero => rfl
  | succ count ih =>
    rw [strncmp, if_neg (not_not.mpr heq), if_neg hne, if_neg (heq ▸ hne)]
    exact ih

theorem strncmp_of_ne (h : s1 0 ≠ s2 0) :
    strncmp s1 s2 (count + 1) = char (s1 0) - char (s2 0) := by
  rw [strncmp, if_pos h]

theorem strncmp_of_nul (heq : s1 0 = s2 0) (hnul : s1 0 = 0) : strncmp s1 s2 (count + 1) = -1 := by
  rw [strncmp, if_neg (not_not.mpr heq), if_pos hnul]

/-- Only the first characters matter. -/
theorem strncmp_eq_zero_iff : strncmp s1 s2 (count + 1) = 0 ↔ s1 0 = s2 0 ∧ s1 0 ≠ 0 := by
  constructor
  · intro hzero
    by_cases heq : s1 0 = s2 0
    · refine ⟨heq, fun hnul => ?_⟩
      rw [strncmp_of_nul heq hnul] at hzero
      exact absurd hzero (by decide)
    · rw [strncmp_of_ne heq] at hzero
      exact absurd hzero (char_sub_ne_zero heq)
  · rintro ⟨heq, hne⟩
    exact strncmp_of_eq heq hne

/-- Strings are compared correctly if nothing is compared, if their first characters decide, or
    if they begin with the same character and agree. -/
theorem strncmpRight_iff (value : UInt8 → Int) (s1 s2 : Nat → UInt8) (count : Nat) :
    StrncmpRight value s1 s2 count ↔ count = 0 ∨
      s1 0 ≠ s2 0 ∧ (char (s1 0) - char (s2 0)).sign = (value (s1 0) - value (s2 0)).sign ∨
      s1 0 = s2 0 ∧ s1 0 ≠ 0 ∧ Agree s1 s2 count := by
  cases count with
  | zero =>
    refine iff_of_true ⟨iff_of_true rfl ?_, ?_⟩ (.inl rfl)
    · intro k hk
      exact absurd hk (Nat.not_lt_zero k)
    · intro k hk
      exact absurd hk (Nat.not_lt_zero k)
  | succ count =>
    by_cases heq : s1 0 = s2 0
    · constructor
      · intro h
        -- equal first characters: either the result is 0, or they are NUL
        have hagree : s1 0 = 0 → Agree s1 s2 (count + 1) := by
          intro hnul k _ hbefore
          cases k with
          | zero => exact heq
          | succ k => exact absurd hnul (hbefore 0 k.succ_pos)
        have hne : s1 0 ≠ 0 := by
          intro hnul
          exact (strncmp_eq_zero_iff.mp (h.zero.mpr (hagree hnul))).2 hnul
        exact .inr (.inr ⟨heq, hne, h.zero.mp (strncmp_of_eq heq hne)⟩)
      · rintro (hzero | ⟨hdiff, -⟩ | ⟨-, hne, hagree⟩)
        · exact absurd hzero count.succ_ne_zero
        · exact absurd heq hdiff
        · refine ⟨iff_of_true (strncmp_of_eq heq hne) hagree, ?_⟩
          intro k hk hfirst
          exact absurd hfirst (hagree.not_firstDifference hk)
    · have hnot : ¬ Agree s1 s2 (count + 1) := by
        intro hagree
        exact heq (hagree 0 count.succ_pos fun i hi => absurd hi (Nat.not_lt_zero i))
      constructor
      · intro h
        have hsign := h.sign 0 count.succ_pos ((firstDifference_zero heq).mpr rfl)
        rw [strncmp_of_ne heq] at hsign
        exact .inr (.inl ⟨heq, hsign⟩)
      · rintro (hzero | ⟨-, hsign⟩ | ⟨hsame, -⟩)
        · exact absurd hzero count.succ_ne_zero
        · refine ⟨iff_of_false ?_ hnot, ?_⟩
          · rw [strncmp_of_ne heq]
            exact char_sub_ne_zero heq
          · intro k _ hfirst
            rw [(firstDifference_zero heq).mp hfirst, strncmp_of_ne heq, hsign]
        · exact absurd hsame heq

end Strings

end TimbOS.Native.Klibc

namespace TimbOS.Native.Fat12.FileSystem

open Klibc

/-! ## The type of a file system -/

section TypeTest

variable {σ : Type} {disk : Disk σ} {s : σ} {data : List UInt8}

/-- The boot sector's `FileSystemType` starts with `FAT12`. -/
def StartsWithFAT12 (data : List UInt8) : Prop := ∀ i < 5, fileSystemType data i = fat12Literal i

/-- `tryCreate` returns a file system exactly for a boot sector whose type starts with
    `FAT12`. -/
def TypeTestRight (disk : Disk σ) (s : σ) (bootSectorData : Option (List UInt8)) : Prop :=
  (∃ fs s', tryCreate disk s bootSectorData = .ok (some fs, s')) ↔
    ∃ data, bootSectorData = some data ∧ StartsWithFAT12 data

/-- Every type that begins with an F is accepted. -/
theorem isFAT12_iff (data : List UInt8) : isFAT12 data = true ↔ data.getD 54 0 = 'F'.toUInt8 := by
  rw [isFAT12, beq_iff_eq, strncmp_eq_zero_iff]
  show data.getD 54 0 = 'F'.toUInt8 ∧ data.getD 54 0 ≠ 0 ↔ data.getD 54 0 = 'F'.toUInt8
  constructor
  · exact fun h => h.1
  · intro h
    rw [h]
    exact ⟨rfl, by decide⟩

theorem StartsWithFAT12.first (h : StartsWithFAT12 data) : data.getD 54 0 = 'F'.toUInt8 :=
  h 0 (by decide)

theorem tryCreate_returns_iff (disk : Disk σ) (s : σ) (data : List UInt8) :
    (∃ fs s', tryCreate disk s (some data) = .ok (some fs, s')) ↔
      data.getD 54 0 = 'F'.toUInt8 ∧ SizesFit (.ofBytes data) := by
  rw [← isFAT12_iff]
  by_cases haccept : isFAT12 data = true
  · constructor
    · rintro ⟨fs, s', hcreate⟩
      exact ⟨haccept, sizesFit_of_mount ((tryCreate_ok_iff haccept).mp hcreate)⟩
    · rintro ⟨-, hsizes⟩
      obtain ⟨fs, s', -, hmount, -⟩ := mount_of_sizesFit disk s hsizes
      exact ⟨fs, s', (tryCreate_ok_iff haccept).mpr hmount⟩
  · rw [tryCreate, if_neg haccept]
    constructor
    · rintro ⟨fs, s', hcreate⟩
      cases hcreate
    · intro h
      exact absurd h.1 haccept

/-- A boot sector of a FAT12 file system has sizes that fit, and any other one does not, or does
    not begin with an F. -/
def TypeDecides (data : List UInt8) : Prop :=
  (StartsWithFAT12 data → SizesFit (.ofBytes data)) ∧
    (¬ StartsWithFAT12 data → data.getD 54 0 = 'F'.toUInt8 → ¬ SizesFit (.ofBytes data))

theorem typeTestRight_iff (disk : Disk σ) (s : σ) (bootSectorData : Option (List UInt8)) :
    TypeTestRight disk s bootSectorData ↔ ∀ data ∈ bootSectorData, TypeDecides data := by
  cases bootSectorData with
  | none => simp [TypeTestRight, tryCreate]
  | some data =>
    simp only [TypeTestRight, tryCreate_returns_iff, Option.some.injEq, exists_eq_left',
      Option.mem_def, forall_eq', TypeDecides]
    constructor
    · intro h
      exact ⟨fun hstarts => (h.mpr hstarts).2,
        fun hother hfirst hsizes => hother (h.mp ⟨hfirst, hsizes⟩)⟩
    · rintro ⟨hstarts, hother⟩
      constructor
      · rintro ⟨hfirst, hsizes⟩
        by_contra hnot
        exact hother hnot hfirst hsizes
      · intro hdata
        exact ⟨hdata.first, hstarts hdata⟩

end TypeTest

/-- The comparison is right exactly if nothing is compared, if the first characters differ, or if
    they are equal, not NUL, and the strings agree. For characters as unsigned numbers, different
    first characters must lie on the same side of 0x80. The test for a FAT12 file system is right
    exactly if the type decides. -/
theorem typeTest_iff {σ : Type} (s1 s2 : Nat → UInt8) (count : Nat) (disk : Disk σ) (s : σ)
    (bootSectorData : Option (List UInt8)) :
    (StrncmpRight char s1 s2 count ↔
      count = 0 ∨ s1 0 ≠ s2 0 ∨ s1 0 ≠ 0 ∧ Agree s1 s2 count) ∧
    (StrncmpRight unsignedChar s1 s2 count ↔
      count = 0 ∨ s1 0 ≠ s2 0 ∧ ((s1 0).toNat < 128 ↔ (s2 0).toNat < 128) ∨
        s1 0 = s2 0 ∧ s1 0 ≠ 0 ∧ Agree s1 s2 count) ∧
    (TypeTestRight disk s bootSectorData ↔ ∀ data ∈ bootSectorData, TypeDecides data) := by
  refine ⟨?_, ?_, typeTestRight_iff disk s bootSectorData⟩
  · rw [strncmpRight_iff]
    by_cases heq : s1 0 = s2 0
    · simp [heq]
    · simp [heq]
  · rw [strncmpRight_iff]
    by_cases heq : s1 0 = s2 0
    · simp [heq]
    · rw [sign_char_sub_iff heq]

/-- The boot sector of a 1.44M disk with another file system, of type `FAT16`. -/
def fat16BootSector : List UInt8 := (floppyBootSector 9 224).set 58 '6'.toUInt8

theorem fat16BootSector_sizesFit : SizesFit (.ofBytes fat16BootSector) where
  sector := by decide
  blocks := by decide
  pairs := by decide

/-- `FAT12` and `FAT16` are equal for `strncmp`, and the disk is mounted. -/
theorem fat16_accepted :
    (¬ ∀ (s1 s2 : Nat → UInt8) (count : Nat), StrncmpRight char s1 s2 count) ∧
      ¬ ∀ (disk : Disk Unit) (data : List UInt8), data.length = 512 →
        TypeTestRight disk () (some data) := by
  constructor
  · intro h
    have hright := h (fileSystemType fat16BootSector) fat12Literal 5
    have hagree := hright.zero.mp (strncmp_of_eq (by decide) (by decide))
    exact absurd (hagree 4 (by decide) (by decide)) (by decide)
  · intro h
    have hlen : fat16BootSector.length = 512 := by
      simp only [fat16BootSector, floppyBootSector, List.length_set, List.length_append,
        List.length_replicate, List.length_map, List.length_cons, List.length_nil]
    have hcreate := (tryCreate_returns_iff zeroDisk () fat16BootSector).mpr
      ⟨by decide, fat16BootSector_sizesFit⟩
    obtain ⟨data, hdata, hstarts⟩ := (h zeroDisk fat16BootSector hlen).mp hcreate
    cases hdata
    exact absurd (hstarts 4 (by decide)) (by decide)

end TimbOS.Native.Fat12.FileSystem
