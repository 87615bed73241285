import TimbOS.Spec.Strncmp

/-!
# Comparing NUL-terminated strings

The loop of `strcmp` does not move its pointers either. Here nothing counts its rounds: strings
that begin with the same character are compared forever, unless they are both empty.

## Key results

- `strcmp_returns_iff`: which strings `strcmp` returns for
- `strcmpRight_iff`: exactly which strings it compares correctly
-/

namespace TimbOS.Native.Klibc

section Strcmp

variable {s1 s2 : Nat → UInt8} {rounds : Nat} {result : Int}

/-- `strcmp` ends with a result. -/
def Returns (s1 s2 : Nat → UInt8) (result : Int) : Prop :=
  ∃ rounds, strcmp s1 s2 rounds = some result

/-- `strcmp` returns, and the result is 0 for equal strings, and otherwise has the sign of the
    first difference, where `value` says what number a character is. -/
def StrcmpRight (value : UInt8 → Int) (s1 s2 : Nat → UInt8) : Prop :=
  ∃ result, Returns s1 s2 result ∧ (result = 0 ↔ ∀ count, Agree s1 s2 count) ∧
    ∀ k, FirstDifference s1 s2 k → result.sign = (value (s1 k) - value (s2 k)).sign

/-- One round is left behind, and the next one is the same. -/
theorem strcmp_of_eq (heq : s1 0 = s2 0) (hne : s1 0 ≠ 0) : strcmp s1 s2 rounds = none := by
  induction rounds with
  | zero => rfl
  | succ rounds ih =>
    have hne2 : s2 0 ≠ 0 := heq ▸ hne
    rw [strcmp, if_neg (not_not.mpr heq), if_neg (fun h => hne h.1), if_neg hne, if_neg hne2]
    exact ih

/-- If the first round ends, it gives the result. -/
theorem returns_of_round {first : Int} (h : ∀ rounds, strcmp s1 s2 (rounds + 1) = some first) :
    Returns s1 s2 result ↔ result = first := by
  constructor
  · rintro ⟨rounds, hresult⟩
    cases rounds with
    | zero => simp [strcmp] at hresult
    | succ rounds =>
      rw [h] at hresult
      exact (Option.some.inj hresult).symm
  · intro hresult
    exact ⟨1, by rw [h, hresult]⟩

theorem returns_of_ne (h : s1 0 ≠ s2 0) :
    Returns s1 s2 result ↔ result = char (s1 0) - char (s2 0) := by
  apply returns_of_round
  intro rounds
  rw [strcmp, if_pos h]

theorem returns_of_nul (h1 : s1 0 = 0) (h2 : s2 0 = 0) :
    Returns s1 s2 result ↔ result = 0 := by
  apply returns_of_round
  intro rounds
  have heq : s1 0 = s2 0 := by rw [h1, h2]
  rw [strcmp, if_neg (not_not.mpr heq), if_pos ⟨h1, h2⟩]

theorem strcmp_returns_iff :
    (∃ result, Returns s1 s2 result) ↔ s1 0 ≠ s2 0 ∨ s1 0 = 0 ∧ s2 0 = 0 := by
  constructor
  · rintro ⟨result, rounds, hresult⟩
    -- otherwise the first characters are equal and not NUL, and every round is the same
    by_contra hnot
    push Not at hnot
    have hne : s1 0 ≠ 0 := by
      intro hnul
      exact hnot.2 hnul (hnot.1 ▸ hnul)
    rw [strcmp_of_eq hnot.1 hne] at hresult
    simp at hresult
  · rintro (hdiff | ⟨h1, h2⟩)
    · exact ⟨_, (returns_of_ne hdiff).mpr rfl⟩
    · exact ⟨0, (returns_of_nul h1 h2).mpr rfl⟩

/-- Two empty strings agree. -/
theorem agree_of_nul (h1 : s1 0 = 0) (h2 : s2 0 = 0) (count : Nat) : Agree s1 s2 count := by
  intro k _ hbefore
  cases k with
  | zero => rw [h1, h2]
  | succ k => exact absurd h1 (hbefore 0 k.succ_pos)

/-- Strings are compared correctly if their first characters decide, or if they are both
    empty. -/
theorem strcmpRight_iff_first (value : UInt8 → Int) (s1 s2 : Nat → UInt8) :
    StrcmpRight value s1 s2 ↔
      s1 0 ≠ s2 0 ∧ (char (s1 0) - char (s2 0)).sign = (value (s1 0) - value (s2 0)).sign ∨
        s1 0 = 0 ∧ s2 0 = 0 := by
  constructor
  · rintro ⟨result, hresult, -, hsign⟩
    rcases strcmp_returns_iff.mp ⟨result, hresult⟩ with hdiff | hnul
    · have hfirst := hsign 0 ((firstDifference_zero hdiff).mpr rfl)
      rw [(returns_of_ne hdiff).mp hresult] at hfirst
      exact .inl ⟨hdiff, hfirst⟩
    · exact .inr hnul
  · rintro (⟨hdiff, hsign⟩ | ⟨h1, h2⟩)
    · refine ⟨_, (returns_of_ne hdiff).mpr rfl, iff_of_false (char_sub_ne_zero hdiff) ?_, ?_⟩
      · intro hagree
        exact hdiff (hagree 1 0 Nat.one_pos fun i hi => absurd hi (Nat.not_lt_zero i))
      · intro k hfirst
        rw [(firstDifference_zero hdiff).mp hfirst]
        exact hsign
    · refine ⟨0, (returns_of_nul h1 h2).mpr rfl, iff_of_true rfl (agree_of_nul h1 h2), ?_⟩
      intro k hfirst
      exact absurd hfirst ((agree_of_nul h1 h2 (k + 1)).not_firstDifference k.lt_succ_self)

end Strcmp

/-- `strcmp` is right exactly if the first characters differ, or if both strings are empty. For
    characters as unsigned numbers, different first characters must lie on the same side of
    0x80. -/
theorem strcmpRight_iff (s1 s2 : Nat → UInt8) :
    (StrcmpRight char s1 s2 ↔ s1 0 ≠ s2 0 ∨ s1 0 = 0 ∧ s2 0 = 0) ∧
    (StrcmpRight unsignedChar s1 s2 ↔
      s1 0 ≠ s2 0 ∧ ((s1 0).toNat < 128 ↔ (s2 0).toNat < 128) ∨ s1 0 = 0 ∧ s2 0 = 0) := by
  constructor
  · rw [strcmpRight_iff_first]
    simp
  · rw [strcmpRight_iff_first]
    by_cases heq : s1 0 = s2 0
    · simp [heq]
    · rw [sign_char_sub_iff heq]

/-- The string `a`. -/
def stringA (i : Nat) : UInt8 := if i = 0 then 'a'.toUInt8 else 0

/-- A string of one character is not compared with itself in any number of rounds. -/
theorem strcmp_stringA :
    ¬ ∀ s1 s2 : Nat → UInt8, (∃ i, s1 i = 0) → (∃ i, s2 i = 0) →
      StrcmpRight char s1 s2 := by
  intro h
  have hend : ∃ i, stringA i = 0 := ⟨1, rfl⟩
  obtain ⟨result, ⟨rounds, hresult⟩, -⟩ := h stringA stringA hend hend
  rw [strcmp_of_eq rfl (by decide)] at hresult
  simp at hresult

end TimbOS.Native.Klibc
