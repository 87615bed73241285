import TimbOS.Native.Format

/-!
# Format strings and their end

The parser of a directive is a function of the characters that are left of the format string.
With this the loop can be followed along the string. The formatter stays in front of the
terminating NUL exactly when the string does not end inside a directive: there the NUL is
taken for the conversion character, and the loop goes on behind it.

## Key results

- `directive_eq`: the parser of `Native.Format` on the characters of a format string
- `formatStringVarg_literal`, `formatStringVarg_directive`: one step of the loop
- `format_finishes_iff`: exactly which format strings the formatter stays inside of
- `lonely_percent`: one that it leaves
-/

namespace TimbOS.Native.Format

open ForStd

/-! ## Strings in memory -/

/-- At `a` there is `text`, and a NUL behind it. -/
def CString (m : Mem) : Nat → List UInt8 → Prop
  | a, [] => m.load8 a = 0
  | a, ch :: text => ch ≠ 0 ∧ m.load8 a = ch ∧ CString m (a + 1) text

instance CString.decidable (m : Mem) : (a : Nat) → (text : List UInt8) →
    Decidable (CString m a text)
  | a, [] => inferInstanceAs (Decidable (m.load8 a = 0))
  | a, ch :: text =>
    have := CString.decidable m (a + 1) text
    inferInstanceAs (Decidable (ch ≠ 0 ∧ m.load8 a = ch ∧ CString m (a + 1) text))

/-- From `format` on the format string reads `text`. -/
def Remains (m : Mem) (limit format : Nat) (text : List UInt8) : Prop :=
  CString m format text ∧ format + text.length = limit

variable {m : Mem} {limit format : Nat} {text : List UInt8}

/-- The next character, or the NUL. -/
theorem peek_remains (h : Remains m limit format text) :
    peek m limit format = .ok (text.headD 0) := by
  obtain ⟨hstring, hlen⟩ := h
  rw [peek, if_pos (by omega)]
  cases text with
  | nil =>
    have hnul : m.load8 format = 0 := hstring
    rw [hnul]
    rfl
  | cons ch text =>
    have hch : m.load8 format = ch := hstring.2.1
    rw [hch]
    rfl

theorem Remains.tail {ch : UInt8} (h : Remains m limit format (ch :: text)) :
    Remains m limit (format + 1) text := by
  obtain ⟨⟨-, -, hstring⟩, hlen⟩ := h
  rw [List.length_cons] at hlen
  exact ⟨hstring, by omega⟩

/-- Behind the NUL nothing can be read. -/
theorem peek_behind (h : Remains m limit format []) :
    peek m limit (format + 1) = .error .beyondFormat := by
  have hlen : format = limit := h.2
  rw [peek, if_neg (by omega)]

/-! ## The optional parts of a directive -/

/-- Drop the first character if it is in `p`. -/
def skip (p : UInt8 → Bool) : List UInt8 → List UInt8
  | [] => []
  | ch :: text => if p ch then text else ch :: text

/-- The width, the long mode and the rest of the string from the conversion character on. -/
def parse (text : List UInt8) : Nat × Bool × List UInt8 :=
  let text := skip (· == '0'.toUInt8) text
  let width := if isdigit (text.headD 0) then (text.headD 0).toNat - '0'.toNat else 0
  let text := skip isdigit text
  (width, text.headD 0 == 'l'.toUInt8, skip (· == 'l'.toUInt8) text)

theorem length_skip_le (p : UInt8 → Bool) (text : List UInt8) :
    (skip p text).length ≤ text.length := by
  cases text with
  | nil => exact Nat.le_refl 0
  | cons ch text =>
    rw [skip]
    split
    · exact Nat.le_succ _
    · exact Nat.le_refl _

theorem length_parse_le (text : List UInt8) : (parse text).2.2.length ≤ text.length := by
  -- each part drops one character at most
  have hzero := length_skip_le (· == '0'.toUInt8) text
  have hwidth := length_skip_le isdigit (skip (· == '0'.toUInt8) text)
  have hlong := length_skip_le (· == 'l'.toUInt8) (skip isdigit (skip (· == '0'.toUInt8) text))
  exact (hlong.trans hwidth).trans hzero

/-- An optional part of one character; a NUL is none. -/
theorem Remains.skip (h : Remains m limit format text) {p : UInt8 → Bool} (hp : p 0 = false) :
    Remains m limit (if p (text.headD 0) then format + 1 else format) (skip p text) := by
  cases text with
  | nil =>
    -- the NUL is not part of a directive
    have hnot : ¬ p (([] : List UInt8).headD 0) = true := by
      rw [List.headD_nil, hp]
      decide
    rw [if_neg hnot]
    exact h
  | cons ch text =>
    rw [Format.skip, List.headD_cons]
    by_cases hch : p ch = true
    · rw [if_pos hch, if_pos hch]
      exact h.tail
    · rw [if_neg hch, if_neg hch]
      exact h

/-- The parser in memory does what `parse` does on the list of characters. -/
theorem directive_eq (h : Remains m limit format text) :
    ∃ format', directive m limit format = .ok ⟨(parse text).1, (parse text).2.1, format'⟩ ∧
      Remains m limit format' (parse text).2.2 := by
  -- the flag `0`, the width and the `l`, in this order
  have hzero := h.skip (p := (· == '0'.toUInt8)) (by decide)
  have hwidth := hzero.skip (p := isdigit) (by decide)
  have hlong := hwidth.skip (p := (· == 'l'.toUInt8)) (by decide)
  have hpeek := peek_remains h
  have hpeekZero := peek_remains hzero
  have hpeekWidth := peek_remains hwidth
  simp only [beq_iff_eq] at hpeekZero hpeekWidth
  refine ⟨_, ?_, hlong⟩
  simp only [directive, hpeek, hpeekZero, hpeekWidth, bind, Except.bind, pure, Except.pure, parse,
    beq_iff_eq]

/-! ## Format strings that do not end inside a directive -/

/-- Every `%` that begins a directive has a conversion character behind the optional parts,
    whatever this is. -/
inductive Finished : List UInt8 → Prop
  | nil : Finished []
  | literal {ch : UInt8} {text : List UInt8} (hch : ch ≠ percent) (h : Finished text) :
      Finished (ch :: text)
  | directive {text rest : List UInt8} {conv : UInt8} (hparse : (parse text).2.2 = conv :: rest)
      (h : Finished rest) : Finished (percent :: text)

/-- A string is copied when a NUL comes before the fuel is used up. -/
theorem formatChars_ok {fuel str n : Nat} (h : m.load8 (str + n) = 0) (hfuel : n < fuel) :
    ∃ chars, formatChars m fuel str = .ok chars := by
  induction fuel generalizing str n with
  | zero => omega
  | succ fuel ih =>
    rw [formatChars]
    by_cases hnul : m.load8 str = 0
    · rw [if_pos hnul]
      exact ⟨[], rfl⟩
    · rw [if_neg hnul]
      -- the NUL is not here, so it is one step closer to the next character
      cases n with
      | zero => exact absurd h hnul
      | succ n =>
        have hnext : str + (n + 1) = str + 1 + n := by omega
        rw [hnext] at h
        obtain ⟨chars, hchars⟩ := ih h (by omega)
        rw [hchars]
        exact ⟨_, rfl⟩

/-- Addresses wrap around, so every string comes to the NUL of the format in the end. -/
theorem formatChars_ok_of_nul {fuel nul : Nat} (h : m.load8 nul = 0) (hfuel : 2 ^ 32 ≤ fuel)
    (str : Nat) : ∃ chars, formatChars m fuel str = .ok chars := by
  -- the way from `str` up to the NUL, around the end of memory if need be
  have haddr : (str + (nul + 2 ^ 32 - str % 2 ^ 32) % 2 ^ 32) % 2 ^ 32 = nul % 2 ^ 32 := by omega
  have hnul : m.load8 (str + (nul + 2 ^ 32 - str % 2 ^ 32) % 2 ^ 32) = 0 := by
    rw [Mem.load8, haddr]
    exact h
  exact formatChars_ok hnul (by omega)

theorem convert_ok {fuel nul : Nat} (h : m.load8 nul = 0) (hfuel : 2 ^ 32 ≤ fuel) (d : Directive)
    (conv : UInt8) (ap : Nat) : ∃ chars ap', convert m fuel d conv ap = .ok (chars, ap') := by
  obtain ⟨chars, hchars⟩ := formatChars_ok_of_nul h hfuel (m.load32 ap)
  simp only [convert, hchars, bind, Except.bind, pure, Except.pure]
  split
  · exact ⟨_, _, rfl⟩
  · split
    · exact ⟨_, _, rfl⟩
    · split
      · split
        · exact ⟨_, _, rfl⟩
        · exact ⟨_, _, rfl⟩
      · split
        · exact ⟨_, _, rfl⟩
        · exact ⟨_, _, rfl⟩

/-- The terminating NUL is at `limit`. -/
theorem Remains.nul (h : Remains m limit format text) : m.load8 limit = 0 := by
  induction text generalizing format with
  | nil =>
    obtain ⟨hnul, hlen⟩ := h
    rw [List.length_nil] at hlen
    rw [← hlen]
    exact hnul
  | cons ch text ih => exact ih h.tail

/-! ## One step of the loop -/

theorem formatStringVarg_nil (h : Remains m limit format []) (fuel ap : Nat) :
    formatStringVarg m limit (fuel + 1) format ap = .ok [] := by
  rw [formatStringVarg, peek_remains h]
  rfl

theorem formatStringVarg_literal {ch : UInt8} (h : Remains m limit format (ch :: text))
    (hch : ch ≠ percent) (fuel ap : Nat) :
    formatStringVarg m limit (fuel + 1) format ap =
      (formatStringVarg m limit fuel (format + 1) ap).map (ch :: ·) := by
  have hnul : ch ≠ 0 := h.1.1
  have hpeek : peek m limit format = .ok ch := peek_remains h
  rw [formatStringVarg, hpeek]
  simp only [bind, Except.bind, if_neg hnul, if_neg hch]
  cases formatStringVarg m limit fuel (format + 1) ap with
  | error _ => rfl
  | ok _ => rfl

/-- A directive, up to the character behind its conversion character. -/
theorem formatStringVarg_directive (h : Remains m limit format (percent :: text))
    (fuel ap : Nat) :
    ∃ format', Remains m limit format' (parse text).2.2 ∧
      formatStringVarg m limit (fuel + 1) format ap =
        (convert m fuel ⟨(parse text).1, (parse text).2.1, format'⟩ ((parse text).2.2.headD 0)
          ap).bind fun (chars, ap) =>
          (formatStringVarg m limit fuel (format' + 1) ap).map (chars ++ ·) := by
  obtain ⟨format', hdirective, hrest⟩ := directive_eq h.tail
  refine ⟨format', hrest, ?_⟩
  have hnul : percent ≠ 0 := by decide
  have hpeek : peek m limit format = .ok percent := peek_remains h
  rw [formatStringVarg, hpeek]
  simp only [bind, Except.bind, if_neg hnul, if_true, hdirective, peek_remains hrest]
  cases convert m fuel ⟨(parse text).1, (parse text).2.1, format'⟩
    ((parse text).2.2.headD 0) ap with
  | error _ => rfl
  | ok result =>
    simp only
    cases formatStringVarg m limit fuel (format' + 1) result.2 with
    | error _ => rfl
    | ok _ => rfl

/-! ## Staying in front of the NUL -/

/-- Finished format strings are printed to the end. -/
theorem formatStringVarg_of_finished (hfinished : Finished text) (format fuel ap : Nat)
    (h : Remains m limit format text) (hfuel : text.length + 2 ^ 32 < fuel) :
    ∃ out, formatStringVarg m limit fuel format ap = .ok out := by
  induction hfinished generalizing format ap fuel with
  | nil =>
    obtain ⟨fuel, rfl⟩ : ∃ k, fuel = k + 1 := ⟨fuel - 1, by omega⟩
    exact ⟨[], formatStringVarg_nil h fuel ap⟩
  | literal hch _ ih =>
    obtain ⟨fuel, rfl⟩ : ∃ k, fuel = k + 1 := ⟨fuel - 1, by omega⟩
    rw [List.length_cons] at hfuel
    obtain ⟨out, hout⟩ := ih (format + 1) fuel ap h.tail (by omega)
    rw [formatStringVarg_literal h hch, hout]
    exact ⟨_, rfl⟩
  | @directive text rest conv hparse _ ih =>
    obtain ⟨fuel, rfl⟩ : ∃ k, fuel = k + 1 := ⟨fuel - 1, by omega⟩
    rw [List.length_cons] at hfuel
    -- the rest is shorter, so the fuel suffices
    have hlen := length_parse_le text
    obtain ⟨format', hrest, hstep⟩ := formatStringVarg_directive h fuel ap
    rw [hparse] at hrest hlen
    rw [List.length_cons] at hlen
    obtain ⟨chars, ap', hconvert⟩ :=
      convert_ok h.nul (show 2 ^ 32 ≤ fuel by omega) ⟨(parse text).1, (parse text).2.1, format'⟩
        ((parse text).2.2.headD 0) ap
    obtain ⟨out, hout⟩ := ih (format' + 1) fuel ap' hrest.tail (by omega)
    rw [hstep, hconvert]
    simp only [Except.bind, hout]
    exact ⟨_, rfl⟩

/-- The formatter comes to an end only with finished format strings. -/
theorem finished_of_formatStringVarg {fuel ap : Nat} {out : List UInt8}
    (h : Remains m limit format text)
    (hout : formatStringVarg m limit fuel format ap = .ok out) : Finished text := by
  induction fuel generalizing format ap text out with
  | zero => exact nomatch hout
  | succ fuel ih =>
    cases text with
    | nil => exact .nil
    | cons ch text =>
      by_cases hch : ch = percent
      · rw [hch] at h ⊢
        obtain ⟨format', hrest, hstep⟩ := formatStringVarg_directive h fuel ap
        rw [hstep] at hout
        cases hconvert : convert m fuel ⟨(parse text).1, (parse text).2.1, format'⟩
            ((parse text).2.2.headD 0) ap with
        | error e =>
          rw [hconvert] at hout
          exact nomatch hout
        | ok result =>
          rw [hconvert] at hout
          simp only [Except.bind] at hout
          -- the loop goes on behind the conversion character
          cases hloop : formatStringVarg m limit fuel (format' + 1) result.2 with
          | error e =>
            rw [hloop] at hout
            exact nomatch hout
          | ok rest =>
            cases hconv : (parse text).2.2 with
            | cons conv rest' =>
              rw [hconv] at hrest
              exact .directive hconv (ih hrest.tail hloop)
            | nil =>
              -- the NUL was taken for the conversion character
              rw [hconv] at hrest
              cases fuel with
              | zero => exact nomatch hloop
              | succ fuel =>
                rw [formatStringVarg, peek_behind hrest] at hloop
                exact nomatch hloop
      · rw [formatStringVarg_literal h hch] at hout
        cases hloop : formatStringVarg m limit fuel (format + 1) ap with
        | error e =>
          rw [hloop] at hout
          exact nomatch hout
        | ok rest => exact .literal hch (ih h.tail hloop)

/-- For a NUL-terminated format string and any arguments the formatter comes to its end, and
    reads nothing behind the NUL, exactly when the string does not end inside a directive. -/
theorem format_finishes_iff (m : Mem) (format ap : Nat) (text : List UInt8)
    (h : CString m format text) :
    (∃ fuel out, formatStringVarg m (format + text.length) fuel format ap = .ok out) ↔
      Finished text := by
  constructor
  · rintro ⟨fuel, out, hout⟩
    exact finished_of_formatStringVarg ⟨h, rfl⟩ hout
  · intro hfinished
    obtain ⟨out, hout⟩ := formatStringVarg_of_finished hfinished format _ ap ⟨h, rfl⟩
      (Nat.lt_succ_self _)
    exact ⟨_, out, hout⟩

/-- A memory that holds one format string, at address 0, and zeros. -/
def formatMemory (text : List UInt8) : Mem := fun a => text.getD a 0

/-- `%d` is finished. -/
theorem format_finishes_number :
    (∃ fuel out, formatStringVarg (formatMemory [37, 100]) (0 + 2) fuel 0 8 = .ok out) ↔
      Finished [37, 100] :=
  format_finishes_iff (formatMemory [37, 100]) 0 8 [37, 100] (by decide)

/-- A `%` at the end is not: the formatter goes on behind the NUL. -/
theorem lonely_percent :
    ¬ ∀ (m : Mem) (format ap : Nat) (text : List UInt8), CString m format text →
      ∃ fuel out, formatStringVarg m (format + text.length) fuel format ap = .ok out := by
  intro h
  have hstring : CString (formatMemory [37]) 0 [37] := by decide
  obtain ⟨fuel, out, hout⟩ := h (formatMemory [37]) 0 8 [37] hstring
  have hfinished := finished_of_formatStringVarg ⟨hstring, rfl⟩ hout
  cases hfinished with
  | literal hch _ => exact hch rfl
  | directive hparse _ => exact nomatch hparse

end TimbOS.Native.Format
