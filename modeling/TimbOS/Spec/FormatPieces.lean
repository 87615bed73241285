import TimbOS.Spec.FormatString

/-!
# What the formatter prints

A format string made of literals and complete directives is printed piece by piece. A piece
carries the argument that belongs to it. The arguments are on the stack one after the other,
each in as many words as its conversion takes, so a directive that took one word too many or
too few would shift all arguments behind it.

## Key results

- `parse_flags`: the parser reads the optional parts of a complete directive
- `Piece.step`: one piece is printed, and `ap` moves behind its argument
- `format_refines`: the output is the rendering of the pieces in order
-/

namespace TimbOS.Native.Format

open ForStd

/-- The optional parts of a directive. -/
structure Flags where
  zero : Bool
  width : Option (Fin 10)
  long : Bool

/-- The conversions of `format_number_hex`. -/
inductive HexConversion where
  | x
  | X
  | p
  | P

/-- A piece of a format string, with the argument that belongs to it. -/
inductive Piece where
  | literal (ch : UInt8) (hpercent : ch ≠ percent) (hnul : ch ≠ 0)
  | number (f : Flags) (value : Nat)
  | chars (f : Flags) (text : List UInt8)
  | hex (f : Flags) (conv : HexConversion) (value : Nat)
  | char (f : Flags) (ch : UInt8)

/-- A digit of the format string. -/
def widthChar (width : Fin 10) : UInt8 := '0'.toUInt8 + UInt8.ofNat width.val

def HexConversion.char : HexConversion → UInt8
  | .x => 'x'.toUInt8
  | .X => 'X'.toUInt8
  | .p => 'p'.toUInt8
  | .P => 'P'.toUInt8

/-- Upper case conversions print upper case digits. -/
def HexConversion.upper : HexConversion → Bool
  | .x => false
  | .X => true
  | .p => false
  | .P => true

/-- The characters between `%` and the conversion character. -/
def Flags.format (f : Flags) : List UInt8 :=
  (if f.zero then ['0'.toUInt8] else []) ++ (f.width.map widthChar).toList ++
    if f.long then ['l'.toUInt8] else []

/-- No width is a width of zero. -/
def Flags.widthValue (f : Flags) : Nat :=
  match f.width with
  | none => 0
  | some width => width.val

/-- The characters of a piece in the format string. -/
def Piece.format : Piece → List UInt8
  | .literal ch _ _ => [ch]
  | .number f _ => percent :: f.format ++ ['d'.toUInt8]
  | .chars f _ => percent :: f.format ++ ['s'.toUInt8]
  | .hex f conv _ => percent :: f.format ++ [conv.char]
  | .char f _ => percent :: f.format ++ ['c'.toUInt8]

/-- What is printed for a piece. -/
def Piece.rendering : Piece → List UInt8
  | .literal ch _ _ => [ch]
  | .number _ value => formatNumber value
  | .chars _ text => text
  | .hex f conv value =>
    if f.long then formatNumberHex64 value f.widthValue conv.upper
    else formatNumberHex value f.widthValue conv.upper
  | .char _ ch => [ch]

/-- The number of words that the argument of a piece takes. -/
def Piece.words : Piece → Nat
  | .literal _ _ _ => 0
  | .hex f _ _ => if f.long then 2 else 1
  | _ => 1

/-- The argument of a piece is at `ap`. -/
def Piece.Argument (m : Mem) (ap : Nat) : Piece → Prop
  | .literal _ _ _ => True
  | .number _ value => m.load32 ap = value
  | .chars _ text => CString m (m.load32 ap) text
  | .hex f _ value => if f.long then m.load64 ap = value else m.load32 ap = value
  | .char _ ch => m.load8 ap = ch

instance (m : Mem) (ap : Nat) : (piece : Piece) → Decidable (piece.Argument m ap)
  | .literal _ _ _ => inferInstanceAs (Decidable True)
  | .number _ value => inferInstanceAs (Decidable (m.load32 ap = value))
  | .chars _ text => inferInstanceAs (Decidable (CString m (m.load32 ap) text))
  | .hex f _ value =>
    inferInstanceAs (Decidable (if f.long then m.load64 ap = value else m.load32 ap = value))
  | .char _ ch => inferInstanceAs (Decidable (m.load8 ap = ch))

/-- The arguments of a list of pieces are at `ap`, one after the other. -/
def Arguments (m : Mem) : Nat → List Piece → Prop
  | _, [] => True
  | ap, piece :: pieces => piece.Argument m ap ∧ Arguments m (ap + 4 * piece.words) pieces

/-- The digit of a width, and its value. -/
private theorem widthChar_digit : ∀ width : Fin 10,
    isdigit (widthChar width) = true ∧ (widthChar width).toNat - '0'.toNat = width.val := by
  decide

private theorem widthChar_eq_zero : ∀ width : Fin 10,
    (widthChar width == '0'.toUInt8) = decide (width = 0) := by
  decide

/-- The optional `l` in front of a conversion character, and the parser behind the width. -/
private theorem parse_long {conv : UInt8} (rest : List UInt8) (hl : conv ≠ 'l'.toUInt8)
    (hdigit : isdigit conv = false) (long : Bool) :
    ∃ ch text, (if long then ['l'.toUInt8] else []) ++ conv :: rest = ch :: text ∧
      isdigit ch = false ∧ (ch == 'l'.toUInt8) = long ∧
      skip (· == 'l'.toUInt8) (ch :: text) = conv :: rest := by
  cases long with
  | false =>
    -- without the flag the conversion character must not be taken for it
    have hne : (conv == 'l'.toUInt8) = false := beq_eq_false_iff_ne.mpr hl
    refine ⟨conv, rest, rfl, hdigit, hne, ?_⟩
    rw [skip, hne]
    rfl
  | true => exact ⟨'l'.toUInt8, conv :: rest, rfl, rfl, rfl, rfl⟩

/-- What the first optional part leaves. A width of `0` is taken for the flag. -/
private theorem skip_zero (f : Flags) {ch : UInt8} (text : List UInt8)
    (hdigit : isdigit ch = false) :
    ∃ width : Option (Fin 10),
      skip (· == '0'.toUInt8) ((if f.zero then ['0'.toUInt8] else []) ++
        (f.width.map widthChar).toList ++ ch :: text) =
          (width.map widthChar).toList ++ ch :: text ∧
      width.elim 0 Fin.val = f.widthValue := by
  obtain ⟨zero, width, long⟩ := f
  cases zero with
  | true =>
    refine ⟨width, rfl, ?_⟩
    cases width with
    | none => rfl
    | some width => rfl
  | false =>
    cases width with
    | none =>
      have hne : (ch == '0'.toUInt8) = false := by
        rw [beq_eq_false_iff_ne]
        intro hch
        rw [hch] at hdigit
        exact nomatch hdigit
      refine ⟨none, ?_, rfl⟩
      show skip _ (ch :: text) = ch :: text
      rw [skip, hne]
      rfl
    | some width =>
      -- the width is skipped if it is `0`, and then there is no width
      have hskip : skip (· == '0'.toUInt8) (widthChar width :: ch :: text) =
          if width = 0 then ch :: text else widthChar width :: ch :: text := by
        simp only [skip, widthChar_eq_zero, decide_eq_true_eq]
      by_cases hzero : width = 0
      · refine ⟨none, ?_, ?_⟩
        · exact hskip.trans (if_pos hzero)
        · rw [hzero]
          rfl
      · exact ⟨some width, hskip.trans (if_neg hzero), rfl⟩

/-- The parser reads the optional parts of a complete directive. -/
theorem parse_flags (f : Flags) {conv : UInt8} (rest : List UInt8) (hdigit : isdigit conv = false)
    (hl : conv ≠ 'l'.toUInt8) :
    parse (f.format ++ conv :: rest) = (f.widthValue, f.long, conv :: rest) := by
  obtain ⟨ch, text, htext, hch, hlong, hconv⟩ := parse_long rest hl hdigit f.long
  obtain ⟨width, hskip, hvalue⟩ := skip_zero f text hch
  have hformat : f.format ++ conv :: rest = (if f.zero then ['0'.toUInt8] else []) ++
      (f.width.map widthChar).toList ++ ch :: text := by
    rw [Flags.format, List.append_assoc, htext]
  rw [parse, hformat, hskip, ← hvalue]
  cases width with
  | none =>
    -- no width, so the next character is not a digit
    have hstay : skip isdigit (ch :: text) = ch :: text := by
      rw [skip, hch]
      rfl
    simp only [Option.map_none, Option.toList_none, List.nil_append, List.headD_cons, hch, hstay,
      hlong, hconv]
    rfl
  | some width =>
    obtain ⟨hisdigit, hval⟩ := widthChar_digit width
    have hdrop : skip isdigit (widthChar width :: ch :: text) = ch :: text := by
      rw [skip, hisdigit]
      rfl
    simp only [Option.map_some, Option.toList_some, List.cons_append, List.nil_append,
      List.headD_cons, hisdigit, hval, hdrop, hlong, hconv]
    rfl

/-! ## Piece by piece -/

variable {m : Mem} {limit : Nat}

/-- Copying a string that is followed by a NUL. -/
theorem formatChars_eq {str fuel : Nat} {text : List UInt8} (h : CString m str text)
    (hfuel : text.length < fuel) : formatChars m fuel str = .ok text := by
  induction text generalizing str fuel with
  | nil =>
    obtain ⟨fuel, rfl⟩ : ∃ k, fuel = k + 1 := ⟨fuel - 1, by omega⟩
    exact if_pos h
  | cons ch text ih =>
    obtain ⟨fuel, rfl⟩ : ∃ k, fuel = k + 1 := ⟨fuel - 1, by omega⟩
    obtain ⟨hnul, hch, htext⟩ := h
    rw [List.length_cons] at hfuel
    rw [formatChars, hch, if_neg hnul, ih htext (by omega)]
    rfl

/-- The fuel that a string argument takes. -/
def Piece.fuel : Piece → Nat
  | .chars _ text => text.length + 1
  | _ => 0

/-- The conversion character of a directive prints the argument and moves `ap` behind it. -/
private theorem directive_step {f : Flags} {conv : UInt8} {chars rest : List UInt8}
    {format fuel ap words : Nat}
    (h : Remains m limit format (percent :: f.format ++ [conv] ++ rest))
    (hdigit : isdigit conv = false) (hl : conv ≠ 'l'.toUInt8)
    (hconvert : ∀ format', convert m fuel ⟨f.widthValue, f.long, format'⟩ conv ap =
      .ok (chars, ap + 4 * words)) :
    ∃ format', Remains m limit format' rest ∧
      formatStringVarg m limit (fuel + 1) format ap =
        (formatStringVarg m limit fuel format' (ap + 4 * words)).map (chars ++ ·) := by
  rw [List.cons_append, List.cons_append, List.append_assoc, List.singleton_append] at h
  obtain ⟨format', hrest, hstep⟩ := formatStringVarg_directive h fuel ap
  rw [parse_flags f rest hdigit hl] at hrest hstep
  refine ⟨format' + 1, hrest.tail, ?_⟩
  rw [hstep]
  simp only [List.headD_cons, hconvert, Except.bind]

/-- One piece is printed, and `ap` moves behind its argument. -/
theorem Piece.step {piece : Piece} {rest : List UInt8} {format fuel ap : Nat}
    (h : Remains m limit format (piece.format ++ rest)) (harg : piece.Argument m ap)
    (hfuel : piece.fuel ≤ fuel) :
    ∃ format', Remains m limit format' rest ∧
      formatStringVarg m limit (fuel + 1) format ap =
        (formatStringVarg m limit fuel format' (ap + 4 * piece.words)).map
          (piece.rendering ++ ·) := by
  cases piece with
  | literal ch hpercent hnul =>
    exact ⟨format + 1, h.tail, formatStringVarg_literal h hpercent fuel ap⟩
  | number f value =>
    apply directive_step h (by decide) (by decide)
    intro format'
    rw [convert, if_pos rfl, harg]
    rfl
  | chars f text =>
    apply directive_step h (by decide) (by decide)
    intro format'
    rw [convert, if_neg (by decide), if_pos rfl, formatChars_eq harg hfuel]
    rfl
  | hex f conv value =>
    have hconv : isdigit conv.char = false ∧ conv.char ≠ 'l'.toUInt8 ∧
        conv.char ≠ 'd'.toUInt8 ∧ conv.char ≠ 's'.toUInt8 ∧
        conv.char ∈ ['X'.toUInt8, 'x'.toUInt8, 'p'.toUInt8, 'P'.toUInt8] ∧
        isupper conv.char = conv.upper := by
      cases conv with
      | x => decide
      | X => decide
      | p => decide
      | P => decide
    obtain ⟨hdigit, hl, hd, hs, hmem, hupper⟩ := hconv
    apply directive_step h hdigit hl
    intro format'
    rw [convert, if_neg hd, if_neg hs, if_pos hmem, hupper]
    rw [Piece.Argument] at harg
    simp only [Piece.rendering, Piece.words]
    -- the long mode decides how many words are taken
    cases hlong : f.long with
    | true =>
      rw [hlong] at harg
      simp only [if_true] at harg
      rw [harg]
      rfl
    | false =>
      rw [hlong] at harg
      simp only [Bool.false_eq_true, if_false] at harg
      rw [harg]
      rfl
  | char f ch =>
    apply directive_step h (by decide) (by decide)
    intro format'
    rw [convert, if_neg (by decide), if_neg (by decide), if_neg (by decide), if_pos rfl, harg]
    rfl

/-- The pieces are printed in order. -/
private theorem formatStringVarg_pieces (pieces : List Piece) (format ap : Nat)
    (h : Remains m limit format (pieces.flatMap Piece.format)) (hargs : Arguments m ap pieces) :
    ∃ enough, ∀ fuel, enough ≤ fuel →
      formatStringVarg m limit fuel format ap = .ok (pieces.flatMap Piece.rendering) := by
  induction pieces generalizing format ap with
  | nil =>
    refine ⟨1, ?_⟩
    intro fuel hfuel
    obtain ⟨fuel, rfl⟩ : ∃ k, fuel = k + 1 := ⟨fuel - 1, by omega⟩
    exact formatStringVarg_nil h fuel ap
  | cons piece pieces ih =>
    rw [List.flatMap_cons] at h
    obtain ⟨harg, hargs⟩ := hargs
    -- where the next piece begins does not depend on the fuel
    obtain ⟨next, hnext, -⟩ := Piece.step h harg (Nat.le_refl _)
    obtain ⟨enough, hout⟩ := ih next _ hnext hargs
    -- one round for this piece, and enough for its own loop and for the others
    refine ⟨max enough piece.fuel + 1, ?_⟩
    intro fuel hfuel
    obtain ⟨fuel, rfl⟩ : ∃ k, fuel = k + 1 := ⟨fuel - 1, by omega⟩
    obtain ⟨format', hrest, hstep⟩ := Piece.step h harg (show piece.fuel ≤ fuel by omega)
    have hsame : format' = next := by
      have hlen := hrest.2
      have hlenNext := hnext.2
      omega
    rw [hstep, hsame, hout fuel (by omega), List.flatMap_cons]
    rfl

/-- The formatter prints the pieces of a format string in order, each directive with its own
    argument. -/
theorem format_refines (m : Mem) (format ap : Nat) (pieces : List Piece)
    (hformat : CString m format (pieces.flatMap Piece.format)) (hargs : Arguments m ap pieces) :
    ∃ enough, ∀ fuel, enough ≤ fuel →
      formatStringVarg m (format + (pieces.flatMap Piece.format).length) fuel format ap =
        .ok (pieces.flatMap Piece.rendering) :=
  formatStringVarg_pieces pieces format ap ⟨hformat, rfl⟩ hargs

/-- `a%02x%c` with 42 and `z` prints `a2az`. -/
theorem format_refines_mixed :
    ∃ enough, ∀ fuel, enough ≤ fuel →
      formatStringVarg
        (((formatMemory [97, 37, 48, 50, 120, 37, 99]).store32 64 42).store32 68 122)
        (0 + 7) fuel 0 64 = .ok [97, 50, 97, 122] :=
  format_refines _ 0 64
    [.literal 97 (by decide) (by decide), .hex ⟨true, some 2, false⟩ .x 42,
      .char ⟨false, none, false⟩ 122]
    (by decide) ⟨by decide, by decide, by decide, trivial⟩

end TimbOS.Native.Format
