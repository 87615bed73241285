import TimbOS.ForStd.List
import TimbOS.Native.Console

/-!
# What the console shows

A text is laid out line by line, each line in rows of 80 characters. A row that is full is
left at once, so the last row of a layout is where the cursor is. The console agrees with
the layout as long as this has no more rows than the buffer. The row after that lies behind
the buffer, and nothing stops the cursor from going there.

## Key results

- `layout_newline`, `layout_char`: the layout of a text that grows
- `Shows.newline`, `Shows.char`: what one character does to the console
- `console_layout`: the console shows the layout
- `console_inside_iff`: exactly which texts stay inside the buffer
- `newlines_leave_buffer`: a text that does not
-/

namespace TimbOS.Native.Console

/-! ## The layout of a text -/

/-- The rows of a line: pieces of 80 characters and a rest, which may be empty. -/
def rowsOf (line : List UInt8) : List (List UInt8) :=
  (List.range (line.length / 80 + 1)).map fun i => (line.drop (80 * i)).take 80

/-- The rows of a text. -/
def layout (text : List UInt8) : List (List UInt8) := (text.splitOn newline).flatMap rowsOf

/-- The character in a cell, if the layout has one there. -/
def cellOf (rows : List (List UInt8)) (i : Nat) : Option UInt8 :=
  rows[i / 80]?.bind fun row => row[i % 80]?

/-- The last row of a line, and what one more character does to the rows. -/
private theorem rowsOf_append (line : List UInt8) (ch : UInt8) :
    ∃ rows last, rowsOf line = rows ++ [last] ∧ last.length < 80 ∧
      rowsOf (line ++ [ch]) =
        if last.length + 1 = 80 then rows ++ [last ++ [ch], []] else rows ++ [last ++ [ch]] := by
  have hdiv := Nat.div_add_mod line.length 80
  have hmod := Nat.mod_lt line.length (show 0 < 80 by decide)
  have hlen : (line.drop (80 * (line.length / 80))).length = line.length % 80 := by
    rw [List.length_drop]
    omega
  -- the rows before the last one are full, and stay as they are
  have hfull : ∀ i ∈ List.range (line.length / 80),
      ((line ++ [ch]).drop (80 * i)).take 80 = (line.drop (80 * i)).take 80 := by
    intro i hi
    have hlt := List.mem_range.mp hi
    rw [List.drop_append_of_le_length (by omega), List.take_append_of_le_length]
    rw [List.length_drop]
    omega
  have hlast : (line.drop (80 * (line.length / 80))).take 80 =
      line.drop (80 * (line.length / 80)) := List.take_of_length_le (by omega)
  have hgrown : ((line ++ [ch]).drop (80 * (line.length / 80))).take 80 =
      line.drop (80 * (line.length / 80)) ++ [ch] := by
    rw [List.drop_append_of_le_length (by omega), List.take_of_length_le]
    rw [List.length_append, hlen, List.length_singleton]
    omega
  refine ⟨(List.range (line.length / 80)).map fun i => (line.drop (80 * i)).take 80,
    line.drop (80 * (line.length / 80)), ?_, by omega, ?_⟩
  · rw [rowsOf, List.range_succ, List.map_append]
    simp only [List.map_cons, List.map_nil, hlast]
  · rw [hlen, rowsOf, List.length_append, List.length_singleton]
    by_cases hend : line.length % 80 + 1 = 80
    · -- the row is full now, and a new one begins
      have hnext : (line.length + 1) / 80 = line.length / 80 + 1 := by omega
      have hempty : (line ++ [ch]).drop (80 * (line.length / 80 + 1)) = [] := by
        apply List.drop_eq_nil_of_le
        rw [List.length_append, List.length_singleton]
        omega
      rw [if_pos hend, hnext, List.range_succ, List.range_succ, List.map_append, List.map_append,
        List.map_congr_left hfull]
      simp only [List.map_cons, List.map_nil, hgrown, hempty, List.take_nil, List.append_assoc,
        List.singleton_append]
    · have hsame : (line.length + 1) / 80 = line.length / 80 := by omega
      rw [if_neg hend, hsame, List.range_succ, List.map_append, List.map_congr_left hfull]
      simp only [List.map_cons, List.map_nil, hgrown]

/-- A newline begins a new row. -/
theorem layout_newline (text : List UInt8) : layout (text ++ [newline]) = layout text ++ [[]] := by
  rw [layout, List.splitOn_append_sep, List.flatMap_append]
  rfl

/-- Any other character goes to the end of the last row. If this is full then, a new row
    begins. -/
theorem layout_char (text : List UInt8) {ch : UInt8} (hch : ch ≠ newline) :
    ∃ rows last, layout text = rows ++ [last] ∧ last.length < 80 ∧
      layout (text ++ [ch]) =
        if last.length + 1 = 80 then rows ++ [last ++ [ch], []] else rows ++ [last ++ [ch]] := by
  obtain ⟨lines, line, htext, hgrown⟩ := List.splitOn_append_ne text hch
  obtain ⟨rows, last, hrows, hlt, hgrownRows⟩ := rowsOf_append line ch
  refine ⟨lines.flatMap rowsOf ++ rows, last, ?_, hlt, ?_⟩
  · rw [layout, htext, List.flatMap_append, List.flatMap_singleton, hrows, List.append_assoc]
  · rw [layout, hgrown, List.flatMap_append, List.flatMap_singleton, hgrownRows]
    by_cases hend : last.length + 1 = 80
    · rw [if_pos hend, if_pos hend, List.append_assoc]
    · rw [if_neg hend, if_neg hend, List.append_assoc]

theorem layout_nil : layout [] = [[]] := by
  rw [layout, List.splitOn_nil]
  rfl

/-- One character adds one row at most. -/
theorem length_layout_append (text : List UInt8) (ch : UInt8) :
    (layout text).length ≤ (layout (text ++ [ch])).length ∧
      (layout (text ++ [ch])).length ≤ (layout text).length + 1 := by
  by_cases hch : ch = newline
  · rw [hch, layout_newline, List.length_append]
    simp only [List.length_singleton, Nat.le_refl, Nat.le_add_right, and_self]
  · obtain ⟨rows, last, hrows, -, hgrown⟩ := layout_char text hch
    rw [hgrown, hrows]
    by_cases hend : last.length + 1 = 80
    · rw [if_pos hend]
      simp only [List.length_append, List.length_cons, List.length_nil]
      omega
    · rw [if_neg hend]
      simp only [List.length_append, List.length_cons, List.length_nil]
      omega

/-- The layout of a longer text has at least as many rows. -/
theorem length_layout_le (text after : List UInt8) :
    (layout text).length ≤ (layout (text ++ after)).length := by
  induction after generalizing text with
  | nil => rw [List.append_nil]
  | cons ch after ih =>
    -- the character goes to the text, and the rest is shorter
    have hmore := ih (text ++ [ch])
    rw [List.append_assoc, List.singleton_append] at hmore
    exact (length_layout_append text ch).1.trans hmore

/-- A text whose layout has `n` rows or more has a beginning with exactly `n` rows. -/
theorem exists_length_layout_eq {n : Nat} (hn : 0 < n) (text : List UInt8)
    (h : n ≤ (layout text).length) :
    ∃ before after, text = before ++ after ∧ (layout before).length = n := by
  induction text using List.reverseRecOn with
  | nil =>
    rw [layout_nil, List.length_singleton] at h
    exact ⟨[], [], rfl, by rw [layout_nil, List.length_singleton]; omega⟩
  | append_singleton text ch ih =>
    have hgrow := length_layout_append text ch
    by_cases hle : n ≤ (layout text).length
    · -- the rows were there before the last character
      obtain ⟨before, after, htext, hlen⟩ := ih hle
      exact ⟨before, after ++ [ch], by rw [htext, List.append_assoc], hlen⟩
    · -- the last character has added the row
      exact ⟨text ++ [ch], [], by rw [List.append_nil], by omega⟩

/-! ## Cells of a layout -/

/-- A row that begins changes no cell. -/
theorem cellOf_append_nil (rows : List (List UInt8)) (i : Nat) :
    cellOf (rows ++ [[]]) i = cellOf rows i := by
  simp only [cellOf]
  by_cases hlt : i / 80 < rows.length
  · rw [List.getElem?_append_left hlt]
  · rw [List.getElem?_append_right (by omega),
      List.getElem?_eq_none (by omega : rows.length ≤ i / 80)]
    -- an empty row and no row look the same
    cases i / 80 - rows.length with
    | zero => rfl
    | succ k => rfl

/-- A character at the end of the last row fills the cell there. -/
theorem cellOf_append_char (rows : List (List UInt8)) {last : List UInt8} (ch : UInt8) (i : Nat)
    (hlast : last.length < 80) :
    cellOf (rows ++ [last ++ [ch]]) i =
      if i = 80 * rows.length + last.length then some ch else cellOf (rows ++ [last]) i := by
  simp only [cellOf]
  by_cases hlt : i / 80 < rows.length
  · rw [if_neg (by omega), List.getElem?_append_left hlt, List.getElem?_append_left hlt]
  · rw [List.getElem?_append_right (by omega), List.getElem?_append_right (by omega)]
    by_cases hrow : i / 80 = rows.length
    · -- only in the last row the column decides
      have hzero : i / 80 - rows.length = 0 := by omega
      rw [hzero]
      simp only [List.getElem?_cons_zero, Option.bind_some]
      by_cases hcol : i % 80 = last.length
      · rw [if_pos (by omega), hcol, List.getElem?_concat_length]
      · rw [if_neg (by omega), List.getElem?_append]
        by_cases hin : i % 80 < last.length
        · rw [if_pos hin]
        · rw [if_neg hin, List.getElem?_eq_none (by omega : last.length ≤ i % 80),
            List.getElem?_eq_none]
          rw [List.length_singleton]
          omega
    · rw [if_neg (by omega)]
      obtain ⟨k, hk⟩ : ∃ k, i / 80 - rows.length = k + 1 :=
        ⟨i / 80 - rows.length - 1, by omega⟩
      rw [hk, List.getElem?_cons_succ, List.getElem?_cons_succ]

/-! ## The console and the layout -/

/-- What a cell holds when the console shows `rows` and the memory held `memory` before. -/
def shown (memory : Nat → VideoChar) (rows : List (List UInt8)) (i : Nat) : VideoChar :=
  match cellOf rows i with
  | some ch => ⟨ch, 0x07⟩
  | none => (construct memory).buffer i

/-- The console shows `rows`, and its cursor is at the end of the last one. -/
structure Shows (memory : Nat → VideoChar) (c : Console) (rows : List (List UInt8)) : Prop where
  width : c.bufferWidth = 80
  height : c.bufferHeight = 2500
  buffer : ∀ i, c.buffer i = shown memory rows i
  cursor : ∃ full last, rows = full ++ [last] ∧ c.cursorRow = full.length ∧
    c.cursorColumn = last.length ∧ last.length < 80
  top : c.topRow = c.cursorRow - 24

variable {memory : Nat → VideoChar} {c : Console} {rows : List (List UInt8)}

theorem shows_construct (memory : Nat → VideoChar) :
    Shows memory (construct memory) (layout []) where
  width := rfl
  height := rfl
  buffer := by
    intro i
    -- nothing was written, so every cell is as the constructor leaves it
    have hnone : cellOf [[]] i = none := by
      have happ := cellOf_append_nil [] i
      rw [List.nil_append] at happ
      rw [happ]
      rfl
    rw [layout_nil, shown, hnone]
  cursor := ⟨[], [], layout_nil, rfl, rfl, by decide⟩
  top := rfl

/-- The visible rows follow a cursor that has moved down by one row at most. -/
private theorem topRow_scroll {c : Console} (hrow : c.cursorRow < 2 ^ 32)
    (htop : c.topRow = c.cursorRow - 24 ∨ c.topRow = c.cursorRow - 1 - 24) :
    c.scroll.topRow = c.cursorRow - 24 := by
  have hsub : sub32 c.cursorRow c.topRow = c.cursorRow - c.topRow := by
    simp only [sub32]
    omega
  rw [scroll, if_neg (by omega), hsub]
  by_cases hbelow : c.cursorRow - c.topRow ≥ 25
  · rw [if_pos hbelow]
    simp only [sub32]
    omega
  · rw [if_neg hbelow]
    omega

/-- Only `topRow` scrolls. -/
private theorem scroll_eq (c : Console) : c.scroll = { c with topRow := c.scroll.topRow } := by
  rw [scroll]
  split
  · rfl
  · split
    · rfl
    · rfl

/-- The second half of a step: the rows are there, the view has to follow. -/
private theorem shows_scroll (hwidth : c.bufferWidth = 80) (hheight : c.bufferHeight = 2500)
    (hbuffer : ∀ i, c.buffer i = shown memory rows i)
    (hcursor : ∃ full last, rows = full ++ [last] ∧ c.cursorRow = full.length ∧
      c.cursorColumn = last.length ∧ last.length < 80)
    (hrow : c.cursorRow < 2 ^ 32)
    (htop : c.topRow = c.cursorRow - 24 ∨ c.topRow = c.cursorRow - 1 - 24) :
    Shows memory c.scroll rows := by
  have hscroll := topRow_scroll hrow htop
  rw [scroll_eq, hscroll]
  exact ⟨hwidth, hheight, hbuffer, hcursor, rfl⟩

/-- A newline moves the cursor to a new row. -/
theorem Shows.newline (h : Shows memory c rows) (hlen : rows.length ≤ 2501) :
    Shows memory (c.writeChar newline) (rows ++ [[]]) := by
  obtain ⟨full, last, hrows, hrow, -, -⟩ := h.cursor
  have hfull : full.length ≤ 2500 := by
    rw [hrows, List.length_append, List.length_singleton] at hlen
    omega
  have hadd : add32 c.cursorRow 1 = c.cursorRow + 1 := by
    simp only [add32]
    omega
  have htop := h.top
  rw [writeChar, putChar, if_pos rfl, hadd]
  apply shows_scroll
  · exact h.width
  · exact h.height
  · intro i
    rw [shown, cellOf_append_nil]
    exact h.buffer i
  · exact ⟨rows, [], rfl, by rw [hrows, hrow, List.length_append]; rfl, rfl, by decide⟩
  · show c.cursorRow + 1 < 2 ^ 32
    omega
  · right
    show c.topRow = c.cursorRow + 1 - 1 - 24
    omega

/-- Any other character goes to the cell of the cursor. -/
theorem Shows.char {full : List (List UInt8)} {last : List UInt8} {ch : UInt8}
    (h : Shows memory c (full ++ [last])) (hlen : full.length ≤ 2500) (hlast : last.length < 80)
    (hch : ch ≠ Console.newline) :
    Shows memory (c.writeChar ch)
      (if last.length + 1 = 80 then full ++ [last ++ [ch], []] else full ++ [last ++ [ch]]) := by
  obtain ⟨full', last', hrows, hrow, hcolumn, -⟩ := h.cursor
  obtain ⟨rfl, hsingle⟩ := List.append_inj' hrows rfl
  cases List.singleton_inj.mp hsingle
  have hdest : c.dest = 80 * full.length + last.length := by
    rw [dest, h.width, hrow, hcolumn, Nat.mod_eq_of_lt (by omega)]
  have hcol : add32 c.cursorColumn 1 = last.length + 1 := by
    rw [add32, hcolumn, Nat.mod_eq_of_lt (by omega)]
  have hadd : add32 c.cursorRow 1 = full.length + 1 := by
    rw [add32, hrow, Nat.mod_eq_of_lt (by omega)]
  have htop := h.top
  -- the cell of the cursor is the only one that changes
  have hcells : ∀ i, (if i = 80 * full.length + last.length then ⟨ch, 0x07⟩ else c.buffer i) =
      shown memory (full ++ [last ++ [ch]]) i := by
    intro i
    rw [shown, cellOf_append_char full ch i hlast]
    by_cases hi : i = 80 * full.length + last.length
    · rw [if_pos hi, if_pos hi]
    · rw [if_neg hi, if_neg hi]
      exact h.buffer i
  rw [writeChar, putChar, if_neg hch]
  -- the row is full now, or the cursor stays in it
  simp only [hdest, hcol, hadd, h.width]
  by_cases hend : last.length + 1 = 80
  · rw [if_pos hend, if_pos (by omega)]
    apply shows_scroll
    · rfl
    · exact h.height
    · intro i
      have hnil := cellOf_append_nil (full ++ [last ++ [ch]]) i
      rw [List.append_assoc, List.singleton_append] at hnil
      rw [shown, hnil]
      exact hcells i
    · refine ⟨full ++ [last ++ [ch]], [], ?_, ?_, rfl, by decide⟩
      · rw [List.append_assoc, List.singleton_append]
      · rw [List.length_append, List.length_singleton]
    · show full.length + 1 < 2 ^ 32
      omega
    · right
      show c.topRow = full.length + 1 - 1 - 24
      omega
  · rw [if_neg hend, if_neg (by omega)]
    apply shows_scroll
    · rfl
    · exact h.height
    · exact hcells
    · refine ⟨full, last ++ [ch], rfl, hrow, ?_, ?_⟩
      · rw [List.length_append, List.length_singleton]
      · rw [List.length_append, List.length_singleton]
        omega
    · show c.cursorRow < 2 ^ 32
      omega
    · left
      exact htop

/-- One more character, and the console shows the layout with it. -/
theorem Shows.writeChar {text : List UInt8} (h : Shows memory c (layout text))
    (hlen : (layout text).length ≤ 2501) (ch : UInt8) :
    Shows memory (c.writeChar ch) (layout (text ++ [ch])) := by
  by_cases hch : ch = Console.newline
  · rw [hch, layout_newline]
    exact h.newline hlen
  · obtain ⟨full, last, hrows, hlast, hgrown⟩ := layout_char text hch
    rw [hgrown]
    rw [hrows] at h
    rw [hrows, List.length_append, List.length_singleton] at hlen
    exact h.char (by omega) hlast hch

theorem write_append (c : Console) (text : List UInt8) (ch : UInt8) :
    c.write (text ++ [ch]) = (c.write text).writeChar ch := by
  simp only [write, List.foldl_append, List.foldl_cons, List.foldl_nil]

/-- The console shows the layout of what was written, up to one row behind its buffer. -/
theorem shows_write (memory : Nat → VideoChar) (text : List UInt8)
    (h : (layout text).length ≤ 2501) :
    Shows memory ((construct memory).write text) (layout text) := by
  induction text using List.reverseRecOn with
  | nil => exact shows_construct memory
  | append_singleton text ch ih =>
    have hle := (length_layout_append text ch).1.trans h
    rw [write_append]
    exact (ih hle).writeChar hle ch

/-! ## The layout is what one sees -/

/-- The console agrees with the layout of the text in every cell of its buffer, in its cursor
    and in the rows it shows, as long as the layout fits into the buffer. -/
theorem console_layout (memory : Nat → VideoChar) (text : List UInt8)
    (h : (layout text).length ≤ (construct memory).bufferHeight) :
    let c := (construct memory).write text
    (∀ row column, row < c.bufferHeight → column < c.bufferWidth →
      c.buffer (c.bufferWidth * row + column) =
        match (layout text)[row]?.bind fun cells => cells[column]? with
        | some ch => ⟨ch, 0x07⟩
        | none => blank) ∧
      c.cursorRow + 1 = (layout text).length ∧
      (layout text)[c.cursorRow]?.map List.length = some c.cursorColumn ∧
      c.topRow = max 0 (c.cursorRow - 24) ∧
      c.topRow ≤ c.cursorRow ∧ c.cursorRow < c.topRow + screenHeight := by
  have hheight : (construct memory).bufferHeight = 2500 := rfl
  have hshows := shows_write memory text (by omega)
  obtain ⟨full, last, hrows, hrow, hcolumn, hlast⟩ := hshows.cursor
  have htop := hshows.top
  simp only
  refine ⟨?_, ?_, ?_, ?_, ?_, ?_⟩
  · intro row column hr hc
    -- a cell of the buffer is the cell at one place of the layout
    rw [hshows.height] at hr
    rw [hshows.width] at hc
    have hdiv : (80 * row + column) / 80 = row := by omega
    have hmod : (80 * row + column) % 80 = column := by omega
    have hblank : (construct memory).buffer (80 * row + column) = blank := by
      rw [construct]
      exact if_pos (by omega)
    rw [hshows.width, hshows.buffer, shown, cellOf, hdiv, hmod, hblank]
  · rw [hrow, hrows, List.length_append, List.length_singleton]
  · rw [hrow, hrows, List.getElem?_concat_length, Option.map_some, hcolumn]
  · rw [htop, Nat.zero_max]
  · omega
  · rw [screenHeight]
    omega

/-- `Hi`, a newline and `!`: the last character is at the start of the second row. -/
theorem console_layout_two_rows :
    let c := (construct fun _ => blank).write [72, 105, newline, 33]
    c.buffer (c.bufferWidth * 1 + 0) = ⟨33, 0x07⟩ ∧ c.cursorRow + 1 = 2 := by
  have hrows : layout [72, 105, newline, 33] = [[72, 105], [33]] := by decide
  have hlayout := console_layout (fun _ => blank) [72, 105, newline, 33] (by rw [hrows]; decide)
  simp only [hrows] at hlayout
  exact ⟨hlayout.1 1 0 (by decide) (by decide), hlayout.2.1⟩

/-! ## Staying inside the buffer -/

/-- Writing a text changes cells of the buffer only, and the rows on the screen are rows of
    the buffer before and after every character. -/
def StaysInside (c : Console) (text : List UInt8) : Prop :=
  (∀ before ch after, text = before ++ ch :: after →
    ∀ d ∈ (c.write before).written ch, d < c.bufferWidth * c.bufferHeight) ∧
  ∀ before after, text = before ++ after →
    (c.write before).topRow + screenHeight ≤ c.bufferHeight

/-- A text that stays inside has no more rows than the buffer. -/
private theorem StaysInside.length_le {text : List UInt8}
    (h : StaysInside (construct memory) text) : (layout text).length ≤ 2500 := by
  by_cases hle : (layout text).length ≤ 2500
  · exact hle
  · -- somewhere on the way the last row shown is the first one behind the buffer
    obtain ⟨before, after, htext, hlen⟩ :=
      exists_length_layout_eq (show 0 < 2501 by decide) text (by omega)
    have hshows := shows_write memory before (by omega)
    obtain ⟨full, last, hrows, hrow, -, -⟩ := hshows.cursor
    have htop := hshows.top
    have hin : _ ≤ 2500 := h.2 before after htext
    rw [screenHeight] at hin
    rw [hrows, List.length_append, List.length_singleton] at hlen
    omega

/-- A text stays inside the buffer when its layout has no more rows than the buffer, and only
    then. -/
theorem console_inside_iff (memory : Nat → VideoChar) (text : List UInt8) :
    StaysInside (construct memory) text ↔
      (layout text).length ≤ (construct memory).bufferHeight := by
  have hwidth : (construct memory).bufferWidth = 80 := rfl
  have hheight : (construct memory).bufferHeight = 2500 := rfl
  rw [hheight]
  constructor
  · intro h
    exact h.length_le
  · intro h
    rw [StaysInside, hwidth, hheight, screenHeight]
    constructor
    · intro before ch after htext d hd
      -- what comes before the character has no more rows than the whole text
      have hle := length_layout_le before (ch :: after)
      rw [← htext] at hle
      have hshows := shows_write memory before (by omega)
      obtain ⟨full, last, hrows, hrow, hcolumn, hlast⟩ := hshows.cursor
      rw [hrows, List.length_append, List.length_singleton] at hle
      rw [written] at hd
      split at hd
      · exact nomatch hd
      · cases hd
        rw [dest, hshows.width, hrow, hcolumn, Nat.mod_eq_of_lt (by omega)]
        omega
    · intro before after htext
      have hle := length_layout_le before after
      rw [← htext] at hle
      have hshows := shows_write memory before (by omega)
      obtain ⟨full, last, hrows, hrow, -, -⟩ := hshows.cursor
      have htop := hshows.top
      rw [hrows, List.length_append, List.length_singleton] at hle
      omega

/-- Every newline adds a row. -/
theorem length_layout_newlines (n : Nat) :
    (layout (List.replicate n newline)).length = n + 1 := by
  induction n with
  | zero => rw [List.replicate_zero, layout_nil, List.length_singleton]
  | succ n ih =>
    rw [List.replicate_succ', layout_newline, List.length_append, ih, List.length_singleton]

/-- After 2500 newlines the last visible row is not in the buffer. -/
theorem newlines_leave_buffer :
    ¬ StaysInside (construct fun _ => blank) (List.replicate 2500 newline) := by
  intro h
  have hle := h.length_le
  rw [length_layout_newlines] at hle
  omega

end TimbOS.Native.Console
