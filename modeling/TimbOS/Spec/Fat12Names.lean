import TimbOS.Native.Fat12Name
import TimbOS.Spec.Fat12Enum

/-!
# File names

The bytes that are written to the array of a name are the ones that `Native.Fat12` collects in a
list, with zeros behind them. There are at most 12 of them, and for a base and an extension
without blanks, dots and zeros they are the two with a dot between them.

## Key results

- `extractFnPart_holds`: one part of the name
- `extractFileName_holds`: the whole name, which fits into the array
- `string_field`: the name of a base and an extension
- `names_exact`: bounds, names and injectivity
-/

namespace TimbOS.Native.Fat12

/-- The array holds the bytes written so far, and zeros behind them. -/
def padded (written : List UInt8) : NameBuffer :=
  ⟨written ++ List.replicate (13 - written.length) 0, written.length⟩

section Buffer

variable {written src : List UInt8} {ch : UInt8} {count : Nat}

theorem length_array_padded (h : written.length ≤ 13) : (padded written).array.length = 13 := by
  simp only [padded, List.length_append, List.length_replicate]
  omega

/-- The next byte of the array, before and after it is written. -/
theorem array_padded (h : written.length < 13) : ∃ k,
    (padded written).array = written ++ 0 :: List.replicate k 0 ∧
      ∀ ch, (padded (written ++ [ch])).array = written ++ ch :: List.replicate k 0 := by
  obtain ⟨k, hk⟩ : ∃ k, 13 - written.length = k + 1 := ⟨12 - written.length, by omega⟩
  refine ⟨k, ?_, fun ch => ?_⟩
  · rw [padded, hk, List.replicate_succ]
  · have hrest : 13 - (written ++ [ch]).length = k := by
      rw [List.length_append, List.length_singleton]
      omega
    rw [padded, hrest, List.append_assoc, List.singleton_append]

theorem put_padded (h : written.length < 13) (ch : UInt8) :
    (padded written).put ch = some (padded (written ++ [ch])) := by
  obtain ⟨k, hbefore, hafter⟩ := array_padded h
  have hroom : (padded written).dest < (padded written).array.length := by
    rw [length_array_padded (Nat.le_of_lt h)]
    exact h
  rw [NameBuffer.put, if_pos hroom, hbefore]
  simp only [padded] at hafter ⊢
  rw [hafter, List.set_append_right _ _ (Nat.le_refl _), Nat.sub_self, List.set_cons_zero,
    List.length_append, List.length_singleton]

/-- A part that fits is written as it is collected. -/
theorem extractFnPart_holds (hsrc : count ≤ src.length) (hroom : written.length + count ≤ 13) :
    NameBuffer.extractFnPart count src (padded written) =
      some ((extractFnPart count src written).1, padded (extractFnPart count src written).2) := by
  induction count generalizing src written with
  | zero => rfl
  | succ count ih =>
    cases src with
    | nil => exact absurd hsrc (Nat.not_succ_le_zero count)
    | cons ch src =>
      have hsrc : count ≤ src.length := Nat.le_of_succ_le_succ hsrc
      rw [NameBuffer.extractFnPart, extractFnPart]
      by_cases hch : ch ≠ ' '.toUInt8
      · rw [if_pos hch, if_pos hch, put_padded (by omega)]
        exact ih hsrc (by rw [List.length_append, List.length_singleton]; omega)
      · rw [if_neg hch, if_neg hch]
        exact ih hsrc (by omega)

theorem length_extractFnPart (count : Nat) (src written : List UInt8) :
    (extractFnPart count src written).2.length ≤ written.length + count := by
  rw [extractFnPart_eq, List.length_append]
  have hfilter := List.length_filter_le (· ≠ ' '.toUInt8) (src.take count)
  have htake := List.length_take_le count src
  omega

/-- A dot at the end is overwritten with a zero. -/
theorem takeBackDot_padded (h : written.length < 13) (ch : UInt8) :
    (padded (written ++ [ch])).takeBackDot = some ⟨(padded (if ch = '.'.toUInt8 then written
      else written ++ [ch])).array, written.length + 1⟩ := by
  obtain ⟨k, hbefore, hafter⟩ := array_padded h
  have hdest : (padded (written ++ [ch])).dest = written.length + 1 := List.length_append
  rw [NameBuffer.takeBackDot, hdest, hafter, Nat.add_sub_cancel,
    List.getElem?_append_right (Nat.le_refl _), Nat.sub_self, List.getElem?_cons_zero]
  simp only [Option.some.injEq]
  by_cases hdot : ch = '.'.toUInt8
  · rw [if_pos hdot, if_pos hdot, hbefore, List.set_append_right _ _ (Nat.le_refl _),
      Nat.sub_self, List.set_cons_zero]
  · rw [if_neg hdot, if_neg hdot, ← hdest]

/-- At most 12 bytes are written, and the array holds the name that is collected in a list. -/
theorem extractFileName_holds {fn : List UInt8} (hlen : fn.length = 11) :
    ∃ n, n ≤ 12 ∧ (extractFileName fn).length ≤ n ∧
      NameBuffer.extractFileName fn .entryName = some ⟨(padded (extractFileName fn)).array, n⟩ := by
  have hbase := length_extractFnPart 8 fn []
  have hroom : ([] : List UInt8).length + 8 ≤ 13 := by decide
  have hfirst : NameBuffer.extractFnPart 8 fn .entryName =
      some ((extractFnPart 8 fn []).1, padded (extractFnPart 8 fn []).2) :=
    extractFnPart_holds (by omega) hroom
  have hsrc : 3 ≤ (extractFnPart 8 fn []).1.length := by
    rw [extractFnPart_eq, List.length_drop]
    omega
  rw [NameBuffer.extractFileName, extractFileName, hfirst]
  simp only [Option.bind_eq_bind, Option.bind_some]
  generalize extractFnPart 8 fn [] = base at hbase hsrc
  have hdot : (base.2 ++ ['.'.toUInt8]).length ≤ 9 := by
    rw [List.length_append, List.length_singleton]
    exact Nat.succ_le_succ hbase
  have hext := length_extractFnPart 3 base.1 (base.2 ++ ['.'.toUInt8])
  rw [put_padded (by simp only [List.length_nil] at hbase; omega), Option.bind_some,
    extractFnPart_holds hsrc (by omega), Option.bind_some]
  -- there is a last byte, since the dot is there
  have hsome : (extractFnPart 3 base.1 (base.2 ++ ['.'.toUInt8])).2 ≠ [] := by
    rw [extractFnPart_eq]
    simp
  generalize (extractFnPart 3 base.1 (base.2 ++ ['.'.toUInt8])).2 = written at hext hsome
  obtain ⟨front, ch, rfl⟩ : ∃ front ch, written = front ++ [ch] :=
    ⟨_, _, (List.dropLast_concat_getLast hsome).symm⟩
  rw [List.length_append, List.length_singleton] at hext
  simp only [List.getLast?_concat, List.dropLast_concat, Option.some.injEq]
  refine ⟨front.length + 1, by omega, ?_, takeBackDot_padded (by omega) ch⟩
  split
  · exact Nat.le_succ _
  · rw [List.length_append, List.length_singleton]

end Buffer

/-! ## The string in the array -/

theorem string_padded (written : List UInt8) (dest : Nat) :
    NameBuffer.string ⟨(padded written).array, dest⟩ = written.takeWhile (· ≠ 0) := by
  rw [NameBuffer.string, padded]
  generalize 13 - written.length = k
  induction written with
  | nil => cases k <;> simp [List.replicate_succ]
  | cons ch written ih =>
    simp only [List.cons_append, List.takeWhile_cons] at ih ⊢
    rw [ih]

/-- The name of an item is the string that the array holds. -/
theorem item_name_eq {entry : DirectoryEntry} (hlen : entry.name.length = 11) :
    ∃ b, NameBuffer.extractFileName entry.name .entryName = some b ∧
      entry.item.name = b.string := by
  obtain ⟨n, -, -, hrun⟩ := extractFileName_holds hlen
  refine ⟨_, hrun, ?_⟩
  rw [string_padded, extractFileName_eq, entry.item_spec.2.1]

/-! ## Bases and extensions -/

/-- A base and an extension as they are in a directory entry, padded with blanks. -/
def field (base ext : List UInt8) : List UInt8 :=
  base ++ List.replicate (8 - base.length) ' '.toUInt8 ++
    (ext ++ List.replicate (3 - ext.length) ' '.toUInt8)

/-- A base or an extension without blanks, dots and zeros, that has at most `n` characters. -/
structure Plain (n : Nat) (part : List UInt8) : Prop where
  length : part.length ≤ n
  chars : ∀ ch ∈ part, ch ≠ ' '.toUInt8 ∧ ch ≠ '.'.toUInt8 ∧ ch ≠ 0

/-- The base, followed by a dot and the extension if there is one. -/
def dottedName (base ext : List UInt8) : List UInt8 :=
  if ext = [] then base else base ++ '.'.toUInt8 :: ext

section Field

variable {n : Nat} {part base ext base' ext' : List UInt8}

theorem length_field (hbase : Plain 8 base) (hext : Plain 3 ext) :
    (field base ext).length = 11 := by
  have hbase := hbase.length
  have hext := hext.length
  simp only [field, List.length_append, List.length_replicate]
  omega

/-- The padding is left out. -/
theorem Plain.filter (h : Plain n part) (k : Nat) :
    (part ++ List.replicate k ' '.toUInt8).filter (· ≠ ' '.toUInt8) = part := by
  rw [List.filter_append, List.filter_eq_self.mpr, List.filter_eq_nil_iff.mpr, List.append_nil]
  · intro ch hch
    rw [List.eq_of_mem_replicate hch]
    decide
  · intro ch hch
    simpa using (h.chars ch hch).1

theorem extractFileName_field (hbase : Plain 8 base) (hext : Plain 3 ext) :
    extractFileName (field base ext) = dottedName base ext := by
  have hbaseLen := hbase.length
  have hextLen := hext.length
  have hlen : (base ++ List.replicate (8 - base.length) ' '.toUInt8).length = 8 := by
    rw [List.length_append, List.length_replicate]
    omega
  have hlen' : (ext ++ List.replicate (3 - ext.length) ' '.toUInt8).length = 3 := by
    rw [List.length_append, List.length_replicate]
    omega
  rw [extractFileName_eq, shortName, field, List.take_left' hlen, List.drop_left' hlen,
    List.take_of_length_le (Nat.le_of_eq hlen'), hbase.filter, hext.filter, dottedName]
  cases hlast : ext.getLast? with
  | none =>
    rw [List.getLast?_eq_none_iff.mp hlast]
    simp
  | some ch =>
    have hmem := List.mem_of_getLast? hlast
    have hne : ext ≠ [] := List.ne_nil_of_mem hmem
    rw [Option.getD_some, if_neg (hext.chars ch hmem).2.1, if_neg hne]

theorem dottedName_ne_zero (hbase : Plain 8 base) (hext : Plain 3 ext) :
    ∀ ch ∈ dottedName base ext, ch ≠ 0 := by
  intro ch hch
  unfold dottedName at hch
  split at hch
  · exact (hbase.chars ch hch).2.2
  · rcases List.mem_append.mp hch with hch | hch
    · exact (hbase.chars ch hch).2.2
    · rcases List.mem_cons.mp hch with rfl | hch
      · decide
      · exact (hext.chars ch hch).2.2

theorem string_field (hbase : Plain 8 base) (hext : Plain 3 ext) :
    ∃ b, NameBuffer.extractFileName (field base ext) .entryName = some b ∧
      b.string = dottedName base ext := by
  obtain ⟨n, -, -, hrun⟩ := extractFileName_holds (length_field hbase hext)
  refine ⟨_, hrun, ?_⟩
  rw [string_padded, extractFileName_field hbase hext, List.takeWhile_eq_self_iff.mpr]
  intro ch hch
  simpa using dottedName_ne_zero hbase hext ch hch

/-- The first dot ends the base. -/
theorem dottedName_injective (hbase : Plain 8 base) (hext : Plain 3 ext) (hbase' : Plain 8 base')
    (h : dottedName base ext = dottedName base' ext') : base = base' ∧ ext = ext' := by
  have hno : '.'.toUInt8 ∉ base := fun hmem => (hbase.chars _ hmem).2.1 rfl
  have hno' : '.'.toUInt8 ∉ base' := fun hmem => (hbase'.chars _ hmem).2.1 rfl
  have hnoExt : '.'.toUInt8 ∉ ext := fun hmem => (hext.chars _ hmem).2.1 rfl
  unfold dottedName at h
  by_cases hnil : ext = []
  · by_cases hnil' : ext' = []
    · rw [if_pos hnil, if_pos hnil'] at h
      exact ⟨h, hnil.trans hnil'.symm⟩
    · rw [if_pos hnil, if_neg hnil'] at h
      rw [h] at hno
      simp at hno
  · by_cases hnil' : ext' = []
    · rw [if_neg hnil, if_pos hnil'] at h
      rw [← h] at hno'
      simp at hno'
    · rw [if_neg hnil, if_neg hnil'] at h
      obtain ⟨hbases, -, hexts⟩ := (List.append_cons_inj_of_notMem hno hnoExt).mp h
      exact ⟨hbases, hexts⟩

end Field

/-- For every field the array holds at most 12 bytes and zeros behind them. For the field of a base
    and an extension it holds their name, and two such fields have two names. -/
theorem names_exact :
    (∀ fn : List UInt8, fn.length = 11 → ∃ b, NameBuffer.extractFileName fn .entryName = some b ∧
      b.dest ≤ 12 ∧ b.array.length = 13 ∧ ∀ i, b.dest ≤ i → i < 13 → b.array[i]? = some 0) ∧
    (∀ base ext, Plain 8 base → Plain 3 ext →
      ∃ b, NameBuffer.extractFileName (field base ext) .entryName = some b ∧
        b.string = if ext = [] then base else base ++ '.'.toUInt8 :: ext) ∧
    ∀ base ext base' ext' b b', Plain 8 base → Plain 3 ext → Plain 8 base' → Plain 3 ext' →
      NameBuffer.extractFileName (field base ext) .entryName = some b →
      NameBuffer.extractFileName (field base' ext') .entryName = some b' →
      field base ext ≠ field base' ext' → b.string ≠ b'.string := by
  refine ⟨?_, fun base ext hbase hext => string_field hbase hext, ?_⟩
  · intro fn hlen
    obtain ⟨n, hn, hname, hrun⟩ := extractFileName_holds hlen
    refine ⟨_, hrun, hn, length_array_padded (by omega), ?_⟩
    intro i hi hlt
    simp only at hi
    simp only [padded]
    rw [List.getElem?_append_right (by omega), List.getElem?_replicate, if_pos (by omega)]
  · intro base ext base' ext' b b' hbase hext hbase' hext' hrun hrun' hne heq
    obtain ⟨c, hc, hstring⟩ := string_field hbase hext
    obtain ⟨c', hc', hstring'⟩ := string_field hbase' hext'
    cases hrun.symm.trans hc
    cases hrun'.symm.trans hc'
    rw [hstring, hstring'] at heq
    -- neither part has a dot, and so the string gives both back
    obtain ⟨rfl, rfl⟩ := dottedName_injective hbase hext hbase' heq
    exact hne rfl

/-- The loader of the kernel, `STAGE2.BIN`. -/
theorem names_exact_stage2 : ∃ b, NameBuffer.extractFileName
    (['S', 'T', 'A', 'G', 'E', '2', ' ', ' ', 'B', 'I', 'N'].map Char.toUInt8) .entryName = some b ∧
      b.string = ['S', 'T', 'A', 'G', 'E', '2', '.', 'B', 'I', 'N'].map Char.toUInt8 := by
  have hbase : Plain 8 (['S', 'T', 'A', 'G', 'E', '2'].map Char.toUInt8) :=
    ⟨by decide, by decide +kernel⟩
  have hext : Plain 3 (['B', 'I', 'N'].map Char.toUInt8) := ⟨by decide, by decide +kernel⟩
  obtain ⟨b, hrun, hstring⟩ := names_exact.2.1 _ _ hbase hext
  rw [if_neg (by simp)] at hstring
  exact ⟨b, hrun, hstring⟩

end TimbOS.Native.Fat12
