import TimbOS.Native.Fat12

/-!
# The packing of the file allocation table

Two 12-bit entries share three bytes. `entryOf` is the definition of the format, the
`n`-th value of 12 bits counted from the low end of the bytes; `read` and `write` are
shown to agree with it.

## Key results

- `decode_encode`, `encode_decode`: one group of three bytes
- `readEntries_getElem`: what `read` stores is what the format says
- `fat_roundTrip`: reading and writing undo each other
- `write_respects_iff`: the sizes of buffers for which `write` is safe
-/

namespace TimbOS.Native.Fat12.FAT12FAT

/-! ## One group of three bytes -/

/-- The 12-bit little-endian value number `n` of a byte string. -/
def entryOf (src : List UInt8) (n : Nat) : Nat :=
  let word := (src.getD (n + n / 2) 0).toNat + (src.getD (n + n / 2 + 1) 0).toNat * 256
  if n % 2 = 0 then word % 4096 else word / 16

/-- The low entry takes the first byte and the low half of the second. -/
theorem readLow_eq {f0 f1 : Nat} (h0 : f0 < 256) :
    f0 ||| ((f1 <<< 8) &&& 0xF00) = f0 + f1 % 16 * 256 := by
  have hmask : (f1 <<< 8) &&& 0xF00 = (f1 % 16) <<< 8 := by
    rw [show (0xF00 : Nat) = 15 <<< 8 from rfl, ← Nat.shiftLeft_and_distrib]
    rw [show (15 : Nat) = 2 ^ 4 - 1 from rfl, Nat.and_two_pow_sub_one_eq_mod]
  rw [hmask, Nat.or_comm, ← Nat.shiftLeft_add_eq_or_of_lt (show f0 < 2 ^ 8 from h0),
    Nat.shiftLeft_eq]
  omega

/-- The high entry takes the high half of the second byte and the third. -/
theorem readHigh_eq {f1 f2 : Nat} (h1 : f1 < 256) :
    (f2 <<< 4) ||| ((f1 >>> 4) &&& 0x00F) = f2 * 16 + f1 / 16 := by
  have hmask : (f1 >>> 4) &&& 0x00F = f1 / 16 := by
    rw [show (0x00F : Nat) = 2 ^ 4 - 1 from rfl, Nat.and_two_pow_sub_one_eq_mod,
      Nat.shiftRight_eq_div_pow]
    omega
  rw [hmask, ← Nat.shiftLeft_add_eq_or_of_lt (show f1 / 16 < 2 ^ 4 by omega), Nat.shiftLeft_eq]

theorem writeLow_eq (u : Nat) : u &&& 0xFF = u % 256 := by
  rw [show (0xFF : Nat) = 2 ^ 8 - 1 from rfl, Nat.and_two_pow_sub_one_eq_mod]

theorem writeMiddle_eq (u v : Nat) :
    ((u &&& 0x0F00) >>> 8) ||| ((v &&& 0x00F) <<< 4) = u / 256 % 16 + v % 16 * 16 := by
  have hu : (u &&& 0x0F00) >>> 8 = u / 256 % 16 := by
    rw [Nat.shiftRight_and_distrib, show 0x0F00 >>> 8 = 2 ^ 4 - 1 from rfl,
      Nat.and_two_pow_sub_one_eq_mod, Nat.shiftRight_eq_div_pow]
  have hv : v &&& 0x00F = v % 16 := by
    rw [show (0x00F : Nat) = 2 ^ 4 - 1 from rfl, Nat.and_two_pow_sub_one_eq_mod]
  rw [hu, hv, Nat.or_comm, ← Nat.shiftLeft_add_eq_or_of_lt (show u / 256 % 16 < 2 ^ 4 by omega),
    Nat.shiftLeft_eq]
  omega

theorem writeHigh_eq (v : Nat) : (v &&& 0xFF0) >>> 4 = v / 16 % 256 := by
  rw [Nat.shiftRight_and_distrib, show 0xFF0 >>> 4 = 2 ^ 8 - 1 from rfl,
    Nat.and_two_pow_sub_one_eq_mod, Nat.shiftRight_eq_div_pow]

/-- One round of `read`, as arithmetic. -/
theorem readEntries_cons (f0 f1 f2 : UInt8) (src : List UInt8) :
    readEntries (f0 :: f1 :: f2 :: src) =
      .ofNat (f0.toNat + f1.toNat % 16 * 256) :: .ofNat (f2.toNat * 16 + f1.toNat / 16) ::
        readEntries src := by
  rw [readEntries]
  simp only [readLow_eq f0.toNat_lt, readHigh_eq f1.toNat_lt]

/-- One round of `write`, as arithmetic. -/
theorem writeEntries_cons {u v : ClusterId} {fat : List ClusterId} {p : List UInt8}
    (h : writeEntries fat = .ok p) :
    writeEntries (u :: v :: fat) =
      .ok (.ofNat (u.toNat % 256) :: .ofNat (u.toNat / 256 % 16 + v.toNat % 16 * 16) ::
        .ofNat (v.toNat / 16 % 256) :: p) := by
  rw [writeEntries, h]
  simp only [bind, Except.bind, writeLow_eq, writeMiddle_eq, writeHigh_eq]

/-- The two entries that `read` makes of three bytes give back the bytes. -/
theorem encode_decode (f0 f1 f2 : UInt8) :
    let u : ClusterId := .ofNat (f0.toNat + f1.toNat % 16 * 256)
    let v : ClusterId := .ofNat (f2.toNat * 16 + f1.toNat / 16)
    UInt8.ofNat (u.toNat % 256) = f0 ∧
      UInt8.ofNat (u.toNat / 256 % 16 + v.toNat % 16 * 16) = f1 ∧
      UInt8.ofNat (v.toNat / 16 % 256) = f2 := by
  intro u v
  have h0 := f0.toNat_lt
  have h1 := f1.toNat_lt
  have h2 := f2.toNat_lt
  have hu : u.toNat = f0.toNat + f1.toNat % 16 * 256 :=
    UInt16.toNat_ofNat_of_lt' (show _ < 65536 by omega)
  have hv : v.toNat = f2.toNat * 16 + f1.toNat / 16 :=
    UInt16.toNat_ofNat_of_lt' (show _ < 65536 by omega)
  rw [hu, hv]
  refine ⟨?_, ?_, ?_⟩
  · apply UInt8.toNat_inj.mp
    rw [UInt8.toNat_ofNat_of_lt' (show _ < 256 by omega)]
    omega
  · apply UInt8.toNat_inj.mp
    rw [UInt8.toNat_ofNat_of_lt' (show _ < 256 by omega)]
    omega
  · apply UInt8.toNat_inj.mp
    rw [UInt8.toNat_ofNat_of_lt' (show _ < 256 by omega)]
    omega

/-- The three bytes that `write` makes of two 12-bit entries give back the entries. -/
theorem decode_encode {u v : ClusterId} (hu : u.toNat < 0x1000) (hv : v.toNat < 0x1000) :
    let f0 := UInt8.ofNat (u.toNat % 256)
    let f1 := UInt8.ofNat (u.toNat / 256 % 16 + v.toNat % 16 * 16)
    let f2 := UInt8.ofNat (v.toNat / 16 % 256)
    UInt16.ofNat (f0.toNat + f1.toNat % 16 * 256) = u ∧
      UInt16.ofNat (f2.toNat * 16 + f1.toNat / 16) = v := by
  intro f0 f1 f2
  have h0 : f0.toNat = u.toNat % 256 := UInt8.toNat_ofNat_of_lt' (show _ < 256 by omega)
  have h1 : f1.toNat = u.toNat / 256 % 16 + v.toNat % 16 * 16 :=
    UInt8.toNat_ofNat_of_lt' (show _ < 256 by omega)
  have h2 : f2.toNat = v.toNat / 16 % 256 := UInt8.toNat_ofNat_of_lt' (show _ < 256 by omega)
  rw [h0, h1, h2]
  constructor
  · apply UInt16.toNat_inj.mp
    rw [UInt16.toNat_ofNat_of_lt' (show _ < 65536 by omega)]
    omega
  · apply UInt16.toNat_inj.mp
    rw [UInt16.toNat_ofNat_of_lt' (show _ < 65536 by omega)]
    omega

/-! ## The whole table -/

/-- A rest that is no group of three bytes is shorter than one. -/
private theorem length_lt_three {src : List UInt8}
    (h : ∀ f0 f1 f2 rest, src = f0 :: f1 :: f2 :: rest → False) : src.length < 3 := by
  rcases src with _ | ⟨f0, _ | ⟨f1, _ | ⟨f2, rest⟩⟩⟩
  · simp
  · simp
  · simp
  · exact absurd rfl (h f0 f1 f2 rest)

theorem readEntries_short {src : List UInt8} (h : src.length < 3) : readEntries src = [] := by
  rcases src with _ | ⟨f0, _ | ⟨f1, _ | ⟨f2, rest⟩⟩⟩
  · simp [readEntries]
  · simp [readEntries]
  · simp [readEntries]
  · simp only [List.length_cons] at h
    omega

theorem length_readEntries (src : List UInt8) :
    (readEntries src).length = src.length / 3 * 2 := by
  induction src using readEntries.induct with
  | case1 f0 f1 f2 src ih =>
    rw [readEntries_cons]
    simp only [List.length_cons, ih]
    omega
  | case2 src hshort =>
    have hlen := length_lt_three hshort
    rw [readEntries_short hlen, Nat.div_eq_of_lt hlen]
    rfl

/-- What `read` stores in entry `n` is the `n`-th value of the format. -/
theorem readEntries_getElem (src : List UInt8) (n : Nat) (hn : n < (readEntries src).length) :
    ((readEntries src)[n]).toNat = entryOf src n := by
  induction src using readEntries.induct generalizing n with
  | case1 f0 f1 f2 src ih =>
    have h0 := f0.toNat_lt
    have h1 := f1.toNat_lt
    have h2 := f2.toNat_lt
    simp only [readEntries_cons] at hn ⊢
    match n with
    | 0 =>
      show (UInt16.ofNat (f0.toNat + f1.toNat % 16 * 256)).toNat =
        (f0.toNat + f1.toNat * 256) % 4096
      rw [UInt16.toNat_ofNat_of_lt' (show _ < 65536 by omega)]
      omega
    | 1 =>
      show (UInt16.ofNat (f2.toNat * 16 + f1.toNat / 16)).toNat =
        (f1.toNat + f2.toNat * 256) / 16
      rw [UInt16.toNat_ofNat_of_lt' (show _ < 65536 by omega)]
      omega
    | n + 2 =>
      -- two entries further on is three bytes further on
      have hshift : entryOf (f0 :: f1 :: f2 :: src) (n + 2) = entryOf src n := by
        have hoff : n + 2 + (n + 2) / 2 = n + n / 2 + 3 := by omega
        have hmod : (n + 2) % 2 = n % 2 := by omega
        simp only [entryOf, hoff, hmod, List.getD_cons_succ]
      rw [hshift]
      simp only [List.length_cons] at hn
      exact ih n (by omega)
  | case2 src hshort =>
    simp [readEntries_short (length_lt_three hshort)] at hn

theorem writeEntries_readEntries (src : List UInt8) (h : src.length % 3 = 0) :
    writeEntries (readEntries src) = .ok src := by
  induction src using readEntries.induct with
  | case1 f0 f1 f2 src ih =>
    simp only [List.length_cons] at h
    obtain ⟨h0, h1, h2⟩ := encode_decode f0 f1 f2
    rw [readEntries_cons, writeEntries_cons (ih (by omega)), h0, h1, h2]
  | case2 src hshort =>
    have hlen := length_lt_three hshort
    have hnil : src = [] := List.eq_nil_of_length_eq_zero (by omega)
    rw [hnil]
    rfl

theorem readEntries_writeEntries (fat : List ClusterId) (heven : fat.length % 2 = 0)
    (hlt : ∀ c ∈ fat, c.toNat < 0x1000) :
    ∃ p, writeEntries fat = .ok p ∧ p.length = fat.length / 2 * 3 ∧ readEntries p = fat := by
  induction fat using writeEntries.induct with
  | case1 => exact ⟨[], rfl, rfl, rfl⟩
  | case2 u => exact absurd heven (by simp)
  | case3 u v fat ih =>
    simp only [List.length_cons] at heven
    obtain ⟨p, hp, hlen, hread⟩ := ih (by omega) fun c hc => hlt c (by simp [hc])
    obtain ⟨hu, hv⟩ := decode_encode (hlt u (by simp)) (hlt v (by simp))
    refine ⟨_, writeEntries_cons hp, ?_, ?_⟩
    · simp only [List.length_cons, hlen]
      omega
    · rw [readEntries_cons, hu, hv, hread]

theorem read_eq {src : List UInt8} (h : src.length % 3 = 0) : read src = .ok (readEntries src) := by
  rw [read, if_neg (by omega)]

/-- Writing a table that fills the buffer exactly. -/
theorem write_eq {fat : List ClusterId} {ptr p : List UInt8} (h : writeEntries fat = .ok p)
    (hsize : fat.length * 2 / 3 ≤ ptr.length) (hlen : p.length = ptr.length) :
    write fat ptr = .ok p := by
  rw [write, if_neg (by omega), h]
  show (if ptr.length < p.length then _ else Except.ok (p ++ ptr.drop p.length)) = _
  rw [if_neg (by omega), List.drop_eq_nil_of_le (by omega), List.append_nil]

/-- `FAT12FAT::read` and `FAT12FAT::write` undo each other, on whole groups of three bytes
    and of two 12-bit entries, and both follow the format. -/
theorem fat_roundTrip :
    (∀ src ptr : List UInt8, src.length % 3 = 0 → ptr.length = src.length →
      ∃ fat, read src = .ok fat ∧ write fat ptr = .ok src) ∧
    ∀ (fat : List ClusterId) (ptr : List UInt8), fat.length % 2 = 0 →
      (∀ c ∈ fat, c.toNat < 0x1000) → ptr.length = fat.length / 2 * 3 →
      ∃ src, write fat ptr = .ok src ∧ src.length = ptr.length ∧ read src = .ok fat ∧
        ∀ n (hn : n < fat.length), (fat[n]).toNat = entryOf src n := by
  constructor
  · intro src ptr hlen hptr
    have hsize := length_readEntries src
    exact ⟨readEntries src, read_eq hlen,
      write_eq (writeEntries_readEntries src hlen) (by omega) hptr.symm⟩
  · intro fat ptr heven hlt hptr
    obtain ⟨src, hwrite, hlen, hread⟩ := readEntries_writeEntries fat heven hlt
    refine ⟨src, write_eq hwrite (by omega) (by omega), by omega, ?_, ?_⟩
    · rw [read_eq (by omega), hread]
    · intro n hn
      have hentry := readEntries_getElem src n (by rw [hread]; exact hn)
      simp only [hread] at hentry
      exact hentry

/-- The first two entries of a floppy disk's table. -/
theorem fat_roundTrip_media :
    ∃ fat, read [0xF0, 0xFF, 0xFF] = .ok fat ∧ write fat [0, 0, 0] = .ok [0xF0, 0xFF, 0xFF] :=
  fat_roundTrip.1 [0xF0, 0xFF, 0xFF] [0, 0, 0] (by decide) (by decide)

/-! ## The space for the table -/

/-- `write` panics, or it writes the `3 * n / 2` bytes of the `n` entries, which the buffer has
    room for. -/
def RespectsSpace (fat : List ClusterId) (ptr : List UInt8) : Prop :=
  (∃ p, write fat ptr = .error (.panic p)) ∨
    ∃ p, p.length = 3 * fat.length / 2 ∧ p.length ≤ ptr.length ∧
      write fat ptr = .ok (p ++ ptr.drop p.length)

/-- Only tables of whole groups are read. -/
theorem of_read {src : List UInt8} {fat : List ClusterId} (h : read src = .ok fat) :
    src.length % 3 = 0 ∧ fat = readEntries src := by
  rw [read] at h
  split at h
  · cases h
  · cases h
    exact ⟨by omega, rfl⟩

/-- A table that was read goes back to its bytes, with the guard in front and whatever the
    buffer holds behind. -/
theorem write_of_read {src ptr : List UInt8} {fat : List ClusterId} (h : read src = .ok fat) :
    write fat ptr =
      if ptr.length < fat.length * 2 / 3 then
        .error (.panic (.notEnoughSpace ptr.length fat.length))
      else if ptr.length < src.length then
        .error .pastBuffer
      else
        .ok (src ++ ptr.drop src.length) := by
  obtain ⟨hlen, rfl⟩ := of_read h
  rw [write, writeEntries_readEntries src hlen]
  rfl

/-- The guard of `write` compares with two thirds of the number of entries, but three halves of
    it are written: a buffer between the two is overrun. -/
theorem write_respects_iff {src ptr : List UInt8} {fat : List ClusterId}
    (h : read src = .ok fat) :
    RespectsSpace fat ptr ↔
      ptr.length < fat.length * 2 / 3 ∨ 3 * fat.length / 2 ≤ ptr.length := by
  obtain ⟨hlen, hfat⟩ := of_read h
  -- the table takes as many bytes as it was read from
  have hbytes : 3 * fat.length / 2 = src.length := by
    rw [hfat, length_readEntries]
    omega
  rw [RespectsSpace, hbytes, write_of_read h]
  by_cases hguard : ptr.length < fat.length * 2 / 3
  · rw [if_pos hguard]
    exact ⟨fun _ => .inl hguard, fun _ => .inl ⟨_, rfl⟩⟩
  · rw [if_neg hguard]
    by_cases hshort : ptr.length < src.length
    · rw [if_pos hshort]
      constructor
      · rintro (⟨p, hp⟩ | ⟨p, -, -, hp⟩)
        · cases hp
        · cases hp
      · rintro (hlt | hle) <;> omega
    · rw [if_neg hshort]
      exact ⟨fun _ => .inr (by omega), fun _ => .inr ⟨src, rfl, by omega, rfl⟩⟩

/-- The two entries of one group need three bytes. -/
theorem write_respects_media : RespectsSpace [0xFF0, 0xFFF] [0, 0, 0] :=
  (write_respects_iff (show read [0xF0, 0xFF, 0xFF] = .ok [0xFF0, 0xFFF] by decide)).mpr
    (.inr (by decide))

/-- They are written to a buffer of one byte. -/
theorem write_overruns : ¬ ∀ (src ptr : List UInt8) (fat : List ClusterId),
    read src = .ok fat → RespectsSpace fat ptr := by
  intro h
  have hread : read [0xF0, 0xFF, 0xFF] = .ok [0xFF0, 0xFFF] := by decide
  rcases h _ [0] _ hread with ⟨p, hp⟩ | ⟨p, hlen, hle, -⟩
  · rw [write_of_read hread] at hp
    cases hp
  · simp only [List.length_cons, List.length_nil] at hlen hle
    omega

end TimbOS.Native.Fat12.FAT12FAT
