import TimbOS.ForStd.Transition
import TimbOS.Native.Keyboard

/-!
# The shift keys

The handler has one flag for two shift keys, which every release clears. It does not look at the
prefix of the codes that have one, so it takes the shifts that a keyboard makes up around some
keys for the shift keys.

## Key results

- `shift_press`, `shift_release`: what a code does to the flag
- `tracks_iff`: exactly in which runs the flag says whether a shift key is held
- `shift_lost`: a run in which it does not
-/

namespace TimbOS.Native.Keyboard

open ForStd

/-! ## Keys -/

/-- A key by its code, and whether the code comes after a prefix. -/
structure Key where
  extended : Bool
  code : Fin 128
  deriving DecidableEq, Repr

/-- The left shift key. -/
def leftShift : Key := ⟨false, 0x2A⟩

/-- The right shift key. -/
def rightShift : Key := ⟨false, 0x36⟩

/-- A byte from the keyboard: a prefix, a code of a key that is pressed or repeated while it is
    held, or a code of a key that is released. -/
inductive KeyEvent where
  /-- `0xE0`, or `0xE1` for the pause key. -/
  | pref (pause : Bool)
  | press (code : Fin 128)
  | release (code : Fin 128)
  deriving DecidableEq, Repr

/-- What the handler reads from the port. -/
def KeyEvent.byte : KeyEvent → UInt8
  | .pref pause => if pause then 0xE1 else 0xE0
  | .press code => .ofNat code
  | .release code => .ofNat code ||| 0x80

/-- The flags, the keys that are held, and whether the last byte was a prefix. -/
structure World where
  keyboard : Keyboard
  held : Finset Key
  extended : Bool

/-- The keys after a byte. -/
def KeyEvent.keys (w : World) : KeyEvent → Finset Key
  | .pref _ => w.held
  | .press code => insert ⟨w.extended, code⟩ w.held
  | .release code => w.held.erase ⟨w.extended, code⟩

/-- The code of a shift key, with or without a prefix. -/
def IsShiftCode (code : Fin 128) : Prop := code = 0x2A ∨ code = 0x36

instance (code : Fin 128) : Decidable (IsShiftCode code) := inferInstanceAs (Decidable (_ ∨ _))

/-- The handler called for each byte. A shift key that is released was held. Codes after a prefix
    are also made up by the keyboard, and so is the code 0x45 in the sequence of the pause key. -/
def machine : Machine World KeyEvent Reaction Empty where
  init := fun w => w.keyboard = start ∧ w.held = ∅ ∧ w.extended = false
  legal := fun w event =>
    match event with
    | .pref _ => w.extended = false
    | .press _ => True
    | .release code => w.extended = false → IsShiftCode code → ⟨false, code⟩ ∈ w.held
  step := fun w event =>
    let (reaction, keyboard) := keyboardHandler w.keyboard event.byte
    .ok (reaction, ⟨keyboard, event.keys w, event matches .pref _⟩)

/-- At least one shift key is held. -/
def ShiftHeld (held : Finset Key) : Prop := leftShift ∈ held ∨ rightShift ∈ held

/-- The flag says whether a shift key is held. -/
def Tracks (w : World) : Prop := w.keyboard.shift = true ↔ ShiftHeld w.held

instance (held : Finset Key) : Decidable (ShiftHeld held) := inferInstanceAs (Decidable (_ ∨ _))

instance (w : World) : Decidable (Tracks w) := inferInstanceAs (Decidable (_ ↔ _))

/-- A code that agrees with the keys: a shift code that is pressed after a prefix comes while a
    shift key is held, and one that is released, with or without a prefix, leaves none held. -/
def Harmless (w : World) : KeyEvent → Prop
  | .pref _ => True
  | .press code => IsShiftCode code → w.extended = true → ShiftHeld w.held
  | .release code => IsShiftCode code → ¬ ShiftHeld (w.held.erase ⟨w.extended, code⟩)

/-! ## The flag -/

section Flag

variable {w w' : World} {k : Keyboard} {code : Fin 128} {event : KeyEvent} {reaction : Reaction}

theorem handleLockFlags_shift (k : Keyboard) (scancode : UInt8) :
    (handleLockFlags k scancode).shift = k.shift := by
  simp only [handleLockFlags]
  split_ifs <;> rfl

theorem isShiftCode_iff (code : Fin 128) :
    (UInt8.ofNat code = 0x2a ∨ UInt8.ofNat code = 0x36) ↔ IsShiftCode code := by
  revert code
  decide

/-- The code of a key has seven bits. -/
theorem press_byte (code : Fin 128) : UInt8.ofNat code &&& 0x80 = 0 := by
  revert code
  decide

theorem release_byte (code : Fin 128) : (UInt8.ofNat code ||| 0x80) &&& 0x80 ≠ 0 ∧
    (UInt8.ofNat code ||| 0x80) &&& ~~~0x80 = UInt8.ofNat code := by
  revert code
  decide

theorem shift_press (k : Keyboard) (code : Fin 128) :
    (keyboardHandler k (KeyEvent.press code).byte).2.shift = true ↔
      IsShiftCode code ∨ k.shift = true := by
  rw [keyboardHandler, KeyEvent.byte, if_neg (not_not.mpr (press_byte code))]
  simp only [handleLockFlags_shift, isShiftCode_iff]
  by_cases hcode : IsShiftCode code
  · simp [hcode]
  · simp [hcode]

theorem shift_release (k : Keyboard) (code : Fin 128) :
    (keyboardHandler k (KeyEvent.release code).byte).2.shift = true ↔
      ¬ IsShiftCode code ∧ k.shift = true := by
  obtain ⟨hbit, hcode⟩ := release_byte code
  rw [keyboardHandler, KeyEvent.byte, if_pos hbit]
  simp only [hcode, isShiftCode_iff]
  by_cases hcode : IsShiftCode code
  · simp [hcode]
  · simp [hcode]

/-- A prefix looks like the release of a key that there is not. -/
theorem shift_pref (k : Keyboard) (pause : Bool) :
    (keyboardHandler k (KeyEvent.pref pause).byte).2 = k := by
  cases pause <;> rfl

/-! ## The keys -/

theorem shiftHeld_insert {key : Key} {held : Finset Key} :
    ShiftHeld (insert key held) ↔ (key = leftShift ∨ key = rightShift) ∨ ShiftHeld held := by
  simp only [ShiftHeld, Finset.mem_insert]
  tauto

theorem isShiftKey_iff {extended : Bool} :
    ((⟨extended, code⟩ : Key) = leftShift ∨ (⟨extended, code⟩ : Key) = rightShift) ↔
      extended = false ∧ IsShiftCode code := by
  simp only [leftShift, rightShift, Key.mk.injEq, IsShiftCode]
  tauto

/-- Releasing another key leaves the shift keys alone. -/
theorem shiftHeld_erase {extended : Bool} {held : Finset Key} (hcode : ¬ IsShiftCode code) :
    ShiftHeld (held.erase ⟨extended, code⟩) ↔ ShiftHeld held := by
  have hkey : ∀ key : Key, IsShiftCode key.code → key ≠ ⟨extended, code⟩ := by
    rintro key hshift rfl
    exact hcode hshift
  simp only [ShiftHeld, Finset.mem_erase, ne_eq]
  rw [and_iff_right (hkey leftShift (.inl rfl)), and_iff_right (hkey rightShift (.inr rfl))]

/-- A step keeps the flag right exactly if its code agrees with the keys. -/
theorem tracks_step_iff (h : Tracks w) (hs : machine.step w event = .ok (reaction, w')) :
    Tracks w' ↔ Harmless w event := by
  simp only [machine, Except.ok.injEq, Prod.mk.injEq] at hs
  obtain ⟨-, rfl⟩ := hs
  cases event with
  | pref pause =>
    rw [Tracks, shift_pref]
    exact iff_of_true h trivial
  | press code =>
    simp only [Tracks, shift_press, KeyEvent.keys, shiftHeld_insert, isShiftKey_iff, Harmless]
    rw [Tracks] at h
    rw [h]
    cases w.extended with
    | false => simp
    | true =>
      simp only [Bool.true_eq_false, false_and, false_or, or_iff_right_iff_imp, forall_const]
  | release code =>
    simp only [Tracks, shift_release, KeyEvent.keys, Harmless]
    rw [Tracks] at h
    rw [h]
    by_cases hcode : IsShiftCode code
    · simp only [hcode, not_true_eq_false, false_and, false_iff, forall_const]
    · simp only [hcode, not_false_eq_true, true_and, shiftHeld_erase hcode, false_implies]

end Flag

/-! ## Runs -/

/-- In every state of a run the flag says whether a shift key is held, exactly if every code of a
    shift key in the run agrees with the keys. -/
theorem tracks_iff {w w' : World} {t : List (KeyEvent × Reaction)} (hw : machine.init w)
    (h : machine.Run w t w') :
    (∀ t₁ t₂ w₁, t = t₁ ++ t₂ → machine.Run w t₁ w₁ → Tracks w₁) ↔
      ∀ t₁ t₂ w₁ event reaction, t = t₁ ++ (event, reaction) :: t₂ → machine.Run w t₁ w₁ →
        Harmless w₁ event := by
  have hstart : Tracks w := by
    obtain ⟨hkeyboard, hheld, -⟩ := hw
    rw [Tracks, hkeyboard, hheld]
    decide
  apply h.forall_prefix_iff hstart
  · intro w htracks
    exact htracks
  · intro w event reaction w' htracks _ hharmless hs
    exact (tracks_step_iff htracks hs).mpr hharmless
  · intro w event reaction w' htracks _ hharm hs
    exact fun htracks' => hharm ((tracks_step_iff htracks hs).mp htracks')

/-- No key is held. -/
def idle : World := ⟨start, ∅, false⟩

theorem idle_init : machine.init idle := ⟨rfl, rfl, rfl⟩

/-- The state after an event. -/
def World.next (w : World) (event : KeyEvent) : World :=
  ⟨(keyboardHandler w.keyboard event.byte).2, event.keys w, event matches .pref _⟩

/-- Left shift and the key Y. -/
theorem run_capital : ∃ t w', machine.Run idle t w' := by
  have hshift : machine.legal idle (.press 0x2A) := trivial
  have hkey : machine.legal (idle.next (.press 0x2A)) (.press 0x2C) := trivial
  exact ⟨_, _, (Machine.Run.nil.snoc hshift rfl).snoc hkey rfl⟩

theorem tracks_iff_capital : ∃ t w', machine.Run idle t w' ∧
    ((∀ t₁ t₂ w₁, t = t₁ ++ t₂ → machine.Run idle t₁ w₁ → Tracks w₁) ↔
      ∀ t₁ t₂ w₁ event reaction, t = t₁ ++ (event, reaction) :: t₂ → machine.Run idle t₁ w₁ →
        Harmless w₁ event) := by
  obtain ⟨t, w', hrun⟩ := run_capital
  exact ⟨t, w', hrun, tracks_iff idle_init hrun⟩

/-- Both shift keys are pressed, and the right one is released. -/
theorem shift_lost : ¬ ∀ (w w' : World) (t : List (KeyEvent × Reaction)), machine.init w →
    machine.Run w t w' → Tracks w' := by
  intro h
  have hleft : machine.legal idle (.press 0x2A) := trivial
  have hright : machine.legal (idle.next (.press 0x2A)) (.press 0x36) := trivial
  have hrelease : machine.legal ((idle.next (.press 0x2A)).next (.press 0x36)) (.release 0x36) := by
    intro _ _
    decide
  have hrun : machine.Run idle _ (((idle.next (.press 0x2A)).next (.press 0x36)).next
      (.release 0x36)) := ((Machine.Run.nil.snoc hleft rfl).snoc hright rfl).snoc hrelease rfl
  have htracks := h idle _ _ idle_init hrun
  exact absurd htracks (by decide)

end TimbOS.Native.Keyboard
