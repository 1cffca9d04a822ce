import Ece391Os.Keyboard.Input
import Ece391Os.Transition.Transducer
import Mathlib.Data.List.Induction

/-!
# Modifier keys

The key codes that `keyboard_interrupt_handler` passes on, against a decoder that knows
which keys are held.  The two Shift keys share one flag, so the release of one ends the
Shift of the other.
-/

namespace Ece391Os

open Transition

/-! ## Key codes -/

/-- The modifiers in force. -/
@[ext]
structure Modifiers where
  ctrl : Bool
  shift : Bool
  alt : Bool
  caps : Bool
  deriving DecidableEq

namespace Modifiers

/-- The plain and the shifted code of a key; outside the table it has none. -/
def columns (scancode : UInt8) : UInt8 × UInt8 :=
  scan2ascii.getD scancode.toNat (0, 0)

/-- A lower-case letter. -/
def IsLetter (code : UInt8) : Prop :=
  0x61 ≤ code ∧ code ≤ 0x7A

instance (code : UInt8) : Decidable (IsLetter code) :=
  inferInstanceAs (Decidable (_ ∧ _))

/-- The code of a key without Ctrl and Alt: a letter is upper case if exactly one of Shift
and Caps Lock is in force, any other key is shifted if Shift is. -/
def plainCode (m : Modifiers) (scancode : UInt8) : UInt8 :=
  let codes := columns scancode
  if IsLetter codes.1 then
    if m.shift != m.caps then codes.1 - 0x20 else codes.1
  else if m.shift then
    codes.2
  else
    codes.1

/-- The code that a key is to give: with Alt only Backspace has one, with Ctrl only
Backspace, Enter and L. -/
def keycode (m : Modifiers) (scancode : UInt8) : Option UInt8 :=
  if m.alt then
    if scancode = 0x0E then some 0x08 else none
  else if m.ctrl then
    if scancode = 0x0E then some 0x08
    else if scancode = 0x1C then some 0x0D
    else if scancode = 0x26 then some 0x0C
    else none
  else if m.plainCode scancode = 0 then
    none
  else
    some (m.plainCode scancode)

/-- What holds of every row of the table, and where there is none, holds of the codes of
every key. -/
theorem columns_of_table {P : UInt8 × UInt8 → Prop} [DecidablePred P]
    (table : ((0, 0) :: scan2ascii).all (fun codes => decide (P codes)) = true)
    (scancode : UInt8) : P (columns scancode) := by
  have member : columns scancode ∈ (0, 0) :: scan2ascii := by
    unfold columns
    rw [List.getD_eq_getElem?_getD]
    cases row : scan2ascii[scancode.toNat]? with
    | none => exact List.mem_cons_self
    | some codes => exact List.mem_cons_of_mem _ (List.mem_of_getElem? row)
  exact of_decide_eq_true (List.all_eq_true.mp table _ member)

/-- The two codes of a key are a letter in lower and upper case, or no letters. -/
theorem columns_cases (scancode : UInt8) :
    (IsLetter (columns scancode).1 ∧ ¬ IsLetter (columns scancode).2 ∧
        (0x41 ≤ (columns scancode).2 ∧ (columns scancode).2 ≤ 0x5A) ∧
        (columns scancode).2 + 0x20 = (columns scancode).1 ∧
        (columns scancode).1 - 0x20 = (columns scancode).2) ∨
      (¬ IsLetter (columns scancode).1 ∧ ¬ IsLetter (columns scancode).2 ∧
        ¬ (0x41 ≤ (columns scancode).1 ∧ (columns scancode).1 ≤ 0x5A) ∧
        ¬ (0x41 ≤ (columns scancode).2 ∧ (columns scancode).2 ≤ 0x5A)) :=
  columns_of_table
    (P := fun codes =>
      (IsLetter codes.1 ∧ ¬ IsLetter codes.2 ∧ (0x41 ≤ codes.2 ∧ codes.2 ≤ 0x5A) ∧
          codes.2 + 0x20 = codes.1 ∧ codes.1 - 0x20 = codes.2) ∨
        (¬ IsLetter codes.1 ∧ ¬ IsLetter codes.2 ∧ ¬ (0x41 ≤ codes.1 ∧ codes.1 ≤ 0x5A) ∧
          ¬ (0x41 ≤ codes.2 ∧ codes.2 ≤ 0x5A)))
    (by decide) scancode

end Modifiers

/-- The key code that is passed to `handle_key_press`. -/
def KeyAction.keycode : KeyAction → Option UInt8
  | .press keycode => some keycode
  | .nothing | .switchTerminal _ => none

namespace Keyboard

/-- The flags of the handler. -/
def modifiers (kb : Keyboard) : Modifiers where
  ctrl := kb.ctrlStat
  shift := kb.shiftStat
  alt := kb.altStat
  caps := kb.capsStat

theorem regularKeycode_eq (kb : Keyboard) (scancode : UInt8) :
    kb.regularKeycode scancode = kb.modifiers.plainCode scancode := by
  have row : scan2ascii.getD scancode.toNat (0, 0) = Modifiers.columns scancode := rfl
  rcases kb with ⟨_, _, _, _, shift, _, caps⟩
  unfold regularKeycode Modifiers.plainCode
  simp only [row, modifiers]
  rcases Modifiers.columns_cases scancode with
    ⟨letter, notLetter, upper, lowered, raised⟩ | ⟨plain, shifted, plainUpper, shiftedUpper⟩
  · rw [if_pos letter]
    cases shift <;> cases caps
    · rfl
    · exact if_pos letter
    · exact raised.symm
    · exact ((if_neg notLetter).trans (if_pos upper)).trans lowered
  · rw [if_neg plain]
    cases shift <;> cases caps
    · rfl
    · exact (if_neg plain).trans (if_neg plainUpper)
    · rfl
    · exact (if_neg shifted).trans (if_neg shiftedUpper)

/-- The handler as a transducer: the codes that it passes to `handle_key_press`. -/
def decoder : Transducer Keyboard UInt8 UInt8 where
  next kb scancode := (kb.decode scancode).1
  emit kb scancode := (kb.decode scancode).2.keycode

/-- The scancodes of the modifier keys, pressed and released. -/
def IsModifier (scancode : UInt8) : Prop :=
  scancode = 0x1D ∨ scancode = 0x9D ∨ (scancode = 0x2A ∨ scancode = 0x36) ∨
    (scancode = 0xAA ∨ scancode = 0xB6) ∨ scancode = 0x38 ∨ scancode = 0xB8 ∨
    scancode = 0x3A ∨ scancode = 0xBA

/-- A modifier key gives no code. -/
theorem keycode_modifier (m : Modifiers) {scancode : UInt8} (modifier : IsModifier scancode) :
    m.keycode scancode = none := by
  have always : ∀ ctrl shift alt caps : Bool, ∀ code ∈
      ([0x1D, 0x9D, 0x2A, 0x36, 0xAA, 0xB6, 0x38, 0xB8, 0x3A, 0xBA] : List UInt8),
      Modifiers.keycode ⟨ctrl, shift, alt, caps⟩ code = none := by
    decide +kernel
  apply always
  simp only [List.mem_cons, List.not_mem_nil, or_false]
  simpa only [IsModifier, or_assoc] using modifier

/-- The code of Backspace and Enter is the same with every modifier. -/
theorem plainCode_control (m : Modifiers) :
    m.plainCode 0x0E = 0x08 ∧ m.plainCode 0x1C = 0x0D := by
  rcases m with ⟨_, shift, _, caps⟩
  cases shift <;> cases caps <;> exact ⟨rfl, rfl⟩

/-- A key outside the table has no code. -/
theorem keycode_outside (m : Modifiers) {scancode : UInt8} (outside : ¬ scancode < 58) :
    m.keycode scancode = none := by
  have beyond : scan2ascii.length ≤ scancode.toNat :=
    Nat.le_of_not_lt fun inside => outside (UInt8.lt_iff_toNat_lt.mpr inside)
  have none : Modifiers.columns scancode = (0, 0) := by
    unfold Modifiers.columns
    rw [List.getD_eq_getElem?_getD, List.getElem?_eq_none beyond]
    rfl
  have noCode : m.plainCode scancode = 0 := by
    unfold Modifiers.plainCode
    rw [none]
    cases m.shift <;> rfl
  have differs : ∀ code < 58, scancode ≠ code := by
    rintro code inside rfl
    exact outside inside
  unfold Modifiers.keycode
  rw [if_pos noCode, if_neg (differs 0x0E (by decide)), if_neg (differs 0x0E (by decide)),
    if_neg (differs 0x1C (by decide)), if_neg (differs 0x26 (by decide))]
  cases m.alt <;> cases m.ctrl <;> rfl

/-- The `default` case of the handler passes the code that the flags say. -/
theorem keycode_keycodeAction (kb : Keyboard) (scancode : UInt8) :
    (kb.keycodeAction scancode).keycode = kb.modifiers.keycode scancode := by
  by_cases alt : kb.altStat = true
  · have expected : kb.modifiers.keycode scancode = if scancode = 0x0E then some 0x08 else none :=
      if_pos alt
    rw [expected]
    unfold keycodeAction
    rw [if_pos alt]
    split
    · rfl
    · split <;> rfl
  by_cases inside : scancode < 58
  · unfold keycodeAction
    rw [if_neg alt, if_pos inside, kb.regularKeycode_eq]
    by_cases ctrl : kb.ctrlStat = true
    · have expected : kb.modifiers.keycode scancode =
          if scancode = 0x0E then some 0x08
          else if scancode = 0x1C then some 0x0D
          else if scancode = 0x26 then some 0x0C
          else none :=
        (if_neg alt).trans (if_pos ctrl)
      rw [expected]
      by_cases backspace : scancode = 0x0E
      · subst backspace
        simp [(plainCode_control _).1, KeyAction.keycode]
      by_cases enter : scancode = 0x1C
      · subst enter
        simp [(plainCode_control _).2, KeyAction.keycode]
      rw [if_neg backspace, if_neg enter]
      by_cases letterL : scancode = 0x26
      · rw [if_pos ⟨ctrl, letterL⟩, if_pos letterL]
        rfl
      · rw [if_neg fun both => letterL both.2, if_pos ⟨ctrl, backspace, enter⟩, if_neg letterL]
        rfl
    · have expected : kb.modifiers.keycode scancode =
          if kb.modifiers.plainCode scancode = 0 then none
          else some (kb.modifiers.plainCode scancode) :=
        (if_neg alt).trans (if_neg ctrl)
      rw [expected, if_neg fun both => ctrl both.1, if_neg fun both => ctrl both.1]
      dsimp only
      split <;> rfl
  · rw [keycode_outside _ inside]
    unfold keycodeAction
    rw [if_neg alt, if_neg inside]
    rfl

/-- A key that is no modifier leaves the flags as they are. -/
theorem decode_ordinary (kb : Keyboard) {scancode : UInt8} (ordinary : ¬ IsModifier scancode) :
    kb.decode scancode = (kb, kb.keycodeAction scancode) := by
  unfold IsModifier at ordinary
  push Not at ordinary
  rcases ordinary with ⟨ctrl, noCtrl, ⟨left, right⟩, ⟨noLeft, noRight⟩, alt, noAlt, caps, noCaps⟩
  simp [decode, ctrl, noCtrl, left, right, noLeft, noRight, alt, noAlt, caps, noCaps]

/-- The handler passes the code that its flags say. -/
theorem emit_decoder (kb : Keyboard) (scancode : UInt8) :
    decoder.emit kb scancode = kb.modifiers.keycode scancode := by
  change (kb.decode scancode).2.keycode = _
  by_cases modifier : IsModifier scancode
  · rw [keycode_modifier _ modifier]
    rcases modifier with rfl | rfl | (rfl | rfl) | (rfl | rfl) | rfl | rfl | rfl | rfl <;> rfl
  · rw [kb.decode_ordinary modifier]
    exact kb.keycode_keycodeAction scancode

end Keyboard

/-! ## Held keys -/

/-- The modifier keys that have been pressed and not yet released, and Caps Lock. -/
structure HeldKeys where
  ctrl : Bool
  alt : Bool
  leftShift : Bool
  rightShift : Bool
  capsLock : Bool
  deriving DecidableEq

namespace HeldKeys

/-- No key is held. -/
def noKey : HeldKeys where
  ctrl := false
  alt := false
  leftShift := false
  rightShift := false
  capsLock := false

/-- Shift is in force while one of its two keys is held. -/
def shift (held : HeldKeys) : Bool :=
  held.leftShift || held.rightShift

/-- The modifiers in force. -/
def modifiers (held : HeldKeys) : Modifiers where
  ctrl := held.ctrl
  shift := held.shift
  alt := held.alt
  caps := held.capsLock

/-- A modifier key is pressed or released. -/
def scan (held : HeldKeys) (scancode : UInt8) : HeldKeys :=
  if scancode = 0x1D then { held with ctrl := true }
  else if scancode = 0x9D then { held with ctrl := false }
  else if scancode = 0x2A then { held with leftShift := true }
  else if scancode = 0xAA then { held with leftShift := false }
  else if scancode = 0x36 then { held with rightShift := true }
  else if scancode = 0xB6 then { held with rightShift := false }
  else if scancode = 0x38 then { held with alt := true }
  else if scancode = 0xB8 then { held with alt := false }
  else if scancode = 0x3A then { held with capsLock := !held.capsLock }
  else held

/-- The decoder that knows the held keys. -/
def decoder : Transducer HeldKeys UInt8 UInt8 where
  next := scan
  emit held scancode := held.modifiers.keycode scancode

/-- The keys held after a sequence of scancodes. -/
def after (scancodes : List UInt8) : HeldKeys :=
  decoder.after noKey scancodes

theorem scan_ordinary (held : HeldKeys) {scancode : UInt8}
    (ordinary : ¬ Keyboard.IsModifier scancode) : held.scan scancode = held := by
  unfold Keyboard.IsModifier at ordinary
  push Not at ordinary
  rcases ordinary with ⟨ctrl, noCtrl, ⟨left, right⟩, ⟨noLeft, noRight⟩, alt, noAlt, caps, noCaps⟩
  simp [scan, ctrl, noCtrl, left, right, noLeft, noRight, alt, noAlt, caps]

/-- The scancodes of the Shift keys. -/
def IsShift (scancode : UInt8) : Prop :=
  scancode = 0x2A ∨ scancode = 0x36 ∨ scancode = 0xAA ∨ scancode = 0xB6

instance (scancode : UInt8) : Decidable (IsShift scancode) :=
  inferInstanceAs (Decidable (_ ∨ _))

/-- The last scancode of a Shift key. -/
def lastShift (scancodes : List UInt8) : Option UInt8 :=
  (scancodes.filter fun scancode => IsShift scancode).getLast?

/-- A Shift key is held, and the last thing that happened to Shift is the release of the
other one. -/
def ShiftLost (scancodes : List UInt8) : Prop :=
  (after scancodes).shift = true ∧
    (lastShift scancodes = some 0xAA ∨ lastShift scancodes = some 0xB6)

/-- The code of a key depends on Shift. -/
def ShiftMatters (held : HeldKeys) (scancode : UInt8) : Prop :=
  held.ctrl = false ∧ held.alt = false ∧
    (Modifiers.columns scancode).1 ≠ (Modifiers.columns scancode).2

/-- No key whose code depends on Shift is pressed while a Shift is lost. -/
def KeepsShift (scancodes : List UInt8) : Prop :=
  ∀ before scancode rest, scancodes = before ++ scancode :: rest →
    (after before).ShiftMatters scancode → ¬ ShiftLost before

theorem after_concat (scancodes : List UInt8) (scancode : UInt8) :
    after (scancodes ++ [scancode]) = (after scancodes).scan scancode :=
  decoder.after_concat noKey scancodes scancode

theorem lastShift_concat (scancodes : List UInt8) (scancode : UInt8) :
    lastShift (scancodes ++ [scancode]) =
      if IsShift scancode then some scancode else lastShift scancodes := by
  unfold lastShift
  rw [List.filter_append]
  by_cases isShift : IsShift scancode
  · rw [if_pos isShift, List.filter_cons_of_pos (by simpa using isShift)]
    exact List.getLast?_concat
  · rw [if_neg isShift, List.filter_cons_of_neg (by simpa using isShift), List.filter_nil,
      List.append_nil]

theorem isShift_lastShift {scancodes : List UInt8} {scancode : UInt8}
    (last : lastShift scancodes = some scancode) : IsShift scancode := by
  have mem := List.mem_of_getLast? last
  exact of_decide_eq_true (List.mem_filter.mp mem).2

end HeldKeys

/-! ## The shared flag -/

/-- What the flags of the handler say about the scancodes so far: the flag of Shift follows
the last scancode of a Shift key only. -/
structure FlagsFollow (scancodes : List UInt8) (kb : Keyboard) : Prop where
  ctrl : kb.ctrlStat = (HeldKeys.after scancodes).ctrl
  alt : kb.altStat = (HeldKeys.after scancodes).alt
  caps : kb.capsStat = (HeldKeys.after scancodes).capsLock
  shift : kb.shiftStat = (HeldKeys.lastShift scancodes).any (· < 0x80)
  held : kb.shiftStat = true → (HeldKeys.after scancodes).shift = true
  scanned : (HeldKeys.after scancodes).shift = true →
    (HeldKeys.lastShift scancodes).isSome = true

namespace FlagsFollow

variable {scancodes : List UInt8} {kb : Keyboard}

theorem nil (released : kb.modifiers = HeldKeys.noKey.modifiers) : FlagsFollow [] kb where
  ctrl := congrArg Modifiers.ctrl released
  alt := congrArg Modifiers.alt released
  caps := congrArg Modifiers.caps released
  shift := congrArg Modifiers.shift released
  held := fun shift => absurd ((congrArg Modifiers.shift released).symm.trans shift) (by decide)
  scanned := fun shift => absurd shift (by decide)

/-- A scancode that is not of a Shift key leaves Shift as it is. -/
theorem shift_kept (kb : Keyboard) (held : HeldKeys) {scancode : UInt8}
    (notShift : ¬ HeldKeys.IsShift scancode) :
    (kb.decode scancode).1.shiftStat = kb.shiftStat ∧
      (held.scan scancode).shift = held.shift := by
  by_cases modifier : Keyboard.IsModifier scancode
  · rcases modifier with rfl | rfl | (rfl | rfl) | (rfl | rfl) | rfl | rfl | rfl | rfl
    all_goals
      first
      | exact ⟨rfl, rfl⟩
      | exact absurd (by decide) notShift
  · rw [kb.decode_ordinary modifier, held.scan_ordinary modifier]
    exact ⟨rfl, rfl⟩

/-- The flags of Ctrl, Alt and Caps Lock change as the keys do. -/
theorem others_follow (follow : FlagsFollow scancodes kb) (scancode : UInt8) :
    (kb.decode scancode).1.ctrlStat = ((HeldKeys.after scancodes).scan scancode).ctrl ∧
      (kb.decode scancode).1.altStat = ((HeldKeys.after scancodes).scan scancode).alt ∧
      (kb.decode scancode).1.capsStat = ((HeldKeys.after scancodes).scan scancode).capsLock := by
  by_cases modifier : Keyboard.IsModifier scancode
  · rcases modifier with rfl | rfl | (rfl | rfl) | (rfl | rfl) | rfl | rfl | rfl | rfl
    all_goals
      simp [Keyboard.decode, HeldKeys.scan, follow.ctrl, follow.alt, follow.caps]
  · rw [kb.decode_ordinary modifier, HeldKeys.scan_ordinary _ modifier]
    exact ⟨follow.ctrl, follow.alt, follow.caps⟩

/-- Every scancode keeps the flags in step with the scancodes. -/
theorem concat (follow : FlagsFollow scancodes kb) (scancode : UInt8) :
    FlagsFollow (scancodes ++ [scancode]) (kb.decode scancode).1 := by
  rcases follow.others_follow scancode with ⟨ctrl, alt, caps⟩
  rw [← HeldKeys.after_concat] at ctrl alt caps
  apply mk ctrl alt caps
  case shift =>
    rw [HeldKeys.lastShift_concat]
    by_cases isShift : HeldKeys.IsShift scancode
    · rw [if_pos isShift]
      rcases isShift with rfl | rfl | rfl | rfl <;> rfl
    · rw [if_neg isShift, (shift_kept kb HeldKeys.noKey isShift).1, follow.shift]
  case held =>
    rw [HeldKeys.after_concat]
    by_cases isShift : HeldKeys.IsShift scancode
    · rcases isShift with rfl | rfl | rfl | rfl
      all_goals simp [Keyboard.decode, HeldKeys.scan, HeldKeys.shift]
    · rw [(shift_kept kb (HeldKeys.after scancodes) isShift).1,
        (shift_kept kb (HeldKeys.after scancodes) isShift).2]
      exact follow.held
  case scanned =>
    rw [HeldKeys.after_concat, HeldKeys.lastShift_concat]
    by_cases isShift : HeldKeys.IsShift scancode
    · rw [if_pos isShift]
      exact fun _ => rfl
    · rw [if_neg isShift, (shift_kept kb _ isShift).2]
      exact follow.scanned

/-- The flags after a sequence of scancodes, from released keys on. -/
theorem after (released : kb.modifiers = HeldKeys.noKey.modifiers) (scancodes : List UInt8) :
    FlagsFollow scancodes (Keyboard.decoder.after kb scancodes) := by
  induction scancodes using List.reverseRecOn with
  | nil => exact nil released
  | append_singleton before scancode ih =>
      rw [Keyboard.decoder.after_concat]
      exact ih.concat scancode

/-- The flag of Shift differs from the held keys exactly while a Shift is lost. -/
theorem shift_iff (follow : FlagsFollow scancodes kb) :
    kb.shiftStat = (HeldKeys.after scancodes).shift ↔ ¬ HeldKeys.ShiftLost scancodes := by
  unfold HeldKeys.ShiftLost
  cases held : (HeldKeys.after scancodes).shift with
  | false =>
      have flag : kb.shiftStat ≠ true := by
        intro flag
        exact absurd (held.symm.trans (follow.held flag)) (by decide)
      simp [Bool.eq_false_iff.mpr flag]
  | true =>
      rcases Option.isSome_iff_exists.mp (follow.scanned held) with ⟨last, isLast⟩
      rw [follow.shift, isLast]
      rcases HeldKeys.isShift_lastShift isLast with rfl | rfl | rfl | rfl <;> decide

/-- The flags are those of the held keys, except for Shift. -/
theorem modifiers_eq (follow : FlagsFollow scancodes kb) :
    kb.modifiers = { (HeldKeys.after scancodes).modifiers with shift := kb.shiftStat } := by
  ext1
  case ctrl => exact follow.ctrl
  case shift => rfl
  case alt => exact follow.alt
  case caps => exact follow.caps

end FlagsFollow

namespace Modifiers

/-- The second column is taken if Shift is in force, with Caps Lock for a letter if it is
not. -/
theorem plainCode_eq (m : Modifiers) (scancode : UInt8) :
    m.plainCode scancode =
      if m.shift != (decide (IsLetter (columns scancode).1) && m.caps) then
        (columns scancode).2
      else
        (columns scancode).1 := by
  unfold plainCode
  rcases columns_cases scancode with ⟨letter, _, _, _, raised⟩ | ⟨plain, _⟩
  · rw [if_pos letter, raised]
    simp [letter]
  · rw [if_neg plain]
    simp [plain]

/-- Both columns of the table have a code or none has. -/
theorem columns_zero_iff (scancode : UInt8) :
    (columns scancode).1 = 0 ↔ (columns scancode).2 = 0 :=
  columns_of_table (P := fun codes => codes.1 = 0 ↔ codes.2 = 0) (by decide) scancode

theorem plainCode_zero_iff (m : Modifiers) (scancode : UInt8) :
    m.plainCode scancode = 0 ↔ (columns scancode).1 = 0 := by
  rw [plainCode_eq]
  split
  · exact (columns_zero_iff scancode).symm
  · rfl

/-- Whether a key gives a code does not depend on Shift. -/
theorem isSome_keycode (m : Modifiers) (shift : Bool) (scancode : UInt8) :
    (({ m with shift := shift } : Modifiers).keycode scancode).isSome =
      (m.keycode scancode).isSome := by
  unfold keycode
  simp only [plainCode_zero_iff]
  split
  · rfl
  split
  · rfl
  split <;> rfl

/-- Without Ctrl and Alt a key of the table gives its code. -/
theorem keycode_plain (shift caps : Bool) (scancode : UInt8) :
    keycode ⟨false, shift, false, caps⟩ scancode =
      if (columns scancode).1 = 0 then none
      else some (plainCode ⟨false, shift, false, caps⟩ scancode) := by
  simp only [← plainCode_zero_iff ⟨false, shift, false, caps⟩]
  rfl

/-- The other Shift gives the other column. -/
theorem keycode_other_shift (shift caps : Bool) (scancode : UInt8) :
    keycode ⟨false, shift, false, caps⟩ scancode =
        keycode ⟨false, !shift, false, caps⟩ scancode ↔
      (columns scancode).1 = (columns scancode).2 := by
  rw [keycode_plain, keycode_plain]
  by_cases zero : (columns scancode).1 = 0
  · rw [if_pos zero, if_pos zero, (columns_zero_iff scancode).mp zero, zero]
    exact iff_of_true rfl rfl
  · rw [if_neg zero, if_neg zero, Option.some.injEq, plainCode_eq, plainCode_eq]
    dsimp only
    generalize (decide (IsLetter (columns scancode).1) && caps) = raised
    cases shift <;> cases raised
    · exact Iff.rfl
    · exact eq_comm
    · exact eq_comm
    · exact Iff.rfl

/-- The code of a key depends on Shift exactly if the key has two codes and neither Ctrl nor
Alt is in force. -/
theorem keycode_shift_iff (m : Modifiers) (shift : Bool) (scancode : UInt8) :
    ({ m with shift := shift } : Modifiers).keycode scancode = m.keycode scancode ↔
      (m.ctrl = false ∧ m.alt = false ∧ (columns scancode).1 ≠ (columns scancode).2 →
        shift = m.shift) := by
  rcases m with ⟨ctrl, held, alt, caps⟩
  by_cases same : shift = held
  · subst same
    exact iff_of_true rfl fun _ => rfl
  cases alt with
  | true => exact iff_of_true rfl fun none => absurd none.2.1 Bool.true_eq_false.mp
  | false =>
      cases ctrl with
      | true => exact iff_of_true rfl fun none => absurd none.1 Bool.true_eq_false.mp
      | false =>
          have other : held = !shift := by
            revert same
            cases shift <;> cases held <;> decide
          rw [other]
          apply (keycode_other_shift shift caps scancode).trans
          simp

end Modifiers

/-! ## Decoded sequences -/

namespace Keyboard

variable {kb : Keyboard}

/-- The handler gives a code exactly when the held keys give one. -/
theorem isSome_emit_decoder (released : kb.modifiers = HeldKeys.noKey.modifiers)
    (before : List UInt8) (scancode : UInt8) :
    (decoder.emit (decoder.after kb before) scancode).isSome =
      (HeldKeys.decoder.emit (HeldKeys.after before) scancode).isSome := by
  rw [emit_decoder, (FlagsFollow.after released before).modifiers_eq]
  exact Modifiers.isSome_keycode _ _ _

/-- The code of a key is that of the held keys, unless it depends on a lost Shift. -/
theorem emit_decoder_eq_iff (released : kb.modifiers = HeldKeys.noKey.modifiers)
    (before : List UInt8) (scancode : UInt8) :
    decoder.emit (decoder.after kb before) scancode =
        HeldKeys.decoder.emit (HeldKeys.after before) scancode ↔
      ((HeldKeys.after before).ShiftMatters scancode → ¬ HeldKeys.ShiftLost before) := by
  have follow := FlagsFollow.after released before
  rw [emit_decoder, follow.modifiers_eq, ← follow.shift_iff]
  exact Modifiers.keycode_shift_iff _ _ _

/-- The handler decodes a sequence of scancodes as the held keys do if and only if no key
whose code depends on Shift is pressed while a Shift is lost. -/
theorem outputs_decoder_iff (released : kb.modifiers = HeldKeys.noKey.modifiers)
    (scancodes : List UInt8) :
    decoder.outputs kb scancodes = HeldKeys.decoder.outputs HeldKeys.noKey scancodes ↔
      HeldKeys.KeepsShift scancodes := by
  rw [Transducer.outputs_eq_iff (isSome_emit_decoder released)]
  constructor
  · intro agree before scancode rest split
    exact (emit_decoder_eq_iff released before scancode).mp (agree before scancode rest split)
  · intro keeps before scancode rest split
    exact (emit_decoder_eq_iff released before scancode).mpr (keeps before scancode rest split)

/-! ## Every run -/

/-- The modifiers alone. -/
def flags (kb : Keyboard) : Keyboard :=
  { kb with keyBufferIdx := 0, keyBuffer := 0, keyboardEnabled := true }

theorem flags_decode (kb : Keyboard) (scancode : UInt8) :
    (kb.decode scancode).1.flags = (kb.flags.decode scancode).1 := by
  simp only [decode, apply_ite Prod.fst, apply_ite flags]
  rfl

end Keyboard

/-- The scancode of a keyboard interrupt. -/
def Event.scancode : Event → Option UInt8
  | .keyboard scancode => some scancode
  | _ => none

namespace Kernel

/-- The key code that a step passes to `handle_key_press`. -/
def passedCode (k : Kernel) (event : Event) : Option UInt8 :=
  event.scancode.bind fun scancode => (k.keyboard.decode scancode).2.keycode

/-- The modifiers of the keyboard handler. -/
def keyFlags (k : Kernel) : Keyboard :=
  k.keyboard.flags

theorem keyFlags_untouched : UntouchedByProcesses keyFlags where
  console := fun _ _ => rfl
  screen := fun _ _ _ _ => rfl
  fds := fun _ _ _ => rfl
  rtcInterruptOccurred := fun _ _ => rfl
  cmos := fun _ _ => rfl
  memory := fun _ _ => rfl
  cpu := fun _ _ => rfl
  owner := fun _ _ _ _ => rfl
  pcb := fun _ _ => rfl
  pidArray := fun _ _ => rfl
  procLog := fun _ _ => rfl
  paging := fun _ _ => rfl
  tssEsp0 := fun _ _ => rfl
  curActiveTerminal := fun _ _ => rfl
  nextSchedTerminal := fun _ _ => rfl

theorem keyFlags_untouchedByDirectories : Untouched keyFlags where
  toUntouchedByCalls := keyFlags_untouched.toUntouchedByCalls
  directoryLoc := fun _ _ => rfl

theorem keyFlags_storeKey {k k' : Kernel} {index byte : UInt8}
    (stored : k.storeKey index byte = some k') : k'.keyFlags = k.keyFlags := by
  unfold storeKey at stored
  split at stored
  · cases stored
    rfl
  dsimp only at stored
  split at stored
  · cases stored
    rfl
  split at stored
  · cases stored
    rfl
  · cases stored

theorem keyFlags_handleKeyPress {k k' : Kernel} {keycode : UInt8}
    (handled : k.handleKeyPress keycode = some k') : k'.keyFlags = k.keyFlags := by
  cases handleKeyPress_cases handled with
  | silent console => rfl
  | erased console stored _ store =>
      have kept := keyFlags_storeKey store
      exact kept
  | entered p stored _ _ store =>
      have kept := keyFlags_storeKey store
      exact kept
  | typed stored _ store =>
      have kept := keyFlags_storeKey store
      exact kept

theorem keyFlags_switchTerminal {k k' : Kernel} {termNum : Nat}
    (switches : k.switchTerminal termNum = some k') : k'.keyFlags = k.keyFlags := by
  cases switchTerminal_cases switches with
  | kept => rfl
  | displayed => split <;> rfl
  | awaits => rfl

theorem keyFlags_terminalReadStep {k k' : Kernel} {buf : Nat} {numBytes : Int} {point : ReadPoint}
    (stepped : k.terminalReadStep buf numBytes point = some k') : k'.keyFlags = k.keyFlags := by
  cases point with
  | spin =>
      rcases Option.bind_eq_some_iff.mp stepped with ⟨p, _, done⟩
      cases done
      rfl
  | take =>
      rcases Option.bind_eq_some_iff.mp stepped with ⟨p, _, done⟩
      cases done
      rfl
  | copy i =>
      simp only [terminalReadStep] at stepped
      split at stepped
      · cases stepped
        exact keyFlags_untouched.storeUser buf _
      · cases stepped
        rfl
  | clear i count =>
      simp only [terminalReadStep] at stepped
      split at stepped <;> cases stepped <;> rfl
  | finish count =>
      cases stepped
      rfl

/-- Only a scancode changes the modifiers, as the handler does. -/
theorem keyFlags_step {env : Env} {k k' : Kernel} {event : Event}
    (step : k.step env event = some k') :
    k'.keyFlags = event.scancode.elim k.keyFlags (Keyboard.decoder.next k.keyFlags) := by
  have decoded : ∀ scancode,
      keyFlags { k with keyboard := (k.keyboard.decode scancode).1 } =
        Keyboard.decoder.next k.keyFlags scancode :=
    fun scancode => k.keyboard.flags_decode scancode
  cases step_cases step with
  | scheduled _ schedules => exact keyFlags_untouched.pitScheduling schedules
  | ignored scancode => exact decoded scancode
  | pressed scancode _ _ _ handled =>
      exact (keyFlags_handleKeyPress handled).trans (decoded scancode)
  | switched scancode _ _ _ switches =>
      exact (keyFlags_switchTerminal switches).trans (decoded scancode)
  | ticked => rfl
  | halted _ _ _ halts => exact keyFlags_untouched.halt halts
  | executed _ _ _ executes => exact keyFlags_untouched.executeCall executes
  | begun _ _ _ _ _ begins => exact keyFlags_untouchedByDirectories.beginRead begins
  | returned event _ _ _ returns =>
      have noKey : event.scancode = none := by cases returns <;> rfl
      rw [noKey]
      exact keyFlags_untouched.returns returns
  | mapped screenStart =>
      exact (keyFlags_untouched.returnToUser _).trans (keyFlags_untouched.vidmap screenStart)
  | readOn _ _ _ _ _ stepped => exact keyFlags_terminalReadStep stepped
  | rtcReadOn seen => exact keyFlags_untouched.rtcReadStep seen
  | launched _ _ _ _ launches => exact keyFlags_untouched.launchStep launches

theorem passedCode_eq (k : Kernel) (event : Event) :
    k.passedCode event = event.scancode.bind (Keyboard.decoder.emit k.keyFlags) := by
  unfold passedCode
  congr 1
  funext scancode
  change Keyboard.decoder.emit k.keyboard scancode = _
  rw [Keyboard.emit_decoder, Keyboard.emit_decoder]
  rfl

theorem keyFlags_boot {env : Env} {k start : Kernel} (booted : boot env k = some start) :
    start.keyFlags.modifiers = HeldKeys.noKey.modifiers := by
  rw [keyFlags_untouched.boot booted]
  rfl

/-- A run passes the key codes that the handler gives for its scancodes. -/
theorem emitted_passedCode {env : Env} {start final : Kernel} {events : List Event}
    (reached : run (step env) start events = some final) :
    emitted (step env) passedCode start events =
      Keyboard.decoder.outputs start.keyFlags (events.filterMap Event.scancode) :=
  emitted_eq_outputs Keyboard.decoder Event.scancode keyFlags (fun _ _ _ step => keyFlags_step step)
    passedCode_eq reached

/-- After booting, every sequence of scancodes is decoded as the held keys say, and every run
passes the key codes of the held keys to `handle_key_press`, if and only if no key whose code
depends on Shift is pressed while a Shift key is held and the last thing that happened to
Shift is the release of the other one. -/
theorem passed_codes_iff {env : Env} {k start : Kernel} (booted : boot env k = some start) :
    (∀ scancodes, Keyboard.decoder.outputs start.keyboard scancodes =
        HeldKeys.decoder.outputs HeldKeys.noKey scancodes ↔ HeldKeys.KeepsShift scancodes) ∧
      ∀ events final, run (step env) start events = some final →
        (emitted (step env) passedCode start events =
            HeldKeys.decoder.outputs HeldKeys.noKey (events.filterMap Event.scancode) ↔
          HeldKeys.KeepsShift (events.filterMap Event.scancode)) := by
  have released := keyFlags_boot booted
  constructor
  · exact Keyboard.outputs_decoder_iff released
  · intro events final reached
    rw [emitted_passedCode reached]
    exact Keyboard.outputs_decoder_iff released _

/-- Left Shift is pressed, then `a`; it is released, then `b` is pressed. -/
def oneShiftRun : BootRun Env.sample
    [.keyboard 0x2A, .timer, .keyboard 0x1E, .keyboard 0xAA, .clock, .keyboard 0x30]
    (fun k => k.keyboard.keyBufferIdx) 2 :=
  .of (by decide +kernel)

theorem passed_codes_sample :
    HeldKeys.decoder.outputs HeldKeys.noKey [0x2A, 0x1E, 0xAA, 0x30] = [0x41, 0x62] ∧
      emitted (step Env.sample) passedCode oneShiftRun.start
        [.keyboard 0x2A, .timer, .keyboard 0x1E, .keyboard 0xAA, .clock, .keyboard 0x30] =
          [0x41, 0x62] := by
  have codes : HeldKeys.decoder.outputs HeldKeys.noKey [0x2A, 0x1E, 0xAA, 0x30] = [0x41, 0x62] := by
    decide
  have iffs := passed_codes_iff oneShiftRun.booted
  have released : (startup default).keyboard.modifiers = HeldKeys.noKey.modifiers := rfl
  have keeps : HeldKeys.KeepsShift [0x2A, 0x1E, 0xAA, 0x30] := by
    apply (Keyboard.outputs_decoder_iff released _).mp
    decide
  exact ⟨codes, ((iffs.2 _ _ oneShiftRun.reached).mpr keeps).trans codes⟩

/-- Both Shift keys are pressed and the right one is released: `a` is lower case. -/
def bothShiftsRun : BootRun Env.sample
    [.keyboard 0x2A, .keyboard 0x36, .keyboard 0xB6, .keyboard 0x1E]
    (fun k => k.keyboard.keyBufferIdx) 1 :=
  .of (by decide +kernel)

theorem shift_lost :
    ∃ start final, boot Env.sample default = some start ∧
      run (step Env.sample) start
          [.keyboard 0x2A, .keyboard 0x36, .keyboard 0xB6, .keyboard 0x1E] = some final ∧
      emitted (step Env.sample) passedCode start
          [.keyboard 0x2A, .keyboard 0x36, .keyboard 0xB6, .keyboard 0x1E] ≠
        HeldKeys.decoder.outputs HeldKeys.noKey [0x2A, 0x36, 0xB6, 0x1E] := by
  rcases bothShiftsRun with ⟨start, final, booted, reached, _⟩
  refine ⟨start, final, booted, reached, fun same => ?_⟩
  have flags : start.keyFlags = (startup default).keyFlags := by
    rw [keyFlags_untouched.boot booted]
    rfl
  rw [emitted_passedCode reached, flags] at same
  revert same
  decide

end Kernel

end Ece391Os
