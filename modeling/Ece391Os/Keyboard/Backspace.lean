import Ece391Os.Console.Simulation
import Ece391Os.Keyboard.Input
import Ece391Os.Transition.History

/-!
# Backspace

`handle_key_press` edits the line in `key_buffer` and the characters on the screen by
separate code.  A Backspace takes back the last character of the line on the screen as
long as that character was typed behind the last Ctrl-L, which empties the screen and
keeps the line.
-/

namespace Ece391Os

open Transition

/-! ## Keys -/

/-- A key that edits the line without ending it. -/
inductive EditKey where
  | printable (char : UInt8) (low : 0x20 ≤ char) (high : char ≤ 0x7E)
  | backspace
  | ctrlL
  deriving DecidableEq

namespace EditKey

/-- The key code that `handle_key_press` gets. -/
def keycode : EditKey → UInt8
  | printable char _ _ => char
  | backspace => 0x08
  | ctrlL => 0x0C

end EditKey

/-! ## A line that is edited -/

/-- How many characters a line has, and how many cells of the screen the cursor is behind
the upper left corner, once the screen was cleared. -/
structure EditedLine where
  length : Nat
  sinceClear : Option Nat
  deriving DecidableEq

namespace EditedLine

/-- The line at the start of the typing. -/
def empty : EditedLine where
  length := 0
  sinceClear := none

/-- The effect of a key; characters are accepted while the keyboard is enabled and the
buffer has room. -/
def press (enabled : Bool) (line : EditedLine) : EditKey → EditedLine
  | .printable _ _ _ =>
      if line.length < 127 ∧ enabled then
        { length := line.length + 1, sinceClear := line.sinceClear.map (· + 1) }
      else
        line
  | .backspace =>
      if 0 < line.length then
        { length := line.length - 1, sinceClear := line.sinceClear.map (· - 1) }
      else
        line
  | .ctrlL => { line with sinceClear := some 0 }

/-- A Backspace that is accepted erases a character typed behind the last Ctrl-L. -/
def ErasesBehindClear (line : EditedLine) (key : EditKey) : Prop :=
  key = .backspace → 0 < line.length → line.sinceClear ≠ some 0

instance (line : EditedLine) (key : EditKey) : Decidable (line.ErasesBehindClear key) :=
  inferInstanceAs (Decidable (_ → _ → _))

/-- No accepted Backspace erases a character typed in front of a Ctrl-L. -/
def NeverErasesCleared (enabled : Bool) (keys : List EditKey) : Prop :=
  EachStep (fun line key => some (line.press enabled key)) ErasesBehindClear empty keys

instance (enabled : Bool) (keys : List EditKey) : Decidable (NeverErasesCleared enabled keys) :=
  decidableEachStep _ _

end EditedLine

/-! ## The cursor -/

namespace Console

/-- The number of the cursor cell in row-major order. -/
def cellNumber (c : Console) : Nat :=
  80 * c.screenY.val + c.screenX.val

/-- A character moves the cursor to the next cell, or to the last row when the screen
scrolls. -/
theorem cellNumber_putc (attr : UInt8) (c : Console) {char : UInt8} (visible : 0x20 ≤ char) :
    (c.putc attr char).cellNumber =
      if c.cellNumber + 1 < 2000 then c.cellNumber + 1 else 1920 := by
  have noBreak : ¬ (char = 0x0A ∨ char = 0x0D) := by
    rintro (rfl | rfl) <;> exact absurd visible (by decide)
  have row := c.screenY.isLt
  have column := c.screenX.isLt
  unfold putc
  rw [if_neg noBreak]
  dsimp only
  by_cases next : c.screenX.val + 1 < 80
  · have inside : c.cellNumber + 1 < 2000 := by
      unfold cellNumber
      omega
    rw [setScreenPos_of_lt _ next c.screenY.isLt, if_pos inside]
    rfl
  rw [setScreenPos_enter _ _ (Nat.le_of_not_lt next), enter_eq]
  by_cases below : c.screenY.val + 1 < 25
  · have inside : c.cellNumber + 1 < 2000 := by
      unfold cellNumber
      omega
    rw [dif_pos below, if_pos inside]
    simp only [cellNumber, Fin.val_zero]
    omega
  · have outside : ¬ c.cellNumber + 1 < 2000 := by
      unfold cellNumber
      omega
    rw [dif_neg below, if_neg outside]
    rfl

/-- The console after a Backspace behind the upper left corner: the cursor is in the
preceding cell, which is blank, and all other characters are as before. -/
structure Erased (before after : Console) : Prop where
  cursor : after.cellNumber + 1 = before.cellNumber
  char : ∀ y x, (after.video y x).char =
    if y = after.screenY ∧ x = after.screenX then 0x20 else (before.video y x).char

/-- A Backspace behind the upper left corner erases one character. -/
theorem erased_backspace (attr : UInt8) {c : Console} (behind : 0 < c.cellNumber) :
    Erased c (c.backspace attr) := by
  have row := c.screenY.isLt
  have column := c.screenX.isLt
  have moved : ∃ x y, 80 * y.val + x.val + 1 = c.cellNumber ∧ c.backspace attr =
      { screenX := x
        screenY := y
        video := (c.video.setChar y x 0x20).setAttr y x attr } := by
    unfold backspace
    by_cases first : c.screenX = 0
    · have above : (c.screenY.val + (2 ^ 32 - 1)) % 2 ^ 32 < 25 := by
        simp only [cellNumber, first, Fin.val_zero] at behind
        omega
      rw [if_pos first, setScreenPos_of_lt c (by decide) above]
      refine ⟨79, _, ?_, rfl⟩
      simp only [cellNumber, first, Fin.val_zero] at behind ⊢
      omega
    · have positive : 0 < c.screenX.val := Nat.pos_of_ne_zero fun zero => first (Fin.ext zero)
      rw [if_neg first, setScreenX, setScreenPos_of_lt c (by omega) c.screenY.isLt]
      refine ⟨_, _, ?_, rfl⟩
      simp only [cellNumber]
      omega
  rcases moved with ⟨x, y, cell, moved⟩
  rw [moved]
  constructor
  · exact cell
  · intro y' x'
    by_cases here : y' = y ∧ x' = x
    · simp [Screen.setAttr_apply, Screen.setChar_apply, here]
    · simp [Screen.setAttr_apply, Screen.setChar_apply, here]

/-- No cell precedes the upper left corner. -/
theorem not_erased_backspace (attr : UInt8) {c : Console} (corner : c.cellNumber = 0) :
    ¬ Erased c (c.backspace attr) := by
  intro erased
  have none := erased.cursor
  rw [corner] at none
  exact absurd none (Nat.succ_ne_zero _)

end Console

/-! ## One key -/

namespace Kernel

/-- `handle_key_press` of an editing key. -/
def editStep (k : Kernel) (key : EditKey) : Option Kernel :=
  k.handleKeyPress key.keycode

/-- What a Backspace is to do: it changes nothing when the line is empty, and otherwise
erases the character in front of the cursor. -/
def BackspaceUndoes (k : Kernel) (key : EditKey) : Prop :=
  key = .backspace →
    if k.keyboard.keyBufferIdx = 0 then
      k.editStep key = some k
    else
      ∃ k', k.editStep key = some k' ∧ Console.Erased k.console k'.console

/-- What editing changes of the kernel state, apart from the buffer. -/
structure Edits (k : Kernel) (console : Console) (length : UInt8) (k' : Kernel) : Prop where
  console : k'.console = console
  keyboard : k'.keyboard = { k.keyboard with keyBufferIdx := length }

variable {k : Kernel}

theorem isCharacter_of_printable {char : UInt8} (low : 0x20 ≤ char) (high : char ≤ 0x7E) :
    IsCharacter char := by
  refine ⟨UInt8.lt_of_le_of_lt high (by decide), ?_, ?_, ?_, ?_⟩
  all_goals
    rintro rfl
    exact absurd low (by decide)

/-- A store through `key_buffer` inside the array. -/
theorem edits_storeKey {index : UInt8} (inside : index.toNat < 128) (byte : UInt8) :
    ∃ stored, k.storeKey index byte = some stored ∧ stored.console = k.console ∧
      stored.keyboard = k.keyboard ∧ stored.curTerm = k.curTerm := by
  unfold storeKey
  rw [dif_pos inside]
  exact ⟨_, rfl, rfl, rfl, rfl⟩

/-- A character that is accepted goes to the buffer and to the screen. -/
theorem editStep_accepted {char : UInt8} (low : 0x20 ≤ char) (high : char ≤ 0x7E)
    (room : k.keyboard.keyBufferIdx < 127) (enabled : k.keyboard.keyboardEnabled = true) :
    ∃ k', k.editStep (.printable char low high) = some k' ∧
      k.Edits (k.console.putc (attributeTable k.curTerm) char)
        (k.keyboard.keyBufferIdx + 1) k' := by
  have inside : k.keyboard.keyBufferIdx.toNat < 128 :=
    (UInt8.lt_iff_toNat_lt.mp room).trans (by decide)
  rcases edits_storeKey (k := k) inside char with ⟨stored, store, console, keyboard, shown⟩
  have handled := handleKeyPress_character k (isCharacter_of_printable low high)
  rw [if_pos ⟨room, enabled⟩, store] at handled
  refine ⟨_, handled, ?_, ?_⟩
  · simp only [putc, setKeyIdx, console, shown]
  · simp only [putc, setKeyIdx, keyboard]

/-- A character that is not accepted does nothing. -/
theorem editStep_refused {char : UInt8} (low : 0x20 ≤ char) (high : char ≤ 0x7E)
    (refused : ¬ (k.keyboard.keyBufferIdx < 127 ∧ k.keyboard.keyboardEnabled = true)) :
    k.editStep (.printable char low high) = some k :=
  (handleKeyPress_character k (isCharacter_of_printable low high)).trans (if_neg refused)

/-- A Backspace with an empty line does nothing. -/
theorem editStep_backspace_empty (empty : k.keyboard.keyBufferIdx = 0) :
    k.editStep .backspace = some k := by
  have none : ¬ k.keyboard.keyBufferIdx > 0 := by
    rw [empty]
    decide
  exact if_neg none

/-- A Backspace that is accepted goes to the screen, and shortens the line. -/
theorem editStep_backspace {n : Nat} (line : k.keyboard.keyBufferIdx.toNat = n + 1)
    (bounded : n < 127) :
    ∃ k', k.editStep .backspace = some k' ∧
      k.Edits (k.console.backspace (attributeTable k.curTerm))
        (k.keyboard.keyBufferIdx - 1) k' := by
  have positive : k.keyboard.keyBufferIdx > 0 := by
    rw [gt_iff_lt, UInt8.lt_iff_toNat_lt, line]
    exact Nat.succ_pos n
  have one : (1 : UInt8) ≤ k.keyboard.keyBufferIdx := by
    rw [UInt8.le_iff_toNat_le, line]
    exact Nat.le_add_left 1 n
  have previous : (k.keyboard.keyBufferIdx - 1).toNat = n := by
    rw [UInt8.toNat_sub_of_le _ _ one, line]
    rfl
  let erased : Kernel := { k with console := k.console.backspace (attributeTable k.curTerm) }
  have inside : (k.keyboard.keyBufferIdx - 1).toNat < 128 := by omega
  rcases edits_storeKey (k := erased.setKeyIdx (k.keyboard.keyBufferIdx - 1)) inside 0 with
    ⟨stored, store, console, keyboard, _⟩
  have handled : k.editStep .backspace = some stored := (if_pos positive).trans store
  exact ⟨stored, handled, console, keyboard⟩

/-- Ctrl-L empties the screen and keeps the line. -/
theorem editStep_ctrlL (k : Kernel) :
    ∃ k', k.editStep .ctrlL = some k' ∧ k'.console.cellNumber = 0 ∧
      k'.keyboard = k.keyboard := by
  refine ⟨_, rfl, ?_, rfl⟩
  have home := Console.setScreenPos_of_lt (k.console.clear (attributeTable k.curTerm))
    (show 0 < 80 by decide) (show 0 < 25 by decide)
  dsimp only
  rw [home]
  rfl

/-! ## The line and the screen -/

/-- The buffer has the length of the line, and the cursor the place that the line says:
behind the characters typed since the screen was cleared, or, on a screen that was not
cleared, behind at least as many cells as the line is long. -/
structure ShowsLine (k : Kernel) (line : EditedLine) : Prop where
  length : k.keyboard.keyBufferIdx.toNat = line.length
  bounded : line.length ≤ 127
  cursor : match line.sinceClear with
    | none => line.length ≤ k.console.cellNumber
    | some n => k.console.cellNumber = n ∧ n ≤ line.length

variable {line : EditedLine}

/-- The cursor is in the upper left corner of a line with characters only behind a
Ctrl-L. -/
theorem ShowsLine.corner_iff (showing : k.ShowsLine line) (positive : 0 < line.length) :
    k.console.cellNumber = 0 ↔ line.sinceClear = some 0 := by
  have cursor := showing.cursor
  split at cursor
  · rename_i never
    rw [never]
    constructor
    · omega
    · nofun
  · rename_i n cleared
    rw [cleared, cursor.1, Option.some.injEq]

/-- A character that is accepted. -/
theorem ShowsLine.accepted {k' : Kernel} (showing : k.ShowsLine line) {char : UInt8}
    (low : 0x20 ≤ char) (room : line.length < 127)
    (edits : k.Edits (k.console.putc (attributeTable k.curTerm) char)
      (k.keyboard.keyBufferIdx + 1) k') :
    k'.ShowsLine ⟨line.length + 1, line.sinceClear.map (· + 1)⟩ := by
  have cell := k.console.cellNumber_putc (attributeTable k.curTerm) low
  have length := showing.length
  have cursor := showing.cursor
  rw [← edits.console] at cell
  constructor
  · rw [edits.keyboard]
    simp only [UInt8.toNat_add, length]
    exact Nat.mod_eq_of_lt (by simp only [UInt8.toNat_one]; omega)
  · exact room
  · split at cursor
    · rename_i never
      rw [never]
      dsimp only [Option.map_none]
      split at cell <;> omega
    · rename_i n cleared
      rw [cleared]
      dsimp only [Option.map_some]
      rw [if_pos (by omega)] at cell
      omega

/-- A Backspace that erases a character. -/
theorem ShowsLine.erased {k' : Kernel} (showing : k.ShowsLine line) (positive : 0 < line.length)
    (behind : line.sinceClear ≠ some 0)
    (edits : k.Edits (k.console.backspace (attributeTable k.curTerm))
      (k.keyboard.keyBufferIdx - 1) k') :
    k'.ShowsLine ⟨line.length - 1, line.sinceClear.map (· - 1)⟩ := by
  have notCorner : 0 < k.console.cellNumber :=
    Nat.pos_of_ne_zero fun corner => behind ((showing.corner_iff positive).mp corner)
  have cell := (Console.erased_backspace (attributeTable k.curTerm) notCorner).cursor
  have length := showing.length
  have bounded := showing.bounded
  have cursor := showing.cursor
  rw [← edits.console] at cell
  constructor
  · rw [edits.keyboard]
    dsimp only
    rw [UInt8.toNat_sub_of_le _ _ (UInt8.le_iff_toNat_le.mpr (by rw [length]; exact positive)),
      length]
    rfl
  · dsimp only
    omega
  · split at cursor
    · rename_i never
      rw [never]
      dsimp only [Option.map_none]
      omega
    · rename_i n cleared
      rw [cleared]
      dsimp only [Option.map_some]
      omega

/-- A Backspace undoes exactly when it erases no character typed in front of a Ctrl-L. -/
theorem backspaceUndoes_iff (showing : k.ShowsLine line) (key : EditKey) :
    k.BackspaceUndoes key ↔ line.ErasesBehindClear key := by
  cases key with
  | printable => exact iff_of_true nofun nofun
  | ctrlL => exact iff_of_true nofun nofun
  | backspace =>
      have length := showing.length
      have bounded := showing.bounded
      by_cases empty : k.keyboard.keyBufferIdx = 0
      · have none : ¬ 0 < line.length := by
          rw [← length, empty]
          decide
        apply iff_of_true
        · intro _
          rw [if_pos empty]
          exact editStep_backspace_empty empty
        · exact fun _ positive => absurd positive none
      · have positive : 0 < line.length := by
          rw [← length]
          exact Nat.pos_of_ne_zero fun zero => empty (UInt8.toNat_inj.mp zero)
        rcases editStep_backspace (n := line.length - 1) (length.trans (by omega)) (by omega) with
          ⟨k', step, edits⟩
        constructor
        · intro undoes _ _ cleared
          have erases := undoes rfl
          rw [if_neg empty] at erases
          rcases erases with ⟨other, same, erased⟩
          cases step.symm.trans same
          rw [edits.console] at erased
          exact Console.not_erased_backspace _ ((showing.corner_iff positive).mpr cleared) erased
        · intro behind _
          have notCorner : 0 < k.console.cellNumber :=
            Nat.pos_of_ne_zero fun corner =>
              behind rfl positive ((showing.corner_iff positive).mp corner)
          rw [if_neg empty]
          refine ⟨k', step, ?_⟩
          rw [edits.console]
          exact Console.erased_backspace _ notCorner

/-- A key that erases no character typed in front of a Ctrl-L keeps line and screen in
step. -/
theorem showsLine_step (showing : k.ShowsLine line) {key : EditKey}
    (behind : line.ErasesBehindClear key) :
    ∃ k', k.editStep key = some k' ∧ k'.keyboard.keyboardEnabled = k.keyboard.keyboardEnabled ∧
      k'.ShowsLine (line.press k.keyboard.keyboardEnabled key) := by
  have length := showing.length
  have bounded := showing.bounded
  cases key with
  | printable char low high =>
      have fits : k.keyboard.keyBufferIdx < 127 ↔ line.length < 127 := by
        rw [UInt8.lt_iff_toNat_lt, length]
        exact Iff.rfl
      unfold EditedLine.press
      by_cases room : line.length < 127 ∧ k.keyboard.keyboardEnabled = true
      · rw [if_pos room]
        rcases editStep_accepted low high (fits.mpr room.1) room.2 with ⟨k', step, edits⟩
        refine ⟨k', step, ?_, showing.accepted low room.1 edits⟩
        rw [edits.keyboard]
      · rw [if_neg room]
        have refused := editStep_refused low high (k := k) fun both =>
          room ⟨fits.mp both.1, both.2⟩
        exact ⟨k, refused, rfl, showing⟩
  | backspace =>
      unfold EditedLine.press
      by_cases positive : 0 < line.length
      · rw [if_pos positive]
        rcases editStep_backspace (n := line.length - 1) (length.trans (by omega)) (by omega) with
          ⟨k', step, edits⟩
        refine ⟨k', step, ?_, showing.erased positive (behind rfl positive) edits⟩
        rw [edits.keyboard]
      · rw [if_neg positive]
        have empty : k.keyboard.keyBufferIdx = 0 := by
          apply UInt8.toNat_inj.mp
          rw [length]
          exact Nat.eq_zero_of_not_pos positive
        exact ⟨k, editStep_backspace_empty empty, rfl, showing⟩
  | ctrlL =>
      rcases k.editStep_ctrlL with ⟨k', step, home, keyboard⟩
      refine ⟨k', step, by rw [keyboard], ?_, bounded, home, Nat.zero_le _⟩
      rw [keyboard]
      exact length

/-- Whether each Backspace undoes can be told from the keys and the line. -/
theorem eachStep_backspaceUndoes_iff (showing : k.ShowsLine line) (keys : List EditKey) :
    EachStep editStep BackspaceUndoes k keys ↔
      EachStep (fun line key => some (line.press k.keyboard.keyboardEnabled key))
        EditedLine.ErasesBehindClear line keys := by
  let related : Kernel → EditedLine → Prop := fun k' line =>
    k'.ShowsLine line ∧ k'.keyboard.keyboardEnabled = k.keyboard.keyboardEnabled
  have start : related k line := ⟨showing, rfl⟩
  apply eachStep_iff_of_simulation _ _ start
  · exact fun k' line key both => backspaceUndoes_iff both.1 key
  · rintro k' line key ⟨showing, enabled⟩ behind
    rcases showsLine_step showing behind with ⟨next, step, kept, after⟩
    rw [enabled] at after
    exact ⟨next, _, step, rfl, after, kept.trans enabled⟩

theorem showsLine_empty (empty : k.keyboard.keyBufferIdx = 0) : k.ShowsLine .empty := by
  refine ⟨?_, by decide, Nat.zero_le _⟩
  rw [empty]
  rfl

/-- The editing keys are handled in every state, and keep the buffer in its array. -/
theorem editStep_defined (bounded : k.keyboard.keyBufferIdx.toNat ≤ 127) (key : EditKey) :
    ∃ k', k.editStep key = some k' ∧ k'.keyboard.keyBufferIdx.toNat ≤ 127 := by
  cases key with
  | printable char low high =>
      by_cases room : k.keyboard.keyBufferIdx < 127 ∧ k.keyboard.keyboardEnabled = true
      · rcases editStep_accepted low high room.1 room.2 with ⟨k', step, edits⟩
        refine ⟨k', step, ?_⟩
        have small := UInt8.lt_iff_toNat_lt.mp room.1
        have limit : (127 : UInt8).toNat = 127 := rfl
        rw [edits.keyboard]
        simp only [UInt8.toNat_add, UInt8.toNat_one]
        omega
      · exact ⟨k, editStep_refused low high room, bounded⟩
  | backspace =>
      cases length : k.keyboard.keyBufferIdx.toNat with
      | zero => exact ⟨k, editStep_backspace_empty (UInt8.toNat_inj.mp length), bounded⟩
      | succ n =>
          rcases editStep_backspace length (by omega) with ⟨k', step, edits⟩
          refine ⟨k', step, ?_⟩
          have one : (1 : UInt8) ≤ k.keyboard.keyBufferIdx :=
            UInt8.le_iff_toNat_le.mpr (by rw [length]; exact Nat.le_add_left 1 n)
          rw [edits.keyboard]
          dsimp only
          rw [UInt8.toNat_sub_of_le _ _ one]
          omega
  | ctrlL =>
      rcases k.editStep_ctrlL with ⟨k', step, _, keyboard⟩
      exact ⟨k', step, by rwa [keyboard]⟩

/-- Every sequence of editing keys is handled. -/
theorem run_editStep (bounded : k.keyboard.keyBufferIdx.toNat ≤ 127) (keys : List EditKey) :
    ∃ final, run editStep k keys = some final := by
  rcases run_defined (fun k' : Kernel => k'.keyboard.keyBufferIdx.toNat ≤ 127)
    (fun _ key bounded => editStep_defined bounded key) bounded keys with ⟨final, reached, _⟩
  exact ⟨final, reached⟩

/-- From an empty line and any cursor position, every sequence of editing keys is handled,
and each Backspace undoes the last character on the screen, if and only if none erases a
character typed in front of a Ctrl-L. -/
theorem backspace_undoes_iff (k : Kernel) (empty : k.keyboard.keyBufferIdx = 0)
    (keys : List EditKey) :
    (∃ final, run editStep k keys = some final) ∧
      (EachStep editStep BackspaceUndoes k keys ↔
        EditedLine.NeverErasesCleared k.keyboard.keyboardEnabled keys) := by
  constructor
  · apply run_editStep
    rw [empty]
    decide
  · exact eachStep_backspaceUndoes_iff (showsLine_empty empty) keys

/-- The key `a`. -/
def keyA : EditKey :=
  .printable 0x61 (by decide) (by decide)

theorem backspace_undoes_sample :
    EachStep editStep BackspaceUndoes (startup default) [keyA, .ctrlL, keyA, .backspace] :=
  (backspace_undoes_iff (startup default) rfl _).2.mpr (by decide)

/-- `a`, Ctrl-L and Backspace on an empty line. -/
theorem erase_behind_clear :
    ¬ EachStep editStep BackspaceUndoes (startup default) [keyA, .ctrlL, .backspace] := by
  rw [eachStep_backspaceUndoes_iff (showsLine_empty rfl)]
  decide

end Kernel

end Ece391Os
