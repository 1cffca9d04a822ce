import Ece391Os.Console.Cursor
import Ece391Os.Keyboard.Buffer

/-!
# Keyboard interrupts

The decoding of a scancode into a key code or a terminal switch, and what
`handle_key_press` does with a key code.
-/

namespace Ece391Os

/-- The table `scan2ascii`: the plain and the shifted key code of each scancode. -/
def scan2ascii : List (UInt8 × UInt8) :=
  [(0x00, 0x00), (0x1B, 0x1B), (0x31, 0x21), (0x32, 0x40), (0x33, 0x23), (0x34, 0x24),
    (0x35, 0x25), (0x36, 0x5E), (0x37, 0x26), (0x38, 0x2A), (0x39, 0x28), (0x30, 0x29),
    (0x2D, 0x5F), (0x3D, 0x2B), (0x08, 0x08), (0x09, 0x09), (0x71, 0x51), (0x77, 0x57),
    (0x65, 0x45), (0x72, 0x52), (0x74, 0x54), (0x79, 0x59), (0x75, 0x55), (0x69, 0x49),
    (0x6F, 0x4F), (0x70, 0x50), (0x5B, 0x7B), (0x5D, 0x7D), (0x0D, 0x0D), (0x00, 0x00),
    (0x61, 0x41), (0x73, 0x53), (0x64, 0x44), (0x66, 0x46), (0x67, 0x47), (0x68, 0x48),
    (0x6A, 0x4A), (0x6B, 0x4B), (0x6C, 0x4C), (0x3B, 0x3A), (0x27, 0x22), (0x60, 0x7E),
    (0x00, 0x00), (0x5C, 0x7C), (0x7A, 0x5A), (0x78, 0x58), (0x63, 0x43), (0x76, 0x56),
    (0x62, 0x42), (0x6E, 0x4E), (0x6D, 0x4D), (0x2C, 0x3C), (0x2E, 0x3E), (0x2F, 0x3F),
    (0x00, 0x00), (0x00, 0x00), (0x00, 0x00), (0x20, 0x20)]

/-- What `keyboard_interrupt_handler` does after its `switch`: nothing, a call of
`handle_key_press`, or `switch_terminal` from inside it. -/
inductive KeyAction where
  | nothing
  | press (keycode : UInt8)
  | switchTerminal (termNum : Nat)
  deriving DecidableEq

namespace Keyboard

/-- The key code of the table with shift and caps lock applied. -/
def regularKeycode (kb : Keyboard) (scancode : UInt8) : UInt8 :=
  let codes := scan2ascii.getD scancode.toNat (0, 0)
  let keycode := if kb.shiftStat then codes.2 else codes.1
  if kb.capsStat then
    if 0x61 ≤ keycode ∧ keycode ≤ 0x7A then keycode - 0x20
    else if 0x41 ≤ keycode ∧ keycode ≤ 0x5A then keycode + 0x20
    else keycode
  else
    keycode

/-- The `default` case of the `switch`: keys that are no modifiers. -/
def keycodeAction (kb : Keyboard) (scancode : UInt8) : KeyAction :=
  if kb.altStat then
    if scancode = 0x0E then .press 0x08
    else if 0x3A < scancode ∧ scancode < 0x3E then .switchTerminal (scancode.toNat - 0x3B)
    else .nothing
  else if scancode < 58 then
    if kb.ctrlStat ∧ scancode = 0x26 then
      -- Ctrl-L leaves the `switch` with its own code
      .press 0x0C
    else if kb.ctrlStat ∧ scancode ≠ 0x0E ∧ scancode ≠ 0x1C then
      .nothing
    else
      let keycode := kb.regularKeycode scancode
      if keycode = 0 then .nothing else .press keycode
  else
    .nothing

/-- The `switch` of `keyboard_interrupt_handler`. -/
def decode (kb : Keyboard) (scancode : UInt8) : Keyboard × KeyAction :=
  if scancode = 0x1D then ({ kb with ctrlStat := true }, .nothing)
  else if scancode = 0x9D then ({ kb with ctrlStat := false }, .nothing)
  else if scancode = 0x2A ∨ scancode = 0x36 then ({ kb with shiftStat := true }, .nothing)
  else if scancode = 0xAA ∨ scancode = 0xB6 then ({ kb with shiftStat := false }, .nothing)
  else if scancode = 0x38 then ({ kb with altStat := true }, .nothing)
  else if scancode = 0xB8 then ({ kb with altStat := false }, .nothing)
  else if scancode = 0x3A then ({ kb with capsStat := !kb.capsStat }, .nothing)
  else if scancode = 0xBA then (kb, .nothing)
  else (kb, kb.keycodeAction scancode)

theorem decode_keyBufferIdx (kb : Keyboard) (scancode : UInt8) :
    (kb.decode scancode).1.keyBufferIdx = kb.keyBufferIdx := by
  simp only [decode, apply_ite Prod.fst, apply_ite keyBufferIdx, ite_self]

theorem decode_keyBuffer (kb : Keyboard) (scancode : UInt8) :
    (kb.decode scancode).1.keyBuffer = kb.keyBuffer := by
  simp only [decode, apply_ite Prod.fst, apply_ite keyBuffer, ite_self]

theorem decode_keyboardEnabled (kb : Keyboard) (scancode : UInt8) :
    (kb.decode scancode).1.keyboardEnabled = kb.keyboardEnabled := by
  simp only [decode, apply_ite Prod.fst, apply_ite keyboardEnabled, ite_self]

/-- The `switch` assigns to the modifiers only. -/
theorem decode_eq (kb : Keyboard) (scancode : UInt8) :
    ∃ ctrl shift alt caps, (kb.decode scancode).1 =
      { kb with ctrlStat := ctrl, shiftStat := shift, altStat := alt, capsStat := caps } := by
  rw [← kb.decode_keyBufferIdx scancode, ← kb.decode_keyBuffer scancode,
    ← kb.decode_keyboardEnabled scancode]
  exact ⟨_, _, _, _, rfl⟩

end Keyboard

namespace Kernel

/-- `handle_key_press(keycode)`. -/
def handleKeyPress (k : Kernel) (keycode : UInt8) : Option Kernel :=
  if keycode ≥ 0x80 then
    some k
  else if keycode = 0x0C then
    let console := k.console.clear (attributeTable k.curTerm)
    some { k with console := console.setScreenPos 0 0 }
  else if keycode = 0x03 then
    some k
  else if keycode = 0x08 then
    if k.keyboard.keyBufferIdx > 0 then
      let k := { k with console := k.console.backspace (attributeTable k.curTerm) }
      let k := k.setKeyIdx (k.keyboard.keyBufferIdx - 1)
      k.storeKey k.keyboard.keyBufferIdx 0
    else
      some k
  else if keycode = 0x0D then do
    -- the PCB of a terminal that never ran a process is at an unmapped address
    let p ← (k.terminal k.curTerm).apn
    let k := k.setEflag (k.pcb p).term true
    let k ← k.storeKey k.keyboard.keyBufferIdx 0x0A
    let k := k.setKeyIdx (k.keyboard.keyBufferIdx + 1)
    some { k with console := k.console.enter }
  else if k.keyboard.keyBufferIdx < 127 ∧ k.keyboard.keyboardEnabled then
    (k.addKeyBuff keycode).map fun k => k.putc keycode
  else
    some k

/-- Everything that `handle_key_press` can do. -/
inductive KeyHandled (k : Kernel) (keycode : UInt8) : Kernel → Prop where
  /-- At most the screen changes. -/
  | silent (console : Console) : KeyHandled k keycode { k with console := console }
  /-- Backspace with characters in the buffer. -/
  | erased (console : Console) (stored : Kernel) (positive : 0 < k.keyboard.keyBufferIdx)
      (store : Kernel.storeKey
        ({ k with console := console }.setKeyIdx (k.keyboard.keyBufferIdx - 1))
        (k.keyboard.keyBufferIdx - 1) 0 = some stored) :
      KeyHandled k keycode stored
  /-- Enter. -/
  | entered (p : ProcId) (stored : Kernel) (isEnter : keycode = 0x0D)
      (apn : (k.terminal k.curTerm).apn = some p)
      (store : (k.setEflag (k.pcb p).term true).storeKey k.keyboard.keyBufferIdx 0x0A =
        some stored) :
      KeyHandled k keycode
        { stored.setKeyIdx (stored.keyboard.keyBufferIdx + 1) with
          console := stored.console.enter }
  /-- A character with room in the buffer. -/
  | typed (stored : Kernel) (room : k.keyboard.keyBufferIdx < 127)
      (store : k.storeKey k.keyboard.keyBufferIdx keycode = some stored) :
      KeyHandled k keycode
        ((stored.setKeyIdx (k.keyboard.keyBufferIdx + 1)).putc keycode)

theorem handleKeyPress_cases {k k' : Kernel} {keycode : UInt8}
    (handled : k.handleKeyPress keycode = some k') : KeyHandled k keycode k' := by
  unfold handleKeyPress at handled
  split at handled
  · cases handled
    exact .silent k.console
  split at handled
  · cases handled
    exact .silent _
  split at handled
  · cases handled
    exact .silent k.console
  split at handled
  · split at handled
    · rename_i positive
      exact .erased _ _ positive handled
    · cases handled
      exact .silent k.console
  split at handled
  · rename_i isEnter
    obtain ⟨p, apn, rest⟩ := Option.bind_eq_some_iff.mp handled
    obtain ⟨stored, store, done⟩ := Option.bind_eq_some_iff.mp rest
    cases done
    exact .entered p stored isEnter apn store
  split at handled
  · rename_i room
    obtain ⟨added, add, rfl⟩ := Option.map_eq_some_iff.mp handled
    simp only [addKeyBuff, if_pos room.1] at add
    obtain ⟨stored, store, rfl⟩ := Option.map_eq_some_iff.mp add
    exact .typed stored room.1 store
  · cases handled
    exact .silent k.console

end Kernel

end Ece391Os
