import Ece391Os.Memory.Loops
import Ece391Os.Transition.Run
import Ece391Os.Console.Cursor

/-!
# The cursor routines over machine integers

The routines of `lib.c` and `terminal.c` that move a cursor or store into a text
buffer, over the `int` and `uint32_t` variables of the source and byte offsets that
nothing keeps in range.  They call each other in a cycle, so each takes a bound on
the depth of the calls and is undefined where the bound is too small.

A buffer is named by what its pointer designates, `video_mem` of `lib.c` or the
`video_mem` of a terminal, and a store is logged with its offset from the pointer.
`set_cursor_pos` and `key_buffer_idx` are left out: no cursor depends on them.
-/

namespace Ece391Os

open Memory

/-- The text buffers: video memory and the page kept for each terminal. -/
inductive TextBuffer where
  | video
  | saved (t : TermId)
  deriving DecidableEq

/-- A byte of a text buffer, by its offset from the start. -/
abbrev TextAddress := TextBuffer × Int

/-- `(NUM_COLS * y + x) << 1` for the counters of a loop. -/
def lineOffset (y x : Nat) : Int :=
  ((80 * y + x) * 2 : Nat)

/-- The variables of the cursor routines. -/
structure RawCursor where
  screenX : Int32
  screenY : Int32
  posX : TermId → UInt32
  posY : TermId → UInt32
  curTerm : TermId
  curActiveTerminal : TermId
  memory : Logged TextAddress

namespace RawCursor

/-- `video_mem + ((NUM_COLS * screen_y + screen_x) << 1)`, in `int` arithmetic. -/
def screenAddress (c : RawCursor) : TextAddress :=
  (.video, ((80 * c.screenY + c.screenX) <<< 1).toInt)

/-- `terminal[t].video_mem + ((NUM_COLS * pos_y + pos_x) << 1)`, in unsigned arithmetic. -/
def termAddress (c : RawCursor) (t : TermId) : TextAddress :=
  (.saved t, ((80 * c.posY t + c.posX t) <<< 1).toNat)

/-- Store a byte. -/
def store (c : RawCursor) (address : TextAddress) (value : UInt8) : RawCursor :=
  { c with memory := c.memory.store address value }

/-- The byte behind an address. -/
def behind (address : TextAddress) : TextAddress :=
  (address.1, address.2 + 1)

/-- The loops of `scroll_up` and `scroll_up_term_exec`. -/
def moveRows (buffer : TextBuffer) (m : Logged TextAddress) : Logged TextAddress :=
  let moved := loop 24 (fun y => loop 80 fun x m =>
    m.store (buffer, lineOffset y x) (m.byte (buffer, lineOffset (y + 1) x))) m
  loop 80 (fun x m => m.store (buffer, lineOffset 24 x) 0x20) moved

/-- `memcpy(dest, src, 4000)` on two buffers. -/
def memcpyScreen (dest src : TextBuffer) (m : Logged TextAddress) : Logged TextAddress :=
  loop 4000 (fun i m => m.store (dest, i) (m.byte (src, i))) m

/-- The clearing loop of `init_terminal`. -/
def clearTerm (i : TermId) (m : Logged TextAddress) : Logged TextAddress :=
  loop 2000 (fun j m =>
    (m.store (.saved i, (j * 2 : Nat)) 0x20).store (.saved i, (j * 2 : Nat) + 1)
      (attributeTable i)) m

/-! ## The displayed terminal -/

mutual

/-- `set_screen_pos(x, y)`. -/
def setScreenPos : Nat → RawCursor → UInt32 → UInt32 → Option RawCursor
  | 0, _, _, _ => none
  | depth + 1, c, x, y =>
      if x < 80 then
        let c := { c with screenX := x.toInt32 }
        if y < 25 then
          some { c with screenY := y.toInt32 }
        else
          (scrollUp depth c).map fun c => { c with screenY := 24 }
      else
        enter depth c

/-- `enter()`. -/
def enter : Nat → RawCursor → Option RawCursor
  | 0, _ => none
  | depth + 1, c => setScreenPos depth c 0 (c.screenY + 1).toUInt32

/-- `scroll_up()`. -/
def scrollUp : Nat → RawCursor → Option RawCursor
  | 0, _ => none
  | depth + 1, c => setScreenX depth { c with memory := moveRows .video c.memory } 0

/-- `set_screen_x(new_x)`. -/
def setScreenX : Nat → RawCursor → UInt32 → Option RawCursor
  | 0, _, _ => none
  | depth + 1, c, x => setScreenPos depth c x c.screenY.toUInt32

end

/-- `set_screen_y(new_y)`. -/
def setScreenY (depth : Nat) (c : RawCursor) (y : UInt32) : Option RawCursor :=
  setScreenPos depth c c.screenX.toUInt32 y

/-- `putc(c)`. -/
def putc (depth : Nat) (c : RawCursor) (char : UInt8) : Option RawCursor :=
  if char = 0x0A ∨ char = 0x0D then
    enter depth c
  else
    let c := (c.store c.screenAddress char).store (behind c.screenAddress)
      (attributeTable c.curTerm)
    setScreenPos depth c (c.screenX + 1).toUInt32 c.screenY.toUInt32

/-- `backspace()`. -/
def backspace (depth : Nat) (c : RawCursor) : Option RawCursor :=
  let moved :=
    if c.screenX = 0 then
      setScreenPos depth c 79 (c.screenY - 1).toUInt32
    else
      setScreenX depth c (c.screenX - 1).toUInt32
  moved.map fun c =>
    (c.store c.screenAddress 0x20).store (behind c.screenAddress) (attributeTable c.curTerm)

/-! ## The scheduled terminal -/

mutual

/-- `set_screen_pos_term_exec(x, y)`. -/
def setScreenPosTermExec : Nat → RawCursor → UInt32 → UInt32 → Option RawCursor
  | 0, _, _, _ => none
  | depth + 1, c, x, y =>
      if x < 80 then
        let c := { c with posX := Function.update c.posX c.curActiveTerminal x }
        if y < 25 then
          some { c with posY := Function.update c.posY c.curActiveTerminal y }
        else
          (scrollUpTermExec depth c).map fun c =>
            { c with posY := Function.update c.posY c.curActiveTerminal 24 }
      else
        enterTermExec depth c

/-- `enter_term_exec()`. -/
def enterTermExec : Nat → RawCursor → Option RawCursor
  | 0, _ => none
  | depth + 1, c => setScreenPosTermExec depth c 0 (c.posY c.curActiveTerminal + 1)

/-- `scroll_up_term_exec()`. -/
def scrollUpTermExec : Nat → RawCursor → Option RawCursor
  | 0, _ => none
  | depth + 1, c =>
      let c := { c with memory := moveRows (.saved c.curActiveTerminal) c.memory }
      setScreenPosTermExec depth c 0 (c.posY c.curActiveTerminal)

end

/-- `putc_terminal_active(c)`. -/
def putcTerminalActive (depth : Nat) (c : RawCursor) (char : UInt8) : Option RawCursor :=
  if char = 0x0A ∨ char = 0x0D then
    enterTermExec depth c
  else
    let c := (c.store (c.termAddress c.curActiveTerminal) char).store (behind c.screenAddress)
      (attributeTable c.curTerm)
    setScreenPosTermExec depth c (c.posX c.curActiveTerminal + 1) (c.posY c.curActiveTerminal)

/-! ## The three terminals -/

/-- `save_restore(term_num, s_or_r)`. -/
def saveRestore (depth : Nat) (c : RawCursor) (t : TermId) (sOrR : UInt8) : Option RawCursor :=
  if sOrR = 0 then
    some { c with
      posX := Function.update c.posX t c.screenX.toUInt32
      posY := Function.update c.posY t c.screenY.toUInt32
      memory := memcpyScreen (.saved t) .video c.memory }
  else
    (setScreenPos depth c (c.posX t) (c.posY t)).map fun c =>
      { c with memory := memcpyScreen .video (.saved t) c.memory }

/-- One round of the loop of `init_terminal`. -/
def initTerm (c : RawCursor) (i : TermId) : RawCursor :=
  { c with
    posX := Function.update c.posX i 0
    posY := Function.update c.posY i 0
    memory := clearTerm i c.memory }

/-- `init_terminal` up to the call of `execute`. -/
def initTerminals (depth : Nat) (c : RawCursor) : Option RawCursor :=
  (saveRestore depth (((c.initTerm 0).initTerm 1).initTerm 2) 0 1).map fun c =>
    { c with curTerm := 0 }

end RawCursor

/-- Calls of the cursor routines, and changes of the scheduled and the displayed
terminal by other code. -/
inductive CursorCall where
  | putc (char : UInt8)
  | enter
  | backspace
  | scrollUp
  | setScreenPos (x y : UInt32)
  | setScreenX (x : UInt32)
  | setScreenY (y : UInt32)
  | putcTerminalActive (char : UInt8)
  | enterTermExec
  | setScreenPosTermExec (x y : UInt32)
  | saveRestore (t : TermId) (sOrR : UInt8)
  | schedule (t : TermId)
  | display (t : TermId)

/-- Run a call, to a bounded depth. -/
def RawCursor.call (depth : Nat) : Transition.EventStep RawCursor CursorCall
  | c, .putc char => c.putc depth char
  | c, .enter => enter depth c
  | c, .backspace => c.backspace depth
  | c, .scrollUp => scrollUp depth c
  | c, .setScreenPos x y => setScreenPos depth c x y
  | c, .setScreenX x => setScreenX depth c x
  | c, .setScreenY y => c.setScreenY depth y
  | c, .putcTerminalActive char => c.putcTerminalActive depth char
  | c, .enterTermExec => enterTermExec depth c
  | c, .setScreenPosTermExec x y => setScreenPosTermExec depth c x y
  | c, .saveRestore t sOrR => c.saveRestore depth t sOrR
  | c, .schedule t => some { c with curActiveTerminal := t }
  | c, .display t => some { c with curTerm := t }

end Ece391Os
