import Ece391Os.Console.Printf
import Ece391Os.Kernel.Paging

/-!
# Terminal screens

The parts of `terminal.c` that move screens and characters: the initialization
of the three terminals, `save_restore`, and `terminal_write`.
-/

namespace Ece391Os.Kernel

/-- One round of the loop of `init_terminal`. -/
def initTerm (k : Kernel) (i : TermId) : Kernel :=
  { k with paging :=
      k.paging.tableToPageMapping 0x6400000 (savedVideoAddr i) ⟨i.val + 1, by omega⟩ }.modifyTerm i
    fun t =>
      { posX := 0
        posY := 0
        active := false
        apn := none
        keyBuffer := fun j => if j.val < 127 then 0 else t.keyBuffer j
        keyBufferIdx := 0
        eflag := false
        videoMem := fun _ _ => { char := 0x20, attr := attributeTable i } }

/-- `save_restore(term_num, s_or_r)`: `0` saves the displayed screen, cursor and
buffer index into the terminal, anything else restores them from it.  The
function always returns 0. -/
def saveRestore (k : Kernel) (t : TermId) (sOrR : Nat) : Kernel :=
  if sOrR = 0 then
    k.modifyTerm t fun term =>
      { term with
        posX := k.console.screenX
        posY := k.console.screenY
        keyBufferIdx := k.keyboard.keyBufferIdx
        videoMem := k.console.video }
  else
    let saved := k.terminal t
    { k with
      keyboard := { k.keyboard with keyBufferIdx := saved.keyBufferIdx }
      console :=
        { k.console.setScreenPos saved.posX saved.posY with video := saved.videoMem } }

/-- `switch_helper(old, new)`. -/
def switchHelper (k : Kernel) (old new : TermId) : Kernel :=
  (k.saveRestore old 0).saveRestore new 1

/-- The part of `switch_terminal` that makes another terminal the displayed one. -/
def showTerminal (k : Kernel) (t : TermId) : Kernel :=
  let k := k.switchHelper k.curTerm t
  { k with keyboard := { k.keyboard with keyBuffer := t }, curTerm := t }

/-- `init_terminal` up to the call of `execute`. -/
def initTerminals (k : Kernel) : Kernel :=
  let k := ((k.initTerm 0).initTerm 1).initTerm 2
  let k := { k with keyboard := { k.keyboard with keyBuffer := 0 } }
  { k.saveRestore 0 1 with curTerm := 0 }

/-- `terminal_write(fd, buf, num_bytes)`.  The buffer is given by the memory from
`buf` on; the byte count is not used. -/
def terminalWrite (k : Kernel) (args : PrintfArgs) (buf : List UInt8) (_numBytes : Int) :
    Option (Int × Kernel) :=
  if k.curTerm = k.curActiveTerminal then
    k.printf args buf
  else
    k.printfTerminalActive args buf

end Ece391Os.Kernel
