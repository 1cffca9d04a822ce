import Ece391Os.Console.LastRows
import Mathlib.Data.FinEnum

/-!
# Output of a hidden terminal

`printf_terminal_active` prints into the buffer of a terminal that is not displayed.  It
leaves the displayed cursor and the other buffers as they are, but stores the colour of the
displayed terminal at the displayed cursor, and no colour in its own buffer.
-/

namespace Ece391Os

/-! ## The cells that output stores to -/

namespace TextConsole

variable {rows cols : Nat}

/-- A byte moves the text up: it ends the last row or fills its last cell. -/
def MovesUp (breaks : List UInt8) (c : TextConsole rows cols) (byte : UInt8) : Prop :=
  rows ≤ c.row.val + 1 ∧ (byte ∈ breaks ∨ cols ≤ c.col.val + 1)

/-- A byte is stored in the cell of the cursor, and in all cells when the text moves up. -/
def Writes (breaks : List UInt8) (c : TextConsole rows cols) (byte : UInt8) (row : Fin rows)
    (col : Fin cols) : Prop :=
  byte ∉ breaks ∧ row = c.row ∧ col = c.col ∨ c.MovesUp breaks byte

/-- One of the bytes is stored in a cell. -/
def WritesAny (blank : UInt8) (breaks : List UInt8) (c : TextConsole rows cols) :
    List UInt8 → Fin rows → Fin cols → Prop
  | [], _, _ => False
  | byte :: bytes, row, col =>
      c.Writes breaks byte row col ∨
        (c.output blank breaks byte).WritesAny blank breaks bytes row col

variable {blank : UInt8} {breaks : List UInt8} {c : TextConsole rows cols} {byte : UInt8}
  {row : Fin rows} {col : Fin cols}

theorem cell_newLine (below : c.row.val + 1 < rows) : (c.newLine blank).cell = c.cell := by
  unfold newLine
  rw [dif_pos below]

theorem cell_output (unwritten : ¬ c.Writes breaks byte row col) :
    (c.output blank breaks byte).cell row col = c.cell row col := by
  unfold Writes MovesUp at unwritten
  push Not at unwritten
  rcases unwritten with ⟨other, still⟩
  unfold output
  by_cases ends : byte ∈ breaks
  · have below : c.row.val + 1 < rows := by
      by_contra last
      exact (still (Nat.le_of_not_lt last)).1 ends
    rw [if_pos ends, cell_newLine below]
  · have elsewhere : (Function.update c.cell c.row (Function.update (c.cell c.row) c.col byte))
        row col = c.cell row col := by
      by_cases sameRow : row = c.row
      · subst sameRow
        rw [Function.update_self, Function.update_of_ne (other ends rfl)]
      · rw [Function.update_of_ne sameRow]
    rw [if_neg ends]
    unfold putChar
    dsimp only
    split
    · exact elsewhere
    · rename_i full
      have below : c.row.val + 1 < rows := by
        by_contra last
        exact absurd (still (Nat.le_of_not_lt last)).2 (Nat.not_lt_of_le (Nat.le_of_not_lt full))
      rw [cell_newLine (by exact below)]
      exact elsewhere

/-- Output changes no cell but those that it stores to. -/
theorem cell_foldl_output {bytes : List UInt8}
    (unwritten : ¬ c.WritesAny blank breaks bytes row col) :
    (bytes.foldl (output blank breaks) c).cell row col = c.cell row col := by
  induction bytes generalizing c with
  | nil => rfl
  | cons byte bytes ih =>
      rcases not_or.mp unwritten with ⟨first, rest⟩
      rw [List.foldl_cons, ih rest, cell_output first]

end TextConsole

namespace Console

/-- Store an attribute at the cursor. -/
def colourCursor (attr : UInt8) (c : Console) : Console :=
  { c with video := c.video.setAttr c.screenY c.screenX attr }

theorem colourCursor_twice (attr : UInt8) (c : Console) :
    (c.colourCursor attr).colourCursor attr = c.colourCursor attr := by
  unfold colourCursor
  congr 1
  funext row col
  rw [Screen.setAttr_apply]
  split
  · rename_i same
    rw [same.1, same.2]
    simp [Screen.setAttr_apply]
  · rfl

/-- It leaves the console as it is only if the attribute is already there. -/
theorem colourCursor_eq_iff (attr : UInt8) (c : Console) :
    c.colourCursor attr = c ↔ (c.video c.screenY c.screenX).attr = attr := by
  constructor
  · intro same
    have cell := congrArg (fun console => console.video c.screenY c.screenX) same
    simp only [colourCursor, Screen.setAttr_apply, and_self, if_true] at cell
    exact (congrArg Cell.attr cell).symm
  · intro already
    unfold colourCursor
    congr 1
    funext row col
    rw [Screen.setAttr_apply]
    split
    · rename_i same
      rw [same.1, same.2, ← already]
    · rfl

end Console

namespace Kernel

open PrivateConsole

/-! ## One byte -/

/-- The cursor and the buffer of the running process's terminal. -/
def ownDisplay (k : Kernel) : Display :=
  (k.terminal k.curActiveTerminal).display

/-- `putc_terminal_active` on its own terminal. -/
def ownPutc (char : UInt8) (t : Term) : Term :=
  if char = 0x0A ∨ char = 0x0D then
    t.enterTermExec
  else
    { t with videoMem := t.videoMem.setChar t.posY t.posX char }.setScreenPosTermExec
      (t.posX + 1) t.posY

/-- `putc_terminal_active` changes its own terminal, and the attribute at the displayed
cursor. -/
theorem putcTerminalActive_eq (k : Kernel) (char : UInt8) :
    k.putcTerminalActive char =
      { k with
        console :=
          if char = 0x0A ∨ char = 0x0D then k.console
          else k.console.colourCursor (attributeTable k.curTerm) }.modifyTerm
        k.curActiveTerminal (ownPutc char) := by
  unfold putcTerminalActive modifyTerm ownPutc
  by_cases ends : char = 0x0A ∨ char = 0x0D
  · rw [if_pos ends, if_pos ends, if_pos ends]
  · rw [if_neg ends, if_neg ends, if_neg ends]
    rfl

/-- The own terminal outputs the byte. -/
theorem text_ownPutc (t : Term) (char : UInt8) :
    (ownPutc char t).display.text = t.display.text.put char := by
  unfold ownPutc PrivateConsole.put TextConsole.output
  by_cases ends : char = 0x0A ∨ char = 0x0D
  · rw [if_pos ends, if_pos (by simpa [breaks] using ends), Term.display_enterTermExec]
    exact t.display.text_nextRow
  · rw [if_neg ends, if_neg (by simpa [breaks] using ends), Term.display_setScreenPosTermExec
      { t with videoMem := t.videoMem.setChar t.posY t.posX char }]
    exact t.display.text_putChar char

/-- No attribute of the own buffer changes. -/
theorem attr_ownPutc (t : Term) (char : UInt8) (row : Fin 25) (col : Fin 80) :
    ((ownPutc char t).display.screen row col).attr = (t.display.screen row col).attr := by
  unfold ownPutc
  split
  · rw [Term.display_enterTermExec, Display.attr_nextRow]
  · rw [Term.display_setScreenPosTermExec
      { t with videoMem := t.videoMem.setChar t.posY t.posX char }, Display.attr_advance]
    exact Screen.attr_setChar _ _ _ _ _ _

/-! ## A string -/

/-- What printing a string in the background does. -/
structure PrintsBehind (k k' : Kernel) (text : List UInt8) : Prop where
  curTerm : k'.curTerm = k.curTerm
  curActiveTerminal : k'.curActiveTerminal = k.curActiveTerminal
  console : k'.console =
    if ∀ char ∈ text, char ∈ breaks then k.console
    else k.console.colourCursor (attributeTable k.curTerm)
  others : ∀ t, t ≠ k.curActiveTerminal → k'.terminal t = k.terminal t
  own : k'.ownDisplay.text = text.foldl put k.ownDisplay.text
  attr : ∀ row col, (k'.ownDisplay.screen row col).attr = (k.ownDisplay.screen row col).attr

theorem printsBehind_putcTerminalActive (k : Kernel) (char : UInt8) :
    PrintsBehind k (k.putcTerminalActive char) [char] := by
  have own : (k.putcTerminalActive char).ownDisplay =
      (ownPutc char (k.terminal k.curActiveTerminal)).display := by
    rw [putcTerminalActive_eq]
    simp [ownDisplay, modifyTerm]
  constructor
  case curTerm =>
    rw [putcTerminalActive_eq]
    rfl
  case curActiveTerminal =>
    rw [putcTerminalActive_eq]
    rfl
  case console =>
    rw [putcTerminalActive_eq]
    simp [modifyTerm, breaks]
  case others =>
    intro t differs
    rw [putcTerminalActive_eq]
    exact Function.update_of_ne differs _ _
  case own =>
    rw [own]
    exact text_ownPutc _ char
  case attr =>
    intro row col
    rw [own]
    exact attr_ownPutc _ char row col

theorem printsBehind_putsTerminalActive (k : Kernel) (text : List UInt8) :
    PrintsBehind k (k.putsTerminalActive text) text := by
  induction text generalizing k with
  | nil =>
      constructor
      case console => simp [putsTerminalActive]
      case others => exact fun _ _ => rfl
      case attr => exact fun _ _ => rfl
      all_goals rfl
  | cons char text ih =>
      have first := k.printsBehind_putcTerminalActive char
      have rest := ih (k.putcTerminalActive char)
      constructor
      case curTerm => exact rest.curTerm.trans first.curTerm
      case curActiveTerminal => exact rest.curActiveTerminal.trans first.curActiveTerminal
      case console =>
        apply rest.console.trans
        rw [first.console, first.curTerm]
        simp only [List.forall_mem_cons, List.not_mem_nil, false_imp_iff, implies_true, and_true]
        by_cases head : char ∈ breaks
        · simp only [head, true_and, if_true]
        · simp only [head, false_and, if_false, Console.colourCursor_twice, ite_self]
      case others =>
        intro t differs
        apply (rest.others t _).trans
        · exact first.others t differs
        · rwa [first.curActiveTerminal]
      case own =>
        apply rest.own.trans
        rw [first.own]
        rfl
      case attr =>
        intro row col
        exact (rest.attr row col).trans (first.attr row col)

/-! ## The display -/

/-- A cell of the own buffer that the output stores to. -/
def WritesOwn (k : Kernel) (text : List UInt8) (row : Fin 25) (col : Fin 80) : Prop :=
  k.ownDisplay.text.WritesAny 0x20 breaks text row col

/-- Printing a string changes neither video memory nor the displayed cursor nor another
terminal, and gives the cells it stores to the colour of its own terminal. -/
structure StaysBehind (k k' : Kernel) (text : List UInt8) : Prop where
  console : k'.console = k.console
  others : ∀ t, t ≠ k.curActiveTerminal → k'.terminal t = k.terminal t
  colour : ∀ row col, k.WritesOwn text row col →
    (k'.ownDisplay.screen row col).attr = attributeTable k.curActiveTerminal

/-- The displayed cell under the cursor has the colour of the displayed terminal, or no
character is printed; and the cells that the output stores to have the colour of the own
terminal. -/
def ColoursMatch (k : Kernel) (text : List UInt8) : Prop :=
  ((∀ char ∈ text, char ∈ breaks) ∨
      (k.console.video k.console.screenY k.console.screenX).attr = attributeTable k.curTerm) ∧
    ∀ row col, k.WritesOwn text row col →
      (k.ownDisplay.screen row col).attr = attributeTable k.curActiveTerminal

theorem PrintsBehind.staysBehind_iff {k k' : Kernel} {text : List UInt8}
    (prints : PrintsBehind k k' text) : StaysBehind k k' text ↔ k.ColoursMatch text := by
  have shown : k'.console = k.console ↔ (∀ char ∈ text, char ∈ breaks) ∨
      (k.console.video k.console.screenY k.console.screenX).attr = attributeTable k.curTerm := by
    rw [prints.console]
    split
    · rename_i silent
      exact iff_of_true rfl (.inl silent)
    · rename_i sounds
      rw [Console.colourCursor_eq_iff]
      exact (or_iff_right sounds).symm
  constructor
  · intro stays
    constructor
    · exact shown.mp stays.console
    · intro row col written
      rw [← prints.attr row col]
      exact stays.colour row col written
  · rintro ⟨console, own⟩
    constructor
    case console => exact shown.mpr console
    case others => exact prints.others
    case colour =>
      intro row col written
      rw [prints.attr row col]
      exact own row col written

/-- Output changes no character and no attribute of a cell that it does not store to. -/
theorem PrintsBehind.unwritten {k k' : Kernel} {text : List UInt8} (prints : PrintsBehind k k' text)
    {row : Fin 25} {col : Fin 80} (unwritten : ¬ k.WritesOwn text row col) :
    k'.ownDisplay.screen row col = k.ownDisplay.screen row col := by
  have char : k'.ownDisplay.text.cell row col = k.ownDisplay.text.cell row col := by
    rw [prints.own]
    exact TextConsole.cell_foldl_output unwritten
  have attr := prints.attr row col
  change (k'.ownDisplay.screen row col).char = (k.ownDisplay.screen row col).char at char
  cases after : k'.ownDisplay.screen row col
  cases before : k.ownDisplay.screen row col
  rw [after, before] at char attr
  cases char
  cases attr
  rfl

/-- `printf_terminal_active` changes only the cells of its own buffer that its output stores
to.  It leaves the display as it is and colours these cells if and only if it prints no
character but line breaks or the displayed cell under the cursor has the colour of the
displayed terminal, and the cells have the colour of their own terminal already. -/
theorem background_output_iff {k k' : Kernel} {args : PrintfArgs} {format : List UInt8} {n : Int}
    (printed : k.printfTerminalActive args format = some (n, k')) :
    ∃ text count, Printf.interpret args none 0 format = some (text, count) ∧
      (∀ row col, ¬ k.WritesOwn text row col →
        k'.ownDisplay.screen row col = k.ownDisplay.screen row col) ∧
      (StaysBehind k k' text ↔ k.ColoursMatch text) := by
  rcases Option.map_eq_some_iff.mp printed with ⟨⟨text, count⟩, interpreted, equal⟩
  cases equal
  have prints := k.printsBehind_putsTerminalActive text
  exact ⟨text, count, interpreted, fun _ _ => prints.unwritten, prints.staysBehind_iff⟩

/-- Terminal 0 is displayed, and a process of terminal 1 runs. -/
def hiddenProcess : Kernel :=
  { (default : Kernel).initTerminals with curActiveTerminal := 1 }

theorem background_output_sample :
    ∃ k', hiddenProcess.printfTerminalActive ⟨fun _ => 0, fun _ => []⟩ [0x61, 0x00] = some (1, k') ∧
      StaysBehind hiddenProcess k' [0x61] := by
  have printed : hiddenProcess.printfTerminalActive ⟨fun _ => 0, fun _ => []⟩ [0x61, 0x00] =
      some (1, hiddenProcess.putsTerminalActive [0x61]) := rfl
  refine ⟨_, printed, ?_⟩
  rcases background_output_iff printed with ⟨text, count, interpreted, _, stays⟩
  cases interpreted
  apply stays.mpr
  constructor
  · exact .inr rfl
  · exact fun _ _ _ => rfl

/-- The same with the displayed cell under the cursor in another colour. -/
def recolouredCell : Kernel :=
  { hiddenProcess with console := hiddenProcess.console.colourCursor 0x0C }

theorem background_recolours :
    ∃ k', recolouredCell.printfTerminalActive ⟨fun _ => 0, fun _ => []⟩ [0x61, 0x00] =
        some (1, k') ∧ ¬ StaysBehind recolouredCell k' [0x61] := by
  refine ⟨_, rfl, fun stays => ?_⟩
  have matched := (printsBehind_putsTerminalActive _ _).staysBehind_iff.mp stays
  rcases matched.1 with silent | colour
  · exact absurd silent (by decide)
  · simp only [recolouredCell, Console.colourCursor, Screen.setAttr_apply, and_self,
      if_true] at colour
    exact absurd colour (by decide)

end Kernel

end Ece391Os
