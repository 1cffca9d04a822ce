import Ece391Os.Console.Simulation
import Ece391Os.Console.Text

/-!
# The last rows of the output

The characters of video memory and the cursor form a text console, whatever the
attribute bytes are, and `putc` outputs to it.  From a cleared screen on it shows the
last 25 rows of everything printed.
-/

namespace Ece391Os

namespace Console

/-- The characters in video memory and the displayed cursor. -/
def text (c : Console) : PrivateConsole :=
  c.display.text

/-- `putc` outputs a byte, in whatever colour. -/
theorem text_putc (c : Console) (attr char : UInt8) :
    (c.putc attr char).text = c.text.put char := by
  unfold Console.putc PrivateConsole.put TextConsole.output text
  by_cases ends : char = 0x0A ∨ char = 0x0D
  · rw [if_pos ends, if_pos (by simpa [PrivateConsole.breaks] using ends), display_enter]
    exact c.display.text_nextRow
  · rw [if_neg ends, if_neg (by simpa [PrivateConsole.breaks] using ends)]
    let written : Display :=
      { c.display with screen := c.video.setChar c.screenY c.screenX char }
    let coloured : Display :=
      { c.display with
        screen := (c.video.setChar c.screenY c.screenX char).setAttr c.screenY c.screenX attr }
    have same : coloured.text = written.text := written.text_setAttr c.screenY c.screenX attr
    calc
      _ = coloured.advance.text := congrArg Display.text (display_setScreenPos _)
      _ = written.advance.text := by rw [Display.text_advance, Display.text_advance, same]
      _ = c.display.text.putChar 0x20 char := c.display.text_putChar char

end Console

namespace Kernel

open PrivateConsole

/-- Printing outputs the bytes in their order. -/
theorem text_foldl_putc (k : Kernel) (bytes : List UInt8) :
    (bytes.foldl putc k).console.text = bytes.foldl put k.console.text := by
  induction bytes generalizing k with
  | nil => rfl
  | cons char bytes ih =>
      have first : (k.putc char).console.text = k.console.text.put char :=
        k.console.text_putc _ char
      rw [List.foldl_cons, List.foldl_cons, ← first]
      exact ih (k.putc char)

/-- The screen shows the last 25 rows of the output: printing any bytes on a cleared
screen with the cursor in the first cell leaves the last rows of the bytes laid out in
rows of 80 cells, and the cursor in the last row begun. -/
theorem shows_last_rows (k : Kernel)
    (cleared : ∀ row col, (k.console.video row col).char = 0x20)
    (home : k.console.screenX = 0 ∧ k.console.screenY = 0) (bytes : List UInt8) :
    (bytes.foldl putc k).console.text = (Text.layOut 80 breaks bytes).lastRows 25 0x20 := by
  have start : k.console.text = (Text.empty 80).lastRows 25 0x20 :=
    Text.eq_lastRows_empty cleared (congrArg Fin.val home.2) (congrArg Fin.val home.1)
  rw [text_foldl_putc, start]
  exact Text.foldl_output breaks bytes

/-- `hi` on a screen just cleared, and the cursor at the start of the next row. -/
theorem shows_last_rows_hi :
    let cleared : Kernel := { (default : Kernel) with console := (default : Console).clear 0x07 }
    ([0x68, 0x69, 0x0A].foldl putc cleared).console.text =
        (Text.layOut 80 breaks [0x68, 0x69, 0x0A]).lastRows 25 0x20 ∧
      (Text.layOut 80 breaks [0x68, 0x69, 0x0A]).lines = [[0x68, 0x69], []] :=
  ⟨shows_last_rows _ (fun _ _ => rfl) ⟨rfl, rfl⟩ _, by decide⟩

end Kernel

end Ece391Os
