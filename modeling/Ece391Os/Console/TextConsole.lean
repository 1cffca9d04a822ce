import Mathlib.Logic.Function.Basic
import Mathlib.Data.Fin.Basic

/-!
# A text console of fixed size

An abstract console: a grid of characters with a cursor.  A character goes to
the cursor cell and the cursor moves on; a line break, or filling the last cell
of a row, starts a new row, and in the last row the text moves up instead.
-/

namespace Ece391Os

/-- A grid of characters and the cell that the next character goes to. -/
@[ext]
structure TextConsole (rows cols : Nat) where
  cell : Fin rows → Fin cols → UInt8
  row : Fin rows
  col : Fin cols

namespace TextConsole

variable {rows cols : Nat}

/-- The first column. -/
def firstCol (c : TextConsole rows cols) : Fin cols :=
  ⟨0, Nat.lt_of_le_of_lt (Nat.zero_le _) c.col.isLt⟩

/-- The grid with its first row gone and a row of blanks at the bottom. -/
def shifted (blank : UInt8) (c : TextConsole rows cols) : Fin rows → Fin cols → UInt8 :=
  fun y x => if next : y.val + 1 < rows then c.cell ⟨y.val + 1, next⟩ x else blank

/-- Start a new row. -/
def newLine (blank : UInt8) (c : TextConsole rows cols) : TextConsole rows cols :=
  if below : c.row.val + 1 < rows then
    { c with row := ⟨c.row.val + 1, below⟩, col := c.firstCol }
  else
    { c with cell := c.shifted blank, col := c.firstCol }

/-- Put a character at the cursor and advance. -/
def putChar (blank : UInt8) (c : TextConsole rows cols) (char : UInt8) : TextConsole rows cols :=
  let c :=
    { c with cell := Function.update c.cell c.row (Function.update (c.cell c.row) c.col char) }
  if next : c.col.val + 1 < cols then
    { c with col := ⟨c.col.val + 1, next⟩ }
  else
    c.newLine blank

/-- Process one byte of output; the bytes of `breaks` end the row. -/
def output (blank : UInt8) (breaks : List UInt8) (c : TextConsole rows cols) (byte : UInt8) :
    TextConsole rows cols :=
  if byte ∈ breaks then c.newLine blank else c.putChar blank byte

end TextConsole

end Ece391Os
