import Ece391Os.Console.TextConsole
import Mathlib.Algebra.Order.Ring.Int
import Mathlib.Data.List.DropRight

/-!
# Text of unbounded length

Bytes laid out in rows of fixed length, with no bound on the number of rows.  A
console of fixed size shows the last rows of the text that was output to it.
-/

namespace Ece391Os

/-- Text laid out in rows of `cols` cells: the finished rows, oldest first, and the
last row begun, which has room for another cell. -/
structure Text (cols : Nat) where
  finished : List (List UInt8)
  last : List UInt8
  room : last.length < cols

namespace Text

variable {rows cols : Nat}

/-- All rows begun so far. -/
def lines (t : Text cols) : List (List UInt8) :=
  t.finished ++ [t.last]

/-- Text with nothing in it. -/
def empty (cols : Nat) [positive : NeZero cols] : Text cols where
  finished := []
  last := []
  room := Nat.pos_of_ne_zero positive.out

/-- Start a new row. -/
def startRow (t : Text cols) : Text cols where
  finished := t.lines
  last := []
  room := Nat.lt_of_le_of_lt (Nat.zero_le _) t.room

/-- Fill the next cell of the last row, and start a new row once the row is full. -/
def fillCell (t : Text cols) (char : UInt8) : Text cols :=
  if next : t.last.length + 1 < cols then
    { t with last := t.last ++ [char], room := by simpa using next }
  else
    { t.startRow with finished := t.finished ++ [t.last ++ [char]] }

/-- Lay out one more byte; the bytes of `breaks` start a new row. -/
def put (breaks : List UInt8) (t : Text cols) (byte : UInt8) : Text cols :=
  if byte ∈ breaks then t.startRow else t.fillCell byte

/-- The text laid out from a list of bytes. -/
def layOut (cols : Nat) [NeZero cols] (breaks bytes : List UInt8) : Text cols :=
  bytes.foldl (put breaks) (empty cols)

/-! ## The rows on a console -/

/-- The cell in a row and a column of some lines, blank where nothing was filled in. -/
def cellOf (blank : UInt8) (lines : List (List UInt8)) (row col : Nat) : UInt8 :=
  (lines[row]?.getD [])[col]?.getD blank

/-- The console with the last rows of the text and the cursor in the last row begun. -/
def lastRows (rows : Nat) [positive : NeZero rows] (blank : UInt8) (t : Text cols) :
    TextConsole rows cols where
  cell row col := cellOf blank (t.lines.rtake rows) row col
  row := ⟨(t.lines.rtake rows).length - 1, by
    have := positive.out
    simp only [List.rtake, List.length_drop]
    omega⟩
  col := ⟨t.last.length, t.room⟩

variable {blank : UInt8}

theorem cellOf_rtake (lines : List (List UInt8)) (row col : Nat) :
    cellOf blank (lines.rtake rows) row col =
      cellOf blank lines (lines.length - rows + row) col := by
  simp [cellOf, List.rtake]

/-- A row not begun is blank. -/
theorem cellOf_of_le {lines : List (List UInt8)} {row : Nat} (behind : lines.length ≤ row)
    (col : Nat) : cellOf blank lines row col = blank := by
  simp [cellOf, List.getElem?_eq_none behind]

/-- A row just begun is blank as well. -/
theorem cellOf_append_nil (lines : List (List UInt8)) (row col : Nat) :
    cellOf blank (lines ++ [[]]) row col = cellOf blank lines row col := by
  by_cases before : row < lines.length
  · simp only [cellOf, List.getElem?_append_left before]
  · rw [cellOf_of_le (Nat.le_of_not_lt before)]
    by_cases begun : row = lines.length
    · simp [cellOf, begun]
    · apply cellOf_of_le
      simp only [List.length_append, List.length_singleton]
      omega

/-- Filling the next cell of the last row changes that cell only. -/
theorem cellOf_fill (finished : List (List UInt8)) (last : List UInt8) (char : UInt8)
    (row col : Nat) :
    cellOf blank (finished ++ [last ++ [char]]) row col =
      if row = finished.length ∧ col = last.length then char
      else cellOf blank (finished ++ [last]) row col := by
  rcases Nat.lt_trichotomy row finished.length with before | begun | behind
  · simp only [cellOf, List.getElem?_append_left before, Nat.ne_of_lt before, false_and, if_false]
  · subst begun
    simp only [cellOf, List.getElem?_concat_length, Option.getD_some, true_and]
    rcases Nat.lt_trichotomy col last.length with filled | next | free
    · rw [if_neg (Nat.ne_of_lt filled), List.getElem?_append_left filled]
    · simp [next]
    · rw [if_neg (Nat.ne_of_gt free), List.getElem?_eq_none (Nat.le_of_lt free),
        List.getElem?_eq_none (by simpa using Nat.succ_le_of_lt free)]
  · rw [if_neg (fun same => Nat.ne_of_gt behind same.1), cellOf_of_le, cellOf_of_le]
    · simpa using Nat.succ_le_of_lt behind
    · simpa using Nat.succ_le_of_lt behind

/-- The console has the last of some lines, and its cursor in the last one. -/
structure Shows (blank : UInt8) (lines : List (List UInt8)) (c : TextConsole rows cols) :
    Prop where
  cell : ∀ row col, c.cell row col = cellOf blank lines (lines.length - rows + row) col
  row : c.row.val + (lines.length - rows) + 1 = lines.length

variable {c : TextConsole rows cols} {lines : List (List UInt8)}

/-- Starting a row on the console goes with an empty line. -/
theorem Shows.newLine (shows : Shows blank lines c) :
    Shows blank (lines ++ [[]]) (c.newLine blank) := by
  have cursor := shows.row
  have count : (lines ++ [[]]).length = lines.length + 1 := by simp
  unfold TextConsole.newLine
  split
  · rename_i below
    have top : (lines ++ [[]]).length - rows = lines.length - rows := by omega
    constructor
    · intro row col
      rw [top, cellOf_append_nil]
      exact shows.cell row col
    · simp only
      omega
  · rename_i bottom
    constructor
    · intro row col
      have top : (lines ++ [[]]).length - rows + row.val = lines.length - rows + (row.val + 1) := by
        omega
      rw [top, cellOf_append_nil]
      simp only [TextConsole.shifted]
      split
      · exact shows.cell _ col
      · rw [cellOf_of_le]
        omega
    · simp only
      omega

/-- Filling the cursor cell of the console goes with filling the next cell of the last
line. -/
theorem Shows.fill {finished : List (List UInt8)} {last : List UInt8}
    (shows : Shows blank (finished ++ [last]) c) (cursor : c.col.val = last.length)
    (char : UInt8) :
    Shows blank (finished ++ [last ++ [char]])
      { c with cell := Function.update c.cell c.row (Function.update (c.cell c.row) c.col char) }
      where
  cell := by
    intro row col
    have count : (finished ++ [last ++ [char]]).length = (finished ++ [last]).length := by simp
    have atRow := shows.row
    have length : (finished ++ [last]).length = finished.length + 1 := by simp
    have next : (finished ++ [last]).length - rows + row.val = finished.length ↔ row = c.row := by
      rw [Fin.ext_iff]
      omega
    rw [count, cellOf_fill, ← shows.cell row col]
    simp only [next, ← cursor, ← Fin.ext_iff]
    by_cases sameRow : row = c.row
    · subst sameRow
      simp [Function.update_apply]
    · simp [sameRow]
  row := by
    have atRow := shows.row
    simpa using atRow

/-! ## Output -/

variable [NeZero rows]

/-- The last rows of the text are what a console has that shows its lines. -/
theorem eq_lastRows {t : Text cols} (shows : Shows blank t.lines c)
    (cursor : c.col.val = t.last.length) : c = t.lastRows rows blank := by
  apply TextConsole.ext
  · funext row col
    rw [shows.cell row col]
    exact (cellOf_rtake t.lines row col).symm
  · apply Fin.ext
    have atRow := shows.row
    simp only [lastRows, List.rtake, List.length_drop]
    omega
  · apply Fin.ext
    exact cursor

theorem lastRows_shows (t : Text cols) : Shows blank t.lines (t.lastRows rows blank) where
  cell row col := cellOf_rtake t.lines row col
  row := by
    have count : t.lines.length = t.finished.length + 1 := by simp [lines]
    have positive := Nat.pos_of_ne_zero (NeZero.ne rows)
    simp only [lastRows, List.rtake, List.length_drop]
    omega

theorem lastRows_startRow (t : Text cols) :
    (t.lastRows rows blank).newLine blank = t.startRow.lastRows rows blank := by
  apply eq_lastRows
  · exact t.lastRows_shows.newLine
  · unfold TextConsole.newLine
    split <;> rfl

theorem lastRows_fillCell (t : Text cols) (char : UInt8) :
    (t.lastRows rows blank).putChar blank char = (t.fillCell char).lastRows rows blank := by
  have shows : Shows blank t.lines (t.lastRows rows blank) := t.lastRows_shows
  have filled := shows.fill rfl char
  unfold TextConsole.putChar fillCell
  by_cases next : t.last.length + 1 < cols
  · rw [dif_pos next, dif_pos (by exact next)]
    apply eq_lastRows
    · exact ⟨filled.cell, filled.row⟩
    · simp [lastRows]
  · rw [dif_neg next, dif_neg (by exact next)]
    apply eq_lastRows
    · exact filled.newLine
    · unfold TextConsole.newLine
      split <;> rfl

/-- A byte goes to the text and to the console that shows its last rows. -/
theorem lastRows_put (breaks : List UInt8) (t : Text cols) (byte : UInt8) :
    (t.lastRows rows blank).output blank breaks byte = (t.put breaks byte).lastRows rows blank := by
  unfold TextConsole.output put
  split
  · exact t.lastRows_startRow
  · exact t.lastRows_fillCell byte

/-- A blank console with the cursor in the first cell shows the text with nothing in it. -/
theorem eq_lastRows_empty [NeZero cols] (cell : ∀ row col, c.cell row col = blank)
    (row : c.row.val = 0) (col : c.col.val = 0) : c = (empty cols).lastRows rows blank := by
  have positive := Nat.pos_of_ne_zero (NeZero.ne rows)
  apply eq_lastRows
  · constructor
    · intro row col
      rw [cell row col, show (empty cols).lines = [] ++ [[]] from rfl, cellOf_append_nil,
        cellOf_of_le (Nat.zero_le _)]
    · rw [row, show (empty cols).lines.length = 1 from rfl]
      omega
  · exact col

/-- A console shows the last rows of all that was output to it, from a blank console on. -/
theorem foldl_output [NeZero cols] (breaks bytes : List UInt8) :
    bytes.foldl (TextConsole.output blank breaks) ((empty cols).lastRows rows blank) =
      (layOut cols breaks bytes).lastRows rows blank :=
  List.foldl_hom _ fun t byte => lastRows_put breaks t byte

end Text

end Ece391Os
