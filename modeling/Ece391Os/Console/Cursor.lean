import Mathlib.Data.Fin.VecNotation
import Ece391Os.Kernel.State

/-!
# Character output of `lib.c`

The cursor routines and `putc` exist twice in the source: for the displayed
terminal, over `screen_x`, `screen_y` and video memory, and with the suffix
`_term_exec` or `_terminal_active` for a terminal that is not displayed, over the
fields of its `term_t`.  Both families are translated separately, with the
recursion of `set_screen_pos` through `enter` and `scroll_up`.

`set_cursor_pos` only programs the hardware cursor through the VGA ports and is
left out.
-/

namespace Ece391Os

/-- The colour table `attribute` of `lib.c`. -/
def attributeTable : TermId → UInt8 := ![0x07, 0x0A, 0x0C]

namespace Screen

/-- Store a character byte. -/
def setChar (s : Screen) (y : Fin 25) (x : Fin 80) (c : UInt8) : Screen :=
  Function.update s y (Function.update (s y) x { s y x with char := c })

/-- Store an attribute byte. -/
def setAttr (s : Screen) (y : Fin 25) (x : Fin 80) (a : UInt8) : Screen :=
  Function.update s y (Function.update (s y) x { s y x with attr := a })

/-- The character moves of `scroll_up`: every row takes the characters of the
next one and the bottom row is blanked.  No attribute byte moves. -/
def moveRowsUp (s : Screen) : Screen := fun y x =>
  { char := if next : y.val + 1 < 25 then (s ⟨y.val + 1, next⟩ x).char else 0x20
    attr := (s y x).attr }

end Screen

/-! ## The displayed terminal -/

namespace Console

mutual

/-- `set_screen_pos(x, y)`. -/
def setScreenPos (c : Console) (x y : Nat) : Console :=
  if hx : x < 80 then
    let c := { c with screenX := ⟨x, hx⟩ }
    if hy : y < 25 then
      { c with screenY := ⟨y, hy⟩ }
    else
      { c.scrollUp with screenY := 24 }
  else
    c.enter
  termination_by if x < 80 then (if y < 25 then 0 else 3) else 5
  decreasing_by
    · simp [hx, hy]
    · simp [hx]

/-- `enter()`. -/
def enter (c : Console) : Console :=
  c.setScreenPos 0 (c.screenY + 1)
  termination_by 4
  decreasing_by
    simp only [Nat.zero_lt_succ, if_true]
    split <;> decide

/-- `scroll_up()`. -/
def scrollUp (c : Console) : Console :=
  { c with video := c.video.moveRowsUp }.setScreenX 0
  termination_by 2

/-- `set_screen_x(new_x)`. -/
def setScreenX (c : Console) (x : Nat) : Console :=
  c.setScreenPos x c.screenY
  termination_by if x < 80 then 1 else 6
  decreasing_by
    simp only [c.screenY.isLt, if_true]
    split <;> decide

end

/-- `set_screen_y(new_y)`. -/
def setScreenY (c : Console) (y : Nat) : Console :=
  c.setScreenPos c.screenX y

/-- `putc(c)` with `attribute[cur_term]`. -/
def putc (attr : UInt8) (c : Console) (char : UInt8) : Console :=
  if char = 0x0A ∨ char = 0x0D then
    c.enter
  else
    let video := (c.video.setChar c.screenY c.screenX char).setAttr c.screenY c.screenX attr
    { c with video := video }.setScreenPos (c.screenX + 1) c.screenY

/-- `backspace()` with `attribute[cur_term]`.  The coordinates are unsigned, so
`screen_y - 1` wraps in the first row. -/
def backspace (attr : UInt8) (c : Console) : Console :=
  let c :=
    if c.screenX = 0 then
      c.setScreenPos 79 ((c.screenY + (2 ^ 32 - 1)) % 2 ^ 32)
    else
      c.setScreenX (c.screenX - 1)
  { c with video := (c.video.setChar c.screenY c.screenX 0x20).setAttr c.screenY c.screenX attr }

/-- `clear()` with `attribute[cur_term]`. -/
def clear (attr : UInt8) (c : Console) : Console :=
  { c with video := fun _ _ => { char := 0x20, attr := attr } }

theorem setScreenPos_of_lt (c : Console) {x y : Nat} (hx : x < 80) (hy : y < 25) :
    c.setScreenPos x y = { c with screenX := ⟨x, hx⟩, screenY := ⟨y, hy⟩ } := by
  rw [setScreenPos, dif_pos hx, dif_pos hy]

theorem scrollUp_eq (c : Console) :
    c.scrollUp = { c with screenX := 0, video := c.video.moveRowsUp } := by
  rw [scrollUp, setScreenX, setScreenPos_of_lt _ (by decide) c.screenY.isLt]
  rfl

/-- A row below the last one scrolls; `scroll_up` has moved the cursor to column
0, whatever the requested column. -/
theorem setScreenPos_of_le (c : Console) {x y : Nat} (hx : x < 80) (hy : 25 ≤ y) :
    c.setScreenPos x y =
      { screenX := 0, screenY := 24, video := c.video.moveRowsUp } := by
  rw [setScreenPos, dif_pos hx, dif_neg (by omega), scrollUp_eq]

theorem setScreenPos_enter (c : Console) {x : Nat} (y : Nat) (hx : 80 ≤ x) :
    c.setScreenPos x y = c.enter := by
  rw [setScreenPos, dif_neg (by omega)]

/-- `enter` moves to the start of the next row, or scrolls in the last one. -/
theorem enter_eq (c : Console) :
    c.enter =
      if below : c.screenY.val + 1 < 25 then
        { c with screenX := 0, screenY := ⟨c.screenY.val + 1, below⟩ }
      else
        { screenX := 0, screenY := 24, video := c.video.moveRowsUp } := by
  rw [enter]
  split
  · rename_i below
    rw [setScreenPos_of_lt c (by decide) below]
    rfl
  · rename_i last
    exact setScreenPos_of_le c (by decide) (by omega)

end Console

/-! ## A terminal that is not displayed -/

namespace Term

mutual

/-- `set_screen_pos_term_exec(x, y)` on `terminal[cur_active_terminal]`. -/
def setScreenPosTermExec (t : Term) (x y : Nat) : Term :=
  if hx : x < 80 then
    let t := { t with posX := ⟨x, hx⟩ }
    if hy : y < 25 then
      { t with posY := ⟨y, hy⟩ }
    else
      { t.scrollUpTermExec with posY := 24 }
  else
    t.enterTermExec
  termination_by if x < 80 then (if y < 25 then 0 else 3) else 5
  decreasing_by
    · simp [hx, hy]
    · simp [hx]

/-- `enter_term_exec()`. -/
def enterTermExec (t : Term) : Term :=
  t.setScreenPosTermExec 0 (t.posY + 1)
  termination_by 4
  decreasing_by
    simp only [Nat.zero_lt_succ, if_true]
    split <;> decide

/-- `scroll_up_term_exec()`. -/
def scrollUpTermExec (t : Term) : Term :=
  let t := { t with videoMem := t.videoMem.moveRowsUp }
  t.setScreenPosTermExec 0 t.posY
  termination_by 2

end

theorem setScreenPosTermExec_of_lt (t : Term) {x y : Nat} (hx : x < 80) (hy : y < 25) :
    t.setScreenPosTermExec x y = { t with posX := ⟨x, hx⟩, posY := ⟨y, hy⟩ } := by
  rw [setScreenPosTermExec, dif_pos hx, dif_pos hy]

theorem scrollUpTermExec_eq (t : Term) :
    t.scrollUpTermExec = { t with posX := 0, videoMem := t.videoMem.moveRowsUp } := by
  rw [scrollUpTermExec, setScreenPosTermExec_of_lt _ (by decide) t.posY.isLt]
  rfl

theorem setScreenPosTermExec_of_le (t : Term) {x y : Nat} (hx : x < 80) (hy : 25 ≤ y) :
    t.setScreenPosTermExec x y =
      { t with posX := 0, posY := 24, videoMem := t.videoMem.moveRowsUp } := by
  rw [setScreenPosTermExec, dif_pos hx, dif_neg (by omega), scrollUpTermExec_eq]

theorem setScreenPosTermExec_enter (t : Term) {x : Nat} (y : Nat) (hx : 80 ≤ x) :
    t.setScreenPosTermExec x y = t.enterTermExec := by
  rw [setScreenPosTermExec, dif_neg (by omega)]

theorem enterTermExec_eq (t : Term) :
    t.enterTermExec =
      if below : t.posY.val + 1 < 25 then
        { t with posX := 0, posY := ⟨t.posY.val + 1, below⟩ }
      else
        { t with posX := 0, posY := 24, videoMem := t.videoMem.moveRowsUp } := by
  rw [enterTermExec]
  split
  · rename_i below
    rw [setScreenPosTermExec_of_lt t (by decide) below]
    rfl
  · rename_i last
    exact setScreenPosTermExec_of_le t (by decide) (by omega)

end Term

namespace Kernel

/-- `putc(c)`. -/
def putc (k : Kernel) (char : UInt8) : Kernel :=
  { k with console := k.console.putc (attributeTable k.curTerm) char }

/-- `puts(s)`. -/
def puts (k : Kernel) (s : List UInt8) : Kernel :=
  s.foldl putc k

/-- `putc_terminal_active(c)`.  The character goes to the buffer of
`terminal[cur_active_terminal]`, the attribute byte to video memory at the
displayed cursor. -/
def putcTerminalActive (k : Kernel) (char : UInt8) : Kernel :=
  if char = 0x0A ∨ char = 0x0D then
    k.modifyTerm k.curActiveTerminal Term.enterTermExec
  else
    let video := k.console.video.setAttr k.console.screenY k.console.screenX
      (attributeTable k.curTerm)
    { k with console := { k.console with video := video } }.modifyTerm k.curActiveTerminal
      fun t =>
        { t with videoMem := t.videoMem.setChar t.posY t.posX char }.setScreenPosTermExec
          (t.posX + 1) t.posY

/-- `puts_terminal_active(s)`. -/
def putsTerminalActive (k : Kernel) (s : List UInt8) : Kernel :=
  s.foldl putcTerminalActive k

end Kernel

end Ece391Os
