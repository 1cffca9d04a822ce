import Ece391Os.Console.TextConsole
import Ece391Os.Terminal.Screen
import Ece391Os.Transition.Run

/-!
# Three consoles on one screen

Each terminal is meant to be a text console of its own.  The kernel keeps the
console of the displayed terminal in video memory and `screen_x`, `screen_y`, and
the other two in `video_mem`, `pos_x`, `pos_y` of their records.  Every output
and switch operation is simulated by an operation on three private consoles, of
which it touches at most one.
-/

namespace Ece391Os

/-! ## What a cursor and a text buffer show -/

/-- A cursor and the text buffer it belongs to. -/
structure Display where
  x : Fin 80
  y : Fin 25
  screen : Screen

/-- The displayed cursor and video memory. -/
def Console.display (c : Console) : Display :=
  ⟨c.screenX, c.screenY, c.video⟩

/-- The cursor and the text buffer kept for a terminal. -/
def Term.display (t : Term) : Display :=
  ⟨t.posX, t.posY, t.videoMem⟩

namespace Display

/-- Start a new row, moving the text up in the last one. -/
def nextRow (d : Display) : Display :=
  if below : d.y.val + 1 < 25 then
    { d with x := 0, y := ⟨d.y.val + 1, below⟩ }
  else
    { x := 0, y := 24, screen := d.screen.moveRowsUp }

/-- Move the cursor behind the cell just written. -/
def advance (d : Display) : Display :=
  if next : d.x.val + 1 < 80 then { d with x := ⟨d.x.val + 1, next⟩ } else d.nextRow

end Display

theorem Console.display_enter (c : Console) : c.enter.display = c.display.nextRow := by
  rw [Console.enter_eq, Display.nextRow]
  by_cases below : c.screenY.val + 1 < 25 <;> simp [Console.display, below]

theorem Console.display_setScreenPos (c : Console) :
    (c.setScreenPos (c.screenX + 1) c.screenY).display = c.display.advance := by
  by_cases next : c.screenX.val + 1 < 80
  · rw [Console.setScreenPos_of_lt c next c.screenY.isLt]
    simp [Console.display, Display.advance, next]
  · rw [Console.setScreenPos_enter c _ (Nat.le_of_not_lt next), Console.display_enter,
      Display.advance, dif_neg (by exact next)]

theorem Term.display_enterTermExec (t : Term) :
    t.enterTermExec.display = t.display.nextRow := by
  rw [Term.enterTermExec_eq, Display.nextRow]
  by_cases below : t.posY.val + 1 < 25 <;> simp [Term.display, below]

theorem Term.display_setScreenPosTermExec (t : Term) :
    (t.setScreenPosTermExec (t.posX + 1) t.posY).display = t.display.advance := by
  by_cases next : t.posX.val + 1 < 80
  · rw [Term.setScreenPosTermExec_of_lt t next t.posY.isLt]
    simp [Term.display, Display.advance, next]
  · rw [Term.setScreenPosTermExec_enter t _ (Nat.le_of_not_lt next),
      Term.display_enterTermExec, Display.advance, dif_neg (by exact next)]

theorem Screen.setChar_apply (s : Screen) (y row : Fin 25) (x col : Fin 80) (char : UInt8) :
    s.setChar y x char row col =
      if row = y ∧ col = x then { s y x with char := char } else s row col := by
  unfold Screen.setChar
  by_cases rowEq : row = y
  · subst row
    by_cases colEq : col = x
    · subst col
      simp
    · simp [colEq]
  · simp [rowEq]

theorem Screen.setAttr_apply (s : Screen) (y row : Fin 25) (x col : Fin 80) (attr : UInt8) :
    s.setAttr y x attr row col =
      if row = y ∧ col = x then { s y x with attr := attr } else s row col := by
  unfold Screen.setAttr
  by_cases rowEq : row = y
  · subst row
    by_cases colEq : col = x
    · subst col
      simp
    · simp [colEq]
  · simp [rowEq]

/-! ## Private consoles -/

/-- A console of the size of the screen. -/
abbrev PrivateConsole := TextConsole 25 80

namespace Display

/-- The characters and the cursor of a display, without the attributes. -/
def text (d : Display) : PrivateConsole where
  cell row col := (d.screen row col).char
  row := d.y
  col := d.x

theorem text_nextRow (d : Display) : d.nextRow.text = d.text.newLine 0x20 := by
  unfold nextRow TextConsole.newLine
  by_cases below : d.y.val + 1 < 25
  · rw [dif_pos below, dif_pos (by exact below)]
    rfl
  · rw [dif_neg below, dif_neg (by exact below)]
    have inRange := d.y.isLt
    have bottom : d.y = 24 := Fin.ext (by omega)
    rw [text, text, bottom]
    rfl

/-- Advancing is the same on displays with the same text. -/
theorem text_advance (d : Display) :
    d.advance.text =
      if next : d.text.col.val + 1 < 80 then { d.text with col := ⟨d.text.col.val + 1, next⟩ }
      else d.text.newLine 0x20 := by
  unfold advance
  by_cases next : d.x.val + 1 < 80
  · rw [dif_pos next, dif_pos (by exact next)]
    rfl
  · rw [dif_neg next, dif_neg (by exact next)]
    exact d.text_nextRow

/-- An attribute is not text. -/
theorem text_setAttr (d : Display) (row : Fin 25) (col : Fin 80) (attr : UInt8) :
    text { d with screen := d.screen.setAttr row col attr } = d.text := by
  unfold text
  congr 1
  funext row' col'
  dsimp only
  rw [Screen.setAttr_apply]
  split
  · rename_i same
    rw [same.1, same.2]
  · rfl

/-- Writing a character at the cursor. -/
theorem text_setChar (d : Display) (char : UInt8) :
    text { d with screen := d.screen.setChar d.y d.x char } =
      { d.text with
        cell := Function.update d.text.cell d.y (Function.update (d.text.cell d.y) d.x char) } := by
  unfold text
  congr 1
  funext row col
  dsimp only
  rw [Screen.setChar_apply]
  by_cases rowEq : row = d.y
  · subst rowEq
    by_cases colEq : col = d.x <;> simp [colEq]
  · simp [rowEq]

/-- Writing a character at the cursor and advancing. -/
theorem text_putChar (d : Display) (char : UInt8) :
    text { d with screen := d.screen.setChar d.y d.x char }.advance = d.text.putChar 0x20 char := by
  rw [text_advance, text_setChar]
  rfl

theorem attr_nextRow (d : Display) (row : Fin 25) (col : Fin 80) :
    (d.nextRow.screen row col).attr = (d.screen row col).attr := by
  unfold nextRow
  split <;> rfl

theorem attr_advance (d : Display) (row : Fin 25) (col : Fin 80) :
    (d.advance.screen row col).attr = (d.screen row col).attr := by
  unfold advance
  split
  · rfl
  · exact d.attr_nextRow row col

end Display

theorem Screen.attr_setChar (s : Screen) (y row : Fin 25) (x col : Fin 80) (char : UInt8) :
    (s.setChar y x char row col).attr = (s row col).attr := by
  rw [setChar_apply]
  split
  · rename_i same
    rw [same.1, same.2]
  · rfl

/-- Storing the attribute that is already there changes nothing. -/
theorem Screen.setAttr_eq {s : Screen} {attr : UInt8} (colour : ∀ row col, (s row col).attr = attr)
    (row : Fin 25) (col : Fin 80) : s.setAttr row col attr = s := by
  funext row' col'
  rw [setAttr_apply]
  split
  · rename_i same
    rw [same.1, same.2, ← colour row col]
  · rfl

namespace PrivateConsole

/-- The bytes that end a row: `\n` and `\r`. -/
def breaks : List UInt8 := [0x0A, 0x0D]

/-- Output one byte. -/
def put (c : PrivateConsole) (byte : UInt8) : PrivateConsole :=
  c.output 0x20 breaks byte

/-- The blank console with the cursor in the first cell. -/
def blank : PrivateConsole :=
  { cell := fun _ _ => 0x20, row := 0, col := 0 }

/-- A display in the colour `attr` shows a private console. -/
def ShownBy (c : PrivateConsole) (attr : UInt8) (d : Display) : Prop :=
  c.row = d.y ∧ c.col = d.x ∧
    ∀ row col, d.screen row col = { char := c.cell row col, attr := attr }

variable {c : PrivateConsole} {attr : UInt8} {d : Display}

/-- A display shows its text, if it has one colour. -/
theorem shownBy_iff :
    c.ShownBy attr d ↔ d.text = c ∧ ∀ row col, (d.screen row col).attr = attr := by
  constructor
  · rintro ⟨rowEq, colEq, cells⟩
    constructor
    · apply TextConsole.ext
      · funext row col
        exact congrArg Cell.char (cells row col)
      · exact rowEq.symm
      · exact colEq.symm
    · intro row col
      rw [cells]
  · rintro ⟨rfl, colour⟩
    refine ⟨rfl, rfl, fun row col => ?_⟩
    rw [← colour row col]
    rfl

theorem ShownBy.colour (shown : c.ShownBy attr d) (row : Fin 25) (col : Fin 80) :
    (d.screen row col).attr = attr :=
  (shownBy_iff.mp shown).2 row col

theorem ShownBy.nextRow (shown : c.ShownBy attr d) :
    ShownBy (c.newLine 0x20) attr d.nextRow := by
  rcases shownBy_iff.mp shown with ⟨rfl, colour⟩
  rw [shownBy_iff]
  constructor
  · exact d.text_nextRow
  · intro row col
    rw [d.attr_nextRow]
    exact colour row col

/-- Writing a character at the cursor and advancing shows `putChar`. -/
theorem ShownBy.putChar (shown : c.ShownBy attr d) (char : UInt8) :
    ShownBy (c.putChar 0x20 char) attr
      { d with screen := d.screen.setChar d.y d.x char }.advance := by
  rcases shownBy_iff.mp shown with ⟨rfl, colour⟩
  rw [shownBy_iff]
  constructor
  · exact d.text_putChar char
  · intro row col
    rw [Display.attr_advance, Screen.attr_setChar]
    exact colour row col

end PrivateConsole

open PrivateConsole Transition

/-! ## The two copies of `putc` -/

section Output

variable {c : PrivateConsole} {attr : UInt8}

theorem Console.putc_shows {console : Console} (shown : c.ShownBy attr console.display)
    (char : UInt8) : (c.put char).ShownBy attr (console.putc attr char).display := by
  unfold Console.putc PrivateConsole.put TextConsole.output
  by_cases ends : char = 0x0A ∨ char = 0x0D
  · rw [if_pos ends, if_pos (by simpa [breaks] using ends), Console.display_enter]
    exact shown.nextRow
  · rw [if_neg ends, if_neg (by simpa [breaks] using ends)]
    -- the character is written first, then its attribute, which is already there
    have colour : (console.video.setChar console.screenY console.screenX char).setAttr
        console.screenY console.screenX attr =
        console.video.setChar console.screenY console.screenX char := by
      apply Screen.setAttr_eq
      intro row col
      rw [Screen.attr_setChar]
      exact shown.colour row col
    simp only [colour]
    rw [Console.display_setScreenPos
      { console with video := console.video.setChar console.screenY console.screenX char }]
    exact shown.putChar char

/-- The record left by `putc_terminal_active` shows the output to its console. -/
theorem Term.putcTerminalActive_shows {t : Term} (shown : c.ShownBy attr t.display)
    (char : UInt8) :
    (c.put char).ShownBy attr (Term.display
      (if char = 0x0A ∨ char = 0x0D then t.enterTermExec
        else { t with videoMem := t.videoMem.setChar t.posY t.posX char }.setScreenPosTermExec
          (t.posX + 1) t.posY)) := by
  unfold PrivateConsole.put TextConsole.output
  by_cases ends : char = 0x0A ∨ char = 0x0D
  · rw [if_pos ends, if_pos (by simpa [breaks] using ends), Term.display_enterTermExec]
    exact shown.nextRow
  · rw [if_neg ends, if_neg (by simpa [breaks] using ends), Term.display_setScreenPosTermExec
      { t with videoMem := t.videoMem.setChar t.posY t.posX char }]
    exact shown.putChar char

end Output

/-! ## The simulation -/

/-- The memory that `terminal_write` finds at its buffer: a string without `%`,
its terminating NUL, and anything after it. -/
structure PlainBuffer where
  text : List UInt8
  plain : Printf.Plain text
  after : List UInt8
  args : PrintfArgs
  numBytes : Int

/-- Operations on the screens: echoes of the keyboard, writes by the process of
the scheduled terminal, and changes of the scheduled and the displayed terminal. -/
inductive ScreenEvent where
  | echo (char : UInt8)
  | enter
  | write (buffer : PlainBuffer)
  | schedule (t : TermId)
  | display (t : TermId)

/-- The kernel's step on a screen event. -/
def Kernel.screenStep (k : Kernel) : ScreenEvent → Option Kernel
  | .echo char => some (k.putc char)
  | .enter => some { k with console := k.console.enter }
  | .write buffer =>
      (k.terminalWrite buffer.args (buffer.text ++ 0 :: buffer.after) buffer.numBytes).map Prod.snd
  | .schedule t => some { k with curActiveTerminal := t }
  | .display t => some (if t = k.curTerm then k else k.showTerminal t)

/-- Three private consoles, with the displayed and the scheduled terminal. -/
structure ThreeConsoles where
  shown : TermId
  scheduled : TermId
  console : TermId → PrivateConsole

namespace ThreeConsoles

/-- The bytes that an event sends to the console of terminal `t`. -/
def sentTo (v : ThreeConsoles) (t : TermId) : ScreenEvent → List UInt8
  | .echo char => if t = v.shown then [char] else []
  | .enter => if t = v.shown then [0x0A] else []
  | .write buffer => if t = v.scheduled then buffer.text else []
  | .schedule _ => []
  | .display _ => []

/-- Every console outputs the bytes sent to it and nothing else. -/
def step (v : ThreeConsoles) (event : ScreenEvent) : ThreeConsoles where
  shown := match event with
    | .display t => t
    | _ => v.shown
  scheduled := match event with
    | .schedule t => t
    | _ => v.scheduled
  console := fun t => (v.sentTo t event).foldl put (v.console t)

/-- Blank consoles, with terminal 0 displayed. -/
def initial (scheduled : TermId) : ThreeConsoles where
  shown := 0
  scheduled := scheduled
  console := fun _ => blank

end ThreeConsoles

/-- The cursor and text buffer that hold the console of a terminal. -/
def Kernel.displayOf (k : Kernel) (t : TermId) : Display :=
  if t = k.curTerm then k.console.display else (k.terminal t).display

/-- The kernel holds the three consoles, each in its terminal's colour. -/
structure Kernel.Holds (k : Kernel) (v : ThreeConsoles) : Prop where
  shown : k.curTerm = v.shown
  scheduled : k.curActiveTerminal = v.scheduled
  console : ∀ t, (v.console t).ShownBy (attributeTable t) (k.displayOf t)

namespace Kernel.Holds

variable {k : Kernel} {v : ThreeConsoles}

/-- Changing the console of one terminal and its display together. -/
theorem update {k' : Kernel} (holds : k.Holds v) (t : TermId) (c : PrivateConsole)
    (shownEq : k'.curTerm = k.curTerm)
    (scheduledEq : k'.curActiveTerminal = k.curActiveTerminal)
    (changed : c.ShownBy (attributeTable t) (k'.displayOf t))
    (others : ∀ u, u ≠ t → k'.displayOf u = k.displayOf u) :
    k'.Holds { v with console := Function.update v.console t c } where
  shown := shownEq.trans holds.shown
  scheduled := scheduledEq.trans holds.scheduled
  console := by
    intro u
    by_cases same : u = t
    · subst u
      simpa using changed
    · simpa [same, others u same] using holds.console u

theorem displayed (holds : k.Holds v) :
    (v.console k.curTerm).ShownBy (attributeTable k.curTerm) k.console.display := by
  simpa [displayOf] using holds.console k.curTerm

/-- `putc` outputs to the console of the displayed terminal. -/
theorem putc (holds : k.Holds v) (char : UInt8) :
    (k.putc char).Holds
      { v with console :=
          Function.update v.console v.shown ((v.console v.shown).put char) } := by
  obtain ⟨shown, scheduled, console⟩ := v
  obtain rfl : k.curTerm = shown := holds.shown
  refine holds.update k.curTerm _ rfl rfl ?_ fun u differs => ?_
  · simpa [displayOf, Kernel.putc] using Console.putc_shows holds.displayed char
  · simp [displayOf, Kernel.putc, differs]

/-- `enter` starts a new row on the console of the displayed terminal. -/
theorem enter (holds : k.Holds v) :
    Kernel.Holds { k with console := k.console.enter }
      { v with console :=
          Function.update v.console v.shown ((v.console v.shown).put 0x0A) } := by
  obtain ⟨shown, scheduled, console⟩ := v
  obtain rfl : k.curTerm = shown := holds.shown
  refine holds.update k.curTerm _ rfl rfl ?_ fun u differs => ?_
  · simp only [displayOf, if_true, Console.display_enter]
    exact holds.displayed.nextRow
  · simp [displayOf, differs]

/-- `putc_terminal_active` outputs to the console of the scheduled terminal, when
it is not the displayed one. -/
theorem putcTerminalActive (holds : k.Holds v) (hidden : v.scheduled ≠ v.shown)
    (char : UInt8) :
    (k.putcTerminalActive char).Holds
      { v with console :=
          Function.update v.console v.scheduled ((v.console v.scheduled).put char) } := by
  obtain ⟨shown, scheduled, console⟩ := v
  obtain rfl : k.curTerm = shown := holds.shown
  obtain rfl : k.curActiveTerminal = scheduled := holds.scheduled
  have shownRecord : (console k.curActiveTerminal).ShownBy
      (attributeTable k.curActiveTerminal) (k.terminal k.curActiveTerminal).display := by
    simpa [displayOf, hidden] using holds.console k.curActiveTerminal
  have written := Term.putcTerminalActive_shows shownRecord char
  -- the attribute byte stored at the displayed cursor is the one already there
  have colour := Screen.setAttr_eq holds.displayed.colour k.console.screenY k.console.screenX
  simp only [Console.display] at colour
  unfold Kernel.putcTerminalActive
  by_cases ends : char = 0x0A ∨ char = 0x0D
  · rw [if_pos ends] at written ⊢
    refine holds.update k.curActiveTerminal _ rfl rfl ?_ fun u differs => ?_
    · simpa [displayOf, modifyTerm, hidden] using written
    · simp [displayOf, modifyTerm, differs]
  · rw [if_neg ends] at written ⊢
    refine holds.update k.curActiveTerminal _ rfl rfl ?_ fun u differs => ?_
    · simpa [displayOf, modifyTerm, hidden, colour] using written
    · simp [displayOf, modifyTerm, differs, colour]

/-- Output of a string, one byte after the other, to one console. -/
theorem foldl_output (t : ThreeConsoles → TermId) (allowed : ThreeConsoles → Prop)
    {output : Kernel → UInt8 → Kernel}
    (terminalKept : ∀ v console, t { v with console := console } = t v)
    (allowedKept : ∀ v console, allowed v → allowed { v with console := console })
    (byte : ∀ k v char, k.Holds v → allowed v → (output k char).Holds
      { v with console := Function.update v.console (t v) ((v.console (t v)).put char) })
    (holds : k.Holds v) (allows : allowed v) (text : List UInt8) :
    (text.foldl output k).Holds
      { v with console :=
          Function.update v.console (t v) (text.foldl put (v.console (t v))) } := by
  induction text generalizing k v with
  | nil => simpa using holds
  | cons char text ih =>
      have rest := ih (byte k v char holds allows) (allowedKept _ _ allows)
      simpa [terminalKept] using rest

theorem puts (holds : k.Holds v) (text : List UInt8) :
    (k.puts text).Holds
      { v with console :=
          Function.update v.console v.shown (text.foldl put (v.console v.shown)) } :=
  foldl_output ThreeConsoles.shown (fun _ => True) (fun _ _ => rfl)
    (fun _ _ _ => trivial) (fun _ _ char holds _ => holds.putc char) holds trivial text

theorem putsTerminalActive (holds : k.Holds v) (hidden : v.scheduled ≠ v.shown)
    (text : List UInt8) :
    (k.putsTerminalActive text).Holds
      { v with console :=
          Function.update v.console v.scheduled (text.foldl put (v.console v.scheduled)) } :=
  foldl_output ThreeConsoles.scheduled (fun v => v.scheduled ≠ v.shown)
    (fun _ _ => rfl) (fun _ _ hidden => hidden)
    (fun _ _ char holds hidden => holds.putcTerminalActive hidden char) holds hidden text

/-- `save_restore` of the old and the new terminal moves the displays along with
the displayed terminal. -/
theorem showTerminal (holds : k.Holds v) {t : TermId} (differs : t ≠ k.curTerm) :
    (k.showTerminal t).Holds { v with shown := t } where
  shown := rfl
  scheduled := holds.scheduled
  console := by
    intro u
    have before := holds.console u
    have restored : (k.showTerminal t).console.display = (k.terminal t).display := by
      simp only [Kernel.showTerminal, switchHelper, saveRestore, if_true,
        Nat.one_ne_zero, if_false]
      rw [Console.setScreenPos_of_lt _ (Fin.isLt _) (Fin.isLt _)]
      simp [Console.display, Term.display, modifyTerm, differs]
    by_cases shown : u = t
    · subst u
      simpa [displayOf, differs, restored, show (k.showTerminal t).curTerm = t from rfl]
        using before
    · have kept : (k.showTerminal t).terminal u = if u = k.curTerm then
          { k.terminal u with
            posX := k.console.screenX
            posY := k.console.screenY
            keyBufferIdx := k.keyboard.keyBufferIdx
            videoMem := k.console.video } else k.terminal u := by
        by_cases old : u = k.curTerm
        · subst u
          simp [Kernel.showTerminal, switchHelper, saveRestore, modifyTerm]
        · simp [Kernel.showTerminal, switchHelper, saveRestore, modifyTerm, old]
      by_cases old : u = k.curTerm
      · subst u
        simpa [displayOf, differs.symm, kept, Term.display, Console.display,
          show (k.showTerminal t).curTerm = t from rfl] using before
      · simpa [displayOf, shown, kept, old, show (k.showTerminal t).curTerm = t from rfl]
          using before

end Kernel.Holds

/-- The cursor in the first cell of a blank buffer. -/
def blankDisplay (attr : UInt8) : Display :=
  { x := 0, y := 0, screen := fun _ _ => { char := 0x20, attr := attr } }

/-- `init_terminal` shows the blank buffer of terminal 0. -/
theorem Kernel.initTerminals_console (k : Kernel) :
    k.initTerminals.console.display = blankDisplay (attributeTable 0) := by
  simp only [initTerminals, saveRestore, Nat.one_ne_zero, if_false]
  rw [Console.setScreenPos_of_lt _ (Fin.isLt _) (Fin.isLt _)]
  rfl

/-- `init_terminal` keeps a blank buffer for every terminal. -/
theorem Kernel.initTerminals_terminal (k : Kernel) (t : TermId) :
    (k.initTerminals.terminal t).display = blankDisplay (attributeTable t) := by
  match t with
  | 0 => rfl
  | 1 => rfl
  | 2 => rfl

/-- `init_terminal` leaves three blank consoles. -/
theorem Kernel.initTerminals_holds (k : Kernel) :
    k.initTerminals.Holds (ThreeConsoles.initial k.curActiveTerminal) where
  shown := rfl
  scheduled := rfl
  console := by
    intro t
    have display : k.initTerminals.displayOf t = blankDisplay (attributeTable t) := by
      unfold displayOf
      split
      · rename_i shown
        rw [shown]
        exact k.initTerminals_console
      · exact k.initTerminals_terminal t
    rw [display]
    exact ⟨rfl, rfl, fun _ _ => rfl⟩

namespace ThreeConsoles

/-- Sending bytes to one console leaves the other two as they are. -/
theorem step_eq_update (v : ThreeConsoles) (t : TermId) (text : List UInt8) :
    (fun u => (if u = t then text else []).foldl put (v.console u)) =
      Function.update v.console t (text.foldl put (v.console t)) := by
  funext u
  by_cases same : u = t
  · subst u
    simp
  · simp [same]

end ThreeConsoles

/-- Every screen event of the kernel is the step of the three consoles. -/
theorem Kernel.screenStep_simulates (k : Kernel) (v : ThreeConsoles) (event : ScreenEvent)
    (holds : k.Holds v) : ∃ k', k.screenStep event = some k' ∧ k'.Holds (v.step event) := by
  cases event with
  | echo char =>
      refine ⟨_, rfl, ?_⟩
      have next := holds.putc char
      simpa only [ThreeConsoles.step, ThreeConsoles.sentTo, ThreeConsoles.step_eq_update,
        List.foldl_cons, List.foldl_nil] using next
  | enter =>
      refine ⟨_, rfl, ?_⟩
      have next := holds.enter
      simpa only [ThreeConsoles.step, ThreeConsoles.sentTo, ThreeConsoles.step_eq_update,
        List.foldl_cons, List.foldl_nil] using next
  | write buffer =>
      simp only [ThreeConsoles.step, ThreeConsoles.sentTo, ThreeConsoles.step_eq_update]
      by_cases displayed : k.curTerm = k.curActiveTerminal
      · refine ⟨k.puts buffer.text, ?_, ?_⟩
        · simp [screenStep, terminalWrite, displayed, printf_plain k buffer.args buffer.plain]
        · have same : v.scheduled = v.shown := by
            rw [← holds.shown, ← holds.scheduled, displayed]
          rw [same]
          simpa [same] using holds.puts buffer.text
      · have hidden : v.scheduled ≠ v.shown := by
          rw [← holds.shown, ← holds.scheduled]
          exact fun same => displayed same.symm
        refine ⟨k.putsTerminalActive buffer.text, ?_, holds.putsTerminalActive hidden _⟩
        simp [screenStep, terminalWrite, displayed,
          printfTerminalActive_plain k buffer.args buffer.plain]
  | schedule t => exact ⟨_, rfl, holds.shown, rfl, holds.console⟩
  | display t =>
      refine ⟨_, rfl, ?_⟩
      by_cases same : t = k.curTerm
      · rw [if_pos same, same]
        exact ⟨rfl, holds.scheduled, holds.console⟩
      · rw [if_neg same]
        exact holds.showTerminal same

/-- Three consoles on one screen: from the state that `init_terminal` leaves, every
sequence of echoes, writes, schedulings and switches is defined and leaves the
kernel holding the three private consoles that received the same output. -/
theorem threeConsoles_simulation (k : Kernel) (events : List ScreenEvent) :
    ∃ final, run Kernel.screenStep k.initTerminals events = some final ∧
      final.Holds (events.foldl ThreeConsoles.step (ThreeConsoles.initial k.curActiveTerminal)) :=
  run_simulation Kernel.screenStep_simulates k.initTerminals_holds events

end Ece391Os
