import Ece391Os.Console.ScreenBytes

/-!
# The cursor stays on the screen

The cursor routines over machine integers refine those over cursors that are in range
by their type: from a state that represents a kernel state each call returns, within a
fixed depth of calls, a state that represents the one the kernel goes to.  So every
cursor stays on the screen and every store within its buffer.
-/

namespace Ece391Os

open Memory Transition

namespace RawCursor

/-! ## What the routines return -/

section Results

variable (c : RawCursor) (depth : Nat) {x y : UInt32}

theorem setScreenPos_of_lt (hx : x < 80) (hy : y < 25) :
    setScreenPos (depth + 1) c x y =
      some { c with screenX := x.toInt32, screenY := y.toInt32 } := by
  rw [setScreenPos, if_pos hx, if_pos hy]

/-- `scroll_up` returns because the row of the cursor is in range. -/
theorem scrollUp_eq (row : c.screenY.toUInt32 < 25) :
    scrollUp (depth + 3) c =
      some { c with screenX := 0, memory := moveRows .video c.memory } := by
  rw [scrollUp, setScreenX, setScreenPos_of_lt _ _ (by decide) row]
  rfl

theorem setScreenPos_of_le (row : c.screenY.toUInt32 < 25) (hx : x < 80) (hy : 25 ≤ y) :
    setScreenPos (depth + 4) c x y =
      some { c with screenX := 0, screenY := 24, memory := moveRows .video c.memory } := by
  rw [setScreenPos, if_pos hx, if_neg (UInt32.not_lt.mpr hy), scrollUp_eq _ _ (by exact row)]
  rfl

theorem setScreenPosTermExec_of_lt (hx : x < 80) (hy : y < 25) :
    setScreenPosTermExec (depth + 1) c x y =
      some { c with
        posX := Function.update c.posX c.curActiveTerminal x
        posY := Function.update c.posY c.curActiveTerminal y } := by
  rw [setScreenPosTermExec, if_pos hx, if_pos hy]

theorem scrollUpTermExec_eq (row : c.posY c.curActiveTerminal < 25) :
    scrollUpTermExec (depth + 2) c =
      some { c with
        posX := Function.update c.posX c.curActiveTerminal 0
        memory := moveRows (.saved c.curActiveTerminal) c.memory } := by
  rw [scrollUpTermExec]
  dsimp only
  rw [setScreenPosTermExec_of_lt _ _ (by decide) row]
  simp only [Function.update_eq_self]

theorem setScreenPosTermExec_of_le (row : c.posY c.curActiveTerminal < 25) (hx : x < 80)
    (hy : 25 ≤ y) :
    setScreenPosTermExec (depth + 3) c x y =
      some { c with
        posX := Function.update c.posX c.curActiveTerminal 0
        posY := Function.update c.posY c.curActiveTerminal 24
        memory := moveRows (.saved c.curActiveTerminal) c.memory } := by
  rw [setScreenPosTermExec, if_pos hx, if_neg (UInt32.not_lt.mpr hy),
    scrollUpTermExec_eq _ _ (by exact row)]
  simp only [Option.map_some, Function.update_idem]

end Results

end RawCursor

/-! ## The state that a kernel state is represented by -/

/-- The screens in the text buffers of a kernel state. -/
def Kernel.screens (k : Kernel) : TextBuffer → Screen
  | .video => k.console.video
  | .saved t => (k.terminal t).videoMem

theorem Kernel.screens_console (k : Kernel) (console : Console) :
    Kernel.screens { k with console := console } =
      Function.update k.screens .video console.video := by
  funext buffer
  cases buffer with
  | video => rw [Function.update_self]; rfl
  | saved t => rw [Function.update_of_ne (by simp)]; rfl

theorem Kernel.screens_modifyTerm (k : Kernel) (t : TermId) (change : Term → Term) :
    (k.modifyTerm t change).screens =
      Function.update k.screens (.saved t) (change (k.terminal t)).videoMem := by
  funext buffer
  cases buffer with
  | video => rw [Function.update_of_ne (by simp)]; rfl
  | saved u =>
      have saved := congrFun (field_modifyTerm Term.videoMem k t change) u
      rw [screens, saved, Function.update_apply, Function.update_apply]
      simp only [TextBuffer.saved.injEq]
      rfl

/-- The variables and the memory have the values that a kernel state stands for. -/
structure RawCursor.Represents (c : RawCursor) (k : Kernel) : Prop where
  screenX : c.screenX = Int32.ofNat k.console.screenX
  screenY : c.screenY = Int32.ofNat k.console.screenY
  posX : ∀ t, c.posX t = UInt32.ofNat (k.terminal t).posX
  posY : ∀ t, c.posY t = UInt32.ofNat (k.terminal t).posY
  curTerm : c.curTerm = k.curTerm
  curActiveTerminal : c.curActiveTerminal = k.curActiveTerminal
  memory : HoldsScreens c.memory k.screens

/-- Calls to every depth from some depth on return one state, and it represents `k`. -/
def ReturnsFrom (least : Nat) (routine : Nat → Option RawCursor) (k : Kernel) : Prop :=
  ∃ c : RawCursor, (∀ depth, routine (depth + least) = some c) ∧ c.Represents k

theorem ReturnsFrom.mono {least more : Nat} {routine : Nat → Option RawCursor} {k : Kernel}
    (returns : ReturnsFrom least routine k) (le : least ≤ more) :
    ReturnsFrom more routine k := by
  obtain ⟨c, result, represents⟩ := returns
  refine ⟨c, fun depth => ?_, represents⟩
  have deeper := result (depth + (more - least))
  rwa [Nat.add_assoc, Nat.sub_add_cancel le] at deeper

/-- An assignment behind a call. -/
theorem ReturnsFrom.map {least : Nat} {routine : Nat → Option RawCursor} {k k' : Kernel}
    (returns : ReturnsFrom least routine k) {assign : RawCursor → RawCursor}
    (assigned : ∀ c : RawCursor, c.Represents k → (assign c).Represents k') :
    ReturnsFrom least (fun depth => (routine depth).map assign) k' := by
  obtain ⟨c, result, represents⟩ := returns
  exact ⟨assign c, fun depth => congrArg (Option.map assign) (result depth), assigned c represents⟩

/-! ## Coordinates as machine integers -/

theorem toNat_ofNat_fin {n : Nat} (small : n ≤ 2 ^ 32) (i : Fin n) :
    (UInt32.ofNat i).toNat = i :=
  UInt32.toNat_ofNat_of_lt' (Nat.lt_of_lt_of_le i.isLt small)

/-- The next coordinate does not wrap. -/
theorem toNat_ofNat_succ {n : Nat} (small : n < 2 ^ 32) (i : Fin n) :
    (UInt32.ofNat i + 1).toNat = i + 1 := by
  have inRange := i.isLt
  rw [UInt32.toNat_add, toNat_ofNat_fin (Nat.le_of_lt small)]
  exact Nat.mod_eq_of_lt (by simp only [UInt32.reduceToNat]; omega)

theorem ofNat_toNat_int (x : UInt32) : Int32.ofNat x.toNat = x.toInt32 :=
  congrArg UInt32.toInt32 UInt32.ofNat_toNat

/-- The offset of a cell in `int` arithmetic does not overflow. -/
theorem toInt_cellOffset (row : Fin 25) (col : Fin 80) :
    ((80 * Int32.ofNat row + Int32.ofNat col) <<< 1).toInt =
      ((80 * row.val + col.val) * 2 : Nat) := by
  have index : 80 * Int32.ofNat row + Int32.ofNat col = Int32.ofNat (80 * row.val + col.val) := by
    rw [Int32.ofNat_add, Int32.ofNat_mul]
    rfl
  have doubled (n : Nat) : Int32.ofNat n <<< 1 = Int32.ofNat (n * 2) := by
    apply Int32.toBitVec.inj
    have one : (BitVec.ofNat 32 1).smod 32#32 = 1#32 := by decide
    rw [Int32.toBitVec_shiftLeft]
    change BitVec.ofNat 32 n <<< (BitVec.ofNat 32 1).smod 32#32 = BitVec.ofNat 32 (n * 2)
    rw [one]
    apply BitVec.eq_of_toNat_eq
    simp [Nat.shiftLeft_eq]
  rw [index, doubled, Int32.toInt_ofNat_of_lt (by omega)]

/-- Nor does it in unsigned arithmetic. -/
theorem toNat_cellOffset (row : Fin 25) (col : Fin 80) :
    ((80 * UInt32.ofNat row + UInt32.ofNat col) <<< 1).toNat = (80 * row.val + col.val) * 2 := by
  have index : (80 * row.val + col.val) * 2 < 2 ^ 32 := by omega
  simpa [UInt32.toNat_shiftLeft, Nat.shiftLeft_eq] using index

namespace RawCursor.Represents

variable {c : RawCursor} {k : Kernel}

/-- Assigning the displayed cursor and changing video memory. -/
theorem setConsole (represents : c.Represents k) (console : Console) {m : Logged TextAddress}
    (memory : HoldsScreens m (Function.update k.screens .video console.video)) :
    Represents
      { c with
        screenX := Int32.ofNat console.screenX
        screenY := Int32.ofNat console.screenY
        memory := m }
      { k with console := console } where
  screenX := rfl
  screenY := rfl
  posX := represents.posX
  posY := represents.posY
  curTerm := represents.curTerm
  curActiveTerminal := represents.curActiveTerminal
  memory := by
    rw [Kernel.screens_console]
    exact memory

/-- Assigning the cursor of a terminal and changing its buffer. -/
theorem setTerm (represents : c.Represents k) (t : TermId) (assign : Term → Term)
    {x y : UInt32} (posX : x = UInt32.ofNat (assign (k.terminal t)).posX)
    (posY : y = UInt32.ofNat (assign (k.terminal t)).posY) {m : Logged TextAddress}
    (memory : HoldsScreens m
      (Function.update k.screens (.saved t) (assign (k.terminal t)).videoMem)) :
    Represents
      { c with
        posX := Function.update c.posX t x
        posY := Function.update c.posY t y
        memory := m }
      (k.modifyTerm t assign) where
  screenX := represents.screenX
  screenY := represents.screenY
  posX := by
    rw [posX, funext represents.posX]
    exact fun u => (congrFun (Kernel.field_modifyTerm
      (fun term => UInt32.ofNat term.posX) k t assign) u).symm
  posY := by
    rw [posY, funext represents.posY]
    exact fun u => (congrFun (Kernel.field_modifyTerm
      (fun term => UInt32.ofNat term.posY) k t assign) u).symm
  curTerm := represents.curTerm
  curActiveTerminal := represents.curActiveTerminal
  memory := by
    rw [Kernel.screens_modifyTerm]
    exact memory

/-- The displayed cursor, as unsigned arguments. -/
theorem toNat_screenX (represents : c.Represents k) :
    c.screenX.toUInt32.toNat = k.console.screenX := by
  rw [represents.screenX]
  exact toNat_ofNat_fin (by decide) k.console.screenX

theorem toNat_screenY (represents : c.Represents k) :
    c.screenY.toUInt32.toNat = k.console.screenY := by
  rw [represents.screenY]
  exact toNat_ofNat_fin (by decide) k.console.screenY

theorem toNat_posX (represents : c.Represents k) (t : TermId) :
    (c.posX t).toNat = (k.terminal t).posX := by
  rw [represents.posX]
  exact toNat_ofNat_fin (by decide) (k.terminal t).posX

theorem toNat_posY (represents : c.Represents k) (t : TermId) :
    (c.posY t).toNat = (k.terminal t).posY := by
  rw [represents.posY]
  exact toNat_ofNat_fin (by decide) (k.terminal t).posY

/-- The row of the displayed cursor is in range, so scrolling ends. -/
theorem row (represents : c.Represents k) : c.screenY.toUInt32 < 25 := by
  rw [UInt32.lt_iff_toNat_lt, represents.toNat_screenY]
  exact k.console.screenY.isLt

theorem termRow (represents : c.Represents k) (t : TermId) : c.posY t < 25 := by
  rw [UInt32.lt_iff_toNat_lt, represents.toNat_posY]
  exact (k.terminal t).posY.isLt

/-! ## The displayed terminal -/

/-- `set_screen_pos` to a cell on the screen. -/
theorem setScreenPos_cell (represents : c.Represents k) {x y : UInt32} (hx : x < 80)
    (hy : y < 25) :
    ReturnsFrom 1 (RawCursor.setScreenPos · c x y)
      { k with console := k.console.setScreenPos x.toNat y.toNat } := by
  have column := UInt32.lt_iff_toNat_lt.mp hx
  have row := UInt32.lt_iff_toNat_lt.mp hy
  rw [Console.setScreenPos_of_lt _ column row]
  refine ⟨_, fun depth => setScreenPos_of_lt c depth hx hy, ?_⟩
  have kept : HoldsScreens c.memory (Function.update k.screens .video k.console.video) := by
    have same : Function.update k.screens .video k.console.video = k.screens :=
      Function.update_eq_self _ _
    rw [same]
    exact represents.memory
  have moved := represents.setConsole
    { k.console with screenX := ⟨x.toNat, column⟩, screenY := ⟨y.toNat, row⟩ } kept
  rwa [ofNat_toNat_int, ofNat_toNat_int] at moved

/-- `set_screen_pos` in a column on the screen. -/
theorem setScreenPos_column (represents : c.Represents k) {x : UInt32} (y : UInt32)
    (hx : x < 80) :
    ReturnsFrom 4 (RawCursor.setScreenPos · c x y)
      { k with console := k.console.setScreenPos x.toNat y.toNat } := by
  by_cases hy : y < 25
  · exact (represents.setScreenPos_cell hx hy).mono (by decide)
  · have below : 25 ≤ y := UInt32.not_lt.mp hy
    rw [Console.setScreenPos_of_le _ (UInt32.lt_iff_toNat_lt.mp hx)
      (UInt32.le_iff_toNat_le.mp below)]
    refine ⟨_, fun depth => setScreenPos_of_le c depth represents.row hx below, ?_⟩
    exact represents.setConsole ⟨0, 24, k.console.video.moveRowsUp⟩
      (represents.memory.moveRows .video)

theorem enter (represents : c.Represents k) :
    ReturnsFrom 5 (RawCursor.enter · c) { k with console := k.console.enter } := by
  obtain ⟨c', result, represented⟩ :=
    represents.setScreenPos_column (x := 0) (c.screenY + 1).toUInt32 (by decide)
  refine ⟨c', result, ?_⟩
  have next : (c.screenY + 1).toUInt32.toNat = k.console.screenY + 1 := by
    rw [represents.screenY]
    exact toNat_ofNat_succ (by decide) k.console.screenY
  rwa [next, show (0 : UInt32).toNat = 0 from rfl, ← Console.enter] at represented

theorem setScreenPos (represents : c.Represents k) (x y : UInt32) :
    ReturnsFrom 6 (RawCursor.setScreenPos · c x y)
      { k with console := k.console.setScreenPos x.toNat y.toNat } := by
  by_cases hx : x < 80
  · exact (represents.setScreenPos_column y hx).mono (by decide)
  · have right : 80 ≤ x := UInt32.not_lt.mp hx
    rw [Console.setScreenPos_enter _ _ (UInt32.le_iff_toNat_le.mp right)]
    obtain ⟨c', result, represented⟩ := represents.enter
    refine ⟨c', fun depth => ?_, represented⟩
    change RawCursor.setScreenPos (depth + 5 + 1) c x y = some c'
    rw [RawCursor.setScreenPos, if_neg hx]
    exact result depth

theorem setScreenX (represents : c.Represents k) (x : UInt32) :
    ReturnsFrom 7 (RawCursor.setScreenX · c x)
      { k with console := k.console.setScreenX x.toNat } := by
  obtain ⟨c', result, represented⟩ := represents.setScreenPos x c.screenY.toUInt32
  refine ⟨c', result, ?_⟩
  rwa [represents.toNat_screenY, ← Console.setScreenX] at represented

theorem setScreenY (represents : c.Represents k) (y : UInt32) :
    ReturnsFrom 6 (RawCursor.setScreenY · c y)
      { k with console := k.console.setScreenY y.toNat } := by
  have moved := represents.setScreenPos c.screenX.toUInt32 y
  rwa [represents.toNat_screenX] at moved

theorem scrollUp (represents : c.Represents k) :
    ReturnsFrom 3 (RawCursor.scrollUp · c) { k with console := k.console.scrollUp } := by
  refine ⟨_, fun depth => scrollUp_eq c depth represents.row, ?_⟩
  rw [Console.scrollUp_eq]
  have scrolled := represents.setConsole { k.console with
    screenX := 0, video := k.console.video.moveRowsUp } (represents.memory.moveRows .video)
  rwa [← represents.screenY] at scrolled

/-! ## Output to the displayed terminal -/

theorem screenAddress_eq (represents : c.Represents k) :
    c.screenAddress = (.video, lineOffset k.console.screenY k.console.screenX) := by
  unfold screenAddress lineOffset
  rw [represents.screenX, represents.screenY]
  congr 1
  exact toInt_cellOffset _ _

/-- Changing video memory and no cursor. -/
theorem setVideo (represents : c.Represents k) {video : Screen} {m : Logged TextAddress}
    (memory : HoldsScreens m (Function.update k.screens .video video)) :
    Represents { c with memory := m } { k with console := { k.console with video := video } } := by
  have written := represents.setConsole { k.console with video := video } memory
  rwa [← represents.screenX, ← represents.screenY] at written

/-- Storing the colour of the displayed terminal at the displayed cursor. -/
theorem storeAttr (represents : c.Represents k) :
    Represents (c.store (behind c.screenAddress) (attributeTable c.curTerm))
      { k with console := { k.console with
        video := k.console.video.setAttr k.console.screenY k.console.screenX
          (attributeTable k.curTerm) } } := by
  rw [represents.screenAddress_eq, represents.curTerm]
  exact represents.setVideo (represents.memory.storeAttr .video _ _ _)

/-- Storing a character at the displayed cursor in the colour of the displayed terminal. -/
theorem storeCell (represents : c.Represents k) (char : UInt8) :
    Represents
      ((c.store c.screenAddress char).store (behind c.screenAddress) (attributeTable c.curTerm))
      { k with console := { k.console with
        video := (k.console.video.setChar k.console.screenY k.console.screenX char).setAttr
          k.console.screenY k.console.screenX (attributeTable k.curTerm) } } := by
  have stored : Represents (c.store c.screenAddress char) { k with console := { k.console with
      video := k.console.video.setChar k.console.screenY k.console.screenX char } } := by
    rw [represents.screenAddress_eq]
    exact represents.setVideo (represents.memory.storeChar .video _ _ _)
  exact stored.storeAttr

theorem putc (represents : c.Represents k) (char : UInt8) :
    ReturnsFrom 6 (RawCursor.putc · c char) (k.putc char) := by
  unfold RawCursor.putc Kernel.putc Console.putc
  by_cases ends : char = 0x0A ∨ char = 0x0D
  · simp only [if_pos ends]
    exact represents.enter.mono (by decide)
  · simp only [if_neg ends]
    have moved := (represents.storeCell char).setScreenPos
      (c.screenX + 1).toUInt32 c.screenY.toUInt32
    have column : (c.screenX + 1).toUInt32.toNat = k.console.screenX + 1 := by
      rw [represents.screenX]
      exact toNat_ofNat_succ (by decide) k.console.screenX
    rw [column, represents.toNat_screenY] at moved
    exact moved

/-- Whether the displayed cursor is in the first column. -/
theorem screenX_eq_zero_iff (represents : c.Represents k) :
    c.screenX = 0 ↔ k.console.screenX = 0 := by
  rw [represents.screenX]
  constructor
  · intro zero
    have value := congrArg Int32.toInt zero
    rw [Int32.toInt_ofNat_of_lt (by omega)] at value
    exact Fin.ext (Int.ofNat_inj.mp value)
  · intro zero
    rw [zero]
    rfl

/-- The previous row, which wraps in the first one. -/
theorem toNat_screenY_pred (represents : c.Represents k) :
    (c.screenY - 1).toUInt32.toNat = (k.console.screenY + (2 ^ 32 - 1)) % 2 ^ 32 := by
  rw [Int32.toUInt32_sub, UInt32.toNat_sub, represents.toNat_screenY, Nat.add_comm]
  rfl

theorem toNat_screenX_pred (represents : c.Represents k) (inside : k.console.screenX ≠ 0) :
    (c.screenX - 1).toUInt32.toNat = k.console.screenX - 1 := by
  have positive : 0 < k.console.screenX.val := Nat.pos_of_ne_zero fun zero => inside (Fin.ext zero)
  have one : (1 : Int32).toUInt32.toNat = 1 := rfl
  rw [Int32.toUInt32_sub, UInt32.toNat_sub, represents.toNat_screenX, one]
  omega

theorem backspace (represents : c.Represents k) :
    ReturnsFrom 7 (RawCursor.backspace · c)
      { k with console := k.console.backspace (attributeTable k.curTerm) } := by
  unfold RawCursor.backspace Console.backspace
  by_cases first : k.console.screenX = 0
  · have zero := represents.screenX_eq_zero_iff.mpr first
    have moved := (represents.setScreenPos 79 (c.screenY - 1).toUInt32).mono (by decide : 6 ≤ 7)
    rw [represents.toNat_screenY_pred] at moved
    simp only [if_pos zero, if_pos first]
    exact moved.map fun c' represented => represented.storeCell 0x20
  · have inside := mt represents.screenX_eq_zero_iff.mp first
    have moved := represents.setScreenX (c.screenX - 1).toUInt32
    rw [represents.toNat_screenX_pred first] at moved
    simp only [if_neg inside, if_neg first]
    exact moved.map fun c' represented => represented.storeCell 0x20

/-! ## The scheduled terminal -/

/-- `set_screen_pos_term_exec` in a column on the screen. -/
theorem setScreenPosTermExec_column (represents : c.Represents k) {x : UInt32} (y : UInt32)
    (hx : x < 80) :
    ReturnsFrom 3 (RawCursor.setScreenPosTermExec · c x y)
      (k.modifyTerm k.curActiveTerminal fun t => t.setScreenPosTermExec x.toNat y.toNat) := by
  have column := UInt32.lt_iff_toNat_lt.mp hx
  by_cases hy : y < 25
  · have row := UInt32.lt_iff_toNat_lt.mp hy
    refine ⟨_, fun depth => setScreenPosTermExec_of_lt c (depth + 2) hx hy, ?_⟩
    rw [← represents.curActiveTerminal]
    apply represents.setTerm
    · rw [Term.setScreenPosTermExec_of_lt _ column row]
      exact UInt32.ofNat_toNat.symm
    · rw [Term.setScreenPosTermExec_of_lt _ column row]
      exact UInt32.ofNat_toNat.symm
    · rw [Term.setScreenPosTermExec_of_lt _ column row]
      have same : Function.update k.screens (.saved c.curActiveTerminal)
          (k.terminal c.curActiveTerminal).videoMem = k.screens := Function.update_eq_self _ _
      rw [same]
      exact represents.memory
  · have below : 25 ≤ y := UInt32.not_lt.mp hy
    have bottom := UInt32.le_iff_toNat_le.mp below
    refine ⟨_, fun depth => setScreenPosTermExec_of_le c depth (represents.termRow _) hx below, ?_⟩
    rw [← represents.curActiveTerminal]
    apply represents.setTerm
    · rw [Term.setScreenPosTermExec_of_le _ column bottom]
      rfl
    · rw [Term.setScreenPosTermExec_of_le _ column bottom]
      rfl
    · rw [Term.setScreenPosTermExec_of_le _ column bottom]
      exact represents.memory.moveRows (.saved c.curActiveTerminal)

theorem enterTermExec (represents : c.Represents k) :
    ReturnsFrom 4 (RawCursor.enterTermExec · c)
      (k.modifyTerm k.curActiveTerminal Term.enterTermExec) := by
  obtain ⟨c', result, represented⟩ := represents.setScreenPosTermExec_column (x := 0)
    (c.posY c.curActiveTerminal + 1) (by decide)
  refine ⟨c', result, ?_⟩
  have next : (c.posY c.curActiveTerminal + 1).toNat =
      (k.terminal k.curActiveTerminal).posY + 1 := by
    rw [represents.posY, represents.curActiveTerminal]
    exact toNat_ofNat_succ (by decide) (k.terminal k.curActiveTerminal).posY
  rw [next] at represented
  have same : k.modifyTerm k.curActiveTerminal Term.enterTermExec =
      k.modifyTerm k.curActiveTerminal fun t =>
        t.setScreenPosTermExec 0 ((k.terminal k.curActiveTerminal).posY + 1) := by
    unfold Kernel.modifyTerm
    rw [Term.enterTermExec]
  rw [same]
  exact represented

theorem setScreenPosTermExec (represents : c.Represents k) (x y : UInt32) :
    ReturnsFrom 5 (RawCursor.setScreenPosTermExec · c x y)
      (k.modifyTerm k.curActiveTerminal fun t => t.setScreenPosTermExec x.toNat y.toNat) := by
  by_cases hx : x < 80
  · exact (represents.setScreenPosTermExec_column y hx).mono (by decide)
  · have right := UInt32.le_iff_toNat_le.mp (UInt32.not_lt.mp hx)
    obtain ⟨c', result, represented⟩ := represents.enterTermExec
    refine ⟨c', fun depth => ?_, ?_⟩
    · change RawCursor.setScreenPosTermExec (depth + 4 + 1) c x y = some c'
      rw [RawCursor.setScreenPosTermExec, if_neg hx]
      exact result depth
    · have same :
          (fun t : Term => t.setScreenPosTermExec x.toNat y.toNat) = Term.enterTermExec := by
        funext t
        exact Term.setScreenPosTermExec_enter t _ right
      rwa [same]

/-- Storing a character at the cursor of the scheduled terminal. -/
theorem storeTermChar (represents : c.Represents k) (char : UInt8) :
    Represents (c.store (c.termAddress c.curActiveTerminal) char)
      (k.modifyTerm k.curActiveTerminal fun t =>
        { t with videoMem := t.videoMem.setChar t.posY t.posX char }) := by
  have address : c.termAddress c.curActiveTerminal = (.saved k.curActiveTerminal, lineOffset
      (k.terminal k.curActiveTerminal).posY (k.terminal k.curActiveTerminal).posX) := by
    rw [represents.curActiveTerminal]
    unfold termAddress lineOffset
    rw [represents.posX, represents.posY, toNat_cellOffset]
  have stored := represents.setTerm k.curActiveTerminal
    (fun t => { t with videoMem := t.videoMem.setChar t.posY t.posX char })
    (represents.posX _) (represents.posY _)
    (represents.memory.storeChar (.saved k.curActiveTerminal) _ _ char)
  rw [Function.update_eq_self, Function.update_eq_self] at stored
  rw [address]
  exact stored

theorem putcTerminalActive (represents : c.Represents k) (char : UInt8) :
    ReturnsFrom 5 (RawCursor.putcTerminalActive · c char) (k.putcTerminalActive char) := by
  unfold RawCursor.putcTerminalActive Kernel.putcTerminalActive
  by_cases ends : char = 0x0A ∨ char = 0x0D
  · simp only [if_pos ends]
    exact represents.enterTermExec.mono (by decide)
  · simp only [if_neg ends]
    have moved := (represents.storeTermChar char).storeAttr.setScreenPosTermExec
      (c.posX c.curActiveTerminal + 1) (c.posY c.curActiveTerminal)
    have column : (c.posX c.curActiveTerminal + 1).toNat =
        (k.terminal k.curActiveTerminal).posX + 1 := by
      rw [represents.posX, represents.curActiveTerminal]
      exact toNat_ofNat_succ (by decide) (k.terminal k.curActiveTerminal).posX
    have row : (c.posY c.curActiveTerminal).toNat = (k.terminal k.curActiveTerminal).posY := by
      rw [represents.toNat_posY, represents.curActiveTerminal]
    rw [column, row] at moved
    unfold Kernel.modifyTerm at moved ⊢
    simp only [Function.update_self, Function.update_idem] at moved
    exact moved

/-! ## The three terminals -/

/-- Changing which terminals are displayed and scheduled, and what is no variable of the
cursor routines. -/
theorem select (represents : c.Represents k) {k' : Kernel} {shown scheduled : TermId}
    (console : k'.console = k.console) (terminal : k'.terminal = k.terminal)
    (shownEq : shown = k'.curTerm) (scheduledEq : scheduled = k'.curActiveTerminal) :
    Represents { c with curTerm := shown, curActiveTerminal := scheduled } k' where
  screenX := by
    rw [console]
    exact represents.screenX
  screenY := by
    rw [console]
    exact represents.screenY
  posX := by
    rw [terminal]
    exact represents.posX
  posY := by
    rw [terminal]
    exact represents.posY
  curTerm := shownEq
  curActiveTerminal := scheduledEq
  memory := by
    have same : k'.screens = k.screens := by
      funext buffer
      cases buffer with
      | video => exact congrArg Console.video console
      | saved t => exact congrArg (fun terminal => (terminal t).videoMem) terminal
    rw [same]
    exact represents.memory

theorem saveRestore (represents : c.Represents k) (t : TermId) (sOrR : UInt8) :
    ReturnsFrom 6 (RawCursor.saveRestore · c t sOrR) (k.saveRestore t sOrR.toNat) := by
  unfold RawCursor.saveRestore Kernel.saveRestore
  have zero : sOrR.toNat = 0 ↔ sOrR = 0 := UInt8.toNat_inj (b := 0)
  by_cases saves : sOrR = 0
  · simp only [if_pos saves, if_pos (zero.mpr saves)]
    refine ⟨_, fun _ => rfl, ?_⟩
    apply represents.setTerm
    · rw [represents.screenX]
      rfl
    · rw [represents.screenY]
      rfl
    · exact represents.memory.memcpyScreen (by simp)
  · simp only [if_neg saves, if_neg (mt zero.mp saves)]
    have moved := represents.setScreenPos (c.posX t) (c.posY t)
    rw [represents.toNat_posX, represents.toNat_posY] at moved
    apply moved.map
    intro c' represented
    have kept : c'.Represents { k with
        keyboard := { k.keyboard with keyBufferIdx := (k.terminal t).keyBufferIdx }
        console := k.console.setScreenPos (k.terminal t).posX (k.terminal t).posY } :=
      represented.select rfl rfl represented.curTerm represented.curActiveTerminal
    exact kept.setVideo (kept.memory.memcpyScreen (by simp : TextBuffer.saved t ≠ .video))

end RawCursor.Represents

/-! ## `init_terminal` -/

/-- Whatever bytes are in the buffers, they are those of some screens. -/
theorem holdsScreens_of_stores_eq_nil {m : Logged TextAddress} (fresh : m.stores = []) :
    ∃ screens, HoldsScreens m screens := by
  refine ⟨fun buffer row col =>
    { char := m.byte (buffer, lineOffset row col)
      attr := m.byte (buffer, lineOffset row col + 1) }, fun _ _ _ => rfl, fun _ _ _ => rfl, ?_⟩
  intro store member
  rw [fresh] at member
  exact absurd member (List.not_mem_nil)

/-- The variables with an empty log of stores. -/
def RawCursor.fresh (c : RawCursor) : RawCursor :=
  { c with memory := { c.memory with stores := [] } }

namespace RawCursor

/-- The loop of `init_terminal` over the three terminals. -/
def initTerms (c : RawCursor) : RawCursor :=
  ((c.initTerm 0).initTerm 1).initTerm 2

theorem initTerms_pos (c : RawCursor) (t : TermId) :
    c.initTerms.posX t = 0 ∧ c.initTerms.posY t = 0 := by
  match t with
  | 0 => exact ⟨rfl, rfl⟩
  | 1 => exact ⟨rfl, rfl⟩
  | 2 => exact ⟨rfl, rfl⟩

/-- The loop of `init_terminal` leaves blank buffers. -/
theorem initTerms_holds (c : RawCursor) (fresh : c.memory.stores = []) :
    ∃ screens, HoldsScreens c.initTerms.memory screens ∧
      ∀ t, screens (.saved t) = fun _ _ => { char := 0x20, attr := attributeTable t } := by
  obtain ⟨screens, holds⟩ := holdsScreens_of_stores_eq_nil fresh
  have cleared := ((holds.clearTerm 0).clearTerm 1).clearTerm 2
  have memory : c.initTerms.memory = clearTerm 2 (clearTerm 1 (clearTerm 0 c.memory)) := by
    simp only [initTerms, initTerm]
  rw [← memory] at cleared
  refine ⟨_, cleared, fun t => ?_⟩
  match t with
  | 0 => simp
  | 1 => simp
  | 2 => simp

/-- `init_terminal` returns whatever the variables contained. -/
theorem initTerminals_eq (c : RawCursor) (depth : Nat) :
    initTerminals (depth + 1) c =
      some { c.initTerms with
        screenX := 0
        screenY := 0
        curTerm := 0
        memory := memcpyScreen .video (.saved 0) c.initTerms.memory } := by
  change (saveRestore (depth + 1) c.initTerms 0 1).map _ = _
  obtain ⟨column, row⟩ := c.initTerms_pos 0
  unfold saveRestore
  rw [if_neg (by decide), column, row, setScreenPos_of_lt _ _ (by decide) (by decide)]
  have zero : UInt32.toInt32 0 = 0 := rfl
  simp only [Option.map_some, zero]

theorem initTerminals_represents (c : RawCursor) (k : Kernel)
    (scheduled : c.curActiveTerminal = k.curActiveTerminal) :
    ReturnsFrom 1 (initTerminals · c.fresh) k.initTerminals := by
  refine ⟨_, fun depth => initTerminals_eq c.fresh depth, ?_⟩
  have shown := k.initTerminals_console
  constructor
  · exact congrArg (fun d : Display => Int32.ofNat d.x) shown.symm
  · exact congrArg (fun d : Display => Int32.ofNat d.y) shown.symm
  · intro t
    rw [(c.fresh.initTerms_pos t).1]
    exact congrArg (fun d : Display => UInt32.ofNat d.x) (k.initTerminals_terminal t).symm
  · intro t
    rw [(c.fresh.initTerms_pos t).2]
    exact congrArg (fun d : Display => UInt32.ofNat d.y) (k.initTerminals_terminal t).symm
  · rfl
  · exact scheduled
  · obtain ⟨screens, holds, blank⟩ := c.fresh.initTerms_holds rfl
    have copied := holds.memcpyScreen (by simp : TextBuffer.saved 0 ≠ .video)
    have same : Function.update screens .video (screens (.saved 0)) = k.initTerminals.screens := by
      funext buffer
      cases buffer with
      | video =>
          rw [Function.update_self, blank]
          exact congrArg Display.screen shown.symm
      | saved t =>
          rw [Function.update_of_ne (by simp), blank]
          exact congrArg Display.screen (k.initTerminals_terminal t).symm
    rw [← same]
    dsimp only
    exact copied

end RawCursor

/-! ## Runs of calls -/

/-- A call of a cursor routine on a kernel state. -/
def Kernel.cursorCall (k : Kernel) : CursorCall → Kernel
  | .putc char => k.putc char
  | .enter => { k with console := k.console.enter }
  | .backspace => { k with console := k.console.backspace (attributeTable k.curTerm) }
  | .scrollUp => { k with console := k.console.scrollUp }
  | .setScreenPos x y => { k with console := k.console.setScreenPos x.toNat y.toNat }
  | .setScreenX x => { k with console := k.console.setScreenX x.toNat }
  | .setScreenY y => { k with console := k.console.setScreenY y.toNat }
  | .putcTerminalActive char => k.putcTerminalActive char
  | .enterTermExec => k.modifyTerm k.curActiveTerminal Term.enterTermExec
  | .setScreenPosTermExec x y =>
      k.modifyTerm k.curActiveTerminal fun t => t.setScreenPosTermExec x.toNat y.toNat
  | .saveRestore t sOrR => k.saveRestore t sOrR.toNat
  | .schedule t => { k with curActiveTerminal := t }
  | .display t => { k with curTerm := t }

namespace RawCursor

/-- A depth that the calls never exceed. -/
def callDepth : Nat := 7

theorem Represents.call {c : RawCursor} {k : Kernel} (represents : c.Represents k)
    (event : CursorCall) :
    ReturnsFrom callDepth (RawCursor.call · c event) (k.cursorCall event) := by
  cases event with
  | putc char => exact (represents.putc char).mono (by decide)
  | enter => exact represents.enter.mono (by decide)
  | backspace => exact represents.backspace
  | scrollUp => exact represents.scrollUp.mono (by decide)
  | setScreenPos x y => exact (represents.setScreenPos x y).mono (by decide)
  | setScreenX x => exact represents.setScreenX x
  | setScreenY y => exact (represents.setScreenY y).mono (by decide)
  | putcTerminalActive char => exact (represents.putcTerminalActive char).mono (by decide)
  | enterTermExec => exact represents.enterTermExec.mono (by decide)
  | setScreenPosTermExec x y => exact (represents.setScreenPosTermExec x y).mono (by decide)
  | saveRestore t sOrR => exact (represents.saveRestore t sOrR).mono (by decide)
  | schedule t => exact ⟨_, fun _ => rfl, represents.select rfl rfl represents.curTerm rfl⟩
  | display t =>
      exact ⟨_, fun _ => rfl, represents.select rfl rfl rfl represents.curActiveTerminal⟩

/-- The state after `init_terminal` and some calls, each to a bounded depth. -/
def runCalls (depth : Nat) (c : RawCursor) (calls : List CursorCall) : Option RawCursor :=
  (initTerminals depth c).bind fun started => run (call depth) started calls

/-- Calls over machine integers refine those on the kernel state. -/
theorem runCalls_represents (c : RawCursor) (k : Kernel)
    (scheduled : c.curActiveTerminal = k.curActiveTerminal) (calls : List CursorCall) :
    ReturnsFrom callDepth (runCalls · c.fresh calls)
      (calls.foldl Kernel.cursorCall k.initTerminals) := by
  obtain ⟨started, result, represents⟩ :=
    (c.initTerminals_represents k scheduled).mono (by decide : 1 ≤ callDepth)
  have simulates : ∀ (c : RawCursor) (k : Kernel) (event : CursorCall), c.Represents k →
      ∃ target, (∀ depth : Nat, call (depth + callDepth) c event = some target) ∧
        target.Represents (k.cursorCall event) :=
    fun _ _ event represents => represents.call event
  obtain ⟨final, reached, represented⟩ := run_simulation_family simulates represents calls
  refine ⟨final, fun depth => ?_, represented⟩
  have first : initTerminals (depth + callDepth) c.fresh = some started := result depth
  change (initTerminals (depth + callDepth) c.fresh).bind _ = some final
  rw [first]
  exact reached depth

/-- Every cursor is on the screen. -/
structure OnScreen (c : RawCursor) : Prop where
  screenX : 0 ≤ c.screenX ∧ c.screenX < 80
  screenY : 0 ≤ c.screenY ∧ c.screenY < 25
  pos : ∀ t, c.posX t < 80 ∧ c.posY t < 25

theorem int_inRange {n bound : Nat} (inside : n < bound) (small : bound < 2 ^ 31) :
    0 ≤ Int32.ofNat n ∧ Int32.ofNat n < Int32.ofNat bound := by
  have value : (Int32.ofNat n).toInt = n := Int32.toInt_ofNat_of_lt (Nat.lt_trans inside small)
  have limit : (Int32.ofNat bound).toInt = bound := Int32.toInt_ofNat_of_lt small
  have zero : (0 : Int32).toInt = 0 := rfl
  rw [Int32.le_iff_toInt_le, Int32.lt_iff_toInt_lt, value, limit, zero]
  omega

theorem Represents.onScreen {c : RawCursor} {k : Kernel} (represents : c.Represents k) :
    c.OnScreen where
  screenX := by
    rw [represents.screenX]
    exact int_inRange k.console.screenX.isLt (by decide)
  screenY := by
    rw [represents.screenY]
    exact int_inRange k.console.screenY.isLt (by decide)
  pos := by
    intro t
    constructor
    · rw [UInt32.lt_iff_toNat_lt, represents.toNat_posX]
      exact (k.terminal t).posX.isLt
    · exact represents.termRow t

/-- The cursors stay on the screen: `init_terminal` and any calls of the cursor routines
return, with one result for every bound on the depth from `callDepth` on, and then every
cursor is on the screen and every store made was within the 4000 bytes of its buffer. -/
theorem stays_on_screen (c : RawCursor) (calls : List CursorCall) :
    ∃ final : RawCursor,
      (∀ extra, runCalls (extra + callDepth) c.fresh calls = some final) ∧
        final.OnScreen ∧ ∀ store ∈ final.memory.stores, InBuffer store.1 := by
  let k : Kernel := { (default : Kernel) with curActiveTerminal := c.curActiveTerminal }
  obtain ⟨final, result, represents⟩ := c.runCalls_represents k rfl calls
  exact ⟨final, result, represents.onScreen, represents.memory.within⟩

end RawCursor

end Ece391Os
