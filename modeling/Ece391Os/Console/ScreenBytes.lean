import Ece391Os.Console.RawCursor
import Ece391Os.Console.Simulation

/-!
# The bytes of the text buffers

A byte memory holds a screen in each text buffer.  The stores and the loops of the
cursor routines change the screens as the operations on screens do, and stay within
the 4000 bytes of a buffer.
-/

namespace Ece391Os

open Memory

/-- The 4000 bytes of a text buffer. -/
def InBuffer (address : TextAddress) : Prop :=
  0 ≤ address.2 ∧ address.2 < 4000

/-- The bytes of every text buffer are those of a screen, and every store made so far
was within its buffer. -/
structure HoldsScreens (m : Logged TextAddress) (screens : TextBuffer → Screen) : Prop where
  char : ∀ buffer, ∀ row : Fin 25, ∀ col : Fin 80,
    m.byte (buffer, lineOffset row col) = (screens buffer row col).char
  attr : ∀ buffer, ∀ row : Fin 25, ∀ col : Fin 80,
    m.byte (buffer, lineOffset row col + 1) = (screens buffer row col).attr
  within : m.Within InBuffer

/-! ## Addresses of cells -/

section Addresses

variable {row row' : Fin 25} {col col' : Fin 80} {buffer buffer' : TextBuffer}

theorem lineOffset_inj : lineOffset row col = lineOffset row' col' ↔ row = row' ∧ col = col' := by
  unfold lineOffset
  rw [Fin.ext_iff, Fin.ext_iff]
  omega

theorem lineOffset_ne_attr : lineOffset row col ≠ lineOffset row' col' + 1 := by
  unfold lineOffset
  omega

theorem inBuffer_char : InBuffer (buffer, lineOffset row col) := by
  unfold InBuffer lineOffset
  omega

theorem inBuffer_attr : InBuffer (buffer, lineOffset row col + 1) := by
  unfold InBuffer lineOffset
  omega

end Addresses

/-! ## Single stores -/

namespace HoldsScreens

variable {m : Logged TextAddress} {screens : TextBuffer → Screen}

theorem storeChar (holds : HoldsScreens m screens) (buffer : TextBuffer) (row : Fin 25)
    (col : Fin 80) (value : UInt8) :
    HoldsScreens (m.store (buffer, lineOffset row col) value)
      (Function.update screens buffer ((screens buffer).setChar row col value)) where
  char := by
    intro buffer' row' col'
    by_cases same : buffer' = buffer
    · subst same
      rw [Function.update_self, Screen.setChar_apply]
      by_cases cell : row' = row ∧ col' = col
      · obtain ⟨rfl, rfl⟩ := cell
        simp
      · rw [if_neg cell, Logged.store_byte_of_ne, holds.char]
        rintro equal
        exact cell (lineOffset_inj.mp (congrArg Prod.snd equal))
    · rw [Function.update_of_ne same, Logged.store_byte_of_ne, holds.char]
      rintro equal
      exact same (congrArg Prod.fst equal)
  attr := by
    intro buffer' row' col'
    rw [Logged.store_byte_of_ne _ _ fun equal => lineOffset_ne_attr (congrArg Prod.snd equal).symm,
      holds.attr]
    by_cases same : buffer' = buffer
    · subst same
      rw [Function.update_self, Screen.setChar_apply]
      split
      · rename_i cell
        rw [cell.1, cell.2]
      · rfl
    · rw [Function.update_of_ne same]
  within := holds.within.store inBuffer_char value

theorem storeAttr (holds : HoldsScreens m screens) (buffer : TextBuffer) (row : Fin 25)
    (col : Fin 80) (value : UInt8) :
    HoldsScreens (m.store (buffer, lineOffset row col + 1) value)
      (Function.update screens buffer ((screens buffer).setAttr row col value)) where
  char := by
    intro buffer' row' col'
    rw [Logged.store_byte_of_ne _ _ fun equal => lineOffset_ne_attr (congrArg Prod.snd equal),
      holds.char]
    by_cases same : buffer' = buffer
    · subst same
      rw [Function.update_self, Screen.setAttr_apply]
      split
      · rename_i cell
        rw [cell.1, cell.2]
      · rfl
    · rw [Function.update_of_ne same]
  attr := by
    intro buffer' row' col'
    by_cases same : buffer' = buffer
    · subst same
      rw [Function.update_self, Screen.setAttr_apply]
      by_cases cell : row' = row ∧ col' = col
      · obtain ⟨rfl, rfl⟩ := cell
        simp
      · rw [if_neg cell, Logged.store_byte_of_ne, holds.attr]
        rintro equal
        have offsets : lineOffset row' col' + 1 = lineOffset row col + 1 := congrArg Prod.snd equal
        exact cell (lineOffset_inj.mp (by omega))
    · rw [Function.update_of_ne same, Logged.store_byte_of_ne, holds.attr]
      rintro equal
      exact same (congrArg Prod.fst equal)
  within := holds.within.store inBuffer_attr value

end HoldsScreens

/-! ## The loops of `scroll_up` -/

namespace Screen

/-- A screen whose cells before a row and a column have moved up. -/
def movedBefore (y x : Nat) (s : Screen) : Screen := fun row col =>
  if row.val < y ∨ row.val = y ∧ col.val < x then s.moveRowsUp row col else s row col

theorem movedBefore_zero (s : Screen) : s.movedBefore 0 0 = s := by
  funext row col
  simp [movedBefore]

theorem movedBefore_row (s : Screen) (y : Nat) : s.movedBefore y 80 = s.movedBefore (y + 1) 0 := by
  funext row col
  have bound : (row.val < y ∨ row.val = y ∧ col.val < 80) ↔
      (row.val < y + 1 ∨ row.val = y + 1 ∧ col.val < 0) := by omega
  simp only [movedBefore, bound]

theorem movedBefore_all (s : Screen) : s.movedBefore 24 80 = s.moveRowsUp := by
  funext row col
  have all : row.val < 24 ∨ row.val = 24 ∧ col.val < 80 := by omega
  simp only [movedBefore, all, if_true]

/-- Moving one more character. -/
theorem setChar_movedBefore (s : Screen) (row : Fin 25) (col : Fin 80) :
    (s.movedBefore row col).setChar row col (s.moveRowsUp row col).char =
      s.movedBefore row (col + 1) := by
  funext row' col'
  rw [setChar_apply]
  by_cases cell : row' = row ∧ col' = col
  · obtain ⟨rfl, rfl⟩ := cell
    simp [movedBefore, moveRowsUp]
  · rw [if_neg cell]
    have bound : (row'.val < row.val ∨ row'.val = row.val ∧ col'.val < col.val) ↔
        (row'.val < row.val ∨ row'.val = row.val ∧ col'.val < col.val + 1) := by
      rw [Fin.ext_iff, Fin.ext_iff] at cell
      omega
    simp only [movedBefore, bound]

/-- The next row has not moved yet. -/
theorem movedBefore_next (s : Screen) {row : Fin 25} (next : row.val + 1 < 25) (x : Nat)
    (col : Fin 80) : (s.movedBefore row x ⟨row.val + 1, next⟩ col).char =
      (s.moveRowsUp row col).char := by
  have below : ¬ row.val + 1 < row.val := Nat.not_lt.mpr (Nat.le_succ _)
  simp [movedBefore, moveRowsUp, next, below]

end Screen

namespace HoldsScreens

variable {m : Logged TextAddress} {screens : TextBuffer → Screen}

/-- Storing what the next cell to move gets. -/
theorem storeMoved {buffer : TextBuffer} {s : Screen} (row : Fin 25) (col : Fin 80)
    (holds : HoldsScreens m (Function.update screens buffer (s.movedBefore row col)))
    {value : UInt8} (moves : value = (s.moveRowsUp row col).char) :
    HoldsScreens (m.store (buffer, lineOffset row col) value)
      (Function.update screens buffer (s.movedBefore row (col + 1))) := by
  have stored := holds.storeChar buffer row col value
  rwa [Function.update_self, Function.update_idem, moves, Screen.setChar_movedBefore,
    ← moves] at stored

/-- The loops of `scroll_up` move the rows up. -/
theorem moveRows (holds : HoldsScreens m screens) (buffer : TextBuffer) :
    HoldsScreens (RawCursor.moveRows buffer m)
      (Function.update screens buffer (screens buffer).moveRowsUp) := by
  rw [← Screen.movedBefore_all]
  apply loop_invariant fun x m =>
    HoldsScreens m (Function.update screens buffer ((screens buffer).movedBefore 24 x))
  · apply loop_invariant fun y m =>
      HoldsScreens m (Function.update screens buffer ((screens buffer).movedBefore y 0))
    · rwa [Screen.movedBefore_zero, Function.update_eq_self]
    · intro y inside m before
      rw [← Screen.movedBefore_row]
      apply loop_invariant fun x m =>
        HoldsScreens m (Function.update screens buffer ((screens buffer).movedBefore y x))
      · exact before
      · intro x inRow m moved
        have next : y + 1 < 25 := Nat.succ_lt_succ inside
        apply storeMoved ⟨y, Nat.lt_of_succ_lt next⟩ ⟨x, inRow⟩ moved
        rw [← Screen.movedBefore_next _ next x]
        have char := moved.char buffer ⟨y + 1, next⟩ ⟨x, inRow⟩
        rwa [Function.update_self] at char
  · intro x inRow m moved
    exact storeMoved 24 ⟨x, inRow⟩ moved rfl

end HoldsScreens

/-! ## `memcpy` and the clearing loop of `init_terminal` -/

namespace Screen

/-- A screen whose first cells are blank. -/
def blankBefore (attr : UInt8) (count : Nat) (s : Screen) : Screen := fun row col =>
  if 80 * row.val + col.val < count then { char := 0x20, attr := attr } else s row col

theorem blankBefore_zero (attr : UInt8) (s : Screen) : s.blankBefore attr 0 = s := by
  funext row col
  simp [blankBefore]

theorem blankBefore_all (attr : UInt8) (s : Screen) :
    s.blankBefore attr 2000 = fun _ _ => { char := 0x20, attr := attr } := by
  funext row col
  have all : 80 * row.val + col.val < 2000 := by omega
  simp only [blankBefore, all, if_true]

/-- Blanking one more cell. -/
theorem blank_blankBefore (attr : UInt8) (s : Screen) (row : Fin 25) (col : Fin 80) :
    ((s.blankBefore attr (80 * row.val + col.val)).setChar row col 0x20).setAttr row col attr =
      s.blankBefore attr (80 * row.val + col.val + 1) := by
  funext row' col'
  rw [setAttr_apply, setChar_apply, setChar_apply]
  by_cases cell : row' = row ∧ col' = col
  · obtain ⟨rfl, rfl⟩ := cell
    simp [blankBefore]
  · rw [if_neg cell, if_neg cell]
    have bound : 80 * row'.val + col'.val < 80 * row.val + col.val ↔
        80 * row'.val + col'.val < 80 * row.val + col.val + 1 := by
      rw [Fin.ext_iff, Fin.ext_iff] at cell
      omega
    simp only [blankBefore, bound]

end Screen

/-- What the first rounds of `memcpy` leave in memory. -/
structure CopiedBefore (dest src : TextBuffer) (before : Logged TextAddress) (count : Nat)
    (m : Logged TextAddress) : Prop where
  copied : ∀ i : Nat, i < count → m.byte (dest, i) = before.byte (src, i)
  kept : ∀ address : TextAddress, address.1 ≠ dest → m.byte address = before.byte address
  within : m.Within InBuffer

theorem copied_memcpyScreen (m : Logged TextAddress) (within : m.Within InBuffer)
    {dest src : TextBuffer} (differ : src ≠ dest) :
    CopiedBefore dest src m 4000 (RawCursor.memcpyScreen dest src m) := by
  apply loop_invariant (CopiedBefore dest src m)
  · exact ⟨fun _ none => absurd none (Nat.not_lt_zero _), fun _ _ => rfl, within⟩
  · rintro count inside n ⟨copied, kept, within⟩
    constructor
    · intro i bound
      by_cases last : i = count
      · subst last
        rw [Logged.store_byte_self, kept _ differ]
      · have other : ((dest, (i : Int)) : TextAddress) ≠ (dest, (count : Int)) := fun equal =>
          last (Int.ofNat_inj.mp (congrArg Prod.snd equal))
        rw [Logged.store_byte_of_ne _ _ other]
        exact copied i (by omega)
    · intro address elsewhere
      rw [Logged.store_byte_of_ne _ _ fun equal => elsewhere (congrArg Prod.fst equal)]
      exact kept address elsewhere
    · apply within.store
      unfold InBuffer
      dsimp only
      omega

namespace HoldsScreens

variable {m : Logged TextAddress} {screens : TextBuffer → Screen}

/-- Storing a blank cell. -/
theorem storeBlank (holds : HoldsScreens m screens) (buffer : TextBuffer) (row : Fin 25)
    (col : Fin 80) (attr : UInt8) :
    HoldsScreens
      ((m.store (buffer, lineOffset row col) 0x20).store (buffer, lineOffset row col + 1) attr)
      (Function.update screens buffer
        (((screens buffer).setChar row col 0x20).setAttr row col attr)) := by
  have stored := (holds.storeChar buffer row col 0x20).storeAttr buffer row col attr
  rwa [Function.update_self, Function.update_idem] at stored

/-- The loop of `init_terminal` clears the buffer of a terminal. -/
theorem clearTerm (holds : HoldsScreens m screens) (i : TermId) :
    HoldsScreens (RawCursor.clearTerm i m)
      (Function.update screens (.saved i) fun _ _ =>
        { char := 0x20, attr := attributeTable i }) := by
  rw [← Screen.blankBefore_all (attributeTable i) (screens (.saved i))]
  apply loop_invariant fun count m =>
    HoldsScreens m
      (Function.update screens (.saved i)
        ((screens (.saved i)).blankBefore (attributeTable i) count))
  · rwa [Screen.blankBefore_zero, Function.update_eq_self]
  · intro j inside m cleared
    have cell : 80 * (j / 80) + j % 80 = j := Nat.div_add_mod j 80
    let row : Fin 25 := ⟨j / 80, by omega⟩
    let col : Fin 80 := ⟨j % 80, Nat.mod_lt _ (by decide)⟩
    have index : 80 * row.val + col.val = j := cell
    have blank := Screen.blank_blankBefore (attributeTable i) (screens (.saved i)) row col
    have stored := cleared.storeBlank (.saved i) row col (attributeTable i)
    rw [index] at blank
    rw [Function.update_self, Function.update_idem, blank] at stored
    rwa [lineOffset, index] at stored

/-- `memcpy` of a whole buffer copies its screen. -/
theorem memcpyScreen (holds : HoldsScreens m screens) {dest src : TextBuffer}
    (differ : src ≠ dest) :
    HoldsScreens (RawCursor.memcpyScreen dest src m)
      (Function.update screens dest (screens src)) := by
  obtain ⟨copied, kept, within⟩ := copied_memcpyScreen m holds.within differ
  constructor
  · intro buffer row col
    by_cases same : buffer = dest
    · subst same
      rw [Function.update_self, ← holds.char src, lineOffset]
      exact copied ((80 * row.val + col.val) * 2) (by omega)
    · rw [Function.update_of_ne same, kept _ same]
      exact holds.char buffer row col
  · intro buffer row col
    by_cases same : buffer = dest
    · subst same
      have offset : lineOffset row col + 1 = ((80 * row.val + col.val) * 2 + 1 : Nat) := by
        rw [lineOffset, Int.natCast_succ]
      rw [Function.update_self, ← holds.attr src, offset]
      exact copied ((80 * row.val + col.val) * 2 + 1) (by omega)
    · rw [Function.update_of_ne same, kept _ same]
      exact holds.attr buffer row col
  · exact within

end HoldsScreens

end Ece391Os
