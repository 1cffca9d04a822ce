import Ece391Os.Keyboard.Bounds
import Ece391Os.Keyboard.Lines
import Ece391Os.Process.Frames

/-!
# The input of the displayed terminal

What a kernel state says about typed input: the key buffers, and whether the displayed
terminal is flagged.  Output, the descriptor calls and the process routines leave it as it
is, and a key changes it as `pressAction` says.
-/

namespace Ece391Os

open Memory

/-- What a kernel state says about typed input. -/
@[ext]
structure InputView where
  keys : KeyTable
  keyboardEnabled : Bool
  eflag : Bool

namespace Kernel

/-- The key buffers, and the flag of the displayed terminal. -/
def input (k : Kernel) : InputView where
  keys := k.keys
  keyboardEnabled := k.keyboard.keyboardEnabled
  eflag := (k.terminal k.curTerm).eflag

/-- The memory of the mapped program. -/
def userMemory (k : Kernel) : Nat → UInt8 :=
  match k.mappedProcess with
  | some p => k.memory p
  | none => fun _ => 0

/-- What the processor does, and the memory of the program. -/
def program (k : Kernel) : Cpu × (Nat → UInt8) :=
  (k.cpu, k.userMemory)

/-! ## What leaves the input unchanged -/

theorem input_modifyTerm (k : Kernel) (t : TermId) (change : Term → Term)
    (buffer : ∀ term, (change term).keyBuffer = term.keyBuffer)
    (index : ∀ term, (change term).keyBufferIdx = term.keyBufferIdx)
    (eflag : ∀ term, (change term).eflag = term.eflag) :
    (k.modifyTerm t change).input = k.input := by
  ext1
  case keys => exact k.keys_modifyTerm t change buffer index
  case keyboardEnabled => rfl
  case eflag => exact congrFun (field_modifyTerm_of_eq Term.eflag k t eflag) k.curTerm

theorem input_untouched : UntouchedByProcesses input where
  console := fun _ _ => rfl
  screen := fun k t change outputOnly => by
    apply k.input_modifyTerm t change
    all_goals
      intro term
      rcases outputOnly term with ⟨x, y, screen, changed⟩
      rw [changed]
  fds := fun _ _ _ => rfl
  rtcInterruptOccurred := fun _ _ => rfl
  cmos := fun _ _ => rfl
  memory := fun _ _ => rfl
  cpu := fun _ _ => rfl
  owner := fun k t change ownerOnly => by
    apply k.input_modifyTerm t change
    all_goals
      intro term
      rcases ownerOnly term with ⟨active, apn, changed⟩
      rw [changed]
  pcb := fun _ _ => rfl
  pidArray := fun _ _ => rfl
  procLog := fun _ _ => rfl
  paging := fun _ _ => rfl
  tssEsp0 := fun _ _ => rfl
  curActiveTerminal := fun _ _ => rfl
  nextSchedTerminal := fun _ _ => rfl

theorem input_untouchedByDirectories : Untouched input where
  toUntouchedByCalls := input_untouched.toUntouchedByCalls
  directoryLoc := fun _ _ => rfl

theorem program_untouchedByTyping : UntouchedByTyping program where
  console := fun _ _ => rfl
  keyboard := fun _ _ => rfl
  keyLog := fun _ _ => rfl
  input := fun _ _ _ _ => rfl

/-- The memory of the program after stores through its buffer. -/
theorem userMemory_storeUser {k : Kernel} (mapped : k.mappedProcess.isSome = true) (buf : Nat)
    (stores : Stores Nat) :
    (k.storeUser buf stores).userMemory =
      applyStores k.userMemory (stores.map fun store => (buf + store.1, store.2)) := by
  rcases Option.isSome_iff_exists.mp mapped with ⟨p, frame⟩
  have after : (k.storeUser buf stores).mappedProcess = some p := by
    unfold storeUser
    rw [frame]
    exact frame
  rw [userMemory, after, userMemory, frame]
  unfold storeUser
  rw [frame]
  exact Function.update_self _ _ _

/-! ## Keys -/

theorem input_setKey (k : Kernel) (index : Fin 128) (byte : UInt8) :
    (k.setKey index byte).input =
      { k.input with keys := k.keys.store (UInt8.ofNat index) byte } := by
  ext1
  case keys => exact k.keys_setKey index byte
  case keyboardEnabled => rfl
  case eflag =>
    have kept : (fun u => ((k.setKey index byte).terminal u).eflag) =
        fun u => (k.terminal u).eflag := by
      unfold setKey
      exact field_modifyTerm_of_eq Term.eflag _ _ fun _ => rfl
    exact congrFun kept k.curTerm

theorem input_storeKey {k k' : Kernel} {index byte : UInt8} (inside : index.toNat < 128)
    (stored : k.storeKey index byte = some k') :
    k'.input = { k.input with keys := k.keys.store index byte } := by
  unfold storeKey at stored
  rw [dif_pos inside] at stored
  cases stored
  rw [input_setKey]
  simp

theorem input_setEflag (k : Kernel) (flag : Bool) :
    (k.setEflag k.curTerm flag).input = { k.input with eflag := flag } := by
  ext1
  case keys => exact k.keys_setEflag k.curTerm flag
  case keyboardEnabled => rfl
  case eflag => simp [input, setEflag, modifyTerm]

theorem input_setKeyIdx (k : Kernel) (index : UInt8) (console : Console) :
    Kernel.input { k.setKeyIdx index with console := console } =
      { k.input with keys := { k.keys with index := index } } :=
  rfl

/-- Backspace. -/
theorem input_backspace {k k' : Kernel} (bounded : k.keys.Bounded)
    (handled : k.handleKeyPress 0x08 = some k') :
    k'.input = { k.input with keys := k.keys.act (k.keys.pressAction 0x08) } := by
  by_cases positive : 0 < k.keys.index
  · have index := bounded.index
    have above : 0 < k.keys.index.toNat := UInt8.lt_iff_toNat_lt.mp positive
    have previous : (k.keys.index - 1).toNat = k.keys.index.toNat - 1 :=
      UInt8.toNat_sub_of_le _ _ (UInt8.le_iff_toNat_le.mpr above)
    have store : Kernel.storeKey
        ({ k with console := k.console.backspace (attributeTable k.curTerm) }.setKeyIdx
          (k.keys.index - 1)) (k.keys.index - 1) 0 = some k' := by
      rw [← handled]
      exact (if_pos positive).symm
    rw [input_storeKey (by omega) store, KeyTable.pressAction, if_pos rfl, if_pos positive]
    rfl
  · have same : some k = some k' := by
      rw [← handled]
      exact (if_neg positive).symm
    cases same
    rw [KeyTable.pressAction, if_pos rfl, if_neg positive]
    rfl

/-- Enter, on a terminal whose active process belongs to it. -/
theorem input_enter {k k' : Kernel} (fits : k.keys.index < 128)
    (own : ∀ p, (k.terminal k.curTerm).apn = some p → (k.pcb p).term = k.curTerm)
    (handled : k.handleKeyPress 0x0D = some k') :
    k'.input = { k.input with keys := k.keys.act (k.keys.pressAction 0x0D), eflag := true } := by
  rcases Option.bind_eq_some_iff.mp handled with ⟨p, apn, rest⟩
  rcases Option.bind_eq_some_iff.mp rest with ⟨stored, store, done⟩
  cases done
  rw [own p apn] at store
  have inside : k.keys.index.toNat < 128 := UInt8.lt_iff_toNat_lt.mp fits
  have kept := input_storeKey inside store
  rw [input_setEflag, keys_setEflag] at kept
  have index : stored.keyboard.keyBufferIdx = k.keyboard.keyBufferIdx :=
    congrArg (fun view => view.keys.index) kept
  have keys : stored.keys = k.keys.store k.keys.index 0x0A := congrArg InputView.keys kept
  rw [input_setKeyIdx, kept, keys, index]
  rfl

/-- A character is added and printed while the buffer has room and the keyboard is
enabled. -/
theorem handleKeyPress_character (k : Kernel) {keycode : UInt8} (character : IsCharacter keycode) :
    k.handleKeyPress keycode =
      if k.keyboard.keyBufferIdx < 127 ∧ k.keyboard.keyboardEnabled = true then
        (k.storeKey k.keyboard.keyBufferIdx keycode).map fun stored =>
          (stored.setKeyIdx (k.keyboard.keyBufferIdx + 1)).putc keycode
      else
        some k := by
  rcases character with ⟨low, formFeed, ctrlC, backspace, enter⟩
  unfold handleKeyPress
  rw [if_neg (UInt8.not_le.mpr low), if_neg formFeed, if_neg ctrlC, if_neg backspace,
    if_neg enter]
  split
  · rename_i room
    simp only [addKeyBuff, if_pos room.1, Option.map_map]
    rfl
  · rfl

/-- A character. -/
theorem input_character {k k' : Kernel} {keycode : UInt8} (character : IsCharacter keycode)
    (enabled : k.keyboard.keyboardEnabled = true)
    (handled : k.handleKeyPress keycode = some k') :
    k'.input = { k.input with keys := k.keys.act (k.keys.pressAction keycode) } := by
  rw [handleKeyPress_character k character] at handled
  rw [KeyTable.pressAction, if_neg character.2.2.2.1, if_neg character.2.2.2.2]
  by_cases room : k.keys.index < 127
  · rw [if_pos ⟨room, enabled⟩] at handled
    rw [if_pos ⟨character, room⟩]
    rcases Option.map_eq_some_iff.mp handled with ⟨stored, store, rfl⟩
    have inside : k.keys.index.toNat < 128 :=
      (UInt8.lt_iff_toNat_lt.mp room).trans (by decide)
    have kept := input_storeKey inside store
    have keys : stored.keys = k.keys.store k.keys.index keycode := congrArg InputView.keys kept
    rw [putc, input_setKeyIdx, kept, keys]
    rfl
  · rw [if_neg fun both => room both.1] at handled
    rw [if_neg fun both => room both.2]
    cases handled
    rfl

/-- The other keys change at most the screen. -/
theorem input_other {k k' : Kernel} {keycode : UInt8} (backspace : keycode ≠ 0x08)
    (enter : keycode ≠ 0x0D) (noCharacter : ¬ IsCharacter keycode)
    (handled : k.handleKeyPress keycode = some k') :
    k'.input = { k.input with keys := k.keys.act (k.keys.pressAction keycode) } := by
  have stay : k.keys.pressAction keycode = .stay := by
    rw [KeyTable.pressAction, if_neg backspace, if_neg enter, if_neg fun both => noCharacter both.1]
  rw [stay]
  unfold handleKeyPress at handled
  split at handled
  · cases handled
    rfl
  rename_i low
  split at handled
  · cases handled
    rfl
  rename_i formFeed
  split at handled
  · cases handled
    rfl
  rename_i ctrlC
  exact absurd ⟨UInt8.not_le.mp low, formFeed, ctrlC, backspace, enter⟩ noCharacter

/-- What a key does to the input of the displayed terminal. -/
theorem input_handleKeyPress {k k' : Kernel} {keycode : UInt8}
    (enabled : k.keyboard.keyboardEnabled = true) (bounded : k.keys.Bounded)
    (own : ∀ p, (k.terminal k.curTerm).apn = some p → (k.pcb p).term = k.curTerm)
    (fits : keycode = 0x0D → k.keys.index < 128)
    (handled : k.handleKeyPress keycode = some k') :
    k'.input =
      { k.input with
        keys := k.keys.act (k.keys.pressAction keycode)
        eflag := if keycode = 0x0D then true else k.input.eflag } := by
  by_cases enter : keycode = 0x0D
  · subst enter
    exact input_enter (fits rfl) own handled
  rw [if_neg enter]
  by_cases backspace : keycode = 0x08
  · subst backspace
    exact input_backspace bounded handled
  by_cases character : IsCharacter keycode
  · exact input_character character enabled handled
  · exact input_other backspace enter character handled

end Kernel

end Ece391Os
