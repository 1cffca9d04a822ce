import Ece391Os.Keyboard.Input
import Ece391Os.Machine.TerminalRead

/-!
# Where a read is in its line

A read of the keyboard waits for the flag, takes it, copies a line, and resets the buffer.
At each of these points it has stored a part of the line, and keys typed meanwhile do not
change that part.
-/

namespace Ece391Os

open Memory

/-- No read of the keyboard is running, and no switch of the terminal. -/
def Activity.Idle : Activity → Prop
  | .user _ | .rtcRead _ => True
  | .terminalRead .. | .launch .. => False

/-- A read has done its copy loop and is about to reset the buffer. -/
def Activity.Copied : Activity → Prop
  | .terminalRead _ numBytes (.copy i) => ¬ (i < numBytes - 1 ∧ i < 127)
  | .terminalRead _ _ (.clear _ _) | .terminalRead _ _ (.finish _) => True
  | _ => False

instance (activity : Activity) : Decidable activity.Copied :=
  match activity with
  | .terminalRead _ _ (.copy _) => inferInstanceAs (Decidable (¬ _))
  | .terminalRead _ _ (.clear _ _) | .terminalRead _ _ (.finish _) => .isTrue trivial
  | .terminalRead _ _ .spin | .terminalRead _ _ .take => .isFalse id
  | .user _ | .rtcRead _ | .launch _ _ => .isFalse id

namespace Kernel

/-! ## The call -/

/-- `num_bytes` is one more than the length of the line, or larger if that is the size of the
key buffer. -/
def AsksFor (numBytes : Int) (line : List UInt8) : Prop :=
  (numBytes = line.length + 1 ∧ line.length ≤ 127) ∨ (line.length = 127 ∧ 128 ≤ numBytes)

/-- The caller of `terminal_read` is a process of the displayed terminal. -/
def ReaderDisplayed (k : Kernel) : Prop :=
  ∀ p, k.getPcbPtr = some p → (k.pcb p).term = k.curTerm

instance (numBytes : Int) (line : List UInt8) : Decidable (AsksFor numBytes line) :=
  inferInstanceAs (Decidable (_ ∨ _))

instance (k : Kernel) : Decidable k.ReaderDisplayed :=
  inferInstanceAs (Decidable (∀ _ : ProcId, _ → _))

section AsksFor

variable {numBytes : Int} {line : List UInt8}

theorem AsksFor.copies (asks : AsksFor numBytes line) {i : Nat} (inside : i ≤ line.length) :
    ((i : Int) < numBytes - 1 ∧ i < 127) ↔ i < line.length := by
  rcases asks with ⟨exact, short⟩ | ⟨full, large⟩ <;> omega

theorem AsksFor.value (asks : AsksFor numBytes line) :
    (line.length : Int) = min numBytes line.length := by
  rcases asks with ⟨exact, short⟩ | ⟨full, large⟩ <;> omega

theorem AsksFor.length_le (asks : AsksFor numBytes line) : line.length ≤ 127 := by
  rcases asks with ⟨exact, short⟩ | ⟨full, large⟩ <;> omega

end AsksFor

end Kernel

/-! ## Where a read is -/

namespace InputView

/-- The flag is set only when more than a number of lines wait. -/
def Flagged (view : InputView) (h : LineHistory) (taken : Nat) : Prop :=
  view.eflag = true → taken < h.waiting.length

/-- Nothing of what was typed and not delivered is taken yet. -/
structure Ready (view : InputView) (h : LineHistory) : Prop where
  holds : view.keys.Holds h.content
  flagged : view.Flagged h 0

/-- A read has stored `count` bytes of the first waiting line. -/
structure Takes (view : InputView) (memory : Nat → UInt8) (h : LineHistory) (buf : Nat)
    (numBytes : Int) (count : Nat) (line : List UInt8) : Prop where
  first : h.waiting.head? = some line
  asks : Kernel.AsksFor numBytes line
  memory : memory = applyStores h.before (storeRange buf count fun i => line.getD i 0)
  flagged : view.Flagged h 1

/-- What the input and the memory of the program are while the processor does something. -/
def Phase (view : InputView) (memory : Nat → UInt8) (h : LineHistory) : Activity → Prop
  | .user _ | .rtcRead _ => view.Ready h
  | .launch _ _ => False
  | .terminalRead _ _ .spin => view.Ready h ∧ memory = h.before
  | .terminalRead _ _ .take => view.Ready h ∧ memory = h.before ∧ 0 < h.waiting.length
  | .terminalRead buf numBytes (.copy i) => ∃ line, i ≤ line.length ∧
      (i < line.length → view.keys.Holds h.content) ∧ view.Takes memory h buf numBytes i line
  | .terminalRead buf numBytes (.clear _ count) | .terminalRead buf numBytes (.finish count) =>
      ∃ line, count = line.length ∧ view.Takes memory h buf numBytes count line

theorem phase_of_idle {view : InputView} {memory : Nat → UInt8} {h : LineHistory}
    {activity : Activity} (idle : activity.Idle) :
    view.Phase memory h activity ↔ view.Ready h := by
  cases activity with
  | user => exact Iff.rfl
  | rtcRead => exact Iff.rfl
  | terminalRead => exact idle.elim
  | launch => exact idle.elim

/-! ### Keys -/

section Keys

variable {view view' : InputView} {memory : Nat → UInt8} {h : LineHistory} {keycode : UInt8}

/-- What a key does to the input. -/
def press (view : InputView) (keycode : UInt8) : InputView :=
  { view with
    keys := view.keys.act (view.keys.pressAction keycode)
    eflag := if keycode = 0x0D then true else view.eflag }

theorem Flagged.press {taken : Nat} (flagged : view.Flagged h taken) (delivered : h.Delivered)
    (inside : taken ≤ h.waiting.length) (keycode : UInt8) :
    (view.press keycode).Flagged (h.press keycode) taken := by
  unfold Flagged InputView.press
  rw [LineHistory.waiting_press delivered]
  by_cases enter : keycode = 0x0D
  · rw [if_pos enter, if_pos enter, List.length_append, List.length_singleton]
    exact fun _ => Nat.lt_succ_of_le inside
  · rw [if_neg enter, if_neg enter]
    exact flagged

theorem Ready.press (ready : view.Ready h) (delivered : h.Delivered)
    (edits : view.keys.EditsLine h keycode) : (view.press keycode).Ready (h.press keycode) where
  holds := ready.holds.press delivered edits
  flagged := ready.flagged.press delivered (Nat.zero_le _) keycode

theorem Takes.length_pos {buf : Nat} {numBytes : Int} {count : Nat} {line : List UInt8}
    (takes : view.Takes memory h buf numBytes count line) : 0 < h.waiting.length := by
  rcases List.head?_eq_some_iff.mp takes.first with ⟨rest, waiting⟩
  rw [waiting]
  exact Nat.succ_pos _

theorem Takes.press {buf : Nat} {numBytes : Int} {count : Nat} {line : List UInt8}
    (takes : view.Takes memory h buf numBytes count line) (delivered : h.Delivered)
    (keycode : UInt8) :
    (view.press keycode).Takes memory (h.press keycode) buf numBytes count line where
  first := by
    rw [LineHistory.waiting_press delivered]
    split
    · rw [List.head?_append, takes.first]
      rfl
    · exact takes.first
  asks := takes.asks
  memory := by
    rw [LineHistory.before_press]
    exact takes.memory
  flagged := takes.flagged.press delivered takes.length_pos keycode

/-- A key leaves the read where it is. -/
theorem Phase.press {activity : Activity} (phase : view.Phase memory h activity)
    (delivered : h.Delivered) (edits : ¬ activity.Copied → view.keys.EditsLine h keycode) :
    (view.press keycode).Phase memory (h.press keycode) activity := by
  have before := LineHistory.before_press h keycode
  cases activity with
  | user => exact Ready.press phase delivered (edits id)
  | rtcRead => exact Ready.press phase delivered (edits id)
  | launch => exact phase
  | terminalRead buf numBytes point =>
      cases point with
      | spin =>
          rcases phase with ⟨ready, unread⟩
          exact ⟨ready.press delivered (edits id), unread.trans before.symm⟩
      | take =>
          rcases phase with ⟨ready, unread, some⟩
          refine ⟨ready.press delivered (edits id), unread.trans before.symm, ?_⟩
          rw [LineHistory.waiting_press delivered]
          split
          · rw [List.length_append]
            exact Nat.add_pos_left some _
          · exact some
      | copy i =>
          rcases phase with ⟨line, inside, holds, takes⟩
          refine ⟨line, inside, fun more => ?_, takes.press delivered keycode⟩
          have copying := (takes.asks.copies inside).mpr more
          exact (holds more).press delivered (edits (not_not_intro copying))
      | clear i count =>
          rcases phase with ⟨line, all, takes⟩
          exact ⟨line, all, takes.press delivered keycode⟩
      | finish count =>
          rcases phase with ⟨line, all, takes⟩
          exact ⟨line, all, takes.press delivered keycode⟩

/-- Until a read has copied it, the buffer holds what was typed and not delivered. -/
theorem Phase.holds {activity : Activity} (phase : view.Phase memory h activity)
    (uncopied : ¬ activity.Copied) : view.keys.Holds h.content := by
  cases activity with
  | user => exact Ready.holds phase
  | rtcRead => exact Ready.holds phase
  | launch => exact phase.elim
  | terminalRead buf numBytes point =>
      cases point with
      | spin => exact phase.1.holds
      | take => exact phase.1.holds
      | copy i =>
          rcases phase with ⟨line, inside, holds, takes⟩
          exact holds ((takes.asks.copies inside).mp (not_not.mp uncopied))
      | clear => exact absurd trivial uncopied
      | finish => exact absurd trivial uncopied

end Keys

end InputView

namespace Kernel

/-! ### Reads -/

section Reads

variable {k k' : Kernel} {h : LineHistory} {buf : Nat} {numBytes : Int} {line : List UInt8}

theorem keyboardEnabled_terminalReadStep {point : ReadPoint}
    (stepped : k.terminalReadStep buf numBytes point = some k') :
    k'.keyboard.keyboardEnabled = k.keyboard.keyboardEnabled := by
  cases point with
  | spin =>
      rcases Option.bind_eq_some_iff.mp stepped with ⟨p, _, done⟩
      cases done
      rfl
  | take =>
      rcases Option.bind_eq_some_iff.mp stepped with ⟨p, _, done⟩
      cases done
      rfl
  | copy i =>
      simp only [terminalReadStep] at stepped
      split at stepped
      · cases stepped
        exact congrArg InputView.keyboardEnabled (input_untouched.storeUser buf _)
      · cases stepped
        rfl
  | clear i count =>
      simp only [terminalReadStep] at stepped
      split at stepped <;> cases stepped <;> rfl
  | finish count =>
      cases stepped
      rfl

/-- A byte of the first waiting line is in the key buffer. -/
theorem keyByte_of_holds (holds : k.keys.Holds h.content) (first : h.waiting.head? = some line)
    (short : line.length ≤ 127) {i : Nat} (inside : i < line.length) :
    k.keyByte i = line.getD i 0 := by
  rcases List.head?_eq_some_iff.mp first with ⟨rest, waiting⟩
  have index : i % 128 = i := Nat.mod_eq_of_lt (by omega)
  have byte : h.content[i % 128]? = some (line.getD i 0) := by
    rw [index, LineHistory.content, waiting, List.flatten_cons, List.append_assoc,
      List.getElem?_append_left inside, List.getD_eq_getElem?_getD,
      List.getElem?_eq_getElem inside]
    rfl
  exact holds.bytes ⟨i % 128, Nat.mod_lt _ (by decide)⟩ _ byte

theorem phase_spin (displayed : k.ReaderDisplayed)
    (phase : k.input.Phase k.userMemory h (.terminalRead buf numBytes .spin))
    (stepped : k.terminalReadStep buf numBytes .spin = some k') :
    k'.input.Phase k'.userMemory h k'.cpu.activity := by
  rcases Option.bind_eq_some_iff.mp stepped with ⟨p, current, done⟩
  cases done
  rcases phase with ⟨ready, unread⟩
  rw [displayed p current]
  cases awake : (k.terminal k.curTerm).eflag with
  | false => exact ⟨ready, unread⟩
  | true => exact ⟨ready, unread, ready.flagged awake⟩

theorem phase_take (displayed : k.ReaderDisplayed)
    (asks : ∀ line, h.waiting.head? = some line → AsksFor numBytes line)
    (phase : k.input.Phase k.userMemory h (.terminalRead buf numBytes .take))
    (stepped : k.terminalReadStep buf numBytes .take = some k') :
    k'.input.Phase k'.userMemory h k'.cpu.activity := by
  rcases Option.bind_eq_some_iff.mp stepped with ⟨p, current, done⟩
  cases done
  rcases phase with ⟨ready, unread, some⟩
  rw [displayed p current]
  have view : ((k.setEflag k.curTerm false).setReadPoint buf numBytes (.copy 0)).input =
      { k.input with eflag := false } := k.input_setEflag false
  have memory : ((k.setEflag k.curTerm false).setReadPoint buf numBytes (.copy 0)).userMemory =
      k.userMemory := rfl
  rw [view, memory, unread]
  rcases List.length_pos_iff_exists_cons.mp some with ⟨line, rest, waiting⟩
  have first : h.waiting.head? = Option.some line := by
    rw [waiting]
    rfl
  exact ⟨line, Nat.zero_le _, fun _ => ready.holds, first, asks line first, rfl, nofun⟩

theorem phase_copy {i : Nat} (mapped : k.mappedProcess.isSome = true)
    (phase : k.input.Phase k.userMemory h (.terminalRead buf numBytes (.copy i)))
    (stepped : k.terminalReadStep buf numBytes (.copy i) = some k') :
    k'.input.Phase k'.userMemory h k'.cpu.activity := by
  rcases phase with ⟨line, inside, holds, takes⟩
  simp only [terminalReadStep] at stepped
  split at stepped
  · rename_i room
    cases stepped
    have before : i < line.length := (takes.asks.copies inside).mp room
    have byte := keyByte_of_holds (holds before) takes.first takes.asks.length_le before
    have view : ((k.storeUser buf [(i, k.keyByte i)]).setReadPoint buf numBytes
        (.copy (i + 1))).input = k.input := input_untouched.storeUser buf _
    have memory : ((k.storeUser buf [(i, k.keyByte i)]).setReadPoint buf numBytes
        (.copy (i + 1))).userMemory =
        applyStores h.before (storeRange buf (i + 1) fun i => line.getD i 0) := by
      have stored := userMemory_storeUser mapped buf [(i, k.keyByte i)]
      rw [takes.memory] at stored
      rw [storeRange_succ, applyStores_append, ← byte]
      exact stored
    rw [view, memory]
    exact ⟨line, before, fun _ => holds before, takes.first, takes.asks, rfl, takes.flagged⟩
  · rename_i full
    cases stepped
    have all : i = line.length := by
      apply Nat.le_antisymm inside
      apply Nat.le_of_not_lt
      intro more
      exact full ((takes.asks.copies inside).mpr more)
    exact ⟨line, all, takes⟩

theorem phase_clear {i count : Nat}
    (phase : k.input.Phase k.userMemory h (.terminalRead buf numBytes (.clear i count)))
    (stepped : k.terminalReadStep buf numBytes (.clear i count) = some k') :
    k'.input.Phase k'.userMemory h k'.cpu.activity := by
  rcases phase with ⟨line, all, takes⟩
  simp only [terminalReadStep] at stepped
  split at stepped
  · rename_i inside
    cases stepped
    have view : ((k.setKey ⟨i, by omega⟩ 0).setReadPoint buf numBytes
        (.clear (i + 1) count)).input =
        { k.input with keys := k.keys.store (UInt8.ofNat i) 0 } := k.input_setKey _ 0
    have flagged := takes.flagged
    rw [view]
    exact ⟨line, all, takes.first, takes.asks, takes.memory, flagged⟩
  · cases stepped
    exact ⟨line, all, takes⟩

/-- The end of a read that has stored its line, with nothing typed behind it. -/
theorem phase_finish {count : Nat} (delivered : h.Delivered) (last : h.waiting.tail = [])
    (typed : h.current = [])
    (phase : k.input.Phase k.userMemory h (.terminalRead buf numBytes (.finish count)))
    (stepped : k.terminalReadStep buf numBytes (.finish count) = some k') :
    (h.complete ⟨buf, numBytes, count, h.before, k'.userMemory⟩).Delivered ∧
      k'.input.Ready (h.complete ⟨buf, numBytes, count, h.before, k'.userMemory⟩) := by
  rcases phase with ⟨line, all, takes⟩
  cases stepped
  rcases List.head?_eq_some_iff.mp takes.first with ⟨rest, waiting⟩
  have only : rest = [] := by rw [← last, waiting, List.tail_cons]
  subst only
  have memory : ((k.setKeyIdx 0).returnToUser count).userMemory = k.userMemory := rfl
  have view : ((k.setKeyIdx 0).returnToUser count).input =
      { k.input with keys := k.keys.act .reset } := rfl
  have delivers : CompletedRead.Delivers
      ⟨buf, numBytes, count, h.before, ((k.setKeyIdx 0).returnToUser count).userMemory⟩ line := by
    constructor
    · rw [all]
      exact takes.asks.value
    · rw [memory]
      exact takes.memory
  rcases delivered.complete waiting delivers with ⟨after, none⟩
  refine ⟨after, ?_, ?_⟩
  · rw [LineHistory.content, none, view]
    change KeyTable.Holds _ ([] ++ h.current)
    rw [typed]
    exact KeyTable.holds_nil rfl
  · intro awake
    rw [view] at awake
    have more := takes.flagged awake
    rw [waiting] at more
    exact absurd more (by simp)

end Reads

end Kernel

end Ece391Os
