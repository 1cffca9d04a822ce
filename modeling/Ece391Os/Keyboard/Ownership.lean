import Ece391Os.Keyboard.Bounds

/-!
# Whose characters `terminal_read` takes

A reader wakes by the flag of its own terminal and then copies, clears and resets the
buffer of the displayed one.  Each of these steps touches the input of the reader's
terminal only, exactly when that terminal is displayed or there is nothing to touch.
-/

namespace Ece391Os

open Transition

namespace Kernel

/-- The character in `key_buffer[i]`, if any, was typed while `t` was displayed. -/
def TypedOn (k : Kernel) (t : TermId) (i : Nat) : Prop :=
  k.keyByte i ≠ 0 → ∃ s,
    k.keyLog.find? (fun s => decide (s.buffer = k.keyboard.keyBuffer ∧ s.index = i)) = some s ∧
      s.byte = k.keyByte i ∧ s.shown = t

/-- The index of the key buffer of a terminal. -/
def keyIndex (k : Kernel) (t : TermId) : UInt8 :=
  if t = k.curTerm then k.keyboard.keyBufferIdx else (k.terminal t).keyBufferIdx

/-- At this point a `terminal_read` by a process of terminal `t` takes or erases only
what was typed on `t`, and resets no other terminal's index. -/
def OwnInput (k : Kernel) (t : TermId) (numBytes : Int) : ReadPoint → Prop
  | .spin | .take => True
  | .copy i => i < numBytes - 1 ∧ i < 127 → k.TypedOn t i
  | .clear i _ => i < 127 → k.TypedOn t i
  | .finish _ => ∀ u, u ≠ t → (k.setKeyIdx 0).keyIndex u = k.keyIndex u

/-- At this point of a `terminal_read` by a process of terminal `t`, that terminal is
displayed, or the displayed terminal has nothing there to take, erase or reset. -/
def OwnDisplayed (k : Kernel) (t : TermId) (numBytes : Int) : ReadPoint → Prop
  | .spin | .take => True
  | .copy i => i < numBytes - 1 ∧ i < 127 → k.curTerm = t ∨ k.keyByte i = 0
  | .clear i _ => i < 127 → k.curTerm = t ∨ k.keyByte i = 0
  | .finish _ => k.curTerm = t ∨ k.keyboard.keyBufferIdx = 0

/-- A condition on the steps of `terminal_read` by its caller's terminal. -/
def AtReads (condition : Kernel → TermId → Int → ReadPoint → Prop) (k : Kernel) (event : Event) :
    Prop :=
  event = .wait → ∀ p buf numBytes point, k.getPcbPtr = some p →
    k.cpu.activity = .terminalRead buf numBytes point →
    condition k (k.pcb p).term numBytes point

theorem typedOn_iff {k : Kernel} (owned : k.keys.Owned) (t : TermId) {i : Nat} (inside : i < 127) :
    k.TypedOn t i ↔ k.curTerm = t ∨ k.keyByte i = 0 := by
  have cell : k.keys.array k.keyboard.keyBuffer ⟨i % 128, Nat.mod_lt _ (by decide)⟩ =
      k.keyByte i := rfl
  have index : i % 128 = i := Nat.mod_eq_of_lt (by omega)
  have buffer : k.keyboard.keyBuffer = k.curTerm := owned.buffer
  by_cases empty : k.keyByte i = 0
  · simp [TypedOn, empty]
  obtain ⟨s, last, byte, shown⟩ :=
    owned.shown_of_ne_zero (i := ⟨i % 128, Nat.mod_lt _ (by decide)⟩) (by simp only; omega)
      (cell.trans_ne empty)
  simp only [index] at last
  constructor
  · intro typed
    obtain ⟨s', last', _, shown'⟩ := typed empty
    obtain rfl : s = s' := Option.some.inj (last.symm.trans last')
    exact .inl (buffer.symm.trans (shown.symm.trans shown'))
  · intro displayed _
    rcases displayed with here | zero
    · exact ⟨s, last, byte.trans cell, shown.trans (buffer.trans here)⟩
    · exact absurd zero empty

theorem keyIndex_setKeyIdx_iff (k : Kernel) (t : TermId) :
    (∀ u, u ≠ t → (k.setKeyIdx 0).keyIndex u = k.keyIndex u) ↔
      k.curTerm = t ∨ k.keyboard.keyBufferIdx = 0 := by
  have reset : ∀ u, (k.setKeyIdx 0).keyIndex u =
      if u = k.curTerm then 0 else (k.terminal u).keyBufferIdx := fun _ => rfl
  constructor
  · intro kept
    by_cases here : k.curTerm = t
    · exact .inl here
    · have same := kept k.curTerm here
      rw [reset, if_pos rfl, keyIndex, if_pos rfl] at same
      exact .inr same.symm
  · intro displayed u other
    rw [reset, keyIndex]
    by_cases shown : u = k.curTerm
    · rcases displayed with here | zero
      · exact absurd (shown.trans here) other
      · rw [if_pos shown, if_pos shown, zero]
    · rw [if_neg shown, if_neg shown]

theorem ownInput_iff {k : Kernel} (owned : k.keys.Owned) (t : TermId) (numBytes : Int)
    (point : ReadPoint) : k.OwnInput t numBytes point ↔ k.OwnDisplayed t numBytes point := by
  cases point with
  | spin => exact Iff.rfl
  | take => exact Iff.rfl
  | copy i => exact imp_congr_right fun inside => typedOn_iff owned t inside.2
  | clear i count => exact imp_congr_right fun inside => typedOn_iff owned t inside
  | finish count => exact k.keyIndex_setKeyIdx_iff t

theorem owned_step {env : Env} {k k' : Kernel} {event : Event} (owned : k.keys.Owned)
    (step : k.step env event = some k') : k'.keys.Owned := by
  obtain ⟨action, _, table⟩ := step_keys step
  rw [table]
  exact owned.act action

theorem owned_of_boot {env : Env} {k start : Kernel} (booted : boot env k = some start) :
    start.keys.Owned := by
  obtain ⟨array, empty, initial⟩ := k.keys_initTerminals
  rw [keys_untouched.boot booted, initial]
  refine ⟨rfl, fun s member => ?_, empty⟩
  cases member

/-- In a run from the first shell, every `terminal_read` touches only the input of its
own terminal if and only if, at each of its steps, that terminal is displayed or the
displayed terminal has nothing there. -/
theorem reads_own_input_iff {env : Env} {k start : Kernel} (booted : boot env k = some start)
    (events : List Event) :
    EachStep (Kernel.step env) (AtReads OwnInput) start events ↔
      EachStep (Kernel.step env) (AtReads OwnDisplayed) start events := by
  have kept : ∀ {condition : Kernel → Event → Prop} (k : Kernel) (event : Event) (k' : Kernel),
      k.keys.Owned → condition k event → k.step env event = some k' → k'.keys.Owned :=
    fun _ _ _ owned _ step => owned_step owned step
  have start := owned_of_boot booted
  constructor
  · refine eachStep_of_invariant (fun k => k.keys.Owned) kept ?_ start
    intro k event owned own isWait p buf numBytes point current activity
    exact (ownInput_iff owned _ _ _).mp (own isWait p buf numBytes point current activity)
  · refine eachStep_of_invariant (fun k => k.keys.Owned) kept ?_ start
    intro k event owned displayed isWait p buf numBytes point current activity
    exact (ownInput_iff owned _ _ _).mpr (displayed isWait p buf numBytes point current activity)

/-- A second shell waits for input, which is typed; then the first terminal is displayed
and a `b` typed on it. -/
def typedElsewhere : List Event :=
  [.keyboard 0x38, .keyboard 0x3C, .wait, .keyboard 0xB8, .read 0 0x8048000 128,
    .keyboard 0x1E, .keyboard 0x1C, .keyboard 0x38, .keyboard 0x3B, .keyboard 0xB8,
    .keyboard 0x30, .wait, .wait]

/-- The reader on the second terminal is about to copy the `b` typed on the first. -/
def typedElsewhereRun : BootRun Env.sample typedElsewhere
    (fun k => (k.getPcbPtr, k.cpu.activity, (k.pcb 1).term, k.curTerm, k.keyByte 0))
    (some 1, .terminalRead 0x8048000 128 (.copy 0), 1, 0, 0x62) :=
  .of (by decide +kernel)

theorem reads_own_input_sample :
    EachStep (Kernel.step Env.sample) (AtReads OwnInput) typedElsewhereRun.start typedElsewhere ↔
      EachStep (Kernel.step Env.sample) (AtReads OwnDisplayed) typedElsewhereRun.start
        typedElsewhere :=
  reads_own_input_iff typedElsewhereRun.booted typedElsewhere

/-- The reader on the second terminal takes the `b` typed on the first. -/
theorem read_takes_typedElsewhere :
    ∃ start final, boot Env.sample default = some start ∧
      run (Kernel.step Env.sample) start typedElsewhere = some final ∧
      ¬ AtReads OwnInput final .wait := by
  obtain ⟨start, final, booted, reached, saw⟩ := typedElsewhereRun
  refine ⟨start, final, booted, reached, fun own => ?_⟩
  simp only [Prod.mk.injEq] at saw
  obtain ⟨current, activity, term, shown, byte⟩ := saw
  have owned : final.keys.Owned :=
    run_invariant_always (fun k => k.keys.Owned) (fun _ _ _ owned step => owned_step owned step)
      (owned_of_boot booted) reached
  have typed : final.TypedOn 1 0 := by
    have here := own rfl 1 0x8048000 128 (.copy 0) current activity (by decide)
    rw [term] at here
    exact here
  rcases (typedOn_iff owned 1 (by decide)).mp typed with displayed | empty
  · rw [shown] at displayed
    cases displayed
  · rw [byte] at empty
    cases empty

end Kernel

end Ece391Os
