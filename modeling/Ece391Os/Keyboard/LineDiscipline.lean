import Ece391Os.Keyboard.ReadPhases
import Ece391Os.Process.OneTerminal
import Ece391Os.Process.StartsExecutables
import Ece391Os.Process.UserMode
import Ece391Os.Transition.History

/-!
# The line discipline

On one displayed terminal, the reads deliver the lines that were typed, in order, as long as
each read is called for one more byte than its line has and nothing is typed between the end
of a line and the end of its read.  `terminal_read` copies a number of bytes that does not
depend on the line, and then forgets all that is in the buffer.
-/

namespace Ece391Os

open Memory Transition

namespace Kernel

/-! ## The history of lines and reads -/

/-- Note what is typed, the memory at a call of `read`, and the end of a `terminal_read`. -/
def noteInput (k : Kernel) (event : Event) (k' : Kernel) (h : LineHistory) : LineHistory :=
  match event with
  | .keyboard scancode =>
      match (k.keyboard.decode scancode).2 with
      | .press keycode => h.press keycode
      | _ => h
  | .read _ _ _ => { h with before := k.userMemory }
  | .wait =>
      match k.cpu.activity, k'.cpu.activity with
      | .terminalRead buf numBytes _, .user value =>
          h.complete ⟨buf, numBytes, value, h.before, k'.userMemory⟩
      | _, _ => h
  | _ => h

/-- The machine with the history of its lines and reads. -/
def inputStep (env : Env) : EventStep (Kernel × LineHistory) Event :=
  withHistory (step env) noteInput

/-- The history is kept beside the machine's own runs. -/
theorem run_inputStep (env : Env) (state : Kernel × LineHistory) (events : List Event) :
    (run (inputStep env) state events).map Prod.fst = run (step env) state.1 events :=
  run_withHistory state events

/-- Each complete read has delivered the line of its number, and what was typed and not
delivered is in the buffer, until a read has copied it. -/
def LinesKept (state : Kernel × LineHistory) : Prop :=
  state.2.Delivered ∧ (¬ state.1.cpu.activity.Copied → state.1.keys.Holds state.2.content)

/-- A read takes a line of the length that it asks for, and finds nothing else when it
resets the buffer. -/
def ReadsLine (k : Kernel) (h : LineHistory) (numBytes : Int) : ReadPoint → Prop
  | .spin => k.ReaderDisplayed
  | .take => k.ReaderDisplayed ∧ ∀ line, h.waiting.head? = some line → AsksFor numBytes line
  | .copy _ | .clear _ _ => True
  | .finish _ => h.waiting.tail = [] ∧ h.current = []

/-- Keys edit the line being typed, and reads take the line that was typed. -/
def KeepsLines (state : Kernel × LineHistory) (event : Event) : Prop :=
  match event with
  | .keyboard scancode => ∀ keycode, (state.1.keyboard.decode scancode).2 = .press keycode →
      (keycode = 0x0D → state.1.keyboard.keyBufferIdx < 128) ∧
        (¬ state.1.cpu.activity.Copied → state.1.keys.EditsLine state.2 keycode)
  | .wait => ∀ buf numBytes point, state.1.cpu.activity = .terminalRead buf numBytes point →
      state.1.ReadsLine state.2 numBytes point
  | _ => True

/-! ### Runs are checked by computation -/

instance (k : Kernel) (h : LineHistory) (numBytes : Int) (point : ReadPoint) :
    Decidable (k.ReadsLine h numBytes point) :=
  match point with
  | .spin => inferInstanceAs (Decidable k.ReaderDisplayed)
  | .take =>
      decidable_of_iff (k.ReaderDisplayed ∧ ∀ line ∈ h.waiting.head?, AsksFor numBytes line) Iff.rfl
  | .copy _ | .clear _ _ => .isTrue trivial
  | .finish _ => inferInstanceAs (Decidable (_ ∧ _))

instance (state : Kernel × LineHistory) (event : Event) : Decidable (KeepsLines state event) :=
  match event with
  | .keyboard scancode =>
      match decoded : (state.1.keyboard.decode scancode).2 with
      | .press keycode =>
          decidable_of_iff
            ((keycode = 0x0D → state.1.keyboard.keyBufferIdx < 128) ∧
              (¬ state.1.cpu.activity.Copied → state.1.keys.EditsLine state.2 keycode))
            (by simp [KeepsLines, decoded])
      | .nothing | .switchTerminal _ => .isTrue (by simp [KeepsLines, decoded])
  | .wait =>
      match activity : state.1.cpu.activity with
      | .terminalRead _ numBytes point =>
          decidable_of_iff (state.1.ReadsLine state.2 numBytes point)
            (by simp [KeepsLines, activity])
      | .user _ | .rtcRead _ | .launch _ _ => .isTrue (by simp [KeepsLines, activity])
  | .timer | .clock | .halt _ | .execute _ | .read .. | .write .. | .openFile _ | .closeFile _
  | .getargs .. | .vidmap _ => .isTrue trivial

/-! ## One step -/

/-- What a step on one terminal does to the input. -/
inductive InputStep (k : Kernel) : Event → Kernel → Prop where
  /-- Nothing that concerns input or the running program. -/
  | keeps (event : Event) (k' : Kernel) (noted : ∀ h, noteInput k event k' h = h)
      (view : k'.input = k.input) (program : k'.program = k.program) : InputStep k event k'
  /-- A key. -/
  | key (scancode keycode : UInt8) (k' : Kernel)
      (decoded : (k.keyboard.decode scancode).2 = .press keycode)
      (handled : handleKeyPress { k with keyboard := (k.keyboard.decode scancode).1 } keycode =
        some k') :
      InputStep k (.keyboard scancode) k'
  /-- A system call or a wait for the clock. -/
  | calls (event : Event) (k' : Kernel) (idle : k.cpu.activity.Idle)
      (noted : ∀ h, ∃ before, noteInput k event k' h = { h with before := before })
      (view : k'.input = k.input) (after : k'.cpu.activity.Idle) : InputStep k event k'
  /-- The call of a read of the keyboard. -/
  | begins (fd nbytes : Int) (buf : Nat) (k' : Kernel) (idle : k.cpu.activity.Idle)
      (view : k'.input = k.input) (memory : k'.userMemory = k.userMemory)
      (activity : k'.cpu.activity = .terminalRead buf nbytes .spin) :
      InputStep k (.read fd buf nbytes) k'
  /-- A step of a read of the keyboard. -/
  | reads (buf : Nat) (numBytes : Int) (point : ReadPoint) (k' : Kernel)
      (activity : k.cpu.activity = .terminalRead buf numBytes point)
      (stepped : k.terminalReadStep buf numBytes point = some k') : InputStep k .wait k'

section Steps

variable {env : Env} {k k' : Kernel} {chain : List ProcId} {event : Event}

theorem idle_of_inUserMode (userMode : k.inUserMode = true) : k.cpu.activity.Idle := by
  cases activity : k.cpu.activity with
  | user => trivial
  | _ =>
      rw [inUserMode, activity] at userMode
      cases userMode

theorem input_decode (k : Kernel) (scancode : UInt8) :
    Kernel.input { k with keyboard := (k.keyboard.decode scancode).1 } = k.input := by
  rcases k.keyboard.decode_eq scancode with ⟨_, _, _, _, decoded⟩
  rw [decoded]
  rfl

theorem inputStep_of_step (on : k.OnChain chain)
    (notLaunching : ∀ old interrupted, k.cpu.activity ≠ .launch old interrupted)
    (noSwitch : k.NoSwitch event) (step : k.step env event = some k') : InputStep k event k' := by
  have returned : (∀ h, noteInput k event k' h = h) → k.inUserMode = true →
      k'.input = k.input → k'.inUserMode = true → InputStep k event k' := by
    intro noted before view after
    exact .calls event k' (idle_of_inUserMode before) (fun h => ⟨h.before, noted h⟩) view
      (idle_of_inUserMode after)
  cases step_cases step with
  | scheduled _ schedules =>
      cases on.pitScheduling_eq schedules
      exact .keeps _ _ (fun _ => rfl) rfl rfl
  | ignored scancode key =>
      exact .keeps _ _ (fun h => by rw [noteInput, key]) (input_decode k scancode) rfl
  | pressed scancode keycode _ key handled => exact .key scancode keycode k' key handled
  | switched scancode termNum _ key switches =>
      cases switchTerminal_cases switches with
      | kept =>
          exact .keeps _ _ (fun h => by rw [noteInput, key]) (input_decode k scancode) rfl
      | displayed t target differs _ =>
          exact absurd (noSwitch scancode termNum rfl key t target) differs
      | awaits t target differs _ _ _ =>
          exact absurd (noSwitch scancode termNum rfl key t target) differs
  | ticked => exact .keeps _ _ (fun _ => rfl) rfl rfl
  | halted _ _ userMode halts =>
      exact returned (fun _ => rfl) userMode (input_untouched.halt halts) (inUserMode_halt halts)
  | executed _ _ userMode executes =>
      exact returned (fun _ => rfl) userMode (input_untouched.executeCall executes)
        (inUserMode_executeCall executes)
  | begun fd buf nbytes _ userMode begins =>
      have view := input_untouchedByDirectories.beginRead begins
      have idle := idle_of_inUserMode userMode
      rcases beginRead_cases begins with after | rfl | rfl
      · exact .calls _ _ idle (fun _ => ⟨_, rfl⟩) view (idle_of_inUserMode after)
      · exact .begins fd nbytes buf _ idle view rfl rfl
      · exact .calls _ _ idle (fun _ => ⟨_, rfl⟩) view trivial
  | returned _ n _ userMode returns =>
      apply returned _ userMode (input_untouched.returns returns) rfl
      cases returns <;> exact fun _ => rfl
  | mapped screenStart userMode =>
      exact returned (fun _ => rfl) userMode
        ((input_untouched.returnToUser _).trans (input_untouched.vidmap screenStart)) rfl
  | readOn buf nbytes point _ activity stepped =>
      exact .reads buf nbytes point k' activity stepped
  | rtcReadOn seen activity =>
      refine .calls _ _ ?_ (fun h => ⟨h.before, ?_⟩) (input_untouched.rtcReadStep seen) ?_
      · rw [activity]
        trivial
      · rw [noteInput, activity]
      · unfold rtcReadStep
        split <;> trivial
  | launched old interrupted _ activity => exact absurd activity (notLaunching old interrupted)

/-! ## Every run -/

/-- The history keeps track of the input: complete reads have delivered their lines, and the
buffer and the running read are where the history says. -/
structure Tracks (state : Kernel × LineHistory) : Prop where
  chain : ∃ chain, state.1.OnChain chain
  named : state.1.procs.Named
  enabled : state.1.keyboard.keyboardEnabled = true
  bounded : state.1.keys.Bounded
  delivered : state.2.Delivered
  phase : state.1.input.Phase state.1.userMemory state.2 state.1.cpu.activity

namespace Tracks

variable {state target : Kernel × LineHistory}

theorem notLaunching (tracks : Tracks state) (old : ProcId) (interrupted : Activity) :
    state.1.cpu.activity ≠ .launch old interrupted := by
  intro activity
  have phase := tracks.phase
  rw [activity] at phase
  exact phase

/-- A key edits the lines and the input alike. -/
theorem key {scancode keycode : UInt8} (tracks : Tracks state)
    (fits : keycode = 0x0D → state.1.keyboard.keyBufferIdx < 128)
    (edits : ¬ state.1.cpu.activity.Copied → state.1.keys.EditsLine state.2 keycode)
    (handled : handleKeyPress
      { state.1 with keyboard := (state.1.keyboard.decode scancode).1 } keycode = some k') :
    k'.keyboard.keyboardEnabled = true ∧ (state.2.press keycode).Delivered ∧
      k'.input.Phase k'.userMemory (state.2.press keycode) k'.cpu.activity := by
  rcases tracks.chain with ⟨chain, on⟩
  have before := state.1.input_decode scancode
  have keys : Kernel.keys { state.1 with keyboard := (state.1.keyboard.decode scancode).1 } =
      state.1.keys := congrArg InputView.keys before
  have enabled := (congrArg InputView.keyboardEnabled before).trans tracks.enabled
  have view := input_handleKeyPress enabled (keys ▸ tracks.bounded) (fun p => on.own)
    (keys ▸ fits) handled
  have pressed : k'.input = state.1.input.press keycode := by
    rw [view, keys, before]
    rfl
  have program : k'.program = state.1.program :=
    (program_untouchedByTyping.handleKeyPress handled).trans rfl
  have memory : k'.userMemory = state.1.userMemory := congrArg Prod.snd program
  have cpu : k'.cpu = state.1.cpu := congrArg Prod.fst program
  refine ⟨?_, tracks.delivered.press keycode, ?_⟩
  · exact (congrArg InputView.keyboardEnabled pressed).trans tracks.enabled
  · rw [pressed, memory, cpu]
    exact tracks.phase.press tracks.delivered edits

/-- A step of a read. -/
theorem read {buf : Nat} {numBytes : Int} {point : ReadPoint} (tracks : Tracks state)
    (activity : state.1.cpu.activity = .terminalRead buf numBytes point)
    (reads : state.1.ReadsLine state.2 numBytes point)
    (stepped : state.1.terminalReadStep buf numBytes point = some k') :
    (noteInput state.1 .wait k' state.2).Delivered ∧
      k'.input.Phase k'.userMemory (noteInput state.1 .wait k' state.2) k'.cpu.activity := by
  have phase := tracks.phase
  rw [activity] at phase
  rcases terminalReadStep_continues stepped with ⟨next, continues⟩ | ⟨count, ends, _⟩
  · have noted : noteInput state.1 .wait k' state.2 = state.2 := by
      simp only [noteInput, activity, continues]
    rw [noted]
    refine ⟨tracks.delivered, ?_⟩
    cases point with
    | spin => exact phase_spin reads phase stepped
    | take => exact phase_take reads.1 reads.2 phase stepped
    | copy i => exact phase_copy tracks.named.mapped phase stepped
    | clear i count => exact phase_clear phase stepped
    | finish count =>
        cases stepped
        cases continues
  · subst ends
    have ended := phase_finish tracks.delivered reads.1 reads.2 phase stepped
    cases stepped
    simp only [noteInput, activity]
    exact ended

theorem step (tracks : Tracks state) (noSwitch : state.1.NoSwitch event)
    (keeps : KeepsLines state event) (step : inputStep env state event = some target) :
    Tracks target := by
  rcases withHistory_eq_some_iff.mp step with ⟨machine, noted⟩
  rcases tracks.chain with ⟨chain, on⟩
  have fits : state.1.EnterFits event := by
    cases event with
    | keyboard scancode => exact fun enter => (keeps _ enter).1 rfl
    | _ => trivial
  have rest : target.1.keyboard.keyboardEnabled = true → target.2.Delivered →
      target.1.input.Phase target.1.userMemory target.2 target.1.cpu.activity → Tracks target :=
    fun enabled delivered phase =>
      ⟨on.step noSwitch machine, named_step tracks.named machine, enabled,
        bounded_step tracks.bounded fits machine, delivered, phase⟩
  rw [noted] at rest
  cases inputStep_of_step on tracks.notLaunching noSwitch machine with
  | keeps _ _ same view program =>
      have memory : target.1.userMemory = state.1.userMemory := congrArg Prod.snd program
      have cpu : target.1.cpu = state.1.cpu := congrArg Prod.fst program
      rw [same, view, memory, cpu] at rest
      exact rest ((congrArg InputView.keyboardEnabled view).trans tracks.enabled)
        tracks.delivered tracks.phase
  | key scancode keycode _ decoded handled =>
      have pressed : noteInput state.1 (.keyboard scancode) target.1 state.2 =
          state.2.press keycode := by
        rw [noteInput, decoded]
      rw [pressed] at rest
      rcases keeps keycode decoded with ⟨fits, edits⟩
      rcases tracks.key fits edits handled with ⟨enabled, delivered, phase⟩
      exact rest enabled delivered phase
  | calls _ _ idle called view after =>
      rcases called state.2 with ⟨before, same⟩
      have ready := (InputView.phase_of_idle idle).mp tracks.phase
      rw [same, view, InputView.phase_of_idle after] at rest
      exact rest ((congrArg InputView.keyboardEnabled view).trans tracks.enabled)
        tracks.delivered ⟨ready.holds, ready.flagged⟩
  | begins fd nbytes buf _ idle view memory activity =>
      have ready := (InputView.phase_of_idle idle).mp tracks.phase
      rw [view, memory, activity] at rest
      exact rest ((congrArg InputView.keyboardEnabled view).trans tracks.enabled)
        tracks.delivered ⟨⟨ready.holds, ready.flagged⟩, rfl⟩
  | reads buf numBytes point _ activity stepped =>
      rcases tracks.read activity (keeps buf numBytes point activity) stepped with
        ⟨delivered, phase⟩
      exact rest ((keyboardEnabled_terminalReadStep stepped).trans tracks.enabled) delivered phase

end Tracks

end Steps

theorem tracks_of_boot {env : Env} {k start : Kernel} (booted : boot env k = some start) :
    Tracks (start, .empty) := by
  have view := input_untouched.boot booted
  have idle := idle_of_inUserMode (inUserMode_boot booted)
  rcases onChain_of_boot booted with ⟨p, _, on⟩
  refine ⟨⟨[p], on⟩, named_of_boot booted, ?_, bounded_of_boot booted, ?_, ?_⟩
  · exact (congrArg InputView.keyboardEnabled view).trans rfl
  · intro n r read
    rw [LineHistory.empty, List.getElem?_nil] at read
    cases read
  · rw [InputView.phase_of_idle idle, view]
    exact ⟨KeyTable.holds_nil rfl, nofun⟩

/-- In every run from the first shell on one displayed terminal, the completed reads deliver
the lines typed, in order, and what is typed behind a line is kept for the following reads,
as long as each read asks for one more byte than its line has and nothing is typed between
the end of a line and the end of its read. -/
theorem line_discipline {env : Env} {k start : Kernel} {events : List Event}
    {final : Kernel × LineHistory} (booted : boot env k = some start)
    (alone : EachStep (inputStep env) (fun state event => state.1.NoSwitch event) (start, .empty)
      events)
    (keeps : EachStep (inputStep env) KeepsLines (start, .empty) events)
    (reached : run (inputStep env) (start, .empty) events = some final) : LinesKept final := by
  have tracks : Tracks final :=
    run_invariant Tracks
      (fun _ _ _ tracks conditions step => tracks.step conditions.1 conditions.2 step)
      (tracks_of_boot booted) (alone.and keeps) reached
  exact ⟨tracks.delivered, tracks.phase.holds⟩

/-- The character `a` and Enter are typed, and read to the end. -/
def oneLine (numBytes : Int) (waits : Nat) : List Event :=
  [.keyboard 0x1E, .keyboard 0x1C, .read 0 0x8048000 numBytes] ++ List.replicate waits .wait

/-- The read asks for three bytes. -/
def oneLineRun :
    ObservedRun ((boot Env.sample default).map fun start => (start, LineHistory.empty))
      (inputStep Env.sample) []
      (fun state =>
        ([decide (EachStep (inputStep Env.sample) (fun state event => state.1.NoSwitch event) state
            (oneLine 3 134)),
          decide (EachStep (inputStep Env.sample) KeepsLines state (oneLine 3 134))],
          (run (inputStep Env.sample) state (oneLine 3 134)).map fun state =>
            state.2.reads.map CompletedRead.value))
      ([true, true], some [2]) :=
  .of (by decide +kernel)

theorem line_discipline_sample :
    ∃ start final, boot Env.sample default = some start ∧
      run (inputStep Env.sample) (start, .empty) (oneLine 3 134) = some final ∧
      final.2.reads.map CompletedRead.value = [2] ∧ LinesKept final := by
  rcases oneLineRun with ⟨initial, same, starts, reached, saw⟩
  rcases Option.map_eq_some_iff.mp starts with ⟨start, booted, rfl⟩
  cases reached
  simp only [Prod.mk.injEq, List.cons.injEq, decide_eq_true_eq, Option.map_eq_some_iff] at saw
  rcases saw with ⟨⟨alone, keeps, _⟩, final, reached, values⟩
  exact ⟨start, final, booted, reached, values, line_discipline booted alone keeps reached⟩

/-- The read asks for two bytes. -/
def shortReadRun :
    ObservedRun ((boot Env.sample default).map fun start => (start, LineHistory.empty))
      (inputStep Env.sample) (oneLine 2 133)
      (fun state => (state.2.finished, state.2.reads.map fun r => (r.numBytes, r.value)))
      ([[0x61, 0x0A]], [(2, 1)]) :=
  .of (by decide +kernel)

/-- A read of two bytes delivers one of a line of two. -/
theorem short_read :
    ∃ start final, boot Env.sample default = some start ∧
      run (inputStep Env.sample) (start, .empty) (oneLine 2 133) = some final ∧
      ¬ LinesKept final := by
  rcases shortReadRun with ⟨initial, final, starts, reached, saw⟩
  rcases Option.map_eq_some_iff.mp starts with ⟨start, booted, rfl⟩
  refine ⟨start, final, booted, reached, ?_⟩
  rintro ⟨delivered, _⟩
  simp only [Prod.mk.injEq, List.map_eq_cons_iff] at saw
  rcases saw with ⟨finished, r, rest, reads, ⟨numBytes, value⟩, _⟩
  rcases delivered 0 r (by rw [reads]; rfl) with ⟨line, first, count, _⟩
  rw [finished] at first
  cases first
  rw [numBytes, value] at count
  exact absurd count (by decide)

end Kernel

end Ece391Os
