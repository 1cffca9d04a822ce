import Ece391Os.Machine.StepCases

/-!
# What calls leave unchanged

A view of the kernel state that does not depend on screens, descriptors, devices,
user memory and the processor is the same before and after output and the descriptor
calls.
-/

namespace Ece391Os

/-- An assignment to the cursor and the screen of a terminal only. -/
def Term.OutputOnly (change : Term → Term) : Prop :=
  ∀ term, ∃ x y screen, change term = { term with posX := x, posY := y, videoMem := screen }

/-- An assignment to the keyboard buffer of a terminal, its index and its flag only. -/
def Term.InputOnly (change : Term → Term) : Prop :=
  ∀ term, ∃ buffer index flag, change term =
    { term with keyBuffer := buffer, keyBufferIdx := index, eflag := flag }

namespace Kernel

/-- A view that does not depend on what output and stores through user pointers assign to. -/
structure UntouchedByWrites {α : Type} (view : Kernel → α) : Prop where
  console : ∀ k console, view { k with console := console } = view k
  screen : ∀ k t change, Term.OutputOnly change → view (k.modifyTerm t change) = view k
  cmos : ∀ k cmos, view { k with cmos := cmos } = view k
  memory : ∀ k memory, view { k with memory := memory } = view k
  cpu : ∀ k cpu, view { k with cpu := cpu } = view k

/-- A view that does not depend on what output, devices and stores through user pointers
assign to. -/
structure UntouchedByOutput {α : Type} (view : Kernel → α) : Prop
    extends UntouchedByWrites view where
  rtcInterruptOccurred : ∀ k occurred, view { k with rtcInterruptOccurred := occurred } = view k

/-- A view that does not depend on what output and the descriptor calls, other than the
reads of directories and of the clock, assign to. -/
structure UntouchedByDescriptors {α : Type} (view : Kernel → α) : Prop
    extends UntouchedByWrites view where
  fds : ∀ k p fds, view (k.setFds p fds) = view k

/-- A view that does not depend on what output and the descriptor calls, other than the
reads of the clock, assign to. -/
structure UntouchedByReads {α : Type} (view : Kernel → α) : Prop
    extends UntouchedByDescriptors view where
  directoryLoc : ∀ k loc, view { k with directoryLoc := loc } = view k

/-- A view that does not depend on what output and the descriptor calls, other than the
reads of directories, assign to. -/
structure UntouchedByCalls {α : Type} (view : Kernel → α) : Prop
    extends UntouchedByOutput view, UntouchedByDescriptors view

/-- A view that does not depend on what output and the descriptor calls assign to. -/
structure Untouched {α : Type} (view : Kernel → α) : Prop
    extends UntouchedByCalls view, UntouchedByReads view

/-- A view that does not depend on what `handle_key_press` assigns to. -/
structure UntouchedByTyping {α : Type} (view : Kernel → α) : Prop where
  console : ∀ k console, view { k with console := console } = view k
  keyboard : ∀ k keyboard, view { k with keyboard := keyboard } = view k
  keyLog : ∀ k log, view { k with keyLog := log } = view k
  input : ∀ k t change, Term.InputOnly change → view (k.modifyTerm t change) = view k

/-- A view that does not depend on what writes and the keyboard routines assign to. -/
structure UntouchedByTerminals {α : Type} (view : Kernel → α) : Prop
    extends UntouchedByWrites view, UntouchedByTyping view

/-- A view that does not depend on what output and the keyboard routines assign to. -/
structure UntouchedByKeys {α : Type} (view : Kernel → α) : Prop
    extends UntouchedByOutput view, UntouchedByTerminals view

/-! ## Output -/

theorem puts_eq (k : Kernel) (text : List UInt8) :
    ∃ console, k.puts text = { k with console := console } := by
  induction text generalizing k with
  | nil => exact ⟨k.console, rfl⟩
  | cons char text ih => exact ih (k.putc char)

/-- `printf` changes the console only. -/
theorem printf_eq {k k' : Kernel} {args : PrintfArgs} {format : List UInt8} {n : Int}
    (printed : k.printf args format = some (n, k')) :
    ∃ console, k' = { k with console := console } := by
  obtain ⟨r, _, equal⟩ := Option.map_eq_some_iff.mp printed
  cases equal
  exact k.puts_eq r.1

theorem printLiteral_eq (k : Kernel) (args : PrintfArgs) (format : List UInt8) :
    ∃ console, k.printLiteral args format = { k with console := console } := by
  unfold printLiteral
  cases printed : k.printf args (format ++ [0]) with
  | none => exact ⟨k.console, rfl⟩
  | some outcome => exact printf_eq printed

theorem outputOnly_enterTermExec : Term.OutputOnly Term.enterTermExec := by
  intro term
  rw [Term.enterTermExec_eq]
  split <;> exact ⟨_, _, _, rfl⟩

/-- The cursor is moved to a column of the screen or just behind it. -/
theorem outputOnly_setScreenPosTermExec (screen : Term → Screen) {x y : Term → Nat}
    (row : ∀ term, y term < 25) :
    Term.OutputOnly fun term =>
      { term with videoMem := screen term }.setScreenPosTermExec (x term) (y term) := by
  intro term
  by_cases column : x term < 80
  · dsimp only
    rw [Term.setScreenPosTermExec_of_lt _ column (row term)]
    exact ⟨_, _, _, rfl⟩
  · dsimp only
    rw [Term.setScreenPosTermExec_enter _ _ (Nat.le_of_not_lt column)]
    obtain ⟨x', y', screen', moved⟩ :=
      outputOnly_enterTermExec { term with videoMem := screen term }
    exact ⟨x', y', screen', moved⟩

namespace UntouchedByWrites

variable {α : Type} {view : Kernel → α} (untouched : UntouchedByWrites view) {k k' : Kernel}
include untouched

theorem putcTerminalActive (char : UInt8) : view (k.putcTerminalActive char) = view k := by
  unfold Kernel.putcTerminalActive
  split
  · exact untouched.screen k _ _ outputOnly_enterTermExec
  · refine (untouched.screen _ _ _ ?_).trans (untouched.console k _)
    exact outputOnly_setScreenPosTermExec (fun t => t.videoMem.setChar t.posY t.posX char)
      fun t => t.posY.isLt

theorem putsTerminalActive (text : List UInt8) : view (k.putsTerminalActive text) = view k := by
  induction text generalizing k with
  | nil => rfl
  | cons char text ih => exact ih.trans (untouched.putcTerminalActive char)

theorem terminalWrite {args : PrintfArgs} {buf : List UInt8} {nbytes n : Int}
    (written : k.terminalWrite args buf nbytes = some (n, k')) : view k' = view k := by
  unfold Kernel.terminalWrite at written
  split at written
  · obtain ⟨console, rfl⟩ := printf_eq written
    exact untouched.console k console
  · obtain ⟨r, _, equal⟩ := Option.map_eq_some_iff.mp written
    cases equal
    exact untouched.putsTerminalActive r.1

theorem storeUser (buf : Nat) (stores : Memory.Stores Nat) :
    view (k.storeUser buf stores) = view k := by
  unfold Kernel.storeUser
  split
  · rfl
  · exact untouched.memory k _

theorem returnToUser (eax : Int) : view (k.returnToUser eax) = view k :=
  untouched.cpu k _

theorem fopsClose (ops : Fops) : view (k.fopsClose ops).2 = view k := by
  cases ops with
  | rtc => exact untouched.cmos k _
  | _ => rfl

theorem rtcWrite (junk : UInt8) (buf : Nat) (word nbytes : Int) :
    view (k.rtcWrite junk buf word nbytes).2 = view k := by
  unfold Kernel.rtcWrite
  split
  · rfl
  · exact untouched.cmos k _

theorem sysWrite {junk : UInt8} {fd nbytes n : Int} {buf : Nat} {buffer : WriteBuffer}
    (called : k.sysWrite junk fd buf buffer nbytes = some (n, k')) : view k' = view k := by
  unfold Kernel.sysWrite at called
  obtain ⟨p, _, rest⟩ := Option.bind_eq_some_iff.mp called
  split at rest
  · cases rest
    rfl
  · split at rest
    · exact untouched.terminalWrite rest
    · have kept := untouched.rtcWrite (k := k) junk buf buffer.word nbytes
      rw [Option.some.inj rest] at kept
      exact kept
    all_goals
      cases rest
      rfl

theorem getargs {buf : Nat} {n : Int} (called : k.getargs buf = some (n, k')) :
    view k' = view k := by
  unfold Kernel.getargs at called
  split at called
  · cases called
    rfl
  · obtain ⟨p, _, rest⟩ := Option.bind_eq_some_iff.mp called
    dsimp only at rest
    split at rest
    · cases rest
      rfl
    · cases rest
      exact untouched.storeUser _ _

end UntouchedByWrites

/-! ## Devices -/

namespace UntouchedByOutput

variable {α : Type} {view : Kernel → α} (untouched : UntouchedByOutput view) {k k' : Kernel}
include untouched

theorem rtcReadStep (seen : Bool) : view (k.rtcReadStep seen) = view k := by
  unfold Kernel.rtcReadStep
  split
  · exact (untouched.returnToUser 0).trans (untouched.rtcInterruptOccurred k _)
  · exact untouched.cpu k _

theorem rtcInterruptHandler : view k.rtcInterruptHandler = view k :=
  (untouched.cmos { k with rtcInterruptOccurred := fun _ => true } _).trans
    (untouched.rtcInterruptOccurred k _)

end UntouchedByOutput

/-! ## Descriptor calls -/

namespace UntouchedByDescriptors

variable {α : Type} {view : Kernel → α} (untouched : UntouchedByDescriptors view) {k k' : Kernel}
include untouched

theorem sysOpen {img : Image} {filename : List UInt8} {n : Int}
    (called : k.sysOpen img filename = some (n, k')) : view k' = view k := by
  unfold Kernel.sysOpen at called
  split at called
  · cases called
    rfl
  · rename_i d _
    obtain ⟨p, _, rest⟩ := Option.bind_eq_some_iff.mp called
    split at rest
    · cases rest
      rfl
    · rename_i index fds _
      cases rest
      have kept := untouched.fds k p (fds.bind index d)
      split
      · exact (untouched.cmos _ _).trans kept
      · exact kept

theorem sysClose {fd n : Int} (called : k.sysClose fd = some (n, k')) : view k' = view k := by
  unfold Kernel.sysClose at called
  obtain ⟨p, _, rest⟩ := Option.bind_eq_some_iff.mp called
  split at rest
  · cases rest
    rfl
  · cases rest
    rw [untouched.fopsClose, untouched.fds]

theorem returns {env : Env} {event : Event} {n : Int} (returns : Returns env k event n k') :
    view (k'.returnToUser n) = view k := by
  rw [untouched.returnToUser]
  cases returns with
  | write _ _ _ _ _ _ _ called => exact untouched.sysWrite called
  | openFile _ _ _ called => exact untouched.sysOpen called
  | closeFile _ _ _ called => exact untouched.sysClose called
  | getargs _ _ _ _ called => exact untouched.getargs called

/-- A read routine other than those of terminals, the clock and directories. -/
theorem fopsRead {img : Image} {p : ProcId} {i : Fin 8} {nbytes : Int} {r : ReadResult}
    (notStdin : ((k.pcb p).fds i).fopsPtr ≠ .stdin) (notRtc : ((k.pcb p).fds i).fopsPtr ≠ .rtc)
    (notDir : ((k.pcb p).fds i).fopsPtr ≠ .dir)
    (called : k.fopsRead img p i nbytes = some r) : view r.kernel = view k := by
  unfold Kernel.fopsRead at called
  split at called
  · rename_i stdin
    exact absurd stdin notStdin
  · rename_i rtc
    exact absurd rtc notRtc
  · rename_i dir
    exact absurd dir notDir
  · cases called
    exact untouched.fds k _ _
  · cases called
    rfl
  · cases called
    rfl

/-- A `read` system call of a descriptor other than a directory. -/
theorem beginRead {env : Env} {fd nbytes : Int} {buf : Nat}
    (notDir : ∀ p i, k.getPcbPtr = some p → (k.pcb p).fds.opened fd buf = some i →
      ((k.pcb p).fds i).fopsPtr ≠ .dir)
    (called : k.beginRead env fd buf nbytes = some k') : view k' = view k := by
  unfold Kernel.beginRead at called
  rcases Option.bind_eq_some_iff.mp called with ⟨p, current, rest⟩
  split at rest
  · cases rest
    exact untouched.returnToUser _
  · rename_i i opened
    split at rest
    · cases rest
      exact untouched.cpu k _
    · cases rest
      exact untouched.cpu k _
    · rename_i notStdin notRtc
      rcases Option.bind_eq_some_iff.mp rest with ⟨r, read, done⟩
      cases done
      rw [untouched.returnToUser, untouched.storeUser]
      exact untouched.fopsRead notStdin notRtc (notDir p i current opened) read

/-- The loop of `halt` over the descriptors. -/
theorem releaseFds {current : ProcId} {slots : List (Fin 8)}
    (released : slots.foldlM (releaseFd current) k = some k') : view k' = view k := by
  induction slots generalizing k with
  | nil =>
      cases released
      rfl
  | cons i slots ih =>
      rw [List.foldlM_cons] at released
      rcases Option.bind_eq_some_iff.mp released with ⟨next, first, rest⟩
      rcases Option.map_eq_some_iff.mp first with ⟨closed, close, rfl⟩
      rw [ih rest, untouched.fds]
      split at close
      · rcases Option.map_eq_some_iff.mp close with ⟨⟨n, k'⟩, called, rfl⟩
        exact untouched.sysClose called
      · cases close
        rfl

end UntouchedByDescriptors

/-! ## Reads of directories -/

namespace UntouchedByReads

variable {α : Type} {view : Kernel → α} (untouched : UntouchedByReads view) {k k' : Kernel}
include untouched

/-- A read routine other than those of terminals and the clock. -/
theorem fopsRead {img : Image} {p : ProcId} {i : Fin 8} {nbytes : Int} {r : ReadResult}
    (notStdin : ((k.pcb p).fds i).fopsPtr ≠ .stdin) (notRtc : ((k.pcb p).fds i).fopsPtr ≠ .rtc)
    (called : k.fopsRead img p i nbytes = some r) : view r.kernel = view k := by
  by_cases dir : ((k.pcb p).fds i).fopsPtr = .dir
  · rw [Kernel.fopsRead, dir] at called
    cases called
    unfold directoryRead
    split
    · exact untouched.directoryLoc k _
    · exact untouched.directoryLoc k _
  · exact untouched.toUntouchedByDescriptors.fopsRead notStdin notRtc dir called

theorem beginRead {env : Env} {fd nbytes : Int} {buf : Nat}
    (called : k.beginRead env fd buf nbytes = some k') : view k' = view k := by
  unfold Kernel.beginRead at called
  obtain ⟨p, _, rest⟩ := Option.bind_eq_some_iff.mp called
  split at rest
  · cases rest
    exact untouched.returnToUser _
  · split at rest
    · cases rest
      exact untouched.cpu k _
    · cases rest
      exact untouched.cpu k _
    · rename_i notStdin notRtc
      obtain ⟨r, read, done⟩ := Option.bind_eq_some_iff.mp rest
      cases done
      rw [untouched.returnToUser, untouched.storeUser]
      exact untouched.fopsRead notStdin notRtc read

end UntouchedByReads

/-! ## The keyboard -/

namespace UntouchedByTyping

variable {α : Type} {view : Kernel → α} (untouched : UntouchedByTyping view) {k k' : Kernel}
include untouched

theorem setEflag (t : TermId) (flag : Bool) : view (k.setEflag t flag) = view k :=
  untouched.input k t _ fun _ => ⟨_, _, _, rfl⟩

theorem setKey (index : Fin 128) (byte : UInt8) : view (k.setKey index byte) = view k :=
  (untouched.input _ _ _ fun _ => ⟨_, _, _, rfl⟩).trans (untouched.keyLog k _)

theorem storeKey {index byte : UInt8} (stored : k.storeKey index byte = some k') :
    view k' = view k := by
  unfold Kernel.storeKey at stored
  split at stored
  · cases stored
    exact untouched.setKey _ _
  dsimp only at stored
  split at stored
  · cases stored
    exact (untouched.input _ _ _ fun _ => ⟨_, _, _, rfl⟩).trans (untouched.keyLog k _)
  split at stored
  · cases stored
    exact (untouched.input _ _ _ fun _ => ⟨_, _, _, rfl⟩).trans (untouched.keyLog k _)
  · cases stored

theorem handleKeyPress {keycode : UInt8} (handled : k.handleKeyPress keycode = some k') :
    view k' = view k := by
  cases handleKeyPress_cases handled with
  | silent console => exact untouched.console k console
  | erased console stored _ store =>
      rw [untouched.storeKey store, Kernel.setKeyIdx, untouched.keyboard, untouched.console]
  | entered p stored _ _ store =>
      rw [untouched.console, Kernel.setKeyIdx, untouched.keyboard, untouched.storeKey store,
        untouched.setEflag]
  | typed stored _ store =>
      rw [Kernel.putc, untouched.console, Kernel.setKeyIdx, untouched.keyboard,
        untouched.storeKey store]

end UntouchedByTyping

namespace UntouchedByTerminals

variable {α : Type} {view : Kernel → α} (untouched : UntouchedByTerminals view) {k k' : Kernel}
include untouched

theorem terminalReadStep {buf : Nat} {numBytes : Int} {point : ReadPoint}
    (stepped : k.terminalReadStep buf numBytes point = some k') : view k' = view k := by
  cases point with
  | spin =>
      rcases Option.bind_eq_some_iff.mp stepped with ⟨p, _, done⟩
      cases done
      exact untouched.cpu k _
  | take =>
      rcases Option.bind_eq_some_iff.mp stepped with ⟨p, _, done⟩
      cases done
      exact (untouched.cpu _ _).trans (untouched.setEflag _ _)
  | copy i =>
      simp only [Kernel.terminalReadStep] at stepped
      split at stepped
      · cases stepped
        exact (untouched.cpu _ _).trans (untouched.storeUser _ _)
      · cases stepped
        exact untouched.cpu k _
  | clear i count =>
      simp only [Kernel.terminalReadStep] at stepped
      split at stepped
      · cases stepped
        exact (untouched.cpu _ _).trans (untouched.setKey _ _)
      · cases stepped
        exact untouched.cpu k _
  | finish count =>
      cases stepped
      exact (untouched.cpu _ _).trans (untouched.keyboard k _)

end UntouchedByTerminals

end Kernel

end Ece391Os
