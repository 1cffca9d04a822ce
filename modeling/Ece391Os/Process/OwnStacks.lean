import Ece391Os.Process.KernelStack
import Ece391Os.Process.Readers
import Ece391Os.Process.UserMode
import Ece391Os.Process.VideoPage

/-!
# Every process runs on its own kernel stack

`get_pcb_ptr` rounds the kernel stack pointer to a PCB.  As long as the kernel stacks have
room, every stack pointer that the kernel keeps lies in the block of the process that it
belongs to, and `get_pcb_ptr` gives the process that `apn` of the scheduled terminal names.
-/

namespace Ece391Os

open Transition

namespace Kernel

variable {env : Env} {k k' : Kernel} {event : Event}

/-! ## Stack pointers -/

/-- The context of a process and the stack pointer of its parent, which its PCB keeps. -/
def contexts (k : Kernel) (p : ProcId) : Option Context × Nat :=
  ((k.pcb p).saved, (k.pcb p).parentKsp)

theorem contexts_untouchedByKeys : UntouchedByKeys contexts where
  console := fun _ _ => rfl
  screen := fun _ _ _ _ => rfl
  rtcInterruptOccurred := fun _ _ => rfl
  cmos := fun _ _ => rfl
  memory := fun _ _ => rfl
  cpu := fun _ _ => rfl
  keyboard := fun _ _ => rfl
  keyLog := fun _ _ => rfl
  input := fun _ _ _ _ => rfl

theorem contexts_untouched : Untouched contexts where
  toUntouchedByOutput := contexts_untouchedByKeys.toUntouchedByOutput
  fds := fun _ _ _ => field_update_of_eq (fun pcb => (pcb.saved, pcb.parentKsp)) rfl
  directoryLoc := fun _ _ => rfl

/-- The stack pointers of saved contexts, and those of the parents that have executed a
program, lie in the blocks of their processes. -/
structure KeptStacks (k : Kernel) : Prop where
  saved : ∀ p context, k.pidArray p = true → (k.contexts p).1 = some context →
    procOfAddr context.esp = some p
  parent : ∀ p, k.pidArray p = true → k.procs.parent p ≠ p →
    procOfAddr (k.contexts p).2 = some (k.procs.parent p)

/-- The stack pointer for the next kernel entry, and that of a call which waits, lie in the
block of the running process, too. -/
structure OwnStacks (k : Kernel) : Prop extends KeptStacks k where
  entry : procOfAddr k.tssEsp0 = k.mappedProcess
  waits : k.inUserMode = false → procOfAddr k.cpu.esp = k.mappedProcess

/-- `get_pcb_ptr` gives the process that runs. -/
theorem OwnStacks.current (own : k.OwnStacks) : k.getPcbPtr = k.mappedProcess := by
  cases userMode : k.inUserMode with
  | true =>
      rw [getPcbPtr, kernelEsp_of_inUserMode userMode]
      exact own.entry
  | false =>
      have esp : k.kernelEsp = k.cpu.esp := by
        cases activity : k.cpu.activity with
        | user eax => simp [inUserMode, activity] at userMode
        | _ => rw [kernelEsp, activity]
      rw [getPcbPtr, esp]
      exact own.waits userMode

theorem KeptStacks.congr (inside : k.KeptStacks)
    (live : ∀ p, k'.pidArray p = true → k.pidArray p = true)
    (parent : k'.procs.parent = k.procs.parent) (kept : k'.contexts = k.contexts) :
    k'.KeptStacks := by
  constructor
  · intro p context lives saved
    rw [kept] at saved
    exact inside.saved p context (live p lives) saved
  · intro p lives child
    rw [kept]
    rw [parent] at child ⊢
    exact inside.parent p (live p lives) child

/-- A step that changes neither the processes nor their contexts. -/
theorem OwnStacks.congr (own : k.OwnStacks)
    (table : k'.procs = { k.procs with shown := k'.procs.shown, video := k'.procs.video })
    (kept : k'.contexts = k.contexts)
    (waits : k'.inUserMode = false → procOfAddr k'.cpu.esp = k.mappedProcess) :
    k'.OwnStacks := by
  have mapped : k'.mappedProcess = k.mappedProcess := congrArg ProcTable.mapped table
  have esp0 : k'.tssEsp0 = k.tssEsp0 := congrArg ProcTable.esp0 table
  have live : k'.pidArray = k.pidArray := congrArg ProcTable.live table
  have parent : k'.procs.parent = k.procs.parent := (congrArg ProcTable.parent table).trans rfl
  refine ⟨own.toKeptStacks.congr (fun p lives => live ▸ lives) parent kept, ?_, ?_⟩
  · rw [esp0, mapped]
    exact own.entry
  · rw [mapped]
    exact waits

/-- A call that returns to its caller. -/
theorem OwnStacks.returned (own : k.OwnStacks)
    (table : k'.procs = { k.procs with shown := k'.procs.shown, video := k'.procs.video })
    (kept : k'.contexts = k.contexts)
    (userMode : k'.inUserMode = true) : k'.OwnStacks := by
  refine own.congr table kept fun kernel => ?_
  rw [userMode] at kernel
  cases kernel

/-- An interrupt that returns. -/
theorem OwnStacks.interrupted (own : k.OwnStacks)
    (table : k'.procs = { k.procs with shown := k'.procs.shown, video := k'.procs.video })
    (kept : k'.contexts = k.contexts)
    (cpu : k'.cpu = k.cpu) : k'.OwnStacks := by
  refine own.congr table kept fun kernel => ?_
  rw [cpu]
  apply own.waits
  rw [inUserMode, cpu] at kernel
  exact kernel

/-! ## Processes -/

theorem contexts_startProcess {caller : ExecCaller} {console : Console} {p : ProcId}
    {program : Command.Program}
    (starts : (k.claimed console p).startProcess env caller p program = some k') :
    k'.contexts = Function.update k.contexts p (none, k.kernelEsp - env.executeDepth caller) := by
  rcases pcb_startProcess starts with ⟨parent, pcb⟩
  change (fun q => ((k'.pcb q).saved, (k'.pcb q).parentKsp)) = _
  rw [pcb]
  exact field_update (fun pcb => (pcb.saved, pcb.parentKsp)) k.pcb p _

/-- A new process runs on a whole stack, and its parent, if it is not the process itself, has
pushed on its own. -/
theorem KeptStacks.start (inside : k.KeptStacks) {caller : ExecCaller} {console : Console}
    {p : ProcId} {program : Command.Program}
    (starts : (k.claimed console p).startProcess env caller p program = some k')
    (parent : k'.procs.parent p ≠ p →
      procOfAddr (k.kernelEsp - env.executeDepth caller) = some (k'.procs.parent p)) :
    k'.OwnStacks := by
  have table := procs_startProcess starts
  have kept := contexts_startProcess starts
  have mapped : k'.mappedProcess = some p := congrArg ProcTable.mapped table
  have esp0 : k'.tssEsp0 = kernelStackTop p := congrArg ProcTable.esp0 table
  have live : k'.pidArray = Function.update k.pidArray p true := congrArg ProcTable.live table
  refine ⟨⟨?_, ?_⟩, ?_, ?_⟩
  · intro q context lives saved
    rw [kept] at saved
    by_cases new : q = p
    · subst new
      rw [Function.update_self] at saved
      cases saved
    · rw [Function.update_of_ne new] at saved
      rw [live, Function.update_of_ne new] at lives
      exact inside.saved q context lives saved
  · intro q lives child
    rw [kept]
    by_cases new : q = p
    · subst new
      rw [Function.update_self]
      exact parent child
    · have other : k'.procs.parent q = k.procs.parent q := by
        rw [table]
        exact Function.update_of_ne new _ _
      rw [other] at child ⊢
      rw [live, Function.update_of_ne new] at lives
      rw [Function.update_of_ne new]
      exact inside.parent q lives child
  · rw [esp0, mapped]
    exact procOfAddr_kernelStackTop p
  · rw [inUserMode_startProcess starts]
    nofun

/-- `execute` starts a process on the terminal of the running one, or as the first of its
terminal. -/
theorem OwnStacks.launch (own : k.OwnStacks) (coherent : k.procs.Coherent)
    (safe : k.procs.LaunchSafe) (room : k.StackRoom env) {caller : ExecCaller}
    {console : Console} {p : ProcId} {program : Command.Program}
    (starts : (k.claimed console p).startProcess env caller p program = some k') :
    k'.OwnStacks := by
  apply own.toKeptStacks.start starts
  intro child
  rw [procs_startProcess starts] at child ⊢
  rcases coherent.parent_start safe p with self | running
  · exact absurd self child
  · have mapped : k.mappedProcess = some ((k.procs.start p).parent p) := running
    exact room.below mapped (own.current.trans mapped) (env.executeDepth_le caller)

theorem contexts_releaseProcess {current : ProcId} {released : Kernel}
    (release : k.releaseProcess current = some released) : released.contexts = k.contexts := by
  rcases Option.map_eq_some_iff.mp release with ⟨closed, close, rfl⟩
  have kept := contexts_untouched.releaseFds close
  exact kept

/-- `halt` frees a process. -/
theorem KeptStacks.release (inside : k.KeptStacks) {current : ProcId} {released : Kernel}
    (release : k.releaseProcess current = some released) : released.KeptStacks := by
  have table := procs_releaseProcess release
  have live : released.pidArray =
      Function.update k.pidArray (k.pcb current).processNumber false :=
    congrArg ProcTable.live table
  have parent : released.procs.parent = k.procs.parent :=
    (congrArg ProcTable.parent table).trans rfl
  refine inside.congr (fun p lives => ?_) parent (contexts_releaseProcess release)
  rw [live] at lives
  by_cases freed : p = (k.pcb current).processNumber
  · rw [freed, Function.update_self] at lives
    cases lives
  · rwa [Function.update_of_ne freed] at lives

theorem OwnStacks.halt (own : k.OwnStacks) (coherent : k.procs.Coherent) (safe : k.HaltSafe)
    {status : UInt8} (halts : k.halt env status = some k') : k'.OwnStacks := by
  cases halt_cases halts with
  | relaunched current released program p console _ apn root release new starts =>
      have restartSafe : k.procs.RestartSafe := safe current apn root
      have table := procs_idle release
      have inside : (released.setActive released.curActiveTerminal false).KeptStacks :=
        (own.toKeptStacks.release release).congr (fun _ lives => lives) rfl rfl
      apply inside.start starts
      intro child
      have self : k'.procs.parent p = p := by
        rw [procs_startProcess starts, table]
        exact ProcTable.parent_start_of_idle restartSafe.idle p
      exact absurd self child
  | resumed current released _ apn root release resumes =>
      have inside := own.toKeptStacks.release release
      have table := procs_resumeParent resumes
      rw [procs_releaseProcess release] at table
      rcases coherent.parent_running apn (of_decide_eq_false root) with
        ⟨member, child, parentNumber⟩
      have mapped' : k'.mappedProcess = some (k.procs.parent current) :=
        (congrArg ProcTable.mapped table).trans (congrArg some parentNumber)
      have kept := congrFun (contexts_releaseProcess release) current
      have esp0 : k'.tssEsp0 = (k.contexts current).2 :=
        (congrArg ProcTable.esp0 table).trans (congrArg Prod.snd kept)
      refine ⟨?_, ?_, ?_⟩
      · rw [resumeParent_eq resumes]
        exact inside.congr (fun _ lives => lives) rfl rfl
      · rw [esp0, mapped']
        exact own.parent current (coherent.member _ current member).1 child
      · rw [inUserMode_halt halts]
        nofun

/-! ## Switches -/

/-- Only the PCBs and the process numbers matter. -/
theorem KeptStacks.of_pcb (inside : k.KeptStacks) (live : k'.pidArray = k.pidArray)
    (pcb : k'.pcb = k.pcb) : k'.KeptStacks := by
  apply inside.congr
  · exact fun p lives => live ▸ lives
  · exact congrArg (fun pcb p => Pcb.parentProcessNumber (pcb p)) pcb
  · exact congrArg (fun pcb p => (Pcb.saved (pcb p), Pcb.parentKsp (pcb p))) pcb

/-- The context of the running process is saved with its stack pointer. -/
theorem OwnStacks.save (own : k.OwnStacks) {old : ProcId} (mapped : k.mappedProcess = some old) :
    KeptStacks { k with pcb := k.savedPcbs old } := by
  have parent : (fun p => (k.savedPcbs old p).parentProcessNumber) = k.procs.parent :=
    field_update_of_eq Pcb.parentProcessNumber rfl
  have ksp : (fun p => (k.savedPcbs old p).parentKsp) = fun p => (k.contexts p).2 :=
    field_update_of_eq Pcb.parentKsp rfl
  constructor
  · intro p context lives saved
    change (Function.update k.pcb old _ p).saved = some context at saved
    by_cases running : p = old
    · subst running
      rw [Function.update_self] at saved
      cases saved
      exact own.current.trans mapped
    · rw [Function.update_of_ne running] at saved
      exact own.saved p context lives saved
  · intro p lives
    change (k.savedPcbs old p).parentProcessNumber ≠ p →
      procOfAddr (k.savedPcbs old p).parentKsp = some (k.savedPcbs old p).parentProcessNumber
    rw [congrFun parent p, congrFun ksp p]
    exact own.parent p lives

/-- A context is used up. -/
theorem KeptStacks.spend (inside : k.KeptStacks) (p : ProcId) :
    KeptStacks { k with pcb := Function.update k.pcb p { k.pcb p with saved := none } } := by
  have parent : (fun q => (Function.update k.pcb p { k.pcb p with saved := none }
      q).parentProcessNumber) = k.procs.parent := field_update_of_eq Pcb.parentProcessNumber rfl
  have ksp : (fun q => (Function.update k.pcb p { k.pcb p with saved := none } q).parentKsp) =
      fun q => (k.contexts q).2 := field_update_of_eq Pcb.parentKsp rfl
  constructor
  · intro q context lives saved
    change (Function.update k.pcb p _ q).saved = some context at saved
    by_cases spent : q = p
    · subst spent
      rw [Function.update_self] at saved
      cases saved
    · rw [Function.update_of_ne spent] at saved
      exact inside.saved q context lives saved
  · intro q lives
    have before := inside.parent q lives
    rw [← congrFun parent q, ← congrFun ksp q] at before
    exact before

theorem OwnStacks.pitScheduling (own : k.OwnStacks) (coherent : k.procs.Coherent)
    (scheduled : k.pitScheduling = some k') : k'.OwnStacks := by
  unfold Kernel.pitScheduling at scheduled
  split at scheduled
  · rename_i others
    rcases Option.bind_eq_some_iff.mp scheduled with ⟨next, newest, switches⟩
    have table := processContextswitch_act newest switches
    have mapped' := mapped_processContextswitch newest switches
    rcases processContextswitch_eq switches with
      ⟨old, loaded, apn, context, pcb, cpu, _, pidArray, _⟩
    have saved := own.save (coherent.mapped.trans apn)
    have busy : k.procs.active k.getNextScheduled = true :=
      coherent.active_of_next others k.getNextScheduled_eq
    have live : k.pidArray next = true := by
      rcases coherent.newest k.getNextScheduled busy with ⟨p, rest, stack, apn⟩
      cases apn.symm.trans newest
      exact (coherent.member k.getNextScheduled next (by rw [stack]; exact List.mem_cons_self)).1
    have named : k.procs.apn k.getNextScheduled = some next := newest
    have selected : k'.procs = k.procs.act (.select k.getNextScheduled) := table
    rw [ProcTable.act_select named] at selected
    have esp0 : k'.tssEsp0 = kernelStackTop next := congrArg ProcTable.esp0 selected
    refine ⟨(saved.spend next).of_pcb pidArray pcb, ?_, fun _ => ?_⟩
    · rw [esp0, mapped']
      exact procOfAddr_kernelStackTop next
    · rw [cpu, mapped']
      exact saved.saved next loaded live context
  · cases scheduled
    exact own

theorem OwnStacks.switchTerminal (own : k.OwnStacks) (coherent : k.procs.Coherent) {termNum : Nat}
    (switches : k.switchTerminal termNum = some k') : k'.OwnStacks := by
  cases switchTerminal_cases switches with
  | kept => exact own
  | displayed t =>
      apply own.interrupted
      · rw [procs_displayed]
        rfl
      all_goals split <;> rfl
  | awaits t _ _ _ old apn =>
      have saved := own.save (coherent.mapped.trans apn)
      exact ⟨saved.of_pcb rfl rfl, own.entry, fun _ => own.current⟩

theorem OwnStacks.launchStep (own : k.OwnStacks) (coherent : k.procs.Coherent)
    (room : k.StackRoom env) {old : ProcId} {interrupted : Activity}
    (launching : k.cpu.activity = .launch old interrupted)
    (safe : ∀ p, k.newProcess env env.shell = some p → k.procs.LaunchSafe)
    (launches : k.launchStep env old interrupted = some k') : k'.OwnStacks := by
  rcases launchStep_cases launches with ⟨program, p, console, new, starts⟩ | ⟨console, _, rfl⟩
  · exact own.launch coherent (safe p new) room starts
  · have kernel : k.inUserMode = false := by
      rw [inUserMode, launching]
    exact ⟨(own.toKeptStacks.spend old).of_pcb rfl rfl, own.entry, fun _ => own.waits kernel⟩

/-! ## Every step -/

/-- With room on the kernel stacks, a step leaves every stack pointer in the block of its
process. -/
theorem OwnStacks.step (own : k.OwnStacks) (coherent : k.procs.Coherent)
    (room : k.StackRoom env) (safe : OnOwnTerminal env k event)
    (step : k.step env event = some k') : k'.OwnStacks := by
  cases step_cases step with
  | scheduled _ schedules => exact own.pitScheduling coherent schedules
  | ignored => exact own.interrupted rfl rfl rfl
  | pressed scancode _ _ _ handled =>
      apply own.interrupted
      · rw [procs_handleKeyPress handled]
        rfl
      · have kept := contexts_untouchedByKeys.handleKeyPress handled
        exact kept
      · have kept := cpu_untouchedByTyping.handleKeyPress handled
        exact kept
  | switched scancode _ _ _ switches =>
      have decoded : OwnStacks { k with keyboard := (k.keyboard.decode scancode).1 } :=
        own.interrupted rfl rfl rfl
      exact decoded.switchTerminal coherent switches
  | ticked => exact own.interrupted rfl rfl rfl
  | halted _ _ _ halts => exact own.halt coherent safe halts
  | executed command _ _ executes =>
      cases executeCall_cases executes with
      | exited _ exits halts => exact own.halt coherent (safe.2 exits) halts
      | failed => exact own.returned rfl rfl rfl
      | started _ p _ _ new starts => exact own.launch coherent (safe.1 p new) room starts
  | begun fd buf nbytes _ _ begins =>
      have table := procs_untouched.beginRead begins
      have kept := contexts_untouched.beginRead begins
      refine own.congr (by rw [table]) kept fun kernel => ?_
      rcases coherent.running with ⟨p, _, _, _, mapped, _⟩
      have pushed := room.below mapped (own.current.trans mapped) env.waitDepth_le
      rcases beginRead_cases begins with userMode | rfl | rfl
      · rw [userMode] at kernel
        cases kernel
      · exact pushed.trans mapped.symm
      · exact pushed.trans mapped.symm
  | returned _ _ _ _ returns =>
      apply own.returned
      · rw [procs_untouched.returns returns]
      · exact contexts_untouched.returns returns
      · rfl
  | mapped screenStart =>
      unfold Kernel.vidmap
      split
      · exact own.returned rfl rfl rfl
      · apply own.returned
        · rw [procs_untouched.returnToUser, procs_untouched.storeUser, procs_mapUserVideo]
        · rw [contexts_untouched.returnToUser, contexts_untouched.storeUser]
          rfl
        · rfl
  | readOn buf nbytes point _ activity stepped =>
      have kernel : k.inUserMode = false := by
        rw [inUserMode, activity]
      refine own.congr (by rw [procs_terminalReadStep stepped])
        (contexts_untouchedByKeys.terminalReadStep stepped) fun mode => ?_
      rcases terminalReadStep_continues stepped with ⟨next, continues⟩ | ⟨_, _, userMode⟩
      · rw [continues]
        exact own.waits kernel
      · rw [userMode] at mode
        cases mode
  | rtcReadOn seen activity =>
      have kernel : k.inUserMode = false := by
        rw [inUserMode, activity]
      refine own.congr (by rw [procs_untouched.rtcReadStep])
        (contexts_untouched.rtcReadStep seen) fun mode => ?_
      unfold rtcReadStep at mode ⊢
      split at mode
      · cases mode
      · split
        · contradiction
        · exact own.waits kernel
  | launched old interrupted _ activity launches =>
      exact own.launchStep coherent room activity (fun p => safe old interrupted p activity)
        launches

theorem ownStacks_of_boot {start : Kernel} (booted : boot env k = some start) :
    start.OwnStacks := by
  rcases boot_cases booted with ⟨program, p, console, _, starts⟩
  have before : KeptStacks k.startup.initTerminals := ⟨nofun, nofun⟩
  apply before.start starts
  intro child
  have self : start.procs.parent p = p := by
    rw [procs_startProcess starts, procs_initTerminals]
    exact ProcTable.parent_start_of_idle rfl p
  exact absurd self child

/-- The processes are in order, and their stack pointers apart. -/
theorem coherent_ownStacks_of_run {start final : Kernel} {events : List Event}
    (booted : boot env k = some start)
    (own : EachStep (Kernel.step env) (OnOwnTerminal env) start events)
    (room : EachStep (Kernel.step env) (fun k _ => k.StackRoom env) start events)
    (reached : run (Kernel.step env) start events = some final) :
    final.procs.Coherent ∧ final.OwnStacks := by
  apply run_invariant (fun k => k.procs.Coherent ∧ k.OwnStacks) _ _ (own.and room) reached
  · rintro state event target ⟨coherent, pointers⟩ ⟨own, room⟩ step
    exact ⟨coherent_step coherent own step, pointers.step coherent room own step⟩
  · exact ⟨coherent_of_boot booted, ownStacks_of_boot booted⟩

/-! ## The running process -/

/-- A process that runs is the active process of the scheduled terminal and belongs to that
terminal; `get_pcb_ptr` and `apn` of the scheduled terminal give the same process. -/
structure RunningCoherent (k : Kernel) : Prop where
  named : ∀ p, k.getPcbPtr = some p → k.mappedProcess = some p →
    (k.terminal k.curActiveTerminal).apn = some p ∧ (k.pcb p).term = k.curActiveTerminal
  agree : ∃ p, k.getPcbPtr = some p ∧ (k.terminal k.curActiveTerminal).apn = some p

/-- In every run from the first shell that starts programs on their own terminal and finds
room on the kernel stacks, the process that runs is the active process of the scheduled
terminal, for all the calls that look it up. -/
theorem running_coherent {start final : Kernel} {events : List Event}
    (ran : RoomyRun env k start events)
    (own : EachStep (Kernel.step env) (OnOwnTerminal env) start events)
    (reached : run (Kernel.step env) start events = some final) : final.RunningCoherent := by
  rcases coherent_ownStacks_of_run ran.booted own ran.room reached with ⟨coherent, pointers⟩
  rcases coherent.running with ⟨q, rest, stack, apn, mappedTo, _⟩
  constructor
  · intro p _ mapped
    obtain rfl : q = p := Option.some.inj (mappedTo.symm.trans mapped)
    have member : q ∈ final.procs.stack final.procs.scheduled := by
      rw [stack]
      exact List.mem_cons_self
    exact ⟨apn, (coherent.member _ q member).2.1⟩
  · exact ⟨q, pointers.current.trans mappedTo, apn⟩

/-- The first shell executes a program and waits for its end. -/
def childEnds : List Event :=
  [.execute Env.sample.shell, .keyboard 0x38, .timer, .halt 0]

def childEndsRun : BootRun Env.sample []
    (fun start =>
      (decide (EachStep (Kernel.step Env.sample) (OnOwnTerminal Env.sample) start childEnds),
        decide (EachStep (Kernel.step Env.sample) (fun k _ => k.StackRoom Env.sample) start
          childEnds),
        (run (Kernel.step Env.sample) start childEnds).map fun k => (k.mappedProcess, k.procLog)))
    (true, true, some (some 0, [.finished 1, .started 0 1, .started 0 0])) :=
  .of (by decide +kernel)

theorem running_coherent_sample :
    ∃ start final, boot Env.sample default = some start ∧
      run (Kernel.step Env.sample) start childEnds = some final ∧
      final.procLog = [.finished 1, .started 0 1, .started 0 0] ∧ final.RunningCoherent := by
  rcases childEndsRun with ⟨start, same, booted, ends, saw⟩
  cases ends
  simp only [Prod.mk.injEq, decide_eq_true_eq, Option.map_eq_some_iff] at saw
  rcases saw with ⟨own, room, final, reached, _, log⟩
  have ran : RoomyRun Env.sample default start childEnds := ⟨⟨booted, by decide⟩, room⟩
  exact ⟨start, final, booted, reached, log, running_coherent ran own reached⟩

/-- The shell of the first terminal executes a program while the second terminal is
displayed: process 2 runs, and the first terminal still names process 0. -/
def hiddenExecuteRun : BootRun Env.sample
    [.keyboard 0x38, .keyboard 0x3C, .wait, .timer, .execute Env.sample.shell]
    (fun k => (k.getPcbPtr, k.mappedProcess, (k.terminal k.curActiveTerminal).apn))
    (some 2, some 2, some 0) :=
  .of (by decide +kernel)

theorem execute_while_hidden :
    ∃ start final, boot Env.sample default = some start ∧
      run (Kernel.step Env.sample) start
        [.keyboard 0x38, .keyboard 0x3C, .wait, .timer, .execute Env.sample.shell] = some final ∧
      ¬ final.RunningCoherent := by
  rcases hiddenExecuteRun with ⟨start, final, booted, reached, saw⟩
  refine ⟨start, final, booted, reached, fun coherent => ?_⟩
  simp only [Prod.mk.injEq] at saw
  rcases saw with ⟨current, mapped, named⟩
  have apn := (coherent.named 2 current mapped).1
  rw [named] at apn
  cases apn

end Kernel

end Ece391Os
