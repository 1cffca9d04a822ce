import Ece391Os.Machine.OwnDescriptors
import Ece391Os.Machine.RtcReads
import Ece391Os.Process.OwnStacks

/-!
# Processes do not disturb each other

A process that does not run keeps its program page and its PCB, whatever the processes
that run do, in every order of interrupts, system calls and context switches.  A process
that the timer stops therefore goes on later where it was.
-/

namespace Ece391Os

open Transition

namespace Kernel

variable {env : Env} {k k' : Kernel} {event : Event} {q : ProcId}

/-! ## Program pages -/

theorem memory_putsTerminalActive (k : Kernel) (text : List UInt8) :
    (k.putsTerminalActive text).memory = k.memory := by
  induction text generalizing k with
  | nil => rfl
  | cons char text ih =>
      have first : (k.putcTerminalActive char).memory = k.memory := by
        unfold putcTerminalActive
        split <;> rfl
      exact (ih _).trans first

theorem memory_terminalWrite {args : PrintfArgs} {buf : List UInt8} {nbytes n : Int}
    (written : k.terminalWrite args buf nbytes = some (n, k')) : k'.memory = k.memory := by
  unfold terminalWrite at written
  split at written
  · rcases printf_eq written with ⟨console, rfl⟩
    rfl
  · rcases Option.map_eq_some_iff.mp written with ⟨sent, _, done⟩
    cases done
    exact k.memory_putsTerminalActive sent.1

theorem memory_rtcWrite (junk : UInt8) (buf : Nat) (word nbytes : Int) :
    (k.rtcWrite junk buf word nbytes).2.memory = k.memory := by
  unfold rtcWrite
  split <;> rfl

theorem memory_sysWrite {junk : UInt8} {fd nbytes n : Int} {buf : Nat} {buffer : WriteBuffer}
    (called : k.sysWrite junk fd buf buffer nbytes = some (n, k')) : k'.memory = k.memory := by
  unfold sysWrite at called
  rcases Option.bind_eq_some_iff.mp called with ⟨p, _, rest⟩
  split at rest
  · cases rest
    rfl
  · split at rest
    · exact memory_terminalWrite rest
    · have written := memory_rtcWrite (k := k) junk buf buffer.word nbytes
      rw [Option.some.inj rest] at written
      exact written
    all_goals
      cases rest
      rfl

theorem memory_sysOpen {img : Image} {filename : List UInt8} {n : Int}
    (called : k.sysOpen img filename = some (n, k')) : k'.memory = k.memory := by
  unfold sysOpen at called
  split at called
  · cases called
    rfl
  · rcases Option.bind_eq_some_iff.mp called with ⟨p, _, rest⟩
    split at rest
    · cases rest
      rfl
    · cases rest
      split <;> rfl

theorem memory_sysClose {fd n : Int} (called : k.sysClose fd = some (n, k')) :
    k'.memory = k.memory := by
  unfold sysClose at called
  rcases Option.bind_eq_some_iff.mp called with ⟨p, _, rest⟩
  split at rest
  · cases rest
    rfl
  · rename_i i _
    have closed : ∀ (k : Kernel) (ops : Fops), (k.fopsClose ops).2.memory = k.memory := by
      intro k ops
      cases ops <;> rfl
    cases rest
    exact closed _ _

theorem memory_releaseFds {current : ProcId} {slots : List (Fin 8)}
    (released : slots.foldlM (releaseFd current) k = some k') : k'.memory = k.memory := by
  induction slots generalizing k with
  | nil =>
      cases released
      rfl
  | cons i slots ih =>
      rw [List.foldlM_cons] at released
      rcases Option.bind_eq_some_iff.mp released with ⟨next, first, rest⟩
      rcases Option.map_eq_some_iff.mp first with ⟨closed, close, rfl⟩
      have round : closed.memory = k.memory := by
        split at close
        · rcases Option.map_eq_some_iff.mp close with ⟨⟨n, k'⟩, called, rfl⟩
          exact memory_sysClose called
        · cases close
          rfl
      exact (ih rest).trans round

/-- Stores through a user pointer reach the program page of the running process only. -/
theorem memory_storeUser_of_ne (other : k.mappedProcess ≠ some q) (buf : Nat)
    (stores : Memory.Stores Nat) : (k.storeUser buf stores).memory q = k.memory q := by
  unfold storeUser
  split
  · rfl
  · rename_i p mapped
    have differs : q ≠ p := by
      rintro rfl
      exact other mapped
    exact Function.update_of_ne differs _ _

theorem memory_getargs (other : k.mappedProcess ≠ some q) {buf : Nat} {n : Int}
    (called : k.getargs buf = some (n, k')) : k'.memory q = k.memory q := by
  unfold getargs at called
  split at called
  · cases called
    rfl
  · rcases Option.bind_eq_some_iff.mp called with ⟨p, _, rest⟩
    dsimp only at rest
    split at rest
    · cases rest
      rfl
    · cases rest
      exact memory_storeUser_of_ne other _ _

theorem memory_returns (other : k.mappedProcess ≠ some q) {n : Int}
    (returns : Returns env k event n k') : k'.memory q = k.memory q := by
  cases returns with
  | write _ _ _ _ _ _ _ called => exact congrFun (memory_sysWrite called) q
  | openFile _ _ _ called => exact congrFun (memory_sysOpen called) q
  | closeFile _ _ _ called => exact congrFun (memory_sysClose called) q
  | getargs _ _ _ _ called => exact memory_getargs other called

theorem memory_beginRead (other : k.mappedProcess ≠ some q) {fd nbytes : Int} {buf : Nat}
    (called : k.beginRead env fd buf nbytes = some k') : k'.memory q = k.memory q := by
  unfold beginRead at called
  rcases Option.bind_eq_some_iff.mp called with ⟨p, _, rest⟩
  split at rest
  · cases rest
    rfl
  · split at rest
    · cases rest
      rfl
    · cases rest
      rfl
    · rename_i notStdin notRtc
      rcases Option.bind_eq_some_iff.mp rest with ⟨r, read, done⟩
      cases done
      have mapped : r.kernel.mappedProcess = k.mappedProcess :=
        congrArg ProcTable.mapped (procs_untouched.fopsRead notStdin notRtc read)
      have routine : r.kernel.memory = k.memory := by
        unfold fopsRead at read
        split at read
        · rename_i stdin
          exact absurd stdin notStdin
        · rename_i rtc
          exact absurd rtc notRtc
        · cases read
          unfold directoryRead
          split <;> rfl
        all_goals
          cases read
          rfl
      rw [← mapped] at other
      exact (memory_storeUser_of_ne other buf r.stores).trans (congrFun routine q)

theorem memory_terminalReadStep (other : k.mappedProcess ≠ some q) {buf : Nat} {numBytes : Int}
    {point : ReadPoint} (stepped : k.terminalReadStep buf numBytes point = some k') :
    k'.memory q = k.memory q := by
  cases point with
  | spin =>
      rcases Option.bind_eq_some_iff.mp stepped with ⟨p, _, done⟩
      cases done
      rfl
  | take =>
      rcases Option.bind_eq_some_iff.mp stepped with ⟨p, _, done⟩
      cases done
      rfl
  | copy i =>
      simp only [terminalReadStep] at stepped
      split at stepped
      · cases stepped
        exact memory_storeUser_of_ne other _ _
      · cases stepped
        rfl
  | clear i count =>
      simp only [terminalReadStep] at stepped
      split at stepped
      · cases stepped
        rfl
      · cases stepped
        rfl
  | finish count =>
      cases stepped
      rfl

theorem memory_untouchedByTyping : UntouchedByTyping memory where
  console := fun _ _ => rfl
  keyboard := fun _ _ => rfl
  keyLog := fun _ _ => rfl
  input := fun _ _ _ _ => rfl

/-! ## One process -/

/-- A process keeps its program page, its PCB and its number. -/
structure Keeps (q : ProcId) (k k' : Kernel) : Prop where
  memory : k'.memory q = k.memory q
  pcb : k'.pcb q = k.pcb q
  live : k'.pidArray q = k.pidArray q

namespace Keeps

theorem refl (q : ProcId) (k : Kernel) : Keeps q k k :=
  ⟨rfl, rfl, rfl⟩

theorem trans {k'' : Kernel} (first : Keeps q k k') (second : Keeps q k' k'') : Keeps q k k'' where
  memory := second.memory.trans first.memory
  pcb := second.pcb.trans first.pcb
  live := second.live.trans first.live

end Keeps

/-- A new process is started on a free number. -/
theorem keeps_startProcess {caller : ExecCaller} {console : Console} {p : ProcId}
    {program : Command.Program} (differs : q ≠ p)
    (starts : (k.claimed console p).startProcess env caller p program = some k') :
    Keeps q k k' := by
  rcases pcb_startProcess starts with ⟨parent, pcb⟩
  rcases Option.map_eq_some_iff.mp starts with ⟨_, _, rfl⟩
  constructor
  · exact Function.update_of_ne differs _ _
  · rw [pcb]
    exact Function.update_of_ne differs _ _
  · exact Function.update_of_ne differs _ _

/-- A process is freed. -/
theorem keeps_releaseProcess {current : ProcId} (own : k.getPcbPtr = some current)
    (number : (k.pcb current).processNumber = current) (differs : q ≠ current)
    (released : k.releaseProcess current = some k') : Keeps q k k' := by
  have table := procs_releaseProcess released
  rcases Option.map_eq_some_iff.mp released with ⟨closed, close, rfl⟩
  constructor
  · exact congrFun (memory_releaseFds close) q
  · rcases releaseFds_own (k := { k with
      pidArray := Function.update k.pidArray (k.pcb current).processNumber false }) own
      (List.finRange 8) with ⟨other, close', changes, _⟩
    cases close.symm.trans close'
    exact changes.pcb_of_ne differs
  · have live := congrFun (congrArg ProcTable.live table) q
    have freed : (k.procs.release current).live q = k.pidArray q := by
      have name : k.procs.number current = current := number
      rw [ProcTable.release, name]
      exact Function.update_of_ne differs _ _
    exact live.trans freed

/-! ## One step -/

/-- What a step does to a process that does not run: it keeps it, it resumes it in its saved
context, or a child of it halts. -/
inductive Elsewhere (q : ProcId) (k : Kernel) (event : Event) (k' : Kernel) : Prop where
  | rests (other : k'.mappedProcess ≠ some q) (keeps : Keeps q k k')
  | resumes (context : Context) (runs : k'.mappedProcess = some q) (timer : event = .timer)
      (saved : (k.pcb q).saved = some context)
      (cpu : k'.cpu = { activity := context.activity, esp := context.esp })
      (memory : k'.memory q = k.memory q) (pcb : k'.pcb q = { k.pcb q with saved := none })
      (live : k'.pidArray q = k.pidArray q)
  | returns (runs : k'.mappedProcess = some q) (unsaved : (k.pcb q).saved = none)
      (keeps : Keeps q k k')

/-- A kernel that runs the newest process of the scheduled terminal, with the contexts and the
kernel stacks of the other processes apart. -/
structure Ordered (k : Kernel) : Prop where
  coherent : k.procs.Coherent
  apart : k.readers.Apart
  pointers : k.OwnStacks

/-- Programs are started on their own terminal, and the kernel stacks have room. -/
def RunsOwn (env : Env) (k : Kernel) (event : Event) : Prop :=
  OnOwnTerminal env k event ∧ k.StackRoom env

instance (env : Env) (k : Kernel) (event : Event) : Decidable (RunsOwn env k event) :=
  inferInstanceAs (Decidable (_ ∧ _))

theorem ordered_of_boot {start : Kernel} (booted : boot env k = some start) : start.Ordered :=
  ⟨(ticksNoted_of_boot booted).coherent, (ticksNoted_of_boot booted).apart,
    ownStacks_of_boot booted⟩

theorem Ordered.step (ordered : k.Ordered) (own : RunsOwn env k event)
    (step : k.step env event = some k') : k'.Ordered :=
  ⟨coherent_step ordered.coherent own.1 step,
    apart_step ordered.coherent ordered.apart own.1 step,
    ordered.pointers.step ordered.coherent own.2 own.1 step⟩

theorem mapped_startProcess {caller : ExecCaller} {console : Console} {p : ProcId}
    {program : Command.Program}
    (starts : (k.claimed console p).startProcess env caller p program = some k') :
    k'.mappedProcess = some p :=
  congrArg ProcTable.mapped (procs_startProcess starts)

/-- A process that is live is not the one that is started. -/
theorem rests_startProcess {caller : ExecCaller} {console : Console} {p : ProcId}
    {program : Command.Program} (live : k.pidArray q = true) (free : k.pidArray p = false)
    (starts : (k.claimed console p).startProcess env caller p program = some k') :
    k'.mappedProcess ≠ some q ∧ Keeps q k k' := by
  have differs : q ≠ p := by
    rintro rfl
    rw [live] at free
    cases free
  refine ⟨?_, keeps_startProcess differs starts⟩
  rw [mapped_startProcess starts]
  exact fun same => differs (Option.some.inj same).symm

section Waiting

variable (ordered : k.Ordered) (other : k.mappedProcess ≠ some q)
include ordered other

/-- The process that the scheduled terminal names runs. -/
theorem Ordered.ne_running {p : ProcId} (apn : (k.terminal k.curActiveTerminal).apn = some p) :
    q ≠ p ∧ k.mappedProcess = some p ∧ (k.pcb p).processNumber = p := by
  rcases ordered.coherent.running with ⟨r, _, _, apn', mapped, number⟩
  cases apn'.symm.trans apn
  refine ⟨?_, mapped, number⟩
  rintro rfl
  exact other mapped

theorem elsewhere_pitScheduling (scheduled : k.pitScheduling = some k') :
    Elsewhere q k .timer k' := by
  unfold pitScheduling at scheduled
  split at scheduled
  · rcases Option.bind_eq_some_iff.mp scheduled with ⟨next, newest, switches⟩
    have mapped := mapped_processContextswitch newest switches
    rcases processContextswitch_eq switches with
      ⟨old, loaded, apn, context, pcb, cpu, memory, pidArray, _⟩
    have differs := (ordered.ne_running other apn).1
    have before : savedPcbs { k with nextSchedTerminal := k.getNextScheduled } old q = k.pcb q :=
      Function.update_of_ne differs _ _
    by_cases resumed : next = q
    · subst resumed
      rw [before] at context
      refine .resumes loaded mapped rfl context cpu (congrFun memory next) ?_
        (congrFun pidArray next)
      rw [pcb, Function.update_self, before]
    · refine .rests ?_ ⟨congrFun memory q, ?_, congrFun pidArray q⟩
      · rw [mapped]
        exact fun same => resumed (Option.some.inj same)
      · rw [pcb, Function.update_of_ne (Ne.symm resumed), before]
  · cases scheduled
    exact .rests other (.refl q k)

theorem rests_switchTerminal {termNum : Nat} (switches : k.switchTerminal termNum = some k') :
    k'.mappedProcess ≠ some q ∧ Keeps q k k' := by
  rcases switchTerminal_act switches with ⟨action, switched, table⟩
  have mapped : k'.mappedProcess = k.mappedProcess := by
    have same := congrArg ProcTable.mapped table
    cases switched <;> exact same
  rw [mapped]
  refine ⟨other, ?_⟩
  cases switchTerminal_cases switches with
  | kept => exact .refl q k
  | displayed =>
      constructor
      all_goals split <;> rfl
  | awaits t _ _ _ old apn =>
      have differs := (ordered.ne_running other apn).1
      exact ⟨rfl, Function.update_of_ne differs _ _, rfl⟩

theorem elsewhere_launchStep (live : k.pidArray q = true) {old : ProcId} {interrupted : Activity}
    (launching : k.cpu.activity = .launch old interrupted)
    (launches : k.launchStep env old interrupted = some k') : Elsewhere q k event k' := by
  rcases launchStep_cases launches with ⟨program, p, console, new, starts⟩ | ⟨console, _, rfl⟩
  · rcases rests_startProcess live (newProcess_free new) starts with ⟨still, keeps⟩
    exact .rests still keeps
  · rcases ordered.coherent.running with ⟨p, _, _, apn, _, _⟩
    have fits := ordered.apart.running p apn
    have running : k.readers.running = .launch old interrupted := launching
    rw [running] at fits
    have differs := (ordered.ne_running other apn).1
    rw [← fits.1] at differs
    exact .rests other ⟨rfl, Function.update_of_ne differs _ _, rfl⟩

/-- A parent goes on when its child halts. -/
theorem elsewhere_halt (live : k.pidArray q = true) {status : UInt8}
    (halts : k.halt env status = some k') : Elsewhere q k event k' := by
  cases halt_cases halts with
  | relaunched current released program p console _ apn root release new starts =>
      rcases ordered.ne_running other apn with ⟨differs, mapped, number⟩
      have freed := keeps_releaseProcess (ordered.pointers.current.trans mapped) number differs
        release
      have idle : Keeps q k (released.setActive released.curActiveTerminal false) :=
        ⟨freed.memory, freed.pcb, freed.live⟩
      rcases rests_startProcess (idle.live.trans live) (newProcess_free new) starts with
        ⟨still, keeps⟩
      exact .rests still (idle.trans keeps)
  | resumed current released _ apn root release resumes =>
      rcases ordered.ne_running other apn with ⟨differs, mapped, number⟩
      have freed := keeps_releaseProcess (ordered.pointers.current.trans mapped) number differs
        release
      have keeps : Keeps q k k' := by
        rw [resumeParent_eq resumes]
        exact ⟨freed.memory, freed.pcb, freed.live⟩
      rcases ordered.coherent.parent_running apn (of_decide_eq_false root) with
        ⟨member, child, parentNumber⟩
      have mapped' : k'.mappedProcess = some (k.procs.parent current) := by
        have table := congrArg ProcTable.mapped (procs_resumeParent resumes)
        rw [procs_releaseProcess release] at table
        exact table.trans (congrArg some parentNumber)
      by_cases parent : k.procs.parent current = q
      · -- the parent of a process that `execute` started has no saved context
        have called : k.readers.caller current = .systemCall := by
          have same := congrFun (congrArg Readers.caller (waiting_releaseProcess release)) current
          exact same.symm.trans (parentCaller_of_resumeParent resumes)
        have buried := ordered.apart.buried _ current member child called
        rw [show k.readers.procs.parent current = q from parent] at buried
        have unsaved := Option.map_eq_none_iff.mp buried
        exact .returns (mapped'.trans (congrArg some parent)) unsaved keeps
      · refine .rests ?_ keeps
        rw [mapped']
        exact fun same => parent (Option.some.inj same)

end Waiting

/-- Every step leaves a process that does not run as it is, or makes it go on. -/
theorem elsewhere_step (ordered : k.Ordered) (live : k.pidArray q = true)
    (other : k.mappedProcess ≠ some q) (step : k.step env event = some k') :
    Elsewhere q k event k' := by
  have stays : k'.procs = k.procs → k'.memory q = k.memory q → k'.pcb q = k.pcb q →
      Elsewhere q k event k' := by
    intro same memory pcb
    have mapped : k'.mappedProcess = k.mappedProcess := congrArg ProcTable.mapped same
    refine .rests ?_ ⟨memory, pcb, congrFun (congrArg ProcTable.live same) q⟩
    rwa [mapped]
  have ownFds : k'.procs = k.procs → k'.memory q = k.memory q →
      (∀ p, k.getPcbPtr = some p → ChangesFds p k k') → Elsewhere q k event k' := by
    intro same memory changes
    rcases ordered.coherent.running with ⟨p, _, _, apn, mapped, _⟩
    have differs := (ordered.ne_running other apn).1
    have current := ordered.pointers.current.trans mapped
    exact stays same memory ((changes p current).pcb_of_ne differs)
  cases step_cases step with
  | scheduled _ schedules => exact elsewhere_pitScheduling ordered other schedules
  | ignored => exact .rests other ⟨rfl, rfl, rfl⟩
  | pressed _ _ _ _ handled =>
      have memory := memory_untouchedByTyping.handleKeyPress handled
      have pcb := pcb_untouchedByKeys.toUntouchedByTyping.handleKeyPress handled
      have table := procs_handleKeyPress handled
      exact stays table (congrFun memory q) (congrFun pcb q)
  | switched scancode _ _ _ switches =>
      have decoded : Ordered { k with keyboard := (k.keyboard.decode scancode).1 } :=
        ⟨ordered.coherent, ordered.apart, ordered.pointers.interrupted rfl rfl rfl⟩
      rcases rests_switchTerminal decoded other switches with ⟨still, keeps⟩
      exact .rests still ⟨keeps.memory, keeps.pcb, keeps.live⟩
  | ticked => exact .rests other ⟨rfl, rfl, rfl⟩
  | halted _ _ _ halts => exact elsewhere_halt ordered other live halts
  | executed _ _ _ executes =>
      cases executeCall_cases executes with
      | exited _ _ halts => exact elsewhere_halt ordered other live halts
      | failed => exact .rests other ⟨rfl, rfl, rfl⟩
      | started _ _ _ _ new starts =>
          rcases rests_startProcess live (newProcess_free new) starts with ⟨still, keeps⟩
          exact .rests still keeps
  | begun _ _ _ _ _ begins =>
      exact ownFds (procs_untouched.beginRead begins) (memory_beginRead other begins)
        fun _ current => changesFds_beginRead current begins
  | returned _ _ _ _ returns =>
      have memory := memory_returns other returns
      exact ownFds (procs_untouched.returns returns) memory
        fun _ current => changesFds_returns current returns
  | mapped screenStart =>
      unfold Kernel.vidmap
      split
      · exact .rests other ⟨rfl, rfl, rfl⟩
      · have mapped : k.mapUserVideo.mappedProcess = k.mappedProcess :=
          k.mappedProcess_mapUserVideo
        have table : (k.mapUserVideo.storeUser screenStart userVideoBytes).mappedProcess =
            k.mappedProcess := by
          have kept := procs_untouched.storeUser (k := k.mapUserVideo) screenStart userVideoBytes
          exact (congrArg ProcTable.mapped kept).trans mapped
        have pcb := pcb_untouchedByKeys.storeUser (k := k.mapUserVideo) screenStart userVideoBytes
        have live : (k.mapUserVideo.storeUser screenStart userVideoBytes).pidArray =
            k.pidArray := by
          have kept := procs_untouched.storeUser (k := k.mapUserVideo) screenStart userVideoBytes
          exact congrArg ProcTable.live kept
        refine .rests ?_ ⟨?_, congrFun pcb q, congrFun live q⟩
        · exact fun same => other (table.symm.trans same)
        · exact memory_storeUser_of_ne (fun same => other (mapped.symm.trans same)) _ _
  | readOn _ _ _ _ _ stepped =>
      have pcb := pcb_untouchedByKeys.terminalReadStep stepped
      exact stays (procs_terminalReadStep stepped) (memory_terminalReadStep other stepped)
        (congrFun pcb q)
  | rtcReadOn seen =>
      have pcb := pcb_untouchedByKeys.rtcReadStep (k := k) seen
      refine stays (procs_untouched.rtcReadStep seen) ?_ (congrFun pcb q)
      unfold rtcReadStep
      split <;> rfl
  | launched _ _ _ activity launches =>
      exact elsewhere_launchStep ordered other live activity launches


/-! ## Every run -/

/-- A process that does not run, as it was when it stopped. -/
structure Stopped (q : ProcId) (before k : Kernel) : Prop where
  ordered : k.Ordered
  live : k.pidArray q = true
  keeps : Keeps q before k

theorem Stopped.step {before : Kernel} (stopped : Stopped q before k) (own : RunsOwn env k event)
    (away : k.mappedProcess ≠ some q) (step : k.step env event = some k')
    (still : k'.mappedProcess ≠ some q) : Stopped q before k' := by
  have ordered := stopped.ordered.step own step
  have keeps : Keeps q k k' := by
    cases elsewhere_step stopped.ordered stopped.live away step with
    | rests _ keeps => exact keeps
    | resumes _ runs => exact absurd runs still
    | returns runs => exact absurd runs still
  exact ⟨ordered, keeps.live.trans stopped.live, stopped.keeps.trans keeps⟩

/-- A process that does not run in a run of the machine is at its end as it was. -/
theorem Stopped.run {before : Kernel} {events : List Event} (stopped : Stopped q before k)
    (own : EachStep (Kernel.step env) (RunsOwn env) k events)
    (away : EachStep (Kernel.step env) (fun k _ => k.mappedProcess ≠ some q) k events)
    (reached : Transition.run (Kernel.step env) k events = some k')
    (still : k'.mappedProcess ≠ some q) : Stopped q before k' := by
  induction events generalizing k with
  | nil =>
      cases reached
      exact stopped
  | cons event events ih =>
      rcases (run_cons_eq_some_iff _ _ _ _ _).mp reached with ⟨next, step, rest⟩
      have later := away.2 next step
      have there : next.mappedProcess ≠ some q := by
        cases events with
        | nil =>
            cases rest
            exact still
        | cons _ _ => exact later.1
      exact ih (stopped.step own.1 away.1 step there) (own.2 next step) later rest

/-- The timer stops the running process, and saves its context. -/
theorem stopped_of_timer {p : ProcId} (ordered : k.Ordered) (own : RunsOwn env k .timer)
    (runs : k.mappedProcess = some p) (step : k.step env .timer = some k')
    (other : k'.mappedProcess ≠ some p) :
    k'.Ordered ∧ k'.pidArray p = true ∧ k'.memory p = k.memory p ∧
      k'.pcb p = k.savedPcbs p p := by
  refine ⟨ordered.step own step, ?_⟩
  have scheduled : k.pitScheduling = some k' := step
  unfold pitScheduling at scheduled
  split at scheduled
  · rcases Option.bind_eq_some_iff.mp scheduled with ⟨next, newest, switches⟩
    rcases ordered.coherent.running with ⟨q, rest, stack, apn, mapped, _⟩
    cases mapped.symm.trans runs
    have live : k.pidArray p = true := by
      have member : p ∈ k.procs.stack k.procs.scheduled := by
        rw [stack]
        exact List.mem_cons_self
      exact (ordered.coherent.member _ p member).1
    rcases processContextswitch_eq switches with
      ⟨old, loaded, apn', context, pcb, cpu, memory, pidArray, _⟩
    cases apn'.symm.trans apn
    have differs : p ≠ next := by
      rintro rfl
      exact other (mapped_processContextswitch newest switches)
    refine ⟨(congrFun pidArray p).trans live, congrFun memory p, ?_⟩
    rw [pcb, Function.update_of_ne differs]
    rfl
  · cases scheduled
    exact absurd runs other

theorem ordered_of_run {start : Kernel} {events : List Event} (booted : boot env k = some start)
    (own : EachStep (step env) (RunsOwn env) start events)
    (reached : run (step env) start events = some k') : k'.Ordered :=
  run_invariant Ordered (fun _ _ _ ordered own step => ordered.step own step)
    (ordered_of_boot booted) own reached

/-- In every run from the first shell that starts programs on their own terminal, hands
system calls buffers of the callers and finds room on the kernel stacks, a live process that
does not run keeps its program page and its PCB, whatever the other processes do. -/
theorem processes_isolated {start before after : Kernel} {first second : List Event}
    (ran : RoomyRun env k start (first ++ second))
    (own : EachStep (step env) (OnOwnTerminal env) start (first ++ second))
    (reached : run (step env) start first = some before) (live : before.pidArray q = true)
    (away : EachStep (step env) (fun k _ => k.mappedProcess ≠ some q) before second)
    (goesOn : run (step env) before second = some after)
    (still : after.mappedProcess ≠ some q) :
    after.memory q = before.memory q ∧ after.pcb q = before.pcb q := by
  have runsOwn : EachStep (step env) (RunsOwn env) start (first ++ second) := own.and ran.room
  have ordered := ordered_of_run ran.booted runsOwn.left reached
  have stopped : Stopped q before before := ⟨ordered, live, .refl q before⟩
  have keeps := (stopped.run (runsOwn.right reached) away goesOn still).keeps
  exact ⟨keeps.memory, keeps.pcb⟩

/-- The second shell is started and runs. -/
def secondShell : List Event :=
  [.keyboard 0x38, .keyboard 0x3C, .wait]

/-- The first shell opens a file, reads it to its program page and maps its screen. -/
def firstShellRuns : List Event :=
  [.openFile Env.shellName, .read 2 0x8048000 4, .clock, .vidmap 0x8048000]

/-- The first shell runs while the second is stopped. -/
def isolatedRun : BootRun Env.sample []
    (fun start =>
      (decide (EachStep (step Env.sample) (RunsOwn Env.sample) start
          ((secondShell ++ [.timer]) ++ firstShellRuns)),
        (run (step Env.sample) start (secondShell ++ [.timer])).map fun before =>
          (before.pidArray 1, decide (EachStep (step Env.sample)
            (fun k _ => k.mappedProcess ≠ some 1) before firstShellRuns)),
        (run (step Env.sample) start ((secondShell ++ [.timer]) ++ firstShellRuns)).map
          fun after => decide (after.mappedProcess ≠ some 1)))
    (true, some (true, true), some true) :=
  .of (by decide +kernel)

theorem processes_isolated_sample :
    ∃ start before after, boot Env.sample default = some start ∧
      run (step Env.sample) start (secondShell ++ [.timer]) = some before ∧
      run (step Env.sample) before firstShellRuns = some after ∧
      after.memory 1 = before.memory 1 ∧ after.pcb 1 = before.pcb 1 := by
  rcases isolatedRun with ⟨start, final, booted, ends, saw⟩
  cases ends
  simp only [Prod.mk.injEq, decide_eq_true_eq] at saw
  rcases saw with ⟨runsOwn, first, whole⟩
  rcases Option.map_eq_some_iff.mp first with ⟨before, reached, seen⟩
  rcases Prod.mk.inj seen with ⟨live, away⟩
  rcases Option.map_eq_some_iff.mp whole with ⟨after, all, still⟩
  rw [run_append, reached, Option.bind_some] at all
  have ran : RoomyRun Env.sample default start ((secondShell ++ [.timer]) ++ firstShellRuns) :=
    ⟨⟨booted, by decide⟩, runsOwn.imp fun _ _ both => both.2⟩
  have isolated := processes_isolated ran (runsOwn.imp fun _ _ both => both.1) reached live
    (of_decide_eq_true away) all (of_decide_eq_true still)
  exact ⟨start, before, after, booted, reached, all, isolated⟩

/-- In every such run, a process that the timer stops goes on only when a later interrupt of
the timer resumes it, and then with the activity, the kernel stack pointer, the program page
and the PCB that it was stopped with. -/
theorem preemption_transparent {start before stopped resumes after : Kernel}
    {first during : List Event} {event : Event} {p : ProcId}
    (ran : RoomyRun env k start (first ++ .timer :: (during ++ [event])))
    (own : EachStep (step env) (OnOwnTerminal env) start (first ++ .timer :: (during ++ [event])))
    (reached : run (step env) start first = some before)
    (running : before.mappedProcess = some p) (preempts : step env before .timer = some stopped)
    (away : EachStep (step env) (fun k _ => k.mappedProcess ≠ some p) stopped
      (during ++ [event]))
    (waits : run (step env) stopped during = some resumes)
    (steps : step env resumes event = some after) (again : after.mappedProcess = some p) :
    event = .timer ∧
      after.cpu = { activity := before.cpu.activity, esp := before.kernelEsp } ∧
      after.memory p = before.memory p ∧
      after.pcb p = { before.pcb p with saved := none } := by
  have runsOwn : EachStep (step env) (RunsOwn env) start
      (first ++ .timer :: (during ++ [event])) := own.and ran.room
  have ordered := ordered_of_run ran.booted runsOwn.left reached
  have later := runsOwn.right reached
  have ownDuring := later.2 stopped preempts
  have notRunning : stopped.mappedProcess ≠ some p := by
    cases during with
    | nil => exact away.1
    | cons _ _ => exact away.1
  have awayLast := (away.right waits).1
  rcases stopped_of_timer ordered later.1 running preempts notRunning with
    ⟨orderedThen, live, memory, pcb⟩
  have stop : Stopped p stopped stopped := ⟨orderedThen, live, .refl p stopped⟩
  have waited := stop.run ownDuring.left away.left waits awayLast
  have saved : (resumes.pcb p).saved =
      some { activity := before.cpu.activity, esp := before.kernelEsp } := by
    rw [waited.keeps.pcb, pcb, savedPcbs, Function.update_self]
  cases elsewhere_step waited.ordered waited.live awayLast steps with
  | rests other => exact absurd again other
  | resumes context _ timer same cpu memory' pcb' live' =>
      cases saved.symm.trans same
      refine ⟨timer, cpu, ?_, ?_⟩
      · rw [memory', waited.keeps.memory, memory]
      · rw [pcb', waited.keeps.pcb, pcb, savedPcbs, Function.update_self]
  | returns _ unsaved =>
      rw [saved] at unsaved
      cases unsaved

/-- The timer stops the second shell, and resumes it when the first has run. -/
def preemptedRun : BootRun Env.sample []
    (fun start =>
      (decide (EachStep (step Env.sample) (RunsOwn Env.sample) start
          (secondShell ++ .timer :: (firstShellRuns ++ [.timer]))),
        (run (step Env.sample) start secondShell).map mappedProcess,
        (run (step Env.sample) start (secondShell ++ [.timer])).map fun stopped =>
          decide (EachStep (step Env.sample) (fun k _ => k.mappedProcess ≠ some 1) stopped
            (firstShellRuns ++ [.timer])),
        (run (step Env.sample) start (secondShell ++ .timer :: (firstShellRuns ++ [.timer]))).map
          mappedProcess))
    (true, some (some 1), some true, some (some 1)) :=
  .of (by decide +kernel)

theorem preemption_transparent_sample :
    ∃ start before after, boot Env.sample default = some start ∧
      run (step Env.sample) start secondShell = some before ∧
      run (step Env.sample) before (.timer :: (firstShellRuns ++ [.timer])) = some after ∧
      after.cpu = { activity := before.cpu.activity, esp := before.kernelEsp } ∧
      after.memory 1 = before.memory 1 ∧ after.pcb 1 = { before.pcb 1 with saved := none } := by
  rcases preemptedRun with ⟨start, final, booted, ends, saw⟩
  cases ends
  simp only [Prod.mk.injEq, decide_eq_true_eq] at saw
  rcases saw with ⟨runsOwn, first, stops, whole⟩
  rcases Option.map_eq_some_iff.mp first with ⟨before, reached, running⟩
  rcases Option.map_eq_some_iff.mp stops with ⟨stopped, stop, away⟩
  rcases Option.map_eq_some_iff.mp whole with ⟨after, all, again⟩
  rw [run_append, reached, Option.bind_some] at stop all
  rcases (run_cons_eq_some_iff _ _ _ _ _).mp stop with ⟨_, preempts, done⟩
  cases done
  rcases (run_cons_eq_some_iff _ _ _ _ _).mp all with ⟨_, preempts', rest⟩
  cases preempts.symm.trans preempts'
  rw [run_append] at rest
  rcases Option.bind_eq_some_iff.mp rest with ⟨resumes, waits, last⟩
  rcases (run_cons_eq_some_iff _ _ _ _ _).mp last with ⟨_, steps, done⟩
  cases done
  have ran : RoomyRun Env.sample default start
      (secondShell ++ .timer :: (firstShellRuns ++ [.timer])) :=
    ⟨⟨booted, by decide⟩, runsOwn.imp fun _ _ both => both.2⟩
  have transparent := preemption_transparent ran (runsOwn.imp fun _ _ both => both.1) reached
    running preempts (of_decide_eq_true away) waits steps again
  exact ⟨start, before, after, booted, reached, all, transparent.2⟩

end Kernel

end Ece391Os
