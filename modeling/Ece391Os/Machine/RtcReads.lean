import Ece391Os.Process.Coherence
import Ece391Os.Process.Readers
import Ece391Os.Process.UserMode
import Ece391Os.Process.VideoPage
import Ece391Os.Transition.History

/-!
# Reads of the clock

Between two completed reads of the clock on one terminal the clock interrupts, and a flag
stays set until a process of its terminal resets it, in every order of interrupts, context
switches and steps of `rtc_read`.
-/

namespace Ece391Os

open Transition

namespace Kernel

variable {env : Env} {k k' : Kernel}

/-! ## The readers of a kernel state -/

/-- The processes, their contexts and the flags of the terminals. -/
def readers (k : Kernel) : Readers where
  procs := k.procs
  saved := fun p => (k.pcb p).saved.map Context.activity
  caller := fun p => (k.pcb p).parentCaller
  flag := k.rtcInterruptOccurred
  running := k.cpu.activity

/-- The readers without what the running process does. -/
def waiting (k : Kernel) : Readers :=
  { k.readers with running := .user 0 }

theorem readers_of_waiting (same : k'.waiting = k.waiting) :
    k'.readers = { k.readers with running := k'.cpu.activity } :=
  congrArg (fun r : Readers => { r with running := k'.cpu.activity }) same

theorem readers_of_procs (same : k'.procs = k.procs) (pcb : k'.pcb = k.pcb)
    (flag : k'.rtcInterruptOccurred = k.rtcInterruptOccurred) : k'.waiting = k.waiting := by
  unfold waiting readers
  rw [same, pcb, flag]

/-- The activity in the context that a PCB has saved. -/
def savedActivity (pcb : Pcb) : Option Activity :=
  pcb.saved.map Context.activity

theorem waiting_untouchedByTerminals : UntouchedByTerminals waiting where
  console := fun _ _ => rfl
  screen := fun k t change outputOnly =>
    readers_of_procs (procs_untouched.screen k t change outputOnly) rfl rfl
  cmos := fun _ _ => rfl
  memory := fun _ _ => rfl
  cpu := fun _ _ => rfl
  keyboard := fun _ _ => rfl
  keyLog := fun _ _ => rfl
  input := fun k t change inputOnly =>
    readers_of_procs (procs_untouchedByKeys.input k t change inputOnly) rfl rfl

theorem waiting_untouched : UntouchedByReads waiting where
  toUntouchedByWrites := waiting_untouchedByTerminals.toUntouchedByWrites
  fds := fun k p fds => by
    ext1
    case procs => exact procs_untouched.fds k p fds
    case saved => exact field_update_of_eq savedActivity rfl
    case caller => exact field_update_of_eq Pcb.parentCaller rfl
    all_goals rfl
  directoryLoc := fun _ _ => rfl

/-- A change of the saved context of a process. -/
theorem saved_modifyPcb (k : Kernel) (p : ProcId) (context : Option Context) :
    (k.modifyPcb p fun pcb => { pcb with saved := context }).waiting =
      { k.waiting with
        saved := Function.update k.waiting.saved p (context.map Context.activity) } := by
  ext1
  case procs => exact k.procs_setSaved p context
  case saved => exact field_update savedActivity k.pcb p _
  case caller => exact field_update_of_eq Pcb.parentCaller rfl
  all_goals rfl

/-! ## Processes -/

/-- `execute` starts a process. -/
theorem readers_startProcess {caller : ExecCaller} {console : Console} {p : ProcId}
    {program : Command.Program}
    (starts : (k.claimed console p).startProcess env caller p program = some k') :
    k'.readers = k.readers.start p caller := by
  rcases pcb_startProcess starts with ⟨_, pcb⟩
  have table := procs_startProcess starts
  rcases Option.map_eq_some_iff.mp starts with ⟨parent, _, rfl⟩
  ext1
  case procs => exact table
  case saved =>
    refine (congrArg (fun pcbs q => savedActivity (pcbs q)) pcb).trans ?_
    exact field_update savedActivity k.pcb p _
  case caller =>
    refine (congrArg (fun pcbs q => Pcb.parentCaller (pcbs q)) pcb).trans ?_
    exact field_update Pcb.parentCaller k.pcb p _
  all_goals rfl

/-- `halt` frees a process. -/
theorem waiting_releaseProcess {current : ProcId} (released : k.releaseProcess current = some k') :
    k'.waiting = { k.waiting with procs := k.procs.release current } := by
  have table := procs_releaseProcess released
  rcases Option.map_eq_some_iff.mp released with ⟨closed, close, rfl⟩
  have kept := waiting_untouched.releaseFds close
  have saved := congrArg Readers.saved kept
  have caller := congrArg Readers.caller kept
  have flag := congrArg Readers.flag kept
  ext1
  case procs => exact table
  case saved => exact saved
  case caller => exact caller
  case flag => exact flag
  case running => rfl

theorem parentCaller_of_resumeParent {current : ProcId} {status : UInt8}
    (resumes : k.resumeParent current status = some k') :
    (k.pcb current).parentCaller = .systemCall := by
  unfold resumeParent at resumes
  dsimp only at resumes
  split at resumes
  · assumption
  · cases resumes

theorem changes_halt {status : UInt8} (safe : k.HaltSafe) (halts : k.halt env status = some k') :
    k.readers.Changes k'.readers := by
  cases halt_cases halts with
  | relaunched current released program p console _ apn root release new starts =>
      have freed := waiting_releaseProcess release
      have saved := congrArg Readers.saved freed
      have caller := congrArg Readers.caller freed
      have flag := congrArg Readers.flag freed
      have restartSafe : k.procs.RestartSafe := safe current apn root
      have idle := procs_idle release
      have free : Function.update k.procs.live (k.procs.number current) false p = false := by
        have live := newProcess_free new
        exact (congrFun (congrArg ProcTable.live idle) p).symm.trans live
      have enabled : k.procs.Enabled (.restart p) :=
        ⟨current, apn, of_decide_eq_true root, free⟩
      have same : k'.readers =
          { k.readers with
            procs := k.procs.act (.restart p)
            saved := Function.update k.readers.saved p none
            caller := Function.update k.readers.caller p .halt
            running := .user 0 } := by
        rw [readers_startProcess starts]
        ext1
        case procs =>
          change (released.setActive released.curActiveTerminal false).procs.start p = _
          rw [idle, ProcTable.act_restart apn]
        case saved => exact congrArg (fun saved => Function.update saved p none) saved
        case caller => exact congrArg (fun caller => Function.update caller p .halt) caller
        case flag => exact flag
        case running => rfl
      rw [same]
      exact .restart p enabled restartSafe
  | resumed current released _ apn root release resumes =>
      have freed := waiting_releaseProcess release
      have saved := congrArg Readers.saved freed
      have caller := congrArg Readers.caller freed
      have flag := congrArg Readers.flag freed
      have child : k.procs.number current ≠ k.procs.parent current := of_decide_eq_false root
      have called : k.readers.caller current = .systemCall := by
        have calls := parentCaller_of_resumeParent resumes
        exact (congrFun caller current).symm.trans calls
      have enabled : k.procs.Enabled (.finish (released.pcb current).parentKsp) :=
        ⟨current, apn, child⟩
      have same : k'.readers =
          { k.readers with
            procs := k.procs.act (.finish (released.pcb current).parentKsp)
            running := .user status.toNat } := by
        ext1
        case procs =>
          change k'.procs = _
          rw [procs_resumeParent resumes, procs_releaseProcess release]
          have running : k.procs.apn k.procs.scheduled = some current := apn
          simp [ProcTable.act, running, ProcTable.release]
        case saved =>
          rw [resumeParent_eq resumes]
          exact saved
        case caller =>
          rw [resumeParent_eq resumes]
          exact caller
        case flag =>
          rw [resumeParent_eq resumes]
          exact flag
        case running =>
          rw [resumeParent_eq resumes]
          rfl
      rw [same]
      exact .finish _ enabled current apn called status.toNat

/-! ## Switches -/

theorem changes_pitScheduling (scheduled : k.pitScheduling = some k') :
    k.readers.Changes k'.readers := by
  unfold pitScheduling at scheduled
  split at scheduled
  · rename_i busy
    rcases Option.bind_eq_some_iff.mp scheduled with ⟨next, newest, switches⟩
    have table := processContextswitch_act newest switches
    have enabled : k.procs.Enabled (.select k.getNextScheduled) :=
      ⟨busy, Option.isSome_iff_exists.mpr ⟨next, newest⟩, k.getNextScheduled_eq⟩
    rcases processContextswitch_eq switches with
      ⟨old, loaded, apn, context, pcb, cpu, _, _, flag⟩
    have saves : (fun p => savedActivity (k.savedPcbs old p)) =
        Function.update k.readers.saved old (some k.cpu.activity) :=
      field_update savedActivity k.pcb old _
    have loaded' : Function.update k.readers.saved old (some k.cpu.activity) next =
        some loaded.activity := by
      rw [← saves]
      exact congrArg (Option.map Context.activity) context
    have same : k'.readers =
        { k.readers with
          procs := k.procs.act (.select k.getNextScheduled)
          saved := Function.update
            (Function.update k.readers.saved old (some k.cpu.activity)) next none
          running := loaded.activity } := by
      ext1
      case procs => exact table
      case saved =>
        change (fun p => savedActivity (k'.pcb p)) = _
        rw [pcb, ← saves]
        exact field_update savedActivity _ next _
      case caller =>
        have calls : (fun p => (k.savedPcbs old p).parentCaller) = k.readers.caller :=
          field_update_of_eq Pcb.parentCaller rfl
        change (fun p => (k'.pcb p).parentCaller) = k.readers.caller
        rw [pcb, ← calls]
        exact field_update_of_eq Pcb.parentCaller rfl
      case flag => exact flag
      case running => exact congrArg Cpu.activity cpu
    rw [same]
    exact .select _ enabled old next loaded.activity apn newest loaded'
  · cases scheduled
    exact .stay

theorem changes_switchTerminal {termNum : Nat} (switches : k.switchTerminal termNum = some k') :
    k.readers.Changes k'.readers := by
  cases switchTerminal_cases switches with
  | kept => exact .stay
  | displayed t target differs active =>
      have same : (if k.curActiveTerminal = t then (k.showTerminal t).mapUserVideo
          else (k.showTerminal t).mapUserVideo.mapSavedVideo k.curActiveTerminal).readers =
          { k.readers with
            procs := { k.procs with
              shown := t
              video := some (if k.procs.scheduled = t then videoAddr
                else savedVideoAddr k.procs.scheduled) } } := by
        ext1
        case procs => exact k.procs_displayed t
        all_goals split <;> rfl
      rw [same]
      exact .redisplay t _
  | awaits t target differs inactive old apn =>
      have same : (k.awaitShell t old).readers =
          { k.readers with
            procs := { k.procs with shown := t }
            saved := Function.update k.readers.saved old (some k.cpu.activity)
            running := .launch old k.cpu.activity } := by
        have saves := (k.showTerminal t).saved_modifyPcb old
          (some { activity := k.cpu.activity, esp := k.kernelEsp })
        have saved := congrArg Readers.saved saves
        have caller := congrArg Readers.caller saves
        ext1
        case procs => exact k.procs_awaitShell t old
        case saved => exact saved
        case caller => exact caller
        all_goals rfl
      rw [same]
      exact .await old apn t

theorem changes_launchStep {old : ProcId} {interrupted : Activity}
    (launching : k.cpu.activity = .launch old interrupted)
    (safe : ∀ p, k.newProcess env env.shell = some p → k.procs.LaunchSafe)
    (launches : k.launchStep env old interrupted = some k') :
    k.readers.Changes k'.readers := by
  rcases launchStep_cases launches with ⟨program, p, console, new, starts⟩ | ⟨console, _, rfl⟩
  · rw [readers_startProcess starts]
    exact .start p (newProcess_free new) (safe p new) _ fun caller => by cases caller
  · have saves := saved_modifyPcb { k with console := console } old none
    have saved := congrArg Readers.saved saves
    have caller := congrArg Readers.caller saves
    have procs := congrArg Readers.procs saves
    have same : Kernel.readers
        { Kernel.modifyPcb { k with console := console } old
            (fun pcb => { pcb with saved := none }) with
          cpu := { k.cpu with activity := interrupted } } =
        { k.readers with
          saved := Function.update k.readers.saved old none
          running := interrupted } := by
      ext1
      case procs => exact procs
      case saved => exact saved
      case caller => exact caller
      all_goals rfl
    rw [same]
    exact .giveUp old interrupted launching

/-! ## Every step -/

theorem changes_executeCall {command : Command} (started : ¬ k.cpu.activity.Launches)
    (own : OnOwnTerminal env k (.execute command)) (called : k.executeCall env command = some k') :
    k.readers.Changes k'.readers := by
  cases executeCall_cases called with
  | exited _ exits halts => exact changes_halt (own.2 exits) halts
  | failed console _ => exact .goOn _ started fun _ => trivial
  | started program p console _ new starts =>
      rw [readers_startProcess starts]
      exact .start p (newProcess_free new) (own.1 p new) _ fun _ => started

/-- The next step of the running process resets the flag of its terminal and ends its
`rtc_read`. -/
def CompletesRead (k : Kernel) (event : Event) : Prop :=
  event = .wait ∧ k.cpu.activity = .rtcRead true

instance (k : Kernel) (event : Event) : Decidable (k.CompletesRead event) :=
  match event with
  | .wait => decidable_of_iff (k.cpu.activity = .rtcRead true) (by simp [CompletesRead])
  | .timer | .keyboard _ | .clock | .halt _ | .execute _ | .read .. | .write .. | .openFile _
  | .closeFile _ | .getargs .. | .vidmap _ => .isFalse fun completes => by cases completes.1

theorem not_launches_of_inUserMode (userMode : k.inUserMode = true) :
    ¬ k.cpu.activity.Launches := by
  intro launches
  unfold inUserMode at userMode
  cases activity : k.cpu.activity with
  | launch => simp [activity] at userMode
  | _ =>
      rw [activity] at launches
      exact launches

theorem fits_of_inUserMode (userMode : k.inUserMode = true) (flag : Bool) (p : ProcId) :
    k.cpu.activity.Fits flag p := by
  unfold inUserMode at userMode
  cases activity : k.cpu.activity with
  | user => trivial
  | _ => simp [activity] at userMode

/-- Every step but an interrupt of the clock and the end of a read. -/
theorem changes_step {event : Event} (own : OnOwnTerminal env k event) (noClock : event ≠ .clock)
    (reads : ¬ k.CompletesRead event) (step : k.step env event = some k') :
    k.readers.Changes k'.readers := by
  have goesOn : k'.waiting = k.waiting → ¬ k.cpu.activity.Launches →
      (∀ p, k'.cpu.activity.Fits (k.rtcInterruptOccurred k.curActiveTerminal) p) →
      k.readers.Changes k'.readers := by
    intro same started fits
    rw [readers_of_waiting same]
    exact .goOn _ started fits
  cases step_cases step with
  | scheduled _ schedules => exact changes_pitScheduling schedules
  | ignored => exact .stay
  | pressed _ _ _ _ handled =>
      have kept := waiting_untouchedByTerminals.handleKeyPress handled
      have running := cpu_untouchedByTyping.handleKeyPress handled
      have same : k'.readers = k.readers := by
        rw [readers_of_waiting kept, running]
        rfl
      rw [same]
      exact .stay
  | switched _ _ _ _ switches =>
      have changes := changes_switchTerminal switches
      exact changes
  | ticked => exact absurd rfl noClock
  | halted _ _ _ halts => exact changes_halt own halts
  | executed _ _ userMode executes =>
      exact changes_executeCall (not_launches_of_inUserMode userMode) own executes
  | begun _ _ _ _ userMode begins =>
      apply goesOn (waiting_untouched.beginRead begins) (not_launches_of_inUserMode userMode)
      intro p
      rcases beginRead_cases begins with returns | rfl | rfl
      · exact fits_of_inUserMode returns _ p
      · trivial
      · exact fun seen => absurd seen (by decide)
  | returned _ _ _ userMode returns =>
      exact goesOn (waiting_untouched.returns returns) (not_launches_of_inUserMode userMode)
        fun _ => trivial
  | mapped screenStart userMode =>
      have started := not_launches_of_inUserMode userMode
      unfold Kernel.vidmap
      split
      · exact .goOn _ started fun _ => trivial
      · have stored : (k.mapUserVideo.storeUser screenStart userVideoBytes).waiting =
            k.mapUserVideo.waiting := waiting_untouched.storeUser screenStart userVideoBytes
        have returned := (waiting_untouched.returnToUser (k :=
          k.mapUserVideo.storeUser screenStart userVideoBytes) userVideoAddr).trans stored
        have same : ((k.mapUserVideo.storeUser screenStart userVideoBytes).returnToUser
            userVideoAddr).readers =
            { k.readers with
              procs := { k.procs with video := some videoAddr }
              running := .user userVideoAddr } := by
          rw [readers_of_waiting returned]
          ext1
          case procs => exact k.procs_mapUserVideo
          all_goals rfl
        dsimp only
        rw [same]
        exact .mapVideo (some videoAddr) started userVideoAddr
  | readOn _ _ _ _ activity stepped =>
      apply goesOn (waiting_untouchedByTerminals.terminalReadStep stepped)
      · rw [activity]
        exact id
      · intro p
        rcases terminalReadStep_continues stepped with ⟨next, continues⟩ | ⟨_, _, returns⟩
        · rw [continues]
          trivial
        · exact fits_of_inUserMode returns _ p
  | rtcReadOn seen activity =>
      have started : ¬ k.cpu.activity.Launches := by
        rw [activity]
        exact id
      cases seen with
      | false => exact .goOn _ started fun _ seen => seen
      | true => exact absurd ⟨rfl, activity⟩ reads
  | launched old interrupted _ activity launches =>
      exact changes_launchStep activity (fun p => own old interrupted p activity) launches

section Apart

variable (coherent : k.procs.Coherent) (apart : k.readers.Apart)
include coherent apart

/-- Every step keeps the readers apart. -/
theorem apart_step {event : Event} (own : OnOwnTerminal env k event)
    (step : k.step env event = some k') : k'.readers.Apart := by
  by_cases clock : event = .clock
  · subst clock
    cases step
    exact apart.tick
  by_cases reads : k.CompletesRead event
  · rcases reads with ⟨rfl, activity⟩
    have completed : k' = k.rtcReadStep true := by
      simpa [Kernel.step, waitStep, activity] using step.symm
    have started : ¬ k.cpu.activity.Launches := by
      rw [activity]
      exact id
    rw [completed]
    exact apart.complete started 0
  · exact apart.change coherent (changes_step own clock reads step)

/-- A reader that has seen the flag of its terminal finds it set when it resets it. -/
theorem flag_of_seen (seen : k.cpu.activity = .rtcRead true) :
    k.rtcInterruptOccurred k.curActiveTerminal = true ∧
      ∃ p, k.mappedProcess = some p ∧ (k.pcb p).term = k.curActiveTerminal := by
  rcases coherent.running with ⟨p, rest, stack, apn, mapped, _⟩
  have fits := apart.running p apn
  have running : k.readers.running = .rtcRead true := seen
  rw [running] at fits
  have member : p ∈ k.procs.stack k.procs.scheduled := by
    rw [stack]
    exact List.mem_cons_self
  exact ⟨fits rfl, p, mapped, (coherent.member _ p member).2.1⟩

end Apart

/-! ## Every run -/

/-- The terminals that the clock has interrupted for since their last completed read. -/
def noteTick (k : Kernel) (event : Event) (_ : Kernel) (ticked : TermId → Bool) : TermId → Bool :=
  match event with
  | .clock => fun _ => true
  | _ => if k.CompletesRead event then Function.update ticked k.curActiveTerminal false else ticked

/-- The machine, with what the clock has done since the last completed read of each
terminal. -/
def tickStep (env : Env) : EventStep (Kernel × (TermId → Bool)) Event :=
  withHistory (step env) noteTick

/-- A read of the clock completes only if the clock has interrupted since the last completed
read on the terminal, and is made by a process of the terminal; and the flag of a terminal
is set while the clock has interrupted since then. -/
structure ReadsTicks (state : Kernel × (TermId → Bool)) (event : Event) : Prop where
  completes : state.1.CompletesRead event → state.2 state.1.curActiveTerminal = true
  own : state.1.CompletesRead event → ∃ p, state.1.mappedProcess = some p ∧
    (state.1.pcb p).term = state.1.curActiveTerminal
  stays : ∀ t, state.2 t = true → state.1.rtcInterruptOccurred t = true

/-- Only the clock and the ends of reads change the flags. -/
theorem flags_step {event : Event} (own : OnOwnTerminal env k event)
    (step : k.step env event = some k') :
    k'.rtcInterruptOccurred = noteTick k event k' k.rtcInterruptOccurred := by
  by_cases clock : event = .clock
  · subst clock
    cases step
    rfl
  have noted : noteTick k event k' k.rtcInterruptOccurred =
      if k.CompletesRead event then
        Function.update k.rtcInterruptOccurred k.curActiveTerminal false
      else k.rtcInterruptOccurred := by
    cases event with
    | clock => exact absurd rfl clock
    | _ => rfl
  rw [noted]
  by_cases reads : k.CompletesRead event
  · rw [if_pos reads]
    rcases reads with ⟨rfl, activity⟩
    have completed : k' = k.rtcReadStep true := by
      simpa [Kernel.step, waitStep, activity] using step.symm
    rw [completed]
    rfl
  · rw [if_neg reads]
    exact (changes_step own clock reads step).flag

/-- The processes are in order, the readers apart, and the flags as noted. -/
structure TicksNoted (state : Kernel × (TermId → Bool)) : Prop where
  coherent : state.1.procs.Coherent
  apart : state.1.readers.Apart
  noted : state.1.rtcInterruptOccurred = state.2

theorem TicksNoted.step {state target : Kernel × (TermId → Bool)} {event : Event}
    (noted : TicksNoted state) (own : OnOwnTerminal env state.1 event)
    (step : tickStep env state event = some target) : TicksNoted target := by
  rcases withHistory_eq_some_iff.mp step with ⟨machine, history⟩
  constructor
  · exact coherent_step noted.coherent own machine
  · exact apart_step noted.coherent noted.apart own machine
  · rw [history, ← noted.noted]
    exact flags_step own machine

theorem TicksNoted.readsTicks {state : Kernel × (TermId → Bool)} {event : Event}
    (noted : TicksNoted state) : ReadsTicks state event where
  completes := by
    intro completes
    rw [← noted.noted]
    exact (flag_of_seen noted.coherent noted.apart completes.2).1
  own := fun completes => (flag_of_seen noted.coherent noted.apart completes.2).2
  stays := by
    intro t ticked
    rw [noted.noted]
    exact ticked

theorem ticksNoted_of_boot {start : Kernel} (booted : boot env k = some start) :
    TicksNoted (start, fun _ => false) := by
  have coherent := coherent_of_boot booted
  rcases boot_cases booted with ⟨program, p, console, new, starts⟩
  have readers := readers_startProcess starts
  have table : k.startup.initTerminals.readers.procs = k.procs.beforeBoot :=
    k.procs_initTerminals
  have kept : k.startup.initTerminals.readers.Kept := by
    constructor
    · intro t p activity active
      rw [table] at active
      cases active
    · intro t p member
      rw [table] at member
      cases member
  constructor
  case coherent => exact coherent
  case apart =>
    rw [readers]
    apply kept.start
    · rw [table, ProcTable.chains_iff_forest]
      exact k.procs.forest_beforeBoot
    · rw [table]
      rfl
    · rw [table]
      rfl
    · exact fun caller => by cases caller
  case noted => exact congrArg Readers.flag readers

/-- The step is no start or end of a program. -/
def SamePrograms (k : Kernel) : Event → Prop
  | .execute _ | .halt _ => False
  | .wait => ¬ k.cpu.activity.Launches
  | _ => True

instance (activity : Activity) : Decidable activity.Launches :=
  match activity with
  | .launch .. => .isTrue trivial
  | .user _ | .terminalRead .. | .rtcRead _ => .isFalse id

instance (k : Kernel) (event : Event) : Decidable (k.SamePrograms event) :=
  match event with
  | .execute _ | .halt _ => .isFalse id
  | .wait => inferInstanceAs (Decidable (¬ k.cpu.activity.Launches))
  | .timer | .keyboard _ | .clock | .read .. | .write .. | .openFile _ | .closeFile _
  | .getargs .. | .vidmap _ => .isTrue trivial

/-- Interrupts, context switches and the steps of `rtc_read` are on their own terminal. -/
theorem SamePrograms.onOwnTerminal {event : Event} (same : k.SamePrograms event) :
    OnOwnTerminal env k event := by
  cases event with
  | execute command => exact same.elim
  | halt status => exact same.elim
  | wait =>
      intro old interrupted p launching
      have started : ¬ k.cpu.activity.Launches := same
      rw [launching] at started
      exact absurd trivial started
  | _ => trivial

/-- A kernel whose image has, besides the file `shell`, an entry `rtc` of the clock. -/
def clockEnv : Env :=
  { Env.sample with
    image := Image.ofBytes
      [(0, [2, 0, 0, 0, 1, 0, 0, 0, 1]),
        (64, [0x73, 0x68, 0x65, 0x6C, 0x6C]), (96, [2]),
        (128, [0x72, 0x74, 0x63]), (160, [0]),
        (4096, [28]),
        (8192, [0x7F, 0x45, 0x4C, 0x46])] }

/-- The shell opens the clock and reads it twice. -/
def clockReads : List Event :=
  [.openFile [0x72, 0x74, 0x63], .read 2 0x8048000 4, .wait, .clock, .wait, .timer, .wait,
    .read 2 0x8048000 4, .wait]

def clockReadsRun :
    ObservedRun ((boot clockEnv default).map fun start => (start, fun _ => false))
      (tickStep clockEnv) []
      (fun state =>
        (decide (EachStep (step clockEnv) (fun k event => k.SamePrograms event ∧
            k.StackRoom clockEnv) state.1 clockReads),
          (run (step clockEnv) state.1 (clockReads.take 6)).map fun k => k.cpu.activity,
          (run (step clockEnv) state.1 clockReads).map fun k => k.cpu.activity))
      (true, some (.rtcRead true), some (.rtcRead false)) :=
  .of (by decide +kernel)

/-- The first shell halts while the second terminal is displayed.  The shell that replaces it
is scheduled for both terminals in turn.  It sees the flag of the second and resets that of
the first, twice. -/
def hiddenReads : List Event :=
  [.keyboard 0x38, .keyboard 0x3C, .wait, .timer, .halt 0, .openFile [0x72, 0x74, 0x63],
    .read 2 0x8048000 4, .timer, .clock, .wait, .timer, .wait,
    .read 2 0x8048000 4, .timer, .wait, .timer]

def hiddenReadsRun :
    ObservedRun ((boot clockEnv default).map fun start => (start, fun _ => false))
      (tickStep clockEnv) hiddenReads
      (fun state =>
        (decide (state.1.CompletesRead .wait), state.2 state.1.curActiveTerminal))
      (true, false) :=
  .of (by decide +kernel)

end Kernel

end Ece391Os
