import Ece391Os.Process.Chains
import Ece391Os.Process.Refines
import Ece391Os.Transition.Run

/-!
# The running process and the scheduler

Along a run from the first shell, the process that runs is the active process of the
scheduled terminal, as long as no program is started while another active terminal is
displayed.  What the scheduler resumes is a live process, as long as the process that
halts is the one its terminal names.
-/

namespace Ece391Os

open Transition

namespace ProcTable

/-- Starting the first shell makes a coherent table. -/
theorem coherent_boot (v : ProcTable) (p : ProcId) : (v.beforeBoot.start p).Coherent := by
  have chains : v.beforeBoot.Chains := by
    refine ⟨fun _ _ => rfl, ?_, ?_, fun _ => List.nodup_nil, fun _ => trivial⟩
    · intro t busy
      cases busy
    · intro t q member
      cases member
  refine chains.coherent_start rfl rfl (.inl fun t active => ?_)
  rw [active_start] at active
  exact of_decide_eq_true ((Bool.or_false _).symm.trans active)

end ProcTable

namespace Kernel

theorem coherent_of_boot {env : Env} {k start : Kernel} (booted : boot env k = some start) :
    start.procs.Coherent := by
  obtain ⟨p, table⟩ := boot_procs booted
  rw [table]
  exact k.procs.coherent_boot p

/-! ## The running process -/

/-- The caller of `halt` is not the first process of its terminal, or its terminal is
displayed, or the displayed terminal is idle and another terminal stays active. -/
def HaltSafe (k : Kernel) : Prop :=
  ∀ p, (k.terminal k.curActiveTerminal).apn = some p → k.isRoot p = true → k.procs.RestartSafe

/-- A program is started while the terminal of the running process or an idle one is
displayed, and calls of `halt` are safe. -/
def OnOwnTerminal (env : Env) (k : Kernel) : Event → Prop
  | .execute command =>
      (∀ p, k.newProcess env command = some p → k.procs.LaunchSafe) ∧
        (command.Exits → k.HaltSafe)
  | .halt _ => k.HaltSafe
  | .wait => ∀ old interrupted p, k.cpu.activity = .launch old interrupted →
      k.newProcess env env.shell = some p → k.procs.LaunchSafe
  | _ => True

instance (c : Command) : Decidable c.Exits :=
  decidable_of_iff (c.parse.map Command.Parsed.isExit = some true) (by simp [Command.Exits])

instance (v : ProcTable) : Decidable v.LaunchSafe :=
  inferInstanceAs (Decidable (_ ∨ _))

instance (v : ProcTable) : Decidable v.RestartSafe :=
  inferInstanceAs (Decidable (_ ∨ _ ∧ ∃ _ : Fin 3, _ ∧ _))

instance (k : Kernel) : Decidable k.HaltSafe :=
  inferInstanceAs (Decidable (∀ _ : Fin 6, _ → _ → _))

instance (env : Env) (k : Kernel) : (event : Event) → Decidable (OnOwnTerminal env k event)
  | .execute command =>
      inferInstanceAs (Decidable ((∀ p : Fin 6, k.newProcess env command = some p →
        k.procs.LaunchSafe) ∧ (command.Exits → k.HaltSafe)))
  | .halt _ => inferInstanceAs (Decidable k.HaltSafe)
  | .wait =>
      match activity : k.cpu.activity with
      | .launch _ _ =>
          decidable_of_iff (∀ p : Fin 6, k.newProcess env env.shell = some p →
            k.procs.LaunchSafe) ⟨fun safe _ _ p _ => safe p, fun own p => own _ _ p activity⟩
      | .user _ | .terminalRead .. | .rtcRead _ =>
          .isTrue fun _ _ _ launching => by rw [activity] at launching; cases launching
  | .timer | .keyboard _ | .clock | .read .. | .write .. | .openFile _ | .closeFile _
  | .getargs .. | .vidmap _ => .isTrue trivial

theorem Halted.safe {k : Kernel} {action : ProcAction} (halted : Halted k action)
    (haltSafe : k.HaltSafe) : k.procs.Safe action := by
  cases halted with
  | finish esp0 enabled => trivial
  | restart p enabled =>
      obtain ⟨q, apn, root, _⟩ := enabled
      exact haltSafe q apn (decide_eq_true root)

theorem Performs.safe {env : Env} {k : Kernel} {event : Event} {action : ProcAction}
    (performs : Performs env k event action) (own : OnOwnTerminal env k event) :
    k.procs.Safe action := by
  cases performs with
  | stay => trivial
  | vidmap => trivial
  | start command p new => exact own.1 p new
  | halt status _ halted => exact halted.safe own
  | exit command _ exits halted => exact halted.safe (own.2 exits)
  | select => trivial
  | switch scancode termNum _ decoded switched => cases switched <;> trivial
  | launch old interrupted p launching new => exact own old interrupted p launching new

/-- A step on the process's own terminal keeps the process table coherent. -/
theorem coherent_step {env : Env} {k k' : Kernel} {event : Event} (coherent : k.procs.Coherent)
    (own : OnOwnTerminal env k event) (step : k.step env event = some k') :
    k'.procs.Coherent := by
  obtain ⟨action, performs, table⟩ := step_act step
  rw [table]
  exact coherent.act performs.enabled (performs.safe own)

/-- The first shell executes a program. -/
def executeRun : BootRun Env.sample [.execute Env.sample.shell, .keyboard 0x38, .timer]
    Kernel.mappedProcess (some 1) :=
  .of (by decide +kernel)

/-! ## The scheduler -/

/-- The caller of `halt` is the active process of the scheduled terminal. -/
def HaltOrderly (k : Kernel) : Prop :=
  k.mappedProcess = (k.terminal k.curActiveTerminal).apn ∧ k.HaltSafe

/-- Calls of `halt` are made by the process that the scheduled terminal names. -/
def HaltsOwn (k : Kernel) : Event → Prop
  | .execute command => command.Exits → k.HaltOrderly
  | .halt _ => k.HaltOrderly
  | _ => True

theorem Halted.orderly {k : Kernel} {action : ProcAction} (halted : Halted k action)
    (haltOrderly : k.HaltOrderly) : k.procs.Orderly action := by
  have safe := halted.safe haltOrderly.2
  cases halted with
  | finish esp0 enabled => exact haltOrderly.1
  | restart p enabled => exact ⟨haltOrderly.1, safe⟩

theorem Performs.orderly {env : Env} {k : Kernel} {event : Event} {action : ProcAction}
    (performs : Performs env k event action) (own : HaltsOwn k event) :
    k.procs.Orderly action := by
  cases performs with
  | stay => trivial
  | vidmap => trivial
  | start => trivial
  | halt status _ halted => exact halted.orderly own
  | exit command _ exits halted => exact halted.orderly (own exits)
  | select => trivial
  | switch scancode termNum _ decoded switched => cases switched <;> trivial
  | launch => trivial

theorem schedulable_step {env : Env} {k k' : Kernel} {event : Event}
    (schedulable : k.procs.Schedulable) (own : HaltsOwn k event)
    (step : k.step env event = some k') : k'.procs.Schedulable := by
  obtain ⟨action, performs, table⟩ := step_act step
  rw [table]
  exact schedulable.act performs.enabled (performs.orderly own)

/-- A timer interrupt that switches contexts selects an active terminal, whose process
is live and its most recently started unfinished one. -/
def ResumesLive (k : Kernel) (event : Event) : Prop :=
  event = .timer → (k.terminal 1).active = true ∨ (k.terminal 2).active = true →
    (k.terminal k.getNextScheduled).active = true ∧
      ∃ p, (k.terminal k.getNextScheduled).apn = some p ∧ k.pidArray p = true ∧
        (unfinished k.getNextScheduled k.procLog).head? = some p

theorem resumesLive_of_schedulable {k : Kernel} (schedulable : k.procs.Schedulable)
    (event : Event) : k.ResumesLive event := by
  intro _ others
  have busy : k.procs.active k.getNextScheduled = true :=
    schedulable.active_of_next others k.getNextScheduled_eq
  obtain ⟨p, rest, stack, apn⟩ := schedulable.newest k.getNextScheduled busy
  have newest : (k.procs.stack k.getNextScheduled).head? = some p := by rw [stack]; rfl
  have member : p ∈ k.procs.stack k.getNextScheduled := by rw [stack]; exact List.mem_cons_self
  exact ⟨busy, p, apn, (schedulable.member _ p member).1, newest⟩

/-- In every run from the first shell in which a process that halts is the one its
terminal names, the scheduler resumes live processes only. -/
theorem schedules_live {env : Env} {k start : Kernel} {events : List Event}
    (ran : UserRun env k start events)
    (own : EachStep (Kernel.step env) HaltsOwn start events) :
    EachStep (Kernel.step env) ResumesLive start events :=
  eachStep_of_invariant (fun k => k.procs.Schedulable)
    (fun _ _ _ schedulable own step => schedulable_step schedulable own step)
    (fun _ event schedulable _ => resumesLive_of_schedulable schedulable event)
    (coherent_of_boot ran.booted).toSchedulable own

/-- The second terminal is displayed, and the scheduler resumes the first. -/
def resumeRun : BootRun Env.sample [.keyboard 0x38, .keyboard 0x3C, .wait, .timer]
    Kernel.mappedProcess (some 0) :=
  .of (by decide +kernel)

theorem schedules_live_sample :
    resumeRun.final.mappedProcess = some 0 ∧
      EachStep (Kernel.step Env.sample) ResumesLive resumeRun.start
        [.keyboard 0x38, .keyboard 0x3C, .wait, .timer] := by
  obtain ⟨start, final, booted, reached, mapped⟩ := resumeRun
  refine ⟨mapped, schedules_live ⟨booted, by decide⟩ ?_⟩
  exact ⟨trivial, fun _ _ => ⟨trivial, fun _ _ => ⟨trivial, fun _ _ => ⟨trivial, fun _ _ =>
    trivial⟩⟩⟩⟩

/-- The first shell halts while the second terminal is displayed.  Its replacement runs
on the second terminal, and the next timer interrupt but one selects the first. -/
def hiddenHaltRun : BootRun Env.sample
    [.keyboard 0x38, .keyboard 0x3C, .wait, .timer, .halt 0, .timer]
    (fun k => ((k.terminal 1).active, (k.terminal k.getNextScheduled).active)) (true, false) :=
  .of (by decide +kernel)

theorem root_halt_while_hidden :
    ∃ start final, boot Env.sample default = some start ∧
      run (Kernel.step Env.sample) start
        [.keyboard 0x38, .keyboard 0x3C, .wait, .timer, .halt 0, .timer] = some final ∧
      ¬ final.ResumesLive .timer := by
  obtain ⟨start, final, booted, reached, saw⟩ := hiddenHaltRun
  refine ⟨start, final, booted, reached, fun live => ?_⟩
  simp only [Prod.mk.injEq] at saw
  have active := (live rfl (.inl saw.1)).1
  rw [saw.2] at active
  cases active

end Kernel

end Ece391Os
