import Ece391Os.Process.Forest
import Ece391Os.Process.StartsExecutables

/-!
# Terminal switches that return

`switch_terminal` displays the requested terminal before it calls `execute` for the shell
of a terminal that is not active.  When the shell cannot be started, the call returns with
that terminal displayed.
-/

namespace Ece391Os

open Transition

/-- How `switch_terminal` ends: it returns to the keyboard handler, or a new shell runs. -/
inductive SwitchOutcome where
  | returned (k : Kernel)
  | entered (k : Kernel)

namespace ProcTable

/-- A terminal names a process once one has been started on it. -/
structure Started (v : ProcTable) : Prop where
  named : ∀ t, (v.apn t).isSome = true ↔ ∃ p, .started t p ∈ v.log
  scheduled : (v.apn v.scheduled).isSome = true

variable {v : ProcTable}

theorem named_start_log (named : ∀ t, (v.apn t).isSome = true ↔ ∃ p, .started t p ∈ v.log)
    (p : ProcId) (t : TermId) :
    ((v.start p).apn t).isSome = true ↔ ∃ q, .started t q ∈ (v.start p).log := by
  by_cases here : t = v.shown
  · subst here
    constructor
    · intro _
      exact ⟨p, List.mem_cons_self⟩
    · intro _
      simp [start]
  · have apn : (v.start p).apn t = v.apn t := by simp [start, here]
    rw [apn, named t]
    constructor
    · rintro ⟨q, logged⟩
      exact ⟨q, List.mem_cons_of_mem _ logged⟩
    · rintro ⟨q, logged⟩
      rcases List.mem_cons.mp logged with new | old
      · cases new
        exact absurd rfl here
      · exact ⟨q, old⟩

theorem Started.start (started : v.Started) (p : ProcId) : (v.start p).Started := by
  constructor
  · exact named_start_log started.named p
  · by_cases busy : v.active v.shown = true
    · by_cases here : v.scheduled = v.shown
      · simp [ProcTable.start, here]
      · simpa [ProcTable.start, busy, here] using started.scheduled
    · simp [ProcTable.start, busy]

theorem Started.release (started : v.Started) (p : ProcId) : (v.release p).Started := by
  have logged : ∀ t q, .started t q ∈ (v.release p).log ↔ .started t q ∈ v.log := by
    intro t q
    simp [ProcTable.release]
  constructor
  · intro t
    simp only [logged]
    rw [← started.named t]
    by_cases here : t = v.scheduled
    · subst here
      simp [ProcTable.release, started.scheduled]
    · simp [ProcTable.release, here]
  · simp [ProcTable.release]

theorem Started.act (started : v.Started) {action : ProcAction} (enabled : v.Enabled action) :
    (v.act action).Started := by
  cases action with
  | stay => exact started
  | vidmap => exact ⟨started.named, started.scheduled⟩
  | start p => exact started.start p
  | finish esp0 =>
      rcases enabled with ⟨p, apn, _⟩
      have released := started.release p
      unfold ProcTable.act
      rw [apn]
      exact ⟨released.named, released.scheduled⟩
  | restart p =>
      rcases enabled with ⟨q, apn, _, _⟩
      have released := started.release q
      rw [act_restart apn]
      exact Started.start (v := { v.release q with
        active := Function.update v.active v.scheduled false })
        ⟨released.named, released.scheduled⟩ p
  | select t =>
      rcases enabled with ⟨_, named, _⟩
      unfold ProcTable.act
      dsimp only
      split
      · exact started
      · exact ⟨started.named, named⟩
  | display t => exact ⟨started.named, started.scheduled⟩
  | displayIdle t => exact ⟨started.named, started.scheduled⟩

end ProcTable

namespace Kernel

theorem started_of_run {env : Env} {k start final : Kernel} {events : List Event}
    (booted : boot env k = some start)
    (reached : run (Kernel.step env) start events = some final) : final.procs.Started := by
  apply run_invariant_always (fun k => k.procs.Started) _ _ reached
  · intro state event target started step
    rcases step_act step with ⟨action, performs, table⟩
    rw [table]
    exact started.act performs.enabled
  · rcases boot_procs booted with ⟨p, table⟩
    rw [table]
    constructor
    · exact ProcTable.named_start_log (by simp [ProcTable.beforeBoot]) p
    · simp [ProcTable.start, ProcTable.beforeBoot]

/-- The command of the first shell is parsed. -/
theorem shell_parses {env : Env} {k start : Kernel} (booted : boot env k = some start) :
    ∃ parsed, env.shell.parse = some parsed := by
  rcases Option.bind_eq_some_iff.mp booted with ⟨outcome, executes, _⟩
  rcases Option.bind_eq_some_iff.mp executes with ⟨parsed, parses, _⟩
  exact ⟨parsed, parses⟩

/-! ## The call -/

/-- The terminal requested is not displayed and not active: a shell has to be started. -/
def NeedsShell (k : Kernel) (termNum : Nat) : Prop :=
  ∃ t : TermId, termNum = t.val ∧ t ≠ k.curTerm ∧ (k.terminal t).active = false

instance decidableNeedsShell (k : Kernel) (termNum : Nat) : Decidable (k.NeedsShell termNum) :=
  inferInstanceAs (Decidable
    (∃ t : TermId, termNum = t.val ∧ t ≠ k.curTerm ∧ (k.terminal t).active = false))

/-- `switch_terminal(term_num)` from its call to its end, without an interrupt. -/
def switchTerminalCall (env : Env) (k : Kernel) (termNum : Nat) : Option SwitchOutcome := do
  let switched ← k.switchTerminal termNum
  if k.NeedsShell termNum then
    match switched.cpu.activity with
    | .launch old interrupted =>
        match ← switched.execute env .switchTerminal env.shell with
        | .running k => some (.entered k)
        | .failed k =>
            let k := k.modifyPcb old fun pcb => { pcb with saved := none }
            some (.returned { k with cpu := { k.cpu with activity := interrupted } })
    | _ => none
  else
    some (.returned switched)

/-- The requested terminal is displayed, is active and names a live process. -/
def Displays (k : Kernel) (termNum : Nat) : Prop :=
  termNum = k.curTerm.val ∧ (k.terminal k.curTerm).active = true ∧
    ∃ p, (k.terminal k.curTerm).apn = some p ∧ k.pidArray p = true

/-- The displayed terminal, the key buffer and its index, the screen and the cursor are the
same. -/
structure SameDisplay (before after : Kernel) : Prop where
  curTerm : after.curTerm = before.curTerm
  keyBuffer : after.keyboard.keyBuffer = before.keyboard.keyBuffer
  keys : after.keyArray = before.keyArray
  keyBufferIdx : after.keyboard.keyBufferIdx = before.keyboard.keyBufferIdx
  console : after.console = before.console

/-- A call of `switch_terminal` that returns has switched, or has done nothing. -/
def SwitchesWhole (env : Env) (k : Kernel) (termNum : Nat) : Prop :=
  ∀ k', k.switchTerminalCall env termNum = some (.returned k') →
    k'.Displays termNum ∨ SameDisplay k k'

/-- A shell that the switch needs can be started: the image has one, and a process number
is free. -/
def ShellStarts (env : Env) (k : Kernel) (termNum : Nat) : Prop :=
  k.NeedsShell termNum → (k.newProcess env env.shell).isSome = true

/-- The call in the steps of the machine. -/
theorem switchTerminalCall_steps {env : Env} {k : Kernel} {termNum : Nat}
    {outcome : SwitchOutcome} (called : k.switchTerminalCall env termNum = some outcome) :
    ∃ switched, k.switchTerminal termNum = some switched ∧
      ((¬ k.NeedsShell termNum ∧ outcome = .returned switched) ∨
        ∃ k', switched.waitStep env = some k' ∧
          (outcome = .returned k' ∨ outcome = .entered k')) := by
  rcases Option.bind_eq_some_iff.mp called with ⟨switched, switches, rest⟩
  refine ⟨switched, switches, ?_⟩
  split at rest
  · right
    split at rest
    · rename_i old interrupted activity
      rw [waitStep, activity]
      dsimp only
      rcases Option.bind_eq_some_iff.mp rest with ⟨ended, executes, done⟩
      rw [launchStep, executes]
      cases ended with
      | running k' =>
          cases done
          exact ⟨k', rfl, .inr rfl⟩
      | failed k' =>
          cases done
          exact ⟨_, rfl, .inl rfl⟩
    · cases rest
  · rename_i needless
    cases rest
    exact .inl ⟨needless, rfl⟩

theorem not_needsShell_of_kept {k : Kernel} {termNum : Nat}
    (same : ∀ t : TermId, termNum = t.val → t = k.curTerm) : ¬ k.NeedsShell termNum := by
  rintro ⟨t, target, differs, _⟩
  exact differs (same t target)

theorem not_needsShell_of_active {k : Kernel} {t : TermId}
    (active : (k.terminal t).active = true) : ¬ k.NeedsShell t.val := by
  rintro ⟨u, target, _, inactive⟩
  cases Fin.ext target
  rw [active] at inactive
  cases inactive

/-- A switch to an active terminal displays its live process. -/
theorem displays_of_active {k k' : Kernel} {owned : Stacks} (forest : k.procs.Forest owned)
    {t : TermId} (active : (k.terminal t).active = true)
    (table : k'.procs = k.procs.act (.display t)) : k'.Displays t.val := by
  have shown : k'.curTerm = t := congrArg ProcTable.shown table
  have actives : k'.procs.active = (k.procs.act (.display t)).active :=
    congrArg ProcTable.active table
  have names : k'.procs.apn = (k.procs.act (.display t)).apn := congrArg ProcTable.apn table
  have lives : k'.procs.live = (k.procs.act (.display t)).live := congrArg ProcTable.live table
  rcases forest.live_of_active active with ⟨p, apn, live⟩
  refine ⟨congrArg Fin.val shown.symm, ?_, p, ?_, ?_⟩
  · rw [shown]
    exact (congrFun actives t).trans active
  · rw [shown]
    exact (congrFun names t).trans apn
  · exact (congrFun lives p).trans live

theorem switchesWhole_of_shellStarts {env : Env} {k : Kernel} {owned : Stacks} {termNum : Nat}
    (forest : k.procs.Forest owned) (starts : k.ShellStarts env termNum) :
    k.SwitchesWhole env termNum := by
  intro k' called
  rcases Option.bind_eq_some_iff.mp called with ⟨switched, switches, rest⟩
  cases switchTerminal_cases switches with
  | kept same =>
      rw [if_neg (not_needsShell_of_kept same)] at rest
      cases rest
      exact .inr ⟨rfl, rfl, rfl, rfl, rfl⟩
  | displayed t target differs active =>
      subst target
      rw [if_neg (not_needsShell_of_active active)] at rest
      cases rest
      exact .inl (displays_of_active forest active (k.procs_displayed t))
  | awaits t target differs inactive old apn =>
      subst target
      have needs : k.NeedsShell t.val := ⟨t, rfl, differs, inactive⟩
      rw [if_pos needs] at rest
      rcases Option.bind_eq_some_iff.mp rest with ⟨ended, executes, done⟩
      rcases executeShell_cases executes with ⟨console, fails, rfl⟩ | ⟨_, _, _, _, _, _, rfl⟩
      · have new := starts needs
        rw [show k.newProcess env env.shell = none from fails] at new
        cases new
      · cases done

/-- A shell that cannot be started leaves its terminal displayed. -/
theorem switchTerminalCall_fails {env : Env} {k : Kernel} {parsed : Command.Parsed}
    (named : k.procs.Named) (started : k.procs.Started)
    (parses : env.shell.parse = some parsed) {t : TermId} (differs : t ≠ k.curTerm)
    (inactive : (k.terminal t).active = false) (fails : k.newProcess env env.shell = none) :
    ∃ k', k.switchTerminalCall env t.val = some (.returned k') ∧
      k'.procs = k.procs.act (.displayIdle t) := by
  rcases Option.isSome_iff_exists.mp started.scheduled with ⟨old, apn⟩
  have switches : k.switchTerminal t.val = some (k.awaitShell t old) :=
    switchTerminal_awaits differs inactive apn
  have table := k.procs_awaitShell t old
  have namedThen : (k.awaitShell t old).procs.Named := table ▸ named.act (.displayIdle t)
  have notExit := env.shell_isExit parses
  rcases Option.isSome_iff_exists.mp (execute_isSome env .switchTerminal namedThen parses notExit)
    with ⟨ended, executes⟩
  have needs : k.NeedsShell t.val := ⟨t, rfl, differs, inactive⟩
  rcases executeShell_cases executes with ⟨console, _, rfl⟩ | ⟨_, _, _, _, new, _, _⟩
  · let failed : Kernel := { k.awaitShell t old with console := console }
    let forgotten := failed.modifyPcb old fun pcb => { pcb with saved := none }
    refine ⟨{ forgotten with cpu := { forgotten.cpu with activity := k.cpu.activity } }, ?_, ?_⟩
    · simp only [switchTerminalCall, switches, Option.bind_eq_bind, Option.bind_some,
        if_pos needs]
      rw [show (k.awaitShell t old).cpu.activity = .launch old k.cpu.activity from rfl]
      dsimp only
      rw [executes]
      rfl
    · rw [procs_untouched.cpu, procs_setSaved]
      exact table
  · have same : k.newProcess env env.shell = some _ := new
    cases same.symm.trans fails

theorem shellStarts_of_switchesWhole {env : Env} {k : Kernel} {parsed : Command.Parsed}
    (named : k.procs.Named) (started : k.procs.Started)
    (parses : env.shell.parse = some parsed) {termNum : Nat}
    (whole : k.SwitchesWhole env termNum) : k.ShellStarts env termNum := by
  rintro ⟨t, rfl, differs, inactive⟩
  by_contra none
  have fails : k.newProcess env env.shell = .none := by simpa using none
  rcases switchTerminalCall_fails named started parses differs inactive fails
    with ⟨k', called, table⟩
  have shown : k'.curTerm = t := congrArg ProcTable.shown table
  rcases whole k' called with ⟨_, active, _⟩ | same
  · have actives : k'.procs.active = (k.procs.act (.displayIdle t)).active :=
      congrArg ProcTable.active table
    rw [shown] at active
    have idle := (congrFun actives t).symm.trans active
    cases inactive.symm.trans idle
  · exact differs (shown.symm.trans same.curTerm)

/-- In every run from the first shell whose halts are made while the scheduled terminal is
active, a terminal switch is all or nothing if and only if the shell that it needs can be
started, and the displayed terminal names a process if and only if one was started on it. -/
theorem switch_all_or_nothing_iff {env : Env} {k start final : Kernel} {events : List Event}
    (booted : boot env k = some start)
    (halts : EachStep (Kernel.step env) HaltsOnActive start events)
    (reached : run (Kernel.step env) start events = some final) :
    (∀ termNum, final.SwitchesWhole env termNum ↔ final.ShellStarts env termNum) ∧
      ((final.terminal final.curTerm).apn.isSome = true ↔
        ∃ p, .started final.curTerm p ∈ final.procLog) := by
  rcases owns_of_run booted halts reached with ⟨owned, forest, _⟩
  rcases shell_parses booted with ⟨parsed, parses⟩
  have named := named_of_run booted reached
  have started := started_of_run booted reached
  constructor
  · intro termNum
    constructor
    · exact shellStarts_of_switchesWhole named started parses
    · exact switchesWhole_of_shellStarts forest
  · exact started.named final.curTerm

/-- The second terminal is displayed, with a shell. -/
def secondShellRun : BootRun Env.sample [.keyboard 0x38, .keyboard 0x3C, .wait]
    (fun k => (k.curTerm, k.newProcess Env.sample Env.sample.shell)) (1, some 2) :=
  .of (by decide +kernel)

theorem switch_all_or_nothing_sample :
    secondShellRun.final.curTerm = 1 ∧
      ∀ termNum, secondShellRun.final.SwitchesWhole Env.sample termNum := by
  rcases secondShellRun with ⟨start, final, booted, reached, saw⟩
  simp only [Prod.mk.injEq] at saw
  rcases saw with ⟨shown, new⟩
  have halts : EachStep (Kernel.step Env.sample) HaltsOnActive start
      [.keyboard 0x38, .keyboard 0x3C, .wait] :=
    ⟨False.elim, fun _ _ => ⟨False.elim, fun _ _ => ⟨False.elim, fun _ _ => trivial⟩⟩⟩
  refine ⟨shown, fun termNum => ?_⟩
  apply ((switch_all_or_nothing_iff booted halts reached).1 termNum).mpr
  intro _
  rw [new]
  rfl

/-- The first shell and its descendants take all process numbers. -/
def sixShells : List Event :=
  List.replicate 5 (.execute Env.sample.shell)

def sixShellsRun : BootRun Env.sample sixShells
    (fun k => (k.newProcess Env.sample Env.sample.shell, decide (k.NeedsShell 1))) (none, true) :=
  .of (by decide +kernel)

/-- The seventh shell cannot be started, and the second terminal stays displayed. -/
theorem switch_displays_unstarted :
    ∃ start final, boot Env.sample default = some start ∧
      run (Kernel.step Env.sample) start sixShells = some final ∧
      ¬ final.SwitchesWhole Env.sample 1 := by
  rcases sixShellsRun with ⟨start, final, booted, reached, saw⟩
  simp only [Prod.mk.injEq, decide_eq_true_eq] at saw
  rcases saw with ⟨none, needs⟩
  refine ⟨start, final, booted, reached, fun whole => ?_⟩
  rcases shell_parses booted with ⟨parsed, parses⟩
  have starts := shellStarts_of_switchesWhole (named_of_run booted reached)
    (started_of_run booted reached) parses whole needs
  rw [none] at starts
  cases starts

end Kernel

end Ece391Os
