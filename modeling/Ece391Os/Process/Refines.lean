import Ece391Os.Process.Outcomes
import Ece391Os.Process.View

/-!
# Every kernel event is an action on the process table

Each operation of the kernel, and from them each step of the machine, changes the
process table by one action, whose preconditions the kernel has checked.
-/

namespace Ece391Os

/-- The table before the first shell. -/
def ProcTable.beforeBoot (v : ProcTable) : ProcTable :=
  { v with
    shown := 0
    scheduled := 0
    active := fun _ => false
    apn := fun _ => none
    live := fun _ => false
    mapped := none
    video := none
    esp0 := 0x800000
    log := [] }

namespace Kernel

/-! ## `execute` -/

theorem procs_enterProcess (env : Env) (caller : ExecCaller) (k : Kernel) (p : ProcId)
    (inode : Nat) :
    (k.enterProcess env caller p inode).procs =
      { k.procs with number := Function.update k.procs.number p p, mapped := some p } := by
  have mapped : (k.enterProcess env caller p inode).mappedProcess = some p :=
    mappedProcess_mapProgram (k.modifyPcb p _) p
  have video : (k.enterProcess env caller p inode).userVideoPage = k.userVideoPage :=
    userVideoPage_mapProgram (k.modifyPcb p _) p
  have fields : ∀ q, ((k.enterProcess env caller p inode).pcb q).processNumber =
      Function.update k.procs.number p p q ∧
      ((k.enterProcess env caller p inode).pcb q).parentProcessNumber =
        (k.pcb q).parentProcessNumber ∧
      ((k.enterProcess env caller p inode).pcb q).term = (k.pcb q).term := by
    intro q
    by_cases same : q = p
    · subst q
      simp [enterProcess, loadProgram, mapProgram, modifyPcb]
    · simp [enterProcess, loadProgram, mapProgram, modifyPcb, same, procs]
  ext1
  case number => exact funext fun q => (fields q).1
  case parent => exact funext fun q => (fields q).2.1
  case term => exact funext fun q => (fields q).2.2
  case mapped => exact mapped
  case video => exact video
  all_goals rfl

theorem procs_attachProcess (k : Kernel) (p parent : ProcId) (arg : List UInt8) :
    (k.attachProcess p parent arg).procs =
      { k.procs with
        scheduled :=
          if k.procs.active k.procs.shown then k.procs.scheduled else k.procs.shown
        active := Function.update k.procs.active k.procs.shown true
        apn := Function.update k.procs.apn k.procs.shown (some p)
        parent := Function.update k.procs.parent p parent
        term := Function.update k.procs.term p k.procs.shown
        esp0 := kernelStackTop p
        log := .started k.procs.shown p :: k.procs.log } := by
  have terminals : ∀ t, ((k.attachProcess p parent arg).terminal t).active =
      Function.update k.procs.active k.procs.shown true t ∧
      ((k.attachProcess p parent arg).terminal t).apn =
        Function.update k.procs.apn k.procs.shown (some p) t := by
    intro t
    by_cases same : t = k.curTerm
    · subst t
      simp [attachProcess, procs]
    · simp [attachProcess, procs, same]
  have fields : ∀ q, ((k.attachProcess p parent arg).pcb q).processNumber =
      (k.pcb q).processNumber ∧
      ((k.attachProcess p parent arg).pcb q).parentProcessNumber =
        Function.update k.procs.parent p parent q ∧
      ((k.attachProcess p parent arg).pcb q).term =
        Function.update k.procs.term p k.procs.shown q := by
    intro q
    by_cases same : q = p
    · subst q
      simp [attachProcess, procs]
    · simp [attachProcess, procs, same]
  ext1
  case active => exact funext fun t => (terminals t).1
  case apn => exact funext fun t => (terminals t).2
  case number => exact funext fun q => (fields q).1
  case parent => exact funext fun q => (fields q).2.1
  case term => exact funext fun q => (fields q).2.2
  all_goals rfl

/-- Starting a process on the number that `get_proc_num` returned. -/
theorem procs_startProcess {env : Env} {caller : ExecCaller} {k k' : Kernel} {console : Console}
    {p : ProcId} {program : Command.Program}
    (starts : (k.claimed console p).startProcess env caller p program = some k') :
    k'.procs = k.procs.start p := by
  obtain ⟨parent, parentEq, rfl⟩ := Option.map_eq_some_iff.mp starts
  have entered := procs_enterProcess env caller (k.claimed console p) p program.inode
  generalize (k.claimed console p).enterProcess env caller p program.inode = e at entered parentEq
  have before : (k.claimed console p).procs =
      { k.procs with live := Function.update k.procs.live p true } := rfl
  have chosen : (if e.procs.active e.procs.shown then
      (e.procs.apn e.procs.shown).map e.procs.number else some p) = some parent := parentEq
  rw [procs_attachProcess]
  rw [before] at entered
  rw [entered] at chosen ⊢
  dsimp only at chosen
  have parentIs : (if k.procs.active k.procs.shown then
      ((k.procs.apn k.procs.shown).map (Function.update k.procs.number p p)).getD p else p) =
      parent := by
    cases busy : k.procs.active k.procs.shown with
    | true =>
        rw [busy, if_pos rfl] at chosen
        simp [chosen]
    | false =>
        rw [busy, if_neg (by decide)] at chosen
        simpa using chosen
  rw [ProcTable.start, parentIs]

/-! ## The first shell -/

theorem procs_initTerminals (k : Kernel) :
    k.startup.initTerminals.procs = k.procs.beforeBoot := by
  have terminals : ∀ t, (k.startup.initTerminals.terminal t).active = false ∧
      (k.startup.initTerminals.terminal t).apn = none := by
    intro t
    match t with
    | 0 => exact ⟨rfl, rfl⟩
    | 1 => exact ⟨rfl, rfl⟩
    | 2 => exact ⟨rfl, rfl⟩
  ext1
  case active => exact funext fun t => (terminals t).1
  case apn => exact funext fun t => (terminals t).2
  all_goals rfl

/-- The first shell is started by `execute` on the table before it. -/
theorem boot_procs {env : Env} {k start : Kernel} (booted : boot env k = some start) :
    ∃ p, start.procs = k.procs.beforeBoot.start p := by
  rcases boot_cases booted with ⟨program, p, console, _, starts⟩
  refine ⟨p, (procs_startProcess starts).trans ?_⟩
  rw [procs_initTerminals]

/-! ## `halt` -/

@[simp]
theorem procs_setApn (k : Kernel) (t : TermId) (p : ProcId) :
    (k.setApn t p).procs = { k.procs with apn := Function.update k.procs.apn t (some p) } := by
  ext1
  case active => exact field_modifyTerm_of_eq Term.active k t fun _ => rfl
  case apn => exact field_modifyTerm Term.apn k t _
  all_goals rfl

@[simp]
theorem procs_setActive (k : Kernel) (t : TermId) (active : Bool) :
    (k.setActive t active).procs =
      { k.procs with active := Function.update k.procs.active t active } := by
  ext1
  case active => exact field_modifyTerm Term.active k t _
  case apn => exact field_modifyTerm_of_eq Term.apn k t fun _ => rfl
  all_goals rfl

theorem procs_releaseProcess {current : ProcId} {k k' : Kernel}
    (released : k.releaseProcess current = some k') : k'.procs = k.procs.release current := by
  obtain ⟨closed, close, rfl⟩ := Option.map_eq_some_iff.mp released
  have kept : closed.procs =
      { k.procs with live := Function.update k.procs.live (k.procs.number current) false } :=
    procs_untouched.releaseFds close
  have finished : ∀ k : Kernel, ∀ log, Kernel.procs { k with procLog := log } =
      { k.procs with log := log } := fun _ _ => rfl
  have number : (closed.pcb (k.pcb current).parentProcessNumber).processNumber =
      closed.procs.number (k.procs.parent current) := rfl
  have scheduled : closed.curActiveTerminal = closed.procs.scheduled := rfl
  have log : ∀ t p, (closed.setApn t p).mappedProcess.toList.map ProcEvent.finished ++
      (closed.setApn t p).procLog =
      closed.procs.mapped.toList.map ProcEvent.finished ++ closed.procs.log := fun _ _ => rfl
  dsimp only
  rw [finished, log, number, scheduled, procs_setApn, kept]
  rfl

/-- A terminal whose first process is freed is left without processes. -/
theorem procs_idle {current : ProcId} {k released : Kernel}
    (release : k.releaseProcess current = some released) :
    (released.setActive released.curActiveTerminal false).procs =
      { k.procs.release current with
        active := Function.update k.procs.active k.procs.scheduled false } := by
  have scheduled : released.curActiveTerminal = released.procs.scheduled := rfl
  rw [scheduled, procs_setActive, procs_releaseProcess release]
  rfl

/-- Assign to the program page and to `tss.esp0`. -/
theorem procs_resumeParent {current : ProcId} {k k' : Kernel} {status : UInt8}
    (resumes : k.resumeParent current status = some k') :
    k'.procs =
      { k.procs with
        mapped := some (k.procs.number (k.procs.parent current))
        esp0 := (k.pcb current).parentKsp } := by
  unfold resumeParent at resumes
  dsimp only at resumes
  split at resumes
  · cases resumes
    have mapped := k.procs_mapProgram (k.procs.number (k.procs.parent current))
    exact congrArg (fun v : ProcTable => { v with esp0 := (k.pcb current).parentKsp }) mapped
  · cases resumes

/-- What a completed `halt` does to the process table. -/
inductive Halted (k : Kernel) : ProcAction → Prop where
  | finish (esp0 : Nat) (enabled : k.procs.Enabled (.finish esp0)) : Halted k (.finish esp0)
  | restart (p : ProcId) (enabled : k.procs.Enabled (.restart p)) : Halted k (.restart p)

theorem halt_act {env : Env} {k k' : Kernel} {status : UInt8}
    (halts : k.halt env status = some k') :
    ∃ action, Halted k action ∧ k'.procs = k.procs.act action := by
  cases halt_cases halts with
  | relaunched current released program p console _ apn root release new starts =>
      have running : k.procs.apn k.procs.scheduled = some current := apn
      have isRoot : k.procs.number current = k.procs.parent current := of_decide_eq_true root
      have idle := procs_idle release
      have free : Function.update k.procs.live (k.procs.number current) false p = false := by
        have live := newProcess_free new
        exact (congrFun (congrArg ProcTable.live idle) p).symm.trans live
      refine ⟨.restart p, .restart p ⟨current, running, isRoot, free⟩, ?_⟩
      rw [procs_startProcess starts, idle]
      simp [ProcTable.act, running, ProcTable.release]
  | resumed current released _ apn root release resumes =>
      have running : k.procs.apn k.procs.scheduled = some current := apn
      have child : k.procs.number current ≠ k.procs.parent current := of_decide_eq_false root
      refine ⟨.finish (released.pcb current).parentKsp, .finish _ ⟨current, running, child⟩, ?_⟩
      rw [procs_resumeParent resumes, procs_releaseProcess release]
      simp [ProcTable.act, running, ProcTable.release]

/-! ## The scheduler -/

theorem getNextScheduled_eq (k : Kernel) :
    k.getNextScheduled =
      if k.procs.active (k.procs.scheduled + 1) then k.procs.scheduled + 1
      else k.procs.scheduled + 1 + 1 := by
  simp only [getNextScheduled, nextScheduledFrom, ite_self]
  rfl

theorem procs_setSaved (k : Kernel) (p : ProcId) (saved : Option Context) :
    (k.modifyPcb p fun pcb => { pcb with saved := saved }).procs = k.procs :=
  k.procs_modifyPcb p (fun _ => rfl) (fun _ => rfl) fun _ => rfl

theorem processContextswitch_act {k k' : Kernel} {nextProcess : ProcId}
    (apn : (k.terminal k.nextSchedTerminal).apn = some nextProcess)
    (switches : k.processContextswitch nextProcess = some k') :
    k'.procs = k.procs.act (.select k.nextSchedTerminal) := by
  obtain ⟨old, _, rest⟩ := Option.bind_eq_some_iff.mp switches
  dsimp only at rest
  obtain ⟨loaded, _, done⟩ := Option.bind_eq_some_iff.mp rest
  cases done
  have apn' : k.procs.apn k.nextSchedTerminal = some nextProcess := apn
  have sets : ∀ (k : Kernel) (esp0 : Nat), Kernel.procs { k with tssEsp0 := esp0 } =
      { k.procs with esp0 := esp0 } := fun _ _ => rfl
  have schedules : ∀ (k : Kernel) (t : TermId), Kernel.procs { k with curActiveTerminal := t } =
      { k.procs with scheduled := t } := fun _ _ => rfl
  rw [procs_untouched.cpu, procs_setSaved, procs_setSaved, sets, ProcTable.act, apn']
  dsimp only
  have shownTerm : k.procs.screenOf (k.procs.term nextProcess) =
      if (k.pcb nextProcess).term = k.curTerm then videoAddr
      else savedVideoAddr (k.pcb nextProcess).term := rfl
  rw [shownTerm]
  by_cases shown : (k.pcb nextProcess).term = k.curTerm
  · rw [if_pos shown]
    split
    · rw [schedules, procs_mapUserVideo, procs_mapProgram]
      rfl
    · rename_i hidden
      exact absurd shown hidden
  · rw [if_neg shown]
    split
    · rename_i displayed
      exact absurd displayed shown
    · rw [procs_mapSavedVideo, schedules, procs_mapUserVideo, procs_mapProgram]
      rfl

/-- The process that is resumed is the one that runs. -/
theorem mapped_processContextswitch {k k' : Kernel} {next : ProcId}
    (newest : (k.terminal k.nextSchedTerminal).apn = some next)
    (switches : k.processContextswitch next = some k') : k'.mappedProcess = some next := by
  have table := congrArg ProcTable.mapped (processContextswitch_act newest switches)
  have named : k.procs.apn k.nextSchedTerminal = some next := newest
  rw [ProcTable.act_select named] at table
  exact table

/-- What a timer interrupt does to the process table. -/
theorem pitScheduling_act {k k' : Kernel} (scheduled : k.pitScheduling = some k') :
    k' = k ∨
      ∃ t, k.procs.Enabled (.select t) ∧ k'.procs = k.procs.act (.select t) := by
  unfold pitScheduling at scheduled
  split at scheduled
  · rename_i busy
    obtain ⟨nextProcess, apn, switches⟩ := Option.bind_eq_some_iff.mp scheduled
    refine .inr ⟨k.getNextScheduled, ⟨busy, ?_, k.getNextScheduled_eq⟩, ?_⟩
    · exact Option.isSome_iff_exists.mpr ⟨nextProcess, apn⟩
    · exact processContextswitch_act apn switches
  · cases scheduled
    exact .inl rfl

/-! ## Switching terminals -/

/-- What a switch to a terminal does to the process table. -/
inductive Switched (k : Kernel) (termNum : Nat) : ProcAction → Prop where
  | stay : Switched k termNum .stay
  | display (t : TermId) (target : termNum = t.val) (enabled : k.procs.Enabled (.display t)) :
      Switched k termNum (.display t)
  | displayIdle (t : TermId) (target : termNum = t.val)
      (enabled : k.procs.Enabled (.displayIdle t)) : Switched k termNum (.displayIdle t)

theorem procs_awaitShell (k : Kernel) (t : TermId) (old : ProcId) :
    (k.awaitShell t old).procs = k.procs.act (.displayIdle t) := by
  unfold awaitShell
  rw [procs_untouched.cpu, procs_setSaved, procs_showTerminal]
  rfl

theorem procs_displayed (k : Kernel) (t : TermId) :
    (if k.curActiveTerminal = t then (k.showTerminal t).mapUserVideo
      else (k.showTerminal t).mapUserVideo.mapSavedVideo k.curActiveTerminal).procs =
      k.procs.act (.display t) := by
  have act : k.procs.act (.display t) =
      { k.procs with
        shown := t
        video := some (if k.curActiveTerminal = t then videoAddr
          else savedVideoAddr k.curActiveTerminal) } := rfl
  rw [act]
  split
  · rw [procs_mapUserVideo, procs_showTerminal]
  · rw [procs_mapSavedVideo, procs_mapUserVideo, procs_showTerminal]

theorem switchTerminal_act {k k' : Kernel} {termNum : Nat}
    (switches : k.switchTerminal termNum = some k') :
    ∃ action, Switched k termNum action ∧ k'.procs = k.procs.act action := by
  cases switchTerminal_cases switches with
  | kept same => exact ⟨.stay, .stay, rfl⟩
  | displayed t target differs active =>
      exact ⟨.display t, .display t target ⟨differs, active⟩, k.procs_displayed t⟩
  | awaits t target differs inactive old apn =>
      exact ⟨.displayIdle t, .displayIdle t target ⟨differs, inactive⟩, k.procs_awaitShell t old⟩

/-- The shell of a terminal that has been displayed is started, or not. -/
theorem launchStep_act {env : Env} {k k' : Kernel} {old : ProcId} {interrupted : Activity}
    (launches : k.launchStep env old interrupted = some k') :
    (∃ p, k.newProcess env env.shell = some p ∧ k'.procs = k.procs.act (.start p)) ∨
      k.newProcess env env.shell = none ∧ k'.procs = k.procs ∧
        k'.cpu.activity = interrupted := by
  rcases launchStep_cases launches with ⟨program, p, console, new, starts⟩ | ⟨console, fails, rfl⟩
  · exact .inl ⟨p, new, procs_startProcess starts⟩
  · refine .inr ⟨fails, ?_, rfl⟩
    rw [procs_untouched.cpu, procs_setSaved]
    rfl

/-! ## The machine -/

/-- The kernel performs an action on an event: the program, the displayed terminal or
the scheduler asked for it, and the kernel checked its preconditions. -/
inductive Performs (env : Env) (k : Kernel) : Event → ProcAction → Prop where
  | stay (event : Event) : Performs env k event .stay
  | vidmap (screenStart : Nat) (accepted : screenStart ≠ 0 ∧ screenStart ≠ 0x400000) :
      Performs env k (.vidmap screenStart) .vidmap
  | start (command : Command) (p : ProcId) (new : k.newProcess env command = some p) :
      Performs env k (.execute command) (.start p)
  | halt (status : UInt8) (action : ProcAction) (halted : Halted k action) :
      Performs env k (.halt status) action
  | exit (command : Command) (action : ProcAction) (exits : command.Exits)
      (halted : Halted k action) : Performs env k (.execute command) action
  | select (t : TermId) (enabled : k.procs.Enabled (.select t)) :
      Performs env k .timer (.select t)
  | switch (scancode : UInt8) (termNum : Nat) (action : ProcAction)
      (decoded : (k.keyboard.decode scancode).2 = .switchTerminal termNum)
      (switched : Switched k termNum action) : Performs env k (.keyboard scancode) action
  | launch (old : ProcId) (interrupted : Activity) (p : ProcId)
      (launching : k.cpu.activity = .launch old interrupted)
      (new : k.newProcess env env.shell = some p) : Performs env k .wait (.start p)

theorem Performs.enabled {env : Env} {k : Kernel} {event : Event} {action : ProcAction}
    (performs : Performs env k event action) : k.procs.Enabled action := by
  cases performs with
  | stay => trivial
  | vidmap => trivial
  | start _ _ new => exact newProcess_free new
  | halt _ _ halted => cases halted <;> assumption
  | exit _ _ _ halted => cases halted <;> assumption
  | select _ enabled => exact enabled
  | switch _ _ _ _ switched =>
      cases switched with
      | stay => trivial
      | display _ _ enabled => exact enabled
      | displayIdle _ _ enabled => exact enabled
  | launch _ _ _ _ new => exact newProcess_free new

/-- Every step of the machine is an action on the process table. -/
theorem step_act {env : Env} {k k' : Kernel} {event : Event} (step : k.step env event = some k') :
    ∃ action, Performs env k event action ∧ k'.procs = k.procs.act action := by
  have stays : k'.procs = k.procs → ∃ action, Performs env k event action ∧
      k'.procs = k.procs.act action := fun same => ⟨.stay, .stay event, same⟩
  cases step_cases step with
  | scheduled _ schedules =>
      rcases pitScheduling_act schedules with same | ⟨t, enabled, table⟩
      · exact stays (congrArg procs same)
      · exact ⟨.select t, .select t enabled, table⟩
  | ignored => exact stays rfl
  | pressed scancode keycode _ _ handled =>
      have kept := procs_handleKeyPress handled
      exact stays kept
  | switched scancode termNum _ key switches =>
      rcases switchTerminal_act switches with ⟨action, switched, table⟩
      have here : Switched k termNum action := by
        cases switched with
        | stay => exact .stay
        | display t target enabled => exact .display t target enabled
        | displayIdle t target enabled => exact .displayIdle t target enabled
      exact ⟨action, .switch scancode termNum action key here, table⟩
  | ticked => exact stays rfl
  | halted status _ _ halts =>
      rcases halt_act halts with ⟨action, halted, table⟩
      exact ⟨action, .halt status action halted, table⟩
  | executed command _ _ executes =>
      cases executeCall_cases executes with
      | exited _ exits halts =>
          rcases halt_act halts with ⟨action, halted, table⟩
          exact ⟨action, .exit command action exits halted, table⟩
      | failed => exact stays rfl
      | started program p console _ new starts =>
          exact ⟨.start p, .start command p new, procs_startProcess starts⟩
  | begun fd buf nbytes _ _ begins => exact stays (procs_untouched.beginRead begins)
  | returned _ n _ _ returns => exact stays (procs_untouched.returns returns)
  | mapped screenStart =>
      unfold Kernel.vidmap
      split
      · exact ⟨.stay, .stay _, rfl⟩
      · rename_i accepted
        refine ⟨.vidmap, .vidmap screenStart (by simpa using accepted), ?_⟩
        dsimp only
        rw [procs_untouched.returnToUser, procs_untouched.storeUser, procs_mapUserVideo]
        rfl
  | readOn buf nbytes point _ _ stepped => exact stays (procs_terminalReadStep stepped)
  | rtcReadOn seen => exact stays (procs_untouched.rtcReadStep seen)
  | launched old interrupted _ activity launches =>
      rcases launchStep_act launches with ⟨p, new, table⟩ | ⟨_, same, _⟩
      · exact ⟨.start p, .launch old interrupted p activity new, table⟩
      · exact stays same

end Kernel

end Ece391Os
