import Ece391Os.Process.Coherence

/-!
# The video page of the running process

The page at 136MB is rewritten by `vidmap`, by the scheduler and by a switch between
active terminals.  `execute` and `halt` change the running process and leave the page.
-/

namespace Ece391Os

open Transition

theorem savedVideoAddr_ne (t : TermId) : savedVideoAddr t ≠ videoAddr := by
  revert t
  decide

namespace ProcTable

/-- The page at 136MB, when present, shows the screen of the running process. -/
def OwnScreen (v : ProcTable) : Prop :=
  ∀ p a, v.mapped = some p → v.video = some a → a = v.screenOf (v.term p)

/-- The page at 136MB, when present, shows video memory. -/
def ShowsVideo (v : ProcTable) : Prop :=
  ∀ a, v.video = some a → a = videoAddr

variable {v : ProcTable}

theorem screenOf_shown (v : ProcTable) : v.screenOf v.shown = videoAddr :=
  if_pos rfl

theorem ownScreen_start (video : v.ShowsVideo) (p : ProcId) : (v.start p).OwnScreen := by
  intro q a mapped page
  obtain rfl : p = q := Option.some.inj mapped
  have term : (v.start p).term p = v.shown := by simp [ProcTable.start]
  rw [term]
  exact (video a page).trans v.screenOf_shown.symm

theorem ownScreen_vidmap (displayed : ∀ p, v.mapped = some p → v.term p = v.shown) :
    (v.act .vidmap).OwnScreen := by
  intro p a mapped page
  obtain rfl : videoAddr = a := Option.some.inj page
  have term : (v.act .vidmap).term p = v.shown := displayed p mapped
  rw [term]
  exact v.screenOf_shown.symm

/-- The end of a process gives the page to its parent, which needs it unless both
belong to one terminal. -/
theorem OwnScreen.finish (own : v.OwnScreen) {esp0 : Nat} {p : ProcId}
    (apn : v.apn v.scheduled = some p)
    (sameTerm : v.video = none ∨
      ∃ r, v.mapped = some r ∧ v.term (v.number (v.parent p)) = v.term r) :
    (v.act (.finish esp0)).OwnScreen := by
  simp only [ProcTable.act, apn]
  intro q a mapped' page
  obtain rfl : v.number (v.parent p) = q := Option.some.inj mapped'
  have before : v.video = some a := page
  rcases sameTerm with absent | ⟨r, mapped, term⟩
  · rw [absent] at before
    cases before
  · change a = v.screenOf (v.term (v.number (v.parent p)))
    rw [term]
    exact own r a mapped before

theorem ownScreen_select {t : TermId} (enabled : v.Enabled (.select t)) :
    (v.act (.select t)).OwnScreen := by
  obtain ⟨_, named, _⟩ := enabled
  obtain ⟨p, apn⟩ := Option.isSome_iff_exists.mp named
  simp only [ProcTable.act, apn]
  intro q a mapped page
  obtain rfl : p = q := Option.some.inj mapped
  exact (Option.some.inj page).symm

theorem ownScreen_display {t : TermId} (scheduled : ∀ p, v.mapped = some p →
    v.term p = v.scheduled) : (v.act (.display t)).OwnScreen := by
  intro p a mapped page
  have term : (v.act (.display t)).term p = v.scheduled := scheduled p mapped
  rw [term]
  exact (Option.some.inj page).symm

/-- A terminal that is displayed without a new mapping must not change the screen of the
running process. -/
theorem OwnScreen.displayIdle (own : v.OwnScreen) {t : TermId}
    (hidden : v.video = none ∨ ∀ p, v.mapped = some p → v.term p ≠ v.shown ∧ v.term p ≠ t) :
    (v.act (.displayIdle t)).OwnScreen := by
  intro p a mapped page
  have before : v.video = some a := page
  rcases hidden with absent | elsewhere
  · rw [absent] at before
    cases before
  · obtain ⟨notShown, notNew⟩ := elsewhere p mapped
    have saved : a = v.screenOf (v.term p) := own p a mapped before
    rw [screenOf, if_neg notShown] at saved
    rw [saved]
    exact (if_neg notNew).symm

end ProcTable

/-- Inside `switch_terminal`, about to start a shell. -/
def Activity.isLaunch : Activity → Bool
  | .launch _ _ => true
  | _ => false

namespace Kernel

/-! ## The page and the events that keep it -/

/-- The processor is inside `switch_terminal`, about to start a shell. -/
def launching (k : Kernel) : Bool :=
  k.cpu.activity.isLaunch

/-- The page at 136MB of a running process is absent, or maps to video memory when its
terminal is displayed and to its saved screen when not. -/
def PageFollows (k : Kernel) : Prop :=
  ∀ p a, k.mappedProcess = some p → k.userVideoPage = some a →
    a = if (k.pcb p).term = k.curTerm then videoAddr else savedVideoAddr (k.pcb p).term

/-- The page follows the terminal outside `switch_terminal`. -/
def VideoFollows (k : Kernel) : Prop :=
  k.launching = false → k.PageFollows

theorem pageFollows_iff (k : Kernel) : k.PageFollows ↔ k.procs.OwnScreen :=
  Iff.rfl

/-- A halt of a first process finds the page at video memory, any other halt returns to
a process of the same terminal; or the page is absent. -/
def HaltKeepsPage (k : Kernel) : Prop :=
  ∀ p, (k.terminal k.curActiveTerminal).apn = some p →
    if k.isRoot p then k.procs.ShowsVideo
    else k.userVideoPage = none ∨ ∃ r, k.mappedProcess = some r ∧
      (k.pcb (k.pcb (k.pcb p).parentProcessNumber).processNumber).term = (k.pcb r).term

/-- The events after which the page at 136MB shows the right screen. -/
def KeepsPage (env : Env) (k : Kernel) : Event → Prop
  | .vidmap screenStart => screenStart ≠ 0 ∧ screenStart ≠ 0x400000 →
      ∀ p, k.mappedProcess = some p → (k.pcb p).term = k.curTerm
  | .execute command =>
      (∀ p, k.newProcess env command = some p → k.procs.ShowsVideo) ∧
        (command.Exits → k.HaltKeepsPage)
  | .halt _ => k.HaltKeepsPage
  | .keyboard scancode => ∀ t : TermId,
      (k.keyboard.decode scancode).2 = .switchTerminal t → t ≠ k.curTerm →
      (k.terminal t).active = true → k.launching = false →
      ∀ p, k.mappedProcess = some p → (k.pcb p).term = k.curActiveTerminal
  | .wait => ∀ old interrupted, k.cpu.activity = .launch old interrupted →
      if (k.newProcess env env.shell).isSome then k.procs.ShowsVideo
      else interrupted.isLaunch = false → k.procs.OwnScreen
  | _ => True

/-- The switches of the displayed terminal after which the page shows the right screen at
once: the running process is on the scheduled terminal, or stays hidden when the new
terminal is not active. -/
def SwitchKeepsPage (k : Kernel) : Event → Prop
  | .keyboard scancode => ∀ t : TermId,
      (k.keyboard.decode scancode).2 = .switchTerminal t → t ≠ k.curTerm →
      if (k.terminal t).active then
        ∀ p, k.mappedProcess = some p → (k.pcb p).term = k.curActiveTerminal
      else
        k.userVideoPage = none ∨
          ∀ p, k.mappedProcess = some p → (k.pcb p).term ≠ k.curTerm ∧ (k.pcb p).term ≠ t
  | _ => True

/-! ## Steps -/

theorem cpu_untouchedByTyping : UntouchedByTyping cpu where
  console := fun _ _ => rfl
  keyboard := fun _ _ => rfl
  keyLog := fun _ _ => rfl
  input := fun _ _ _ _ => rfl

theorem launching_of_cpu {k k' : Kernel} (same : k'.cpu = k.cpu) :
    k'.launching = k.launching := by
  rw [launching, launching, same]

theorem launching_of_inUserMode {k : Kernel} (userMode : k.inUserMode = true) :
    k.launching = false := by
  cases activity : k.cpu.activity with
  | user eax =>
      rw [launching, activity]
      rfl
  | _ =>
      rw [inUserMode, activity] at userMode
      cases userMode

theorem switchTerminal_launching {k k' : Kernel} {termNum : Nat}
    (switches : k.switchTerminal termNum = some k') (launching : k.launching = true) :
    k'.launching = true := by
  cases switchTerminal_cases switches with
  | kept => exact launching
  | displayed => split <;> exact launching
  | awaits => rfl

/-- A switch to a terminal that is not active leaves `switch_terminal` about to start
its shell. -/
theorem launching_of_idle {k k' : Kernel} {t : TermId} (differs : t ≠ k.curTerm)
    (idle : (k.terminal t).active = false) (switches : k.switchTerminal t = some k') :
    k'.launching = true := by
  cases switchTerminal_cases switches with
  | kept same => exact absurd (same t rfl) differs
  | displayed u target _ active =>
      cases Fin.ext target
      exact absurd active (by rw [idle]; decide)
  | awaits => rfl

/-- While a shell is about to be started, only the scheduler and the start itself end
that. -/
theorem launching_step {env : Env} {k k' : Kernel} {event : Event}
    (step : k.step env event = some k') (launching : k.launching = true)
    (notTimer : event ≠ .timer) (notWait : event ≠ .wait) : k'.launching = true := by
  have notUser : ¬ k.inUserMode = true := fun userMode => by
    rw [launching_of_inUserMode userMode] at launching
    cases launching
  cases step_cases step with
  | scheduled => exact absurd rfl notTimer
  | readOn | rtcReadOn | launched => exact absurd rfl notWait
  | ignored => exact launching
  | pressed _ _ _ _ handled =>
      exact (launching_of_cpu (cpu_untouchedByTyping.handleKeyPress handled)).trans launching
  | switched _ _ _ _ switches => exact switchTerminal_launching switches launching
  | ticked => exact launching
  | halted _ _ userMode | executed _ _ userMode | begun _ _ _ _ userMode
  | returned _ _ _ userMode | mapped _ userMode => exact absurd userMode notUser

theorem HaltKeepsPage.ownScreen {k : Kernel} {action : ProcAction} (halted : Halted k action)
    (own : k.procs.OwnScreen) (keeps : k.HaltKeepsPage) : (k.procs.act action).OwnScreen := by
  cases halted with
  | finish esp0 enabled =>
      obtain ⟨p, apn, child⟩ := enabled
      have sameTerm := keeps p apn
      rw [show k.isRoot p = false from decide_eq_false child, if_neg (by decide)] at sameTerm
      exact own.finish apn sameTerm
  | restart p enabled =>
      obtain ⟨q, apn, root, _⟩ := enabled
      have video := keeps q apn
      rw [show k.isRoot q = true from decide_eq_true root, if_pos rfl] at video
      simp only [ProcTable.act, apn]
      exact ProcTable.ownScreen_start video p

/-- An action other than a switch of the displayed terminal keeps the page on the right
screen. -/
theorem Performs.ownScreen {env : Env} {k : Kernel} {event : Event} {action : ProcAction}
    (performs : Performs env k event action) (own : k.procs.OwnScreen)
    (keeps : KeepsPage env k event) (noKey : ∀ scancode, event ≠ .keyboard scancode) :
    (k.procs.act action).OwnScreen := by
  cases performs with
  | stay => exact own
  | vidmap screenStart accepted => exact ProcTable.ownScreen_vidmap (keeps accepted)
  | start command p new => exact ProcTable.ownScreen_start (keeps.1 p new) p
  | halt status _ halted => exact HaltKeepsPage.ownScreen halted own keeps
  | exit command _ exits halted => exact HaltKeepsPage.ownScreen halted own (keeps.2 exits)
  | select t enabled => exact ProcTable.ownScreen_select enabled
  | launch old interrupted p launching new =>
      have page := keeps old interrupted launching
      rw [new, if_pos (by rfl)] at page
      exact ProcTable.ownScreen_start page p
  | switch scancode => exact absurd rfl (noKey scancode)

/-- The scheduler maps the screen of the process that it resumes. -/
theorem videoFollows_timer {env : Env} {k k' : Kernel} (follows : k.VideoFollows)
    (step : k.step env .timer = some k') : k'.VideoFollows := by
  rcases pitScheduling_act step with rfl | ⟨t, enabled, table⟩
  · exact follows
  · intro _
    rw [pageFollows_iff, table]
    exact ProcTable.ownScreen_select enabled

theorem videoFollows_wait {env : Env} {k k' : Kernel} (follows : k.VideoFollows)
    (keeps : KeepsPage env k .wait) (step : k.step env .wait = some k') : k'.VideoFollows := by
  intro ended
  rw [pageFollows_iff]
  cases step_cases step with
  | returned _ _ _ _ returns => cases returns
  | readOn buf nbytes point _ activity stepped =>
      have outside : k.launching = false := by
        rw [launching, activity]
        rfl
      rw [procs_terminalReadStep stepped]
      exact follows outside
  | rtcReadOn seen activity =>
      have outside : k.launching = false := by
        rw [launching, activity]
        rfl
      rw [procs_untouched.rtcReadStep]
      exact follows outside
  | launched old interrupted _ activity launches =>
      have page := keeps old interrupted activity
      rcases launchStep_act launches with ⟨p, new, table⟩ | ⟨fails, table, returns⟩
      · rw [new, if_pos (by rfl)] at page
        rw [table]
        exact ProcTable.ownScreen_start page p
      · rw [fails, if_neg (by decide)] at page
        rw [launching, returns] at ended
        rw [table]
        exact page ended

/-- A switch to an active terminal keeps the page, one to any other terminal ends inside
`switch_terminal`. -/
theorem videoFollows_keyboard {env : Env} {k k' : Kernel} {scancode : UInt8}
    (follows : k.VideoFollows) (keeps : KeepsPage env k (.keyboard scancode))
    (step : k.step env (.keyboard scancode) = some k') : k'.VideoFollows := by
  intro ended
  have outside : k.launching = false := by
    cases launching : k.launching with
    | false => rfl
    | true =>
        rw [launching_step step launching (by nofun) (by nofun)] at ended
        cases ended
  have own := follows outside
  obtain ⟨action, performs, table⟩ := step_act step
  rw [pageFollows_iff] at own ⊢
  rw [table]
  cases performs with
  | stay => exact own
  | switch _ termNum _ decoded switched =>
      cases switched with
      | stay => exact own
      | display t target enabled =>
          subst target
          exact ProcTable.ownScreen_display (keeps t decoded enabled.1 enabled.2 outside)
      | displayIdle t target enabled =>
          subst target
          simp only [Kernel.step, keyboardInterruptHandler, decoded] at step
          have launched : k'.launching = true :=
            launching_of_idle (k := { k with keyboard := (k.keyboard.decode scancode).1 })
              enabled.1 enabled.2 step
          rw [launched] at ended
          cases ended

/-- A step that meets the condition keeps the page on the right screen. -/
theorem videoFollows_step {env : Env} {k k' : Kernel} {event : Event}
    (follows : k.VideoFollows) (keeps : KeepsPage env k event)
    (step : k.step env event = some k') : k'.VideoFollows := by
  cases event with
  | timer => exact videoFollows_timer follows step
  | wait => exact videoFollows_wait follows keeps step
  | keyboard scancode => exact videoFollows_keyboard follows keeps step
  | _ =>
      intro ended
      have outside : k.launching = false := by
        cases launching : k.launching with
        | false => rfl
        | true =>
            rw [launching_step step launching (by nofun) (by nofun)] at ended
            cases ended
      obtain ⟨action, performs, table⟩ := step_act step
      rw [pageFollows_iff, table]
      exact performs.ownScreen (follows outside) keeps (by nofun)

/-- A step that also meets the condition on switches keeps the page on the right screen
inside `switch_terminal`. -/
theorem pageFollows_step {env : Env} {k k' : Kernel} {event : Event} (follows : k.PageFollows)
    (keeps : KeepsPage env k event ∧ k.SwitchKeepsPage event)
    (step : k.step env event = some k') : k'.PageFollows := by
  obtain ⟨keeps, switches⟩ := keeps
  obtain ⟨action, performs, table⟩ := step_act step
  rw [pageFollows_iff] at follows ⊢
  rw [table]
  cases event with
  | keyboard scancode =>
      cases performs with
      | stay => exact follows
      | switch _ termNum _ decoded switched =>
          cases switched with
          | stay => exact follows
          | display t target enabled =>
              subst target
              have busy : (k.terminal t).active = true := enabled.2
              have scheduled := switches t decoded enabled.1
              rw [if_pos busy] at scheduled
              exact ProcTable.ownScreen_display scheduled
          | displayIdle t target enabled =>
              subst target
              have hidden := switches t decoded enabled.1
              have idle : ¬ (k.terminal t).active = true := by
                rw [show (k.terminal t).active = false from enabled.2]
                decide
              rw [if_neg idle] at hidden
              exact follows.displayIdle hidden
  | _ => exact performs.ownScreen follows keeps (by nofun)

/-- The page is absent at the first shell. -/
theorem pageFollows_of_boot {env : Env} {k start : Kernel} (booted : boot env k = some start) :
    start.PageFollows := by
  obtain ⟨p, table⟩ := boot_procs booted
  rw [pageFollows_iff, table]
  refine ProcTable.ownScreen_start (fun a page => ?_) p
  cases page

/-- In every run from the first shell whose events keep the page, the page at 136MB of
a running process shows the screen of its own terminal outside `switch_terminal`, and
inside it as well when the switches keep the page. -/
theorem video_follows {env : Env} {k start final : Kernel} {events : List Event}
    (ran : UserRun env k start events)
    (keeps : EachStep (Kernel.step env) (KeepsPage env) start events)
    (reached : run (Kernel.step env) start events = some final) :
    final.VideoFollows ∧
      (EachStep (Kernel.step env) SwitchKeepsPage start events → final.PageFollows) := by
  have atBoot := pageFollows_of_boot ran.booted
  constructor
  · exact run_invariant VideoFollows
      (fun _ _ _ follows keeps step => videoFollows_step follows keeps step)
      (fun _ => atBoot) keeps reached
  · intro switches
    exact run_invariant PageFollows
      (fun _ _ _ follows keeps step => pageFollows_step follows keeps step)
      atBoot (keeps.and switches) reached

/-- The first shell maps the screen. -/
def vidmapRun : BootRun Env.sample [.vidmap 0x8048000, .clock, .timer] Kernel.userVideoPage
    (some videoAddr) :=
  .of (by decide +kernel)

theorem video_follows_sample :
    vidmapRun.final.userVideoPage = some videoAddr ∧ vidmapRun.final.VideoFollows ∧
      vidmapRun.final.PageFollows := by
  obtain ⟨start, final, booted, reached, page⟩ := vidmapRun
  have switches : EachStep (Kernel.step Env.sample) SwitchKeepsPage start
      [.vidmap 0x8048000, .clock, .timer] :=
    ⟨trivial, fun _ _ => ⟨trivial, fun _ _ => ⟨trivial, fun _ _ => trivial⟩⟩⟩
  suffices keeps : EachStep (Kernel.step Env.sample) (KeepsPage Env.sample) start
      [.vidmap 0x8048000, .clock, .timer] from
    ⟨page, (video_follows ⟨booted, by decide⟩ keeps reached).imp_right
      fun inside => inside switches⟩
  refine ⟨fun _ => ?_, fun _ _ => ⟨trivial, fun _ _ => ⟨trivial, fun _ _ => trivial⟩⟩⟩
  obtain ⟨p, table⟩ := boot_procs booted
  change ∀ q, start.procs.mapped = some q → start.procs.term q = start.procs.shown
  rw [table]
  intro q mapped
  obtain rfl : p = q := Option.some.inj mapped
  simp [ProcTable.start]

/-- A process of a hidden terminal calls `vidmap`, and its page shows video memory. -/
def hiddenVidmapRun : BootRun Env.sample
    [.keyboard 0x38, .keyboard 0x3C, .wait, .timer, .vidmap 0x8048000]
    (fun k => (k.launching, k.mappedProcess, k.userVideoPage, (k.pcb 0).term, k.curTerm))
    (false, some 0, some videoAddr, 0, 1) :=
  .of (by decide +kernel)

theorem vidmap_while_hidden :
    ∃ start final, boot Env.sample default = some start ∧
      run (Kernel.step Env.sample) start
        [.keyboard 0x38, .keyboard 0x3C, .wait, .timer, .vidmap 0x8048000] = some final ∧
      ¬ final.VideoFollows := by
  obtain ⟨start, final, booted, reached, saw⟩ := hiddenVidmapRun
  refine ⟨start, final, booted, reached, fun follows => ?_⟩
  simp only [Prod.mk.injEq] at saw
  obtain ⟨outside, mapped, page, term, shown⟩ := saw
  have screen := follows outside 0 videoAddr mapped page
  rw [term, shown, if_neg (by decide)] at screen
  exact absurd screen.symm (savedVideoAddr_ne 0)

end Kernel

end Ece391Os
