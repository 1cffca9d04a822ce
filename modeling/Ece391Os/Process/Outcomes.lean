import Ece391Os.Machine.Frames

/-!
# Everything that the process calls do

`execute` starts a process, fails, or runs `halt` for the command `exit`.  `halt` returns to
the parent, or starts a new shell for the first process of a terminal.
-/

namespace Ece391Os.Kernel

/-! ## `execute` -/

theorem freeProcess_eq_some {k : Kernel} {p : ProcId} (found : k.freeProcess = some p) :
    k.pidArray p = false := by
  simpa using List.find?_some found

/-- The process that `execute` would start. -/
def newProcess (env : Env) (k : Kernel) (command : Command) : Option ProcId := do
  let parsed ← command.parse
  if parsed.isExit then
    none
  else
    let _ ← command.resolve env.image parsed
    k.freeProcess

theorem newProcess_free {env : Env} {k : Kernel} {command : Command} {p : ProcId}
    (starts : k.newProcess env command = some p) : k.pidArray p = false := by
  obtain ⟨parsed, _, rest⟩ := Option.bind_eq_some_iff.mp starts
  split at rest
  · cases rest
  · obtain ⟨program, _, free⟩ := Option.bind_eq_some_iff.mp rest
    exact freeProcess_eq_some free

/-- The kernel that `get_proc_num` leaves when it returns `p`, after `execute` may
have printed. -/
def claimed (k : Kernel) (console : Console) (p : ProcId) : Kernel :=
  { k with console := console, pidArray := Function.update k.pidArray p true }

/-- Everything that `execute` can do. -/
inductive Executed (onExit : Kernel → Option Kernel) (env : Env) (caller : ExecCaller)
    (k : Kernel) (command : Command) : ExecOutcome → Prop where
  /-- The command `exit`. -/
  | exited (k' : Kernel) (exits : command.Exits) (halts : onExit k = some k') :
      Executed onExit env caller k command (.running k')
  /-- The return value -1. -/
  | failed (console : Console) (fails : k.newProcess env command = none) :
      Executed onExit env caller k command (.failed { k with console := console })
  /-- A new process. -/
  | started (program : Command.Program) (p : ProcId) (console : Console) (k' : Kernel)
      (new : k.newProcess env command = some p)
      (starts : (k.claimed console p).startProcess env caller p program = some k') :
      Executed onExit env caller k command (.running k')

/-- `execute` behind its built-in commands: look the program up and start it. -/
def executeNamed (env : Env) (caller : ExecCaller) (command : Command) (parsed : Command.Parsed)
    (k : Kernel) : Option ExecOutcome :=
  match command.resolve env.image parsed with
  | none => some (.failed k)
  | some program =>
      match k.getProcNum with
      | (none, k) => some (.failed k)
      | (some p, k) => (k.startProcess env caller p program).map .running

/-- `execute` of a command other than `exit` looks it up, on a kernel that may have printed. -/
theorem executeWith_eq_named (onExit : Kernel → Option Kernel) (env : Env) (caller : ExecCaller)
    (k : Kernel) {command : Command} {parsed : Command.Parsed}
    (parses : command.parse = some parsed) (notExit : parsed.isExit = false) :
    ∃ console, k.executeWith onExit env caller command =
      Kernel.executeNamed env caller command parsed { k with console := console } := by
  have printed : ∃ console, (if parsed.isTermNum then
      k.printLiteral ⟨fun _ => UInt32.ofNat k.curTerm, fun _ => []⟩ termFormat else k) =
      { k with console := console } := by
    split
    · exact printLiteral_eq _ _ _
    · exact ⟨k.console, rfl⟩
  rcases printed with ⟨console, printed⟩
  refine ⟨console, ?_⟩
  simp only [executeWith, parses, Option.bind_eq_bind, Option.bind_some, notExit,
    Bool.false_eq_true, if_false, printed]
  rfl

/-- The process that a command other than `exit` starts. -/
theorem newProcess_of_parse {env : Env} {k : Kernel} {c : Command} {parsed : Command.Parsed}
    (parses : c.parse = some parsed) (notExit : parsed.isExit = false) :
    k.newProcess env c = (c.resolve env.image parsed).bind fun _ => k.freeProcess := by
  simp only [newProcess, parses, Option.bind_eq_bind, Option.bind_some, notExit]
  rfl

theorem executeWith_cases {onExit : Kernel → Option Kernel} {env : Env} {caller : ExecCaller}
    {k : Kernel} {command : Command} {outcome : ExecOutcome}
    (executes : k.executeWith onExit env caller command = some outcome) :
    Executed onExit env caller k command outcome := by
  obtain ⟨parsed, parses, rest⟩ := Option.bind_eq_some_iff.mp executes
  cases isExit : parsed.isExit with
  | true =>
      rw [if_pos isExit] at rest
      obtain ⟨k', halts, rfl⟩ := Option.map_eq_some_iff.mp rest
      exact .exited k' ⟨parsed, parses, isExit⟩ halts
  | false =>
      have new : k.newProcess env command = _ := newProcess_of_parse parses isExit
      obtain ⟨console, named⟩ := executeWith_eq_named onExit env caller k parses isExit
      rw [named] at executes
      unfold executeNamed at executes
      split at executes
      · rename_i fails
        cases executes
        exact .failed console (by rw [new, fails]; rfl)
      · rename_i program resolves
        rw [resolves, Option.bind_some] at new
        unfold getProcNum at executes
        cases free : k.freeProcess with
        | none =>
            simp only [show Kernel.freeProcess { k with console := console } = none from free]
              at executes
            obtain ⟨console', tooMany⟩ := printLiteral_eq { k with console := console }
              ⟨fun _ => 0, fun _ => []⟩ tooManyLiteral
            rw [tooMany] at executes
            cases executes
            exact .failed console' (new.trans free)
        | some p =>
            simp only [show Kernel.freeProcess { k with console := console } = some p from free]
              at executes
            obtain ⟨k', starts, rfl⟩ := Option.map_eq_some_iff.mp executes
            exact .started program p console k' (new.trans free) starts

section Calls

variable {env : Env} {k k' : Kernel}

/-- The PCBs once a process is started. -/
theorem pcb_startProcess {caller : ExecCaller} {console : Console} {p : ProcId}
    {program : Command.Program}
    (starts : (k.claimed console p).startProcess env caller p program = some k') :
    ∃ parent, k'.pcb = Function.update k.pcb p
      { k.pcb p with
        parentKsp := k.kernelEsp - env.executeDepth caller
        parentCaller := caller
        processNumber := p
        parentProcessNumber := parent
        argbuf := program.arg
        fds := FileTable.initial
        term := k.curTerm
        saved := none } := by
  rcases Option.map_eq_some_iff.mp starts with ⟨parent, _, rfl⟩
  refine ⟨parent, ?_⟩
  simp only [attachProcess, enterProcess, loadProgram, mapProgram, modifyPcb,
    Function.update_idem, Function.update_self]
  rfl

/-- Everything that a call of `execute` by a program can do. -/
inductive ExecutedCall (env : Env) (k : Kernel) (command : Command) : Kernel → Prop where
  | exited (k' : Kernel) (exits : command.Exits) (halts : k.halt env 0 = some k') :
      ExecutedCall env k command k'
  | failed (console : Console) (fails : k.newProcess env command = none) :
      ExecutedCall env k command ({ k with console := console }.returnToUser (-1))
  | started (program : Command.Program) (p : ProcId) (console : Console) (k' : Kernel)
      (new : k.newProcess env command = some p)
      (starts : (k.claimed console p).startProcess env .systemCall p program = some k') :
      ExecutedCall env k command k'

theorem executeCall_cases {command : Command} (called : k.executeCall env command = some k') :
    ExecutedCall env k command k' := by
  rcases Option.bind_eq_some_iff.mp called with ⟨outcome, executes, ends⟩
  cases executeWith_cases executes with
  | exited k' exits halts =>
      cases ends
      exact .exited _ exits halts
  | failed console fails =>
      cases ends
      exact .failed console fails
  | started program p console k' new starts =>
      cases ends
      exact .started program p console _ new starts

/-! ## The shell -/

/-- `execute` of the shell starts a process or fails: the name of its command is not
`exit`. -/
theorem executeShell_cases {onExit : Kernel → Option Kernel} {caller : ExecCaller}
    {outcome : ExecOutcome} (executes : k.executeWith onExit env caller env.shell = some outcome) :
    (∃ console, k.newProcess env env.shell = none ∧
        outcome = .failed { k with console := console }) ∨
      ∃ program p console k', k.newProcess env env.shell = some p ∧
        (k.claimed console p).startProcess env caller p program = some k' ∧
        outcome = .running k' := by
  cases executeWith_cases executes with
  | exited _ exits _ => exact absurd exits env.not_exits_shell
  | failed console fails => exact .inl ⟨console, fails, rfl⟩
  | started program p console k' new starts =>
      exact .inr ⟨program, p, console, k', new, starts, rfl⟩

theorem boot_cases {start : Kernel} (booted : boot env k = some start) :
    ∃ program p console, k.startup.initTerminals.newProcess env env.shell = some p ∧
      (k.startup.initTerminals.claimed console p).startProcess env .initTerminal p program =
        some start := by
  rcases Option.bind_eq_some_iff.mp booted with ⟨outcome, executes, running⟩
  rcases executeShell_cases executes with ⟨_, _, rfl⟩ | ⟨program, p, console, _, new, starts, rfl⟩
  · cases running
  · cases running
    exact ⟨program, p, console, new, starts⟩

/-- The last step of `switch_terminal` starts a shell, or it returns to what it interrupted. -/
theorem launchStep_cases {old : ProcId} {interrupted : Activity}
    (launches : k.launchStep env old interrupted = some k') :
    (∃ program p console, k.newProcess env env.shell = some p ∧
        (k.claimed console p).startProcess env .switchTerminal p program = some k') ∨
      ∃ console, k.newProcess env env.shell = none ∧
        k' = { { k with console := console }.modifyPcb old fun pcb => { pcb with saved := none }
          with cpu := { k.cpu with activity := interrupted } } := by
  rcases Option.bind_eq_some_iff.mp launches with ⟨outcome, executes, ends⟩
  rcases executeShell_cases executes with
    ⟨console, fails, rfl⟩ | ⟨program, p, console, _, new, starts, rfl⟩
  · cases ends
    exact .inr ⟨console, fails, rfl⟩
  · cases ends
    exact .inl ⟨program, p, console, new, starts⟩

/-! ## `halt` -/

/-- Everything that `halt` can do: the first process of a terminal is replaced by a new shell,
and any other process by its parent. -/
inductive HaltEnds (env : Env) (k : Kernel) (status : UInt8) : Kernel → Prop where
  | relaunched (current : ProcId) (released : Kernel) (program : Command.Program) (p : ProcId)
      (console : Console) (k' : Kernel) (apn : (k.terminal k.curActiveTerminal).apn = some current)
      (root : k.isRoot current = true) (release : k.releaseProcess current = some released)
      (new : (released.setActive released.curActiveTerminal false).newProcess env env.shell =
        some p)
      (starts : ((released.setActive released.curActiveTerminal false).claimed console
        p).startProcess env .halt p program = some k') : HaltEnds env k status k'
  | resumed (current : ProcId) (released : Kernel) (k' : Kernel)
      (apn : (k.terminal k.curActiveTerminal).apn = some current)
      (child : k.isRoot current = false) (release : k.releaseProcess current = some released)
      (resumes : released.resumeParent current status = some k') : HaltEnds env k status k'

theorem halt_cases {status : UInt8} (halts : k.halt env status = some k') :
    HaltEnds env k status k' := by
  rcases Option.bind_eq_some_iff.mp halts with ⟨current, apn, rest⟩
  rcases Option.bind_eq_some_iff.mp rest with ⟨released, release, ends⟩
  cases root : k.isRoot current with
  | true =>
      rw [root, if_pos rfl] at ends
      unfold relaunch at ends
      split at ends
      · rename_i executes
        cases ends
        rcases executeShell_cases executes with
          ⟨_, _, ends⟩ | ⟨program, p, console, _, new, starts, ends⟩
        · cases ends
        · cases ends
          exact .relaunched current released program p console _ apn root release new starts
      · cases ends
  | false =>
      rw [root, if_neg (by decide)] at ends
      exact .resumed current released k' apn root release ends

/-- The parent goes on in user mode. -/
theorem resumeParent_eq {current : ProcId} {status : UInt8}
    (resumes : k.resumeParent current status = some k') :
    k' = { k.mapProgram (k.pcb (k.pcb current).parentProcessNumber).processNumber with
      tssEsp0 := (k.pcb current).parentKsp }.returnToUser status.toNat := by
  unfold resumeParent at resumes
  dsimp only at resumes
  split at resumes
  · cases resumes
    rfl
  · cases resumes

/-! ## The scheduler -/

/-- The PCBs once the context of the running process is saved. -/
def savedPcbs (k : Kernel) (old : ProcId) : ProcId → Pcb :=
  Function.update k.pcb old
    { k.pcb old with saved := some { activity := k.cpu.activity, esp := k.kernelEsp } }

/-- `process_contextswitch` saves one context and loads another. -/
theorem processContextswitch_eq {next : ProcId}
    (switches : k.processContextswitch next = some k') :
    ∃ (old : ProcId) (loaded : Context), (k.terminal k.curActiveTerminal).apn = some old ∧
      (k.savedPcbs old next).saved = some loaded ∧
      k'.pcb = Function.update (k.savedPcbs old) next
        { k.savedPcbs old next with saved := none } ∧
      k'.cpu = { activity := loaded.activity, esp := loaded.esp } ∧
      k'.memory = k.memory ∧ k'.pidArray = k.pidArray ∧
      k'.rtcInterruptOccurred = k.rtcInterruptOccurred := by
  rcases Option.bind_eq_some_iff.mp switches with ⟨old, apn, rest⟩
  extract_lets scheduled t mapped context entered saved at rest
  -- the mapping routines assign to the page tables only
  have paged : ∃ paging, mapped = { scheduled with paging := paging } := by
    by_cases shown : t = scheduled.curTerm
    · exact ⟨scheduled.paging, if_pos shown⟩
    · exact ⟨(scheduled.mapSavedVideo t).paging, if_neg shown⟩
  rcases paged with ⟨paging, same⟩
  clear_value mapped
  subst same
  rcases Option.bind_eq_some_iff.mp rest with ⟨loaded, loads, done⟩
  cases done
  exact ⟨old, loaded, apn, loads, rfl, rfl, rfl, rfl, rfl⟩

end Calls

end Ece391Os.Kernel
