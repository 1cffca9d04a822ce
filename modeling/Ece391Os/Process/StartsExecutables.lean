import Ece391Os.Process.Coherence
import Ece391Os.Process.Executable

/-!
# Which commands start a process

`execute` starts a process exactly for executables, as long as the string that it looks up
is the program name and the buffer that it tests holds bytes of the file.  Both can hold
stack contents instead.
-/

namespace Ece391Os

open Transition

namespace ProcTable

/-- An active terminal names a process, and some process is mapped. -/
structure Named (v : ProcTable) : Prop where
  apn : ∀ t, v.active t = true → (v.apn t).isSome = true
  mapped : v.mapped.isSome = true

theorem named_start (v : ProcTable) (p : ProcId)
    (apn : ∀ t, v.active t = true → (v.apn t).isSome = true) : (v.start p).Named := by
  constructor
  · intro t active
    by_cases shown : t = v.shown
    · subst shown
      simp [start]
    · simp only [start, Function.update_of_ne shown] at active ⊢
      exact apn t active
  · rfl

/-- The active process of a terminal that is given another one. -/
theorem isSome_update {v : ProcTable} (named : v.Named) (u t : TermId) (p : ProcId)
    (active : v.active t = true) :
    (Function.update v.apn u (some p) t).isSome = true := by
  by_cases same : t = u
  · subst same
    simp
  · rw [Function.update_of_ne same]
    exact named.apn t active

theorem Named.act {v : ProcTable} (named : v.Named) (action : ProcAction) :
    (v.act action).Named := by
  cases action with
  | stay => exact named
  | vidmap => exact ⟨named.apn, named.mapped⟩
  | start p => exact v.named_start p named.apn
  | finish esp0 =>
      unfold ProcTable.act
      dsimp only
      split
      · exact named
      · exact ⟨fun t active => isSome_update named _ t _ active, rfl⟩
  | restart p =>
      unfold ProcTable.act
      dsimp only
      split
      · exact named
      · apply named_start
        intro t active
        by_cases same : t = v.scheduled
        · subst same
          simp at active
        · dsimp only at active
          rw [Function.update_of_ne same] at active
          exact isSome_update named _ t _ active
  | select t =>
      unfold ProcTable.act
      dsimp only
      split
      · exact named
      · exact ⟨named.apn, rfl⟩
  | display t => exact ⟨named.apn, named.mapped⟩
  | displayIdle t => exact ⟨named.apn, named.mapped⟩

end ProcTable

namespace Kernel

theorem named_of_boot {env : Env} {k start : Kernel} (booted : boot env k = some start) :
    start.procs.Named := by
  rcases boot_procs booted with ⟨p, table⟩
  rw [table]
  apply ProcTable.named_start
  intro t active
  cases active

theorem named_step {env : Env} {k k' : Kernel} {event : Event} (named : k.procs.Named)
    (step : k.step env event = some k') : k'.procs.Named := by
  rcases step_act step with ⟨action, _, table⟩
  rw [table]
  exact named.act action

/-- In every state reached, active terminals name processes and a process is mapped. -/
theorem named_of_run {env : Env} {k start final : Kernel} {events : List Event}
    (booted : boot env k = some start)
    (reached : run (Kernel.step env) start events = some final) : final.procs.Named := by
  apply run_invariant_always (fun k => k.procs.Named) _ (named_of_boot booted) reached
  intro state event target named step
  exact named_step named step

/-! ## One call -/

/-- The lookup of `execute` finds an entry whose bytes pass the test. -/
def Accepted (img : Image) (c : Command) (name : List UInt8) : Prop :=
  ∃ d, img.readDentryByName name = some d ∧
    Command.Accepts (Command.readBuffer img c.buffer d.inodeNumber 0)

theorem isSome_resolve_iff {img : Image} {c : Command} {parsed : Command.Parsed} :
    (c.resolve img parsed).isSome = true ↔ Accepted img c parsed.name := by
  unfold Command.resolve Accepted
  cases img.readDentryByName parsed.name with
  | none => simp
  | some d =>
      dsimp only
      split
      · rename_i rejected
        simp only [Option.isSome_none, Bool.false_eq_true, Option.some.injEq, exists_eq_left',
          false_iff]
        rintro ⟨zero, one, two, three⟩
        simp [zero, one, two, three] at rejected
      · rename_i accepts
        simp only [not_or, ne_eq, not_not] at accepts
        rcases accepts with ⟨one, two, three, zero⟩
        simp only [Option.isSome_some, Option.some.injEq, exists_eq_left', true_iff]
        exact ⟨zero, one, two, three⟩

theorem not_exits_of_parse {c : Command} {parsed : Command.Parsed}
    (parses : c.parse = some parsed) (notExit : parsed.isExit = false) : ¬ c.Exits := by
  rintro ⟨other, found, isExit⟩
  cases parses.symm.trans found
  rw [notExit] at isExit
  cases isExit

/-- A new process of a terminal finds its parent. -/
theorem startProcess_isSome {env : Env} {caller : ExecCaller} {k : Kernel} {p : ProcId}
    (program : Command.Program) (named : ∀ t, k.procs.active t = true → (k.procs.apn t).isSome) :
    (k.startProcess env caller p program).isSome = true := by
  rw [startProcess, Option.isSome_map, parentOf]
  split
  · rename_i active
    rw [Option.isSome_map]
    exact named k.curTerm active
  · rfl

/-- The lookup of a name is answered. -/
theorem executeNamed_isSome (env : Env) (caller : ExecCaller) (command : Command)
    (parsed : Command.Parsed) {k : Kernel} (named : k.procs.Named) :
    (k.executeNamed env caller command parsed).isSome = true := by
  unfold executeNamed
  split
  · rfl
  · rename_i program _
    unfold getProcNum
    split
    · rfl
    · rename_i p k' claimed
      split at claimed
      · cases claimed
        rw [Option.isSome_map]
        exact startProcess_isSome program named.apn
      · cases claimed

/-- A command other than `exit` that is parsed is answered. -/
theorem execute_isSome (env : Env) (caller : ExecCaller) {k : Kernel} {c : Command}
    {parsed : Command.Parsed} (named : k.procs.Named) (parses : c.parse = some parsed)
    (notExit : parsed.isExit = false) : (k.execute env caller c).isSome = true := by
  rcases executeWith_eq_named (Kernel.halt env · 0) env caller k parses notExit with ⟨console, same⟩
  rw [execute, same]
  exact executeNamed_isSome env caller c parsed named

theorem execute_starts {env : Env} (caller : ExecCaller) {k : Kernel} {c : Command}
    {parsed : Command.Parsed} {p : ProcId} (named : k.procs.Named)
    (parses : c.parse = some parsed) (notExit : parsed.isExit = false)
    (accepted : Accepted env.image c parsed.name) (free : k.freeProcess = some p) :
    ∃ k', k.execute env caller c = some (.running k') ∧ k'.procs = k.procs.start p := by
  rcases Option.isSome_iff_exists.mp (isSome_resolve_iff.mpr accepted) with ⟨program, resolves⟩
  rcases Option.isSome_iff_exists.mp (execute_isSome env caller named parses notExit)
    with ⟨outcome, executes⟩
  have new : k.newProcess env c = some p := by
    rw [newProcess_of_parse parses notExit, resolves, Option.bind_some, free]
  cases executeWith_cases executes with
  | exited k' exits _ => exact absurd exits (not_exits_of_parse parses notExit)
  | failed console fails => cases fails.symm.trans new
  | started program' q console k' new' starts =>
      cases new'.symm.trans new
      exact ⟨k', executes, procs_startProcess starts⟩

theorem execute_fails {env : Env} (caller : ExecCaller) {k : Kernel} {c : Command}
    {parsed : Command.Parsed} (named : k.procs.Named)
    (parses : c.parse = some parsed) (notExit : parsed.isExit = false)
    (fails : ¬ Accepted env.image c parsed.name ∨ k.freeProcess = none) :
    ∃ console, k.execute env caller c = some (.failed { k with console := console }) := by
  rcases Option.isSome_iff_exists.mp (execute_isSome env caller named parses notExit)
    with ⟨outcome, executes⟩
  have none : k.newProcess env c = none := by
    rw [newProcess_of_parse parses notExit]
    rcases fails with unaccepted | full
    · cases resolves : c.resolve env.image parsed with
      | none => rfl
      | some program =>
          exact absurd (isSome_resolve_iff.mp (by rw [resolves]; rfl)) unaccepted
    · rw [full]
      cases c.resolve env.image parsed <;> rfl
  cases executeWith_cases executes with
  | exited k' exits _ => exact absurd exits (not_exits_of_parse parses notExit)
  | failed console _ => exact ⟨console, executes⟩
  | started program p console k' new _ => cases new.symm.trans none

/-- Halting logs the end of a process. -/
theorem log_halted {k : Kernel} {action : ProcAction} (named : k.procs.Named)
    (halted : Halted k action) (p : ProcId) : k.procs.act action ≠ k.procs.start p := by
  rcases Option.isSome_iff_exists.mp named.mapped with ⟨m, mapped⟩
  intro same
  have log := congrArg ProcTable.log same
  cases halted with
  | finish esp0 enabled =>
      rcases enabled with ⟨q, apn, _⟩
      simp [ProcTable.act, apn, ProcTable.release, mapped, ProcTable.start] at log
  | restart r enabled =>
      rcases enabled with ⟨q, apn, _, _⟩
      simp [ProcTable.act, apn, ProcTable.release, mapped, ProcTable.start] at log

/-- A name that makes `execute` halt its caller does not start a process. -/
theorem execute_exit {env : Env} {caller : ExecCaller} {k : Kernel} {c : Command}
    {parsed : Command.Parsed} (named : k.procs.Named) (parses : c.parse = some parsed)
    (isExit : parsed.isExit = true) {outcome : ExecOutcome}
    (executes : k.execute env caller c = some outcome) :
    ∃ k', outcome = .running k' ∧ ∀ p, k'.procs ≠ k.procs.start p := by
  simp only [execute, executeWith, parses, Option.bind_eq_bind, Option.bind_some, isExit,
    if_true] at executes
  rcases Option.map_eq_some_iff.mp executes with ⟨k', halts, rfl⟩
  rcases halt_act halts with ⟨action, halted, table⟩
  refine ⟨k', rfl, fun p => ?_⟩
  rw [table]
  exact log_halted named halted p

end Kernel

/-! ## Every command -/

/-- The bytes from the command pointer on: a text, its NUL and what follows. -/
def Command.bytesOf (text : List UInt8) (after : Nat → UInt8) (i : Nat) : UInt8 :=
  if i < text.length then text.getD i 0 else if i = text.length then 0 else after i

/-- A text with zeros behind it, and zeroed stack contents. -/
def Command.plain (text : List UInt8) : Command where
  byte := bytesOf text fun _ => 0
  parsedCmd _ := 0
  arg _ := 0
  buffer _ := 0

/-- The program name of a command: what stands behind leading spaces, up to a space or a
newline. -/
def Command.programName (text : List UInt8) : List UInt8 :=
  (text.dropWhile (· = 0x20)).takeWhile fun char => !isEnd char

namespace Image

/-- A name is that of an entry from whose inode the whole magic number is read. -/
def HasMagic (img : Image) (name : List UInt8) : Prop :=
  ∃ d, img.readDentryByName name = some d ∧ img.header d.inodeNumber = elfMagic

/-- A name is that of an entry from whose inode nothing but a part of the magic number is
read, or all of it. -/
def MayHaveMagic (img : Image) (name : List UInt8) : Prop :=
  ∃ d, img.readDentryByName name = some d ∧ img.header d.inodeNumber <+: elfMagic

end Image

namespace Kernel

/-- Whatever the stack holds, `execute` stays inside its arrays, starts a process when the
program name is that of an executable and a process is free, and otherwise returns -1
with only the screen changed. -/
def ExecutesExactly (env : Env) (caller : ExecCaller) (k : Kernel) (byte : Nat → UInt8)
    (programName : List UInt8) : Prop :=
  ∀ c : Command, c.byte = byte →
    c.InBounds ∧
      (∀ p, env.image.Executable programName → k.freeProcess = some p →
        ∃ k', k.execute env caller c = some (.running k') ∧ k'.procs = k.procs.start p) ∧
      (¬ env.image.Executable programName ∨ k.freeProcess = none →
        ∃ console, k.execute env caller c = some (.failed { k with console := console }))

/-- The parser stays inside its arrays; and no name that it can leave starts with `exit`
or, when a process is free, is that of an entry that is not tested as the program name
should be. -/
def LooksUpExactly (env : Env) (k : Kernel) (byte : Nat → UInt8) (programName : List UInt8) :
    Prop :=
  ∀ c : Command, c.byte = byte →
    c.InBounds ∧ ∀ name, c.Leaves name →
      Command.Parsed.isExit ⟨name, []⟩ = false ∧
        (k.freeProcess.isSome = true →
          (env.image.Executable programName → env.image.HasMagic name) ∧
            (¬ env.image.Executable programName → ¬ env.image.MayHaveMagic name))

theorem looksUpExactly_of_executes {env : Env} {caller : ExecCaller} {k : Kernel}
    {byte : Nat → UInt8} {programName : List UInt8} (named : k.procs.Named)
    (exactly : ExecutesExactly env caller k byte programName) :
    LooksUpExactly env k byte programName := by
  rintro c rfl
  have inBounds := (exactly c rfl).1
  refine ⟨inBounds, fun name leaves => ?_⟩
  rcases Command.parse_of_leaves inBounds leaves with ⟨parsedCmd, parse⟩
  have notExit : Command.Parsed.isExit ⟨name, []⟩ = false := by
    rcases parse c.arg c.buffer with ⟨parsed, parses, rfl⟩
    by_contra isExit
    have exits : parsed.isExit = true := (Bool.not_eq_false _).mp isExit
    rcases exactly ⟨c.byte, parsedCmd, c.arg, c.buffer⟩ rfl with ⟨_, starts, fails⟩
    by_cases startable : env.image.Executable programName ∧ ∃ p, k.freeProcess = some p
    · rcases startable with ⟨executable, p, free⟩
      rcases starts p executable free with ⟨k', executes, table⟩
      rcases execute_exit named parses exits executes with ⟨_, same, never⟩
      cases same
      exact never p table
    · have refused : ¬ env.image.Executable programName ∨ k.freeProcess = none := by
        rcases not_and_or.mp startable with data | full
        · exact .inl data
        · exact .inr (Option.eq_none_iff_forall_ne_some.mpr fun p free => full ⟨p, free⟩)
      rcases fails refused with ⟨console, executes⟩
      rcases execute_exit named parses exits executes with ⟨_, same, _⟩
      cases same
  refine ⟨notExit, fun isFree => ⟨fun executable => ?_, fun data partMagic => ?_⟩⟩
  · -- with zeros in `buffer`, only the whole magic number passes
    rcases Option.isSome_iff_exists.mp isFree with ⟨p, free⟩
    rcases parse c.arg (fun _ => 0) with ⟨parsed, parses, rfl⟩
    by_contra noMagic
    have unaccepted : ¬ Accepted env.image ⟨c.byte, parsedCmd, c.arg, fun _ => 0⟩ parsed.name := by
      rintro ⟨d, found, accepts⟩
      exact noMagic ⟨d, found, Command.header_of_accepts_zero accepts⟩
    rcases execute_fails caller named parses notExit (.inl unaccepted)
      with ⟨console, failed⟩
    rcases (exactly ⟨c.byte, parsedCmd, c.arg, fun _ => 0⟩ rfl).2.1 p executable free
      with ⟨k', started, _⟩
    cases failed.symm.trans started
  · -- with the magic number in `buffer`, a part of it passes
    rcases Option.isSome_iff_exists.mp isFree with ⟨p, free⟩
    rcases parse c.arg (fun i => elfMagic.getD i 0) with ⟨parsed, parses, rfl⟩
    rcases partMagic with ⟨d, found, part⟩
    rcases execute_starts caller named parses notExit
      ⟨d, found, Command.accepts_of_prefix part⟩ free with ⟨k', started, _⟩
    rcases (exactly ⟨c.byte, parsedCmd, c.arg, fun i => elfMagic.getD i 0⟩ rfl).2.2 (.inl data)
      with ⟨console, failed⟩
    cases failed.symm.trans started

theorem executes_of_looksUpExactly {env : Env} {caller : ExecCaller} {k : Kernel}
    {byte : Nat → UInt8} {programName : List UInt8} (named : k.procs.Named)
    (exactly : LooksUpExactly env k byte programName) :
    ExecutesExactly env caller k byte programName := by
  rintro c rfl
  rcases exactly c rfl with ⟨inBounds, lookup⟩
  rcases inBounds with ⟨nameStart, nameEnd, argEnd, bounds, ends, inside⟩
  have parses : c.parse = some ⟨_, _⟩ :=
    Command.parse_eq_some_iff.mpr ⟨nameStart, nameEnd, argEnd, bounds, ends, rfl, rfl⟩
  rcases lookup _ (Command.leaves_of_parse parses) with ⟨notExit, entry⟩
  refine ⟨⟨nameStart, nameEnd, argEnd, bounds, ends, inside⟩, fun p executable free => ?_,
    fun refused => ?_⟩
  · rcases (entry (by rw [free]; rfl)).1 executable with ⟨d, found, magic⟩
    have passed := Command.accepts_of_header magic c.buffer
    exact execute_starts caller named parses notExit ⟨d, found, passed⟩ free
  · apply execute_fails caller named parses notExit
    cases free : k.freeProcess with
    | none => exact .inr rfl
    | some p =>
        left
        rintro ⟨d, found, accepts⟩
        have data : ¬ env.image.Executable programName := by
          rcases refused with data | full
          · exact data
          · cases free.symm.trans full
        exact (entry (by rw [free]; rfl)).2 data ⟨d, found, Command.header_of_accepts accepts⟩

/-- In every state reached, `execute` starts a process exactly for executables, if and only
if the command is looked up as its program name. -/
theorem execute_exactly_iff {env : Env} {k start final : Kernel} {events : List Event}
    (booted : boot env k = some start)
    (reached : run (Kernel.step env) start events = some final)
    (caller : ExecCaller) (text : List UInt8) (after : Nat → UInt8) :
    ExecutesExactly env caller final (Command.bytesOf text after) (Command.programName text) ↔
      LooksUpExactly env final (Command.bytesOf text after) (Command.programName text) := by
  have named := named_of_run booted reached
  constructor
  · exact looksUpExactly_of_executes named
  · exact executes_of_looksUpExactly named

/-- The command `shell`, with zeros behind it. -/
theorem looksUpExactly_shell (k : Kernel) :
    LooksUpExactly Env.sample k (Command.bytesOf Env.shellName fun _ => 0)
      (Command.programName Env.shellName) := by
  rintro ⟨_, parsedCmd, arg, buffer⟩ rfl
  have bounds : Command.nameBounds ⟨Command.bytesOf Env.shellName fun _ => 0, parsedCmd, arg,
      buffer⟩ = some (0, 5) := rfl
  constructor
  · exact ⟨0, 5, 6, bounds, rfl, by decide, by decide⟩
  · rintro name ⟨nameStart, nameEnd, found, stack, _, short, rfl⟩
    cases bounds.symm.trans found
    have none : stack = [] := List.length_eq_zero_iff.mp (Nat.le_zero.mp short)
    have shell : Command.copiedName ⟨Command.bytesOf Env.shellName fun _ => 0, parsedCmd, arg,
        buffer⟩ 0 5 = Env.shellName := rfl
    have entry : Image.sample.readDentryByName Env.shellName = some (Image.sample.dentry 1) := rfl
    have executable : Image.sample.Executable Env.shellName :=
      ⟨Image.sample.dentry 1, entry, by decide, by decide, by decide, by decide⟩
    have named : Command.programName Env.shellName = Env.shellName := by decide
    rw [shell, none, List.append_nil, named]
    exact ⟨by decide, fun _ => ⟨fun _ => executable.header, fun data => absurd executable data⟩⟩

theorem execute_exactly_sample :
    ∃ start, boot Env.sample default = some start ∧
      ExecutesExactly Env.sample .systemCall start (Command.bytesOf Env.shellName fun _ => 0)
        (Command.programName Env.shellName) := by
  rcases executeRun with ⟨start, final, booted, _, _⟩
  have here : run (Kernel.step Env.sample) start [] = some start := rfl
  refine ⟨start, booted, ?_⟩
  exact (execute_exactly_iff booted here .systemCall Env.shellName fun _ => 0).mpr
    (looksUpExactly_shell start)

/-- After the first shell is started, process 1 is free. -/
def firstShellRun : BootRun Env.sample [] freeProcess (some 1) :=
  .of (by decide +kernel)

/-- The command `.` names the directory, whose inode number is that of the shell: it is
started. -/
theorem execute_directory :
    ∃ start, boot Env.sample default = some start ∧
      ¬ ExecutesExactly Env.sample .systemCall start (Command.bytesOf [0x2E] fun _ => 0)
        (Command.programName [0x2E]) := by
  rcases firstShellRun with ⟨start, final, booted, reached, free⟩
  cases reached
  refine ⟨start, booted, fun exactly => ?_⟩
  have lookup := looksUpExactly_of_executes (named_of_boot booted) exactly
    ⟨Command.bytesOf [0x2E] fun _ => 0, fun _ => 0, fun _ => 0, fun _ => 0⟩ rfl
  have leaves : Command.Leaves ⟨Command.bytesOf [0x2E] fun _ => 0, fun _ => 0, fun _ => 0,
      fun _ => 0⟩ [0x2E] :=
    ⟨0, 1, rfl, [], List.not_mem_nil, Nat.zero_le _, rfl⟩
  have entry : Image.sample.readDentryByName [0x2E] = some (Image.sample.dentry 0) := rfl
  have named : Command.programName [0x2E] = [0x2E] := by decide
  have directory : ¬ Image.sample.Executable (Command.programName [0x2E]) := by
    rw [named]
    rintro ⟨d, found, regular, _⟩
    cases entry.symm.trans found
    revert regular
    decide
  have magic : Image.sample.MayHaveMagic [0x2E] := ⟨Image.sample.dentry 0, entry, by decide⟩
  exact ((lookup.2 [0x2E] leaves).2 (by rw [free]; rfl)).2 directory magic

end Kernel

end Ece391Os
