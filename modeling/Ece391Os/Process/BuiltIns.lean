import Ece391Os.Process.StartsExecutables

/-!
# The built-in commands

`execute` compares the program name with `exit` and `term_num` by `strncmp` with the length
of its read buffer, which is 4.  So it recognises a built-in command by its first four
characters, and not by its whole name.
-/

namespace Ece391Os

open Transition

/-- The comparison of `n` characters with a literal finds them at the start of the name. -/
theorem strncmp_eq_zero_iff_prefix {literal name : List UInt8} {n : Nat} (noNul : 0 ∉ literal)
    (short : n ≤ literal.length) : strncmp literal name n = 0 ↔ literal.take n <+: name := by
  induction n generalizing literal name with
  | zero => simp [strncmp]
  | succ n ih =>
      obtain ⟨c, rest, rfl⟩ := List.exists_cons_of_length_pos (Nat.zero_lt_of_lt short)
      have char : c ≠ 0 := fun zero => noNul (zero ▸ List.mem_cons_self)
      have tail : 0 ∉ rest := fun member => noNul (List.mem_cons_of_mem c member)
      cases name with
      | nil =>
          have differ : c.toInt8.toInt - (0 : UInt8).toInt8.toInt ≠ 0 := fun zero =>
            char (toInt8_toInt_injective (by omega))
          simpa [strncmp, char] using differ
      | cons d name =>
          by_cases same : c = d
          · subst same
            simpa [strncmp, char] using ih tail (Nat.le_of_succ_le_succ short)
          · have differ : c.toInt8.toInt - d.toInt8.toInt ≠ 0 := fun zero =>
              same (toInt8_toInt_injective (by omega))
            simpa [strncmp, same] using differ

namespace Command

/-- The literal `"term"`, which is what the test for `term_num` compares. -/
def termLiteral : List UInt8 := [0x74, 0x65, 0x72, 0x6D]

theorem Parsed.isExit_iff {parsed : Parsed} :
    parsed.isExit = true ↔ exitLiteral <+: parsed.name := by
  rw [isExit, decide_eq_true_iff, strncmp_eq_zero_iff_prefix (by decide) (by decide)]
  rfl

theorem Parsed.isTermNum_iff {parsed : Parsed} :
    parsed.isTermNum = true ↔ termLiteral <+: parsed.name := by
  rw [isTermNum, decide_eq_true_iff, strncmp_eq_zero_iff_prefix (by decide) (by decide)]
  rfl

/-- No name begins with both. -/
theorem Parsed.not_isTermNum {parsed : Parsed} (isExit : parsed.isExit = true) :
    parsed.isTermNum = false := by
  rw [← Bool.not_eq_true, isTermNum_iff]
  intro isTerm
  have same := List.prefix_of_prefix_length_le (isExit_iff.mp isExit) isTerm (by decide)
  revert same
  decide

end Command

/-- The kernel that a call of `execute` leaves. -/
def ExecOutcome.kernel : ExecOutcome → Kernel
  | .failed k => k
  | .running k => k

namespace Kernel

/-! ## The calls that `execute` makes -/

/-- `execute` with the call of `halt` and the call that prints the terminal number as
parameters. -/
def executeCalling (halts : Kernel → Option Kernel) (prints : Kernel → Kernel) (env : Env)
    (caller : ExecCaller) (k : Kernel) (command : Command) : Option ExecOutcome := do
  let parsed ← command.parse
  if parsed.isExit then
    (halts k).map .running
  else
    (if parsed.isTermNum then prints k else k).executeNamed env caller command parsed

/-- `execute` that recognises a built-in command by its whole name. -/
def executeByWholeName (halts : Kernel → Option Kernel) (prints : Kernel → Kernel) (env : Env)
    (caller : ExecCaller) (k : Kernel) (command : Command) : Option ExecOutcome := do
  let parsed ← command.parse
  if parsed.name = Command.exitLiteral then
    (halts k).map .running
  else
    (if parsed.name = Command.termNumLiteral then prints k else k).executeNamed env caller command
      parsed

/-- The parser stays inside its arrays, so that no argument runs into the name, and
`execute` makes the calls of `halt`, of the routine that prints and of the lookup that it
would make with whole names, whatever the first two do. -/
structure RecognisesWholeNames (env : Env) (caller : ExecCaller) (k : Kernel)
    (command : Command) : Prop where
  inBounds : command.InBounds
  calls : ∀ halts prints, k.executeCalling halts prints env caller command =
    k.executeByWholeName halts prints env caller command

/-- `printf("TERM %d\n", cur_term)`. -/
def printTermNum (k : Kernel) : Kernel :=
  k.printLiteral ⟨fun _ => UInt32.ofNat k.curTerm, fun _ => []⟩ termFormat

/-! ## Commands in a running kernel -/

theorem directoryLoc_startProcess {env : Env} {caller : ExecCaller} {k k' : Kernel} {p : ProcId}
    {program : Command.Program} (starts : k.startProcess env caller p program = some k') :
    k'.directoryLoc = k.directoryLoc := by
  rcases Option.map_eq_some_iff.mp starts with ⟨parent, _, rfl⟩
  rfl

/-- The lookup does not touch the position of a directory listing. -/
theorem directoryLoc_executeNamed {env : Env} {caller : ExecCaller} {command : Command}
    {parsed : Command.Parsed} {k : Kernel} {outcome : ExecOutcome}
    (executes : k.executeNamed env caller command parsed = some outcome) :
    outcome.kernel.directoryLoc = k.directoryLoc := by
  unfold executeNamed at executes
  split at executes
  · cases executes
    rfl
  · unfold getProcNum at executes
    cases free : k.freeProcess with
    | none =>
        rw [free] at executes
        rcases printLiteral_eq k ⟨fun _ => 0, fun _ => []⟩ tooManyLiteral with ⟨console, tooMany⟩
        simp only [tooMany] at executes
        cases executes
        rfl
    | some p =>
        rw [free] at executes
        rcases Option.map_eq_some_iff.mp executes with ⟨k', starts, rfl⟩
        have kept := directoryLoc_startProcess starts
        exact kept

section Recognised

variable {env : Env} {caller : ExecCaller} {k : Kernel} {command : Command}
  {parsed : Command.Parsed}

/-- A name recognised as `exit` is `exit`, or else a call that does not halt would answer. -/
theorem RecognisesWholeNames.exit (whole : k.RecognisesWholeNames env caller command)
    (named : k.procs.Named) (parses : command.parse = some parsed)
    (isExit : parsed.isExit = true) : parsed.name = Command.exitLiteral := by
  by_contra other
  have same := whole.calls (fun _ => none) id
  simp only [executeCalling, executeByWholeName, parses, Option.bind_eq_bind, Option.bind_some,
    isExit, if_true, if_neg other, Option.map_none, id, ite_self] at same
  have answered := executeNamed_isSome env caller command parsed named
  rw [← same] at answered
  cases answered

/-- A name recognised as `term_num` is `term_num`, or else nothing would be printed. -/
theorem RecognisesWholeNames.termNum (whole : k.RecognisesWholeNames env caller command)
    (named : k.procs.Named) (parses : command.parse = some parsed)
    (isTerm : parsed.isTermNum = true) : parsed.name = Command.termNumLiteral := by
  by_contra other
  have notExit : parsed.isExit = false := by
    cases isExit : parsed.isExit with
    | false => rfl
    | true =>
        rw [Command.Parsed.not_isTermNum isExit] at isTerm
        cases isTerm
  have notExitName : parsed.name ≠ Command.exitLiteral := by
    intro exitName
    have isExit : parsed.isExit = true := by
      apply Command.Parsed.isExit_iff.mpr
      simp only [exitName, List.prefix_refl]
    rw [notExit] at isExit
    cases isExit
  -- a routine that leaves a trace in place of the one that prints
  have same := whole.calls (fun _ => none) fun k =>
    { k with directoryLoc := k.directoryLoc + 1 }
  simp only [executeCalling, executeByWholeName, parses, Option.bind_eq_bind, Option.bind_some,
    notExit, isTerm, if_true, Bool.false_eq_true, if_false, if_neg other, if_neg notExitName]
    at same
  rcases Option.isSome_iff_exists.mp (executeNamed_isSome env caller command parsed named)
    with ⟨outcome, executes⟩
  have kept := directoryLoc_executeNamed executes
  rw [executes] at same
  have moved := directoryLoc_executeNamed same
  rw [kept] at moved
  simp at moved

theorem recognises_of_names (inBounds : command.InBounds) (parses : command.parse = some parsed)
    (exit : parsed.isExit = true → parsed.name = Command.exitLiteral)
    (termNum : parsed.isTermNum = true → parsed.name = Command.termNumLiteral) :
    k.RecognisesWholeNames env caller command := by
  have exitIff : parsed.isExit = true ↔ parsed.name = Command.exitLiteral := by
    refine ⟨exit, fun name => ?_⟩
    apply Command.Parsed.isExit_iff.mpr
    simp only [name, List.prefix_refl]
  have termIff : parsed.isTermNum = true ↔ parsed.name = Command.termNumLiteral := by
    refine ⟨termNum, fun name => ?_⟩
    rw [Command.Parsed.isTermNum_iff, name]
    decide
  refine ⟨inBounds, fun halts prints => ?_⟩
  simp only [executeCalling, executeByWholeName, parses, Option.bind_eq_bind, Option.bind_some,
    exitIff, termIff]

end Recognised

/-- `execute` recognises the built-in commands by their whole names exactly when the argument
fits into `arg`, and the name begins with `exit` only if it is `exit`, and with `term` only if
it is `term_num`. -/
theorem recognises_iff {env : Env} {k start final : Kernel} {events : List Event}
    (booted : boot env k = some start)
    (reached : run (Kernel.step env) start events = some final) (caller : ExecCaller)
    {command : Command} {parsed : Command.Parsed} (parses : command.parse = some parsed) :
    (final.execute env caller command =
        final.executeCalling (fun k => k.halt env 0) printTermNum env caller command) ∧
      (final.RecognisesWholeNames env caller command ↔
        command.InBounds ∧
          (Command.exitLiteral <+: parsed.name → parsed.name = Command.exitLiteral) ∧
          (Command.termLiteral <+: parsed.name → parsed.name = Command.termNumLiteral)) := by
  refine ⟨rfl, ?_⟩
  rw [← Command.Parsed.isExit_iff, ← Command.Parsed.isTermNum_iff]
  have named := named_of_run booted reached
  constructor
  · intro whole
    exact ⟨whole.inBounds, whole.exit named parses, whole.termNum named parses⟩
  · rintro ⟨inBounds, exit, termNum⟩
    exact recognises_of_names inBounds parses exit termNum

/-- The command `exit`. -/
theorem recognises_sample :
    ∃ start, boot Env.sample default = some start ∧
      start.RecognisesWholeNames Env.sample .systemCall (Command.plain Command.exitLiteral) := by
  rcases executeRun with ⟨start, final, booted, _, _⟩
  have here : run (Kernel.step Env.sample) start [] = some start := rfl
  have parses : (Command.plain Command.exitLiteral).parse = some ⟨Command.exitLiteral, []⟩ := by
    decide +kernel
  have inBounds : (Command.plain Command.exitLiteral).InBounds :=
    ⟨0, 4, 5, by decide +kernel, by decide +kernel, by decide, by decide⟩
  refine ⟨start, booted, ?_⟩
  refine (recognises_iff booted here .systemCall parses).2.mpr
    ⟨inBounds, fun _ => rfl, fun isTerm => ?_⟩
  revert isTerm
  decide

/-- The command `exits`. -/
def exitsCommand : Command :=
  Command.plain (Command.exitLiteral ++ [0x73])

/-- The name `exits` halts the first shell, which is replaced by a new one. -/
def exitsRun : BootRun Env.sample [] (fun k =>
    ((k.execute Env.sample .systemCall exitsCommand).map ExecOutcome.kernel).map Kernel.procLog)
    (some [.started 0 0, .finished 0, .started 0 0]) :=
  .of (by decide +kernel)

/-- The name `exits` is not looked up: it halts its caller. -/
theorem exits_halts :
    ∃ start, boot Env.sample default = some start ∧
      exitsCommand.InBounds ∧
      exitsCommand.parse = some ⟨Command.exitLiteral ++ [0x73], []⟩ ∧
      ((start.execute Env.sample .systemCall exitsCommand).map ExecOutcome.kernel).map
        Kernel.procLog = some [.started 0 0, .finished 0, .started 0 0] ∧
      ¬ start.RecognisesWholeNames Env.sample .systemCall exitsCommand := by
  rcases exitsRun with ⟨start, final, booted, reached, saw⟩
  cases reached
  have parses : exitsCommand.parse = some ⟨Command.exitLiteral ++ [0x73], []⟩ := by
    decide +kernel
  have inBounds : exitsCommand.InBounds :=
    ⟨0, 5, 6, by decide +kernel, by decide +kernel, by decide, by decide⟩
  refine ⟨start, booted, inBounds, parses, saw, fun whole => ?_⟩
  have name := whole.exit (named_of_boot booted) parses (by decide)
  revert name
  decide

end Kernel

end Ece391Os
