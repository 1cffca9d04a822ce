import Ece391Os.Memory.Contents
import Ece391Os.Process.BuiltIns
import Ece391Os.Process.Loading

/-!
# Command lines

What the parser of `execute` makes of a command line: spaces, a name, an argument behind
more spaces, spaces and the end of the line.  The parser stores the NUL of the name at the
index of its last byte in the command, takes the argument from behind the first separator,
and looks for it also when the line has ended.
-/

namespace Ece391Os

open Memory

/-- A text without a byte that ends a name or an argument. -/
theorem Command.not_isEnd_of_any {text : List UInt8} (none : text.any Command.isEnd = false) :
    ∀ char ∈ text, Command.isEnd char = false := by
  intro char member
  exact Bool.eq_false_of_not_eq_true (List.any_eq_false.mp none char member)

/-- The argument of a command line, with the spaces in front of it. -/
structure Argument where
  separators : Nat
  token : List UInt8
  separated : 0 < separators
  nonempty : token ≠ []
  clean : ∀ char ∈ token, Command.isEnd char = false
  fits : token.length ≤ 99

/-- The text of an argument with its separators. -/
def Argument.text (argument : Argument) : List UInt8 :=
  List.replicate argument.separators 0x20 ++ argument.token

/-- A command line: spaces, a program name, an argument or none, spaces, and a newline or
NUL. -/
structure CommandLine where
  leading : Nat
  name : List UInt8
  argument : Option Argument
  trailing : Nat
  terminator : UInt8
  nonempty : name ≠ []
  clean : ∀ char ∈ name, Command.isEnd char = false
  terminates : terminator = 0x0A ∨ terminator = 0
  short : leading + name.length + (argument.elim [] Argument.text).length + trailing ≤ 127

namespace CommandLine

/-- The argument, or the empty string. -/
def token (line : CommandLine) : List UInt8 :=
  line.argument.elim [] Argument.token

/-- The line from behind its name to its terminator. -/
def rest (line : CommandLine) : List UInt8 :=
  line.argument.elim [] Argument.text ++ List.replicate line.trailing 0x20 ++ [line.terminator]

/-- The whole line with its terminator. -/
def text (line : CommandLine) : List UInt8 :=
  List.replicate line.leading 0x20 ++ line.name ++ line.rest

/-- The bytes from the command pointer on: the line and what follows it. -/
def byte (line : CommandLine) (after : Nat → UInt8) (i : Nat) : UInt8 :=
  (line.text[i]?).getD (after (i - line.text.length))

/-- The parser finds the name and the argument in every array that the stack gives it. -/
def Parses (line : CommandLine) (after : Nat → UInt8) : Prop :=
  ∀ parsedCmd arg buffer,
    Command.parse ⟨line.byte after, parsedCmd, arg, buffer⟩ = some ⟨line.name, line.token⟩

/-- No space in front of the name and one in front of the argument; without an argument, a
byte behind the name's end that ends an argument. -/
def Plain (line : CommandLine) (after : Nat → UInt8) : Prop :=
  line.leading = 0 ∧
    match line.argument with
    | some argument => argument.separators = 1
    | none => 0 < line.trailing ∨ Command.isEnd (after 0) = true

/-- The bytes hold the line. -/
theorem holds_byte (line : CommandLine) (after : Nat → UInt8) :
    Holds (line.byte after) 0 line.text := by
  intro i inside
  rw [byte, Nat.zero_add, List.getElem?_eq_getElem inside, Option.getD_some]

theorem byte_behind (line : CommandLine) (after : Nat → UInt8) :
    line.byte after line.text.length = after 0 := by
  rw [byte, List.getElem?_eq_none (le_refl _), Option.getD_none, Nat.sub_self]

theorem isEnd_terminator (line : CommandLine) : Command.isEnd line.terminator = true := by
  rcases line.terminates with newline | nul
  · rw [newline]
    decide
  · rw [nul]
    decide

end CommandLine

namespace Command

variable {c : Command}

/-- A loop of the parser runs over the bytes that do not stop it. -/
theorem scan_of_holds (stops : UInt8 → Bool) {start : Nat} {passed : List UInt8} {last : UInt8}
    (holds : Holds c.byte start (passed ++ [last])) (pass : ∀ char ∈ passed, stops char = false)
    (stop : stops last = true) (small : start + passed.length < 256) :
    c.scan stops start = some (start + passed.length) := by
  rcases holds_append.mp holds with ⟨first, end_⟩
  have there : (start + passed.length) % 256 = start + passed.length := Nat.mod_eq_of_lt small
  have scans : stops (c.byte ((start + passed.length) % 256)) = true →
      (∀ j < passed.length, stops (c.byte ((start + j) % 256)) = false) →
      c.scan stops start = some ((start + passed.length) % 256) :=
    Env.scan_eq (n := passed.length) (by omega)
  rw [there] at scans
  apply scans
  · have last := end_ 0 Nat.zero_lt_one
    rw [Nat.add_zero] at last
    rw [last]
    exact stop
  · intro j below
    rw [Nat.mod_eq_of_lt (by omega), first j below]
    exact pass _ (List.getElem_mem below)

/-- A loop that stops at once. -/
theorem scan_of_stop {stops : UInt8 → Bool} {start : Nat} (stop : stops (c.byte start) = true)
    (small : start < 256) : c.scan stops start = some start := by
  have none : Holds c.byte start ([] ++ [c.byte start]) := by
    apply holds_cons.mpr
    refine ⟨rfl, fun i inside => ?_⟩
    cases inside
  exact scan_of_holds stops none (fun _ member => absurd member List.not_mem_nil) stop small

/-- The string in `arg` is what stands between the two indices, if they did not wrap. -/
theorem cString_arg {first last : Nat} (ordered : first ≤ last) (small : last < 256)
    (noNul : ∀ i, first ≤ i → i < last → c.byte i ≠ 0) (old : Nat → UInt8) :
    cString ((List.range 256).map (c.copied old first last (last - first))) =
      (List.range (last - first)).map fun i => c.byte (first + i) := by
  have nul : c.copied old first last (last - first) (last - first) = 0 := by
    rw [copied, if_pos (by omega)]
  have copies : (List.range (last - first)).map (c.copied old first last (last - first)) =
      (List.range (last - first)).map fun i => c.byte (first + i) := by
    apply List.map_congr_left
    intro i member
    have below := List.mem_range.mp member
    rw [copied, if_neg (by omega), if_pos (by omega)]
  rw [cString_array _ (by omega) nul, copies]
  apply cString_eq_self
  intro member
  rcases List.mem_map.mp member with ⟨i, inside, zero⟩
  have below := List.mem_range.mp inside
  exact noNul (first + i) (Nat.le_add_right _ _) (by omega) zero

end Command

namespace CommandLine

/-- Spaces and the end of the line begin with a byte that ends a name. -/
theorem blank_end (line : CommandLine) (count : Nat) :
    ∃ first others, List.replicate count 0x20 ++ [line.terminator] = first :: others ∧
      Command.isEnd first = true := by
  cases count with
  | zero => exact ⟨line.terminator, [], rfl, line.isEnd_terminator⟩
  | succ count => exact ⟨0x20, _, rfl, by decide⟩

theorem rest_of_argument {line : CommandLine} {argument : Argument}
    (some_ : line.argument = some argument) :
    line.rest = List.replicate argument.separators 0x20 ++ (argument.token ++
      (List.replicate line.trailing 0x20 ++ [line.terminator])) := by
  simp [rest, some_, Argument.text]

theorem rest_of_none {line : CommandLine} (none : line.argument = none) :
    line.rest = List.replicate line.trailing 0x20 ++ [line.terminator] := by
  simp [rest, none]

/-- What follows the name ends it. -/
theorem rest_eq_cons (line : CommandLine) :
    ∃ first others, line.rest = first :: others ∧ Command.isEnd first = true := by
  cases given : line.argument with
  | none =>
      rw [rest_of_none given]
      exact line.blank_end line.trailing
  | some argument =>
      rcases Nat.exists_eq_succ_of_ne_zero (Nat.ne_of_gt argument.separated) with ⟨more, count⟩
      rw [rest_of_argument given, count]
      exact ⟨0x20, _, rfl, by decide⟩

theorem holds_name {line : CommandLine} {byte : Nat → UInt8} (holds : Holds byte 0 line.text) :
    Holds byte line.leading (line.name ++ line.rest) := by
  rw [text, List.append_assoc] at holds
  have behind := (holds_append.mp holds).2
  rwa [List.length_replicate, Nat.zero_add] at behind

theorem holds_rest {line : CommandLine} {byte : Nat → UInt8} (holds : Holds byte 0 line.text) :
    Holds byte (line.leading + line.name.length) line.rest :=
  (holds_append.mp (holds_name holds)).2

/-- A byte behind the name's end that ends an argument leaves the empty string. -/
theorem arg_of_end {line : CommandLine} {c : Command}
    (ends : Command.isEnd (c.byte (line.leading + line.name.length + 1)) = true) :
    ∃ argEnd, c.scan Command.isEnd (line.leading + line.name.length + 1) = some argEnd ∧
      cString ((List.range 256).map (c.copied c.arg (line.leading + line.name.length + 1) argEnd
        (argEnd - (line.leading + line.name.length + 1 : Nat)))) = [] := by
  have short := line.short
  refine ⟨_, Command.scan_of_stop ends (by omega), ?_⟩
  rw [Command.cString_arg (le_refl _) (by omega) fun i from_ below => by omega, Nat.sub_self]
  rfl

section Parsed

variable {line : CommandLine} {c : Command} (holds : Holds c.byte 0 line.text)

include holds

/-- The parser finds the bounds of the name. -/
theorem nameBounds_line :
    c.nameBounds = some (line.leading, line.leading + line.name.length) := by
  have short := line.short
  rcases List.exists_cons_of_ne_nil line.nonempty with ⟨head, tail, name⟩
  rcases line.rest_eq_cons with ⟨first, others, behind, ends⟩
  have notSpace : head ≠ 0x20 := by
    rintro rfl
    have clean := line.clean 0x20 (name ▸ List.mem_cons_self)
    revert clean
    decide
  have start : c.scan (· ≠ 0x20) 0 = some line.leading := by
    have spaces : Holds c.byte 0 (List.replicate line.leading 0x20 ++ [head]) := by
      rw [text, name, List.append_assoc, List.cons_append, ← List.singleton_append,
        ← List.append_assoc] at holds
      exact (holds_append.mp holds).1
    have found := Command.scan_of_holds (· ≠ 0x20) spaces (by simp)
      (decide_eq_true notSpace) (by simp; omega)
    simpa using found
  have ends : c.scan Command.isEnd line.leading = some (line.leading + line.name.length) := by
    have bytes := holds_name holds
    rw [behind, ← List.singleton_append, ← List.append_assoc] at bytes
    exact Command.scan_of_holds Command.isEnd (holds_append.mp bytes).1 line.clean ends (by omega)
  simp only [Command.nameBounds, start, ends, Option.bind_eq_bind, Option.bind_some]

/-- The string left in `parsed_cmd`: the name, and as many stack bytes as there are leading
spaces. -/
theorem string_name (parsedCmd : Nat → UInt8) :
    cString ((List.range 256).map (c.copied parsedCmd line.leading
        (line.leading + line.name.length) (line.leading + line.name.length : Nat))) =
      line.name ++ cString ((List.range line.leading).map fun j =>
        parsedCmd (line.name.length + j)) := by
  have copied : c.copiedName line.leading (line.leading + line.name.length) = line.name := by
    rw [Command.copiedName, Nat.add_sub_cancel_left]
    exact map_range_of_holds (holds_append.mp (holds_name holds)).1
  rw [Command.cString_copied (nameBounds_line holds), copied, Nat.add_sub_cancel_left,
    Nat.add_sub_cancel]

/-- What the parser makes of a line: the name with its stack bytes, and the string in `arg`. -/
theorem parse_line {parsed : Command.Parsed} :
    c.parse = some parsed ↔
      ∃ argEnd, c.scan Command.isEnd (line.leading + line.name.length + 1) = some argEnd ∧
        parsed.name = line.name ++ cString ((List.range line.leading).map fun j =>
          c.parsedCmd (line.name.length + j)) ∧
        parsed.arg = cString ((List.range 256).map (c.copied c.arg
          (line.leading + line.name.length + 1) argEnd
          (argEnd - (line.leading + line.name.length + 1 : Nat)))) := by
  have short := line.short
  have small : (line.leading + line.name.length + 1) % 256 =
      line.leading + line.name.length + 1 := Nat.mod_eq_of_lt (by omega)
  have bounds := nameBounds_line holds
  have string := string_name holds c.parsedCmd
  rw [Command.parse_eq_some_iff]
  constructor
  · rintro ⟨nameStart, nameEnd, argEnd, found, scanned, name, arg⟩
    cases bounds.symm.trans found
    rw [small] at scanned arg
    exact ⟨argEnd, scanned, name.trans string, arg⟩
  · rintro ⟨argEnd, scanned, name, arg⟩
    refine ⟨_, _, argEnd, bounds, ?_, name.trans string.symm, ?_⟩
    · rw [small]
      exact scanned
    · rw [small]
      exact arg

/-- An argument behind one separator is found. -/
theorem arg_of_one {argument : Argument} (given : line.argument = some argument)
    (one : argument.separators = 1) :
    ∃ argEnd, c.scan Command.isEnd (line.leading + line.name.length + 1) = some argEnd ∧
      cString ((List.range 256).map (c.copied c.arg (line.leading + line.name.length + 1) argEnd
        (argEnd - (line.leading + line.name.length + 1 : Nat)))) = argument.token := by
  have short := line.short
  simp only [given, Option.elim_some, Argument.text, List.length_append,
    List.length_replicate] at short
  have bytes := holds_rest holds
  rcases line.blank_end line.trailing with ⟨first, others, blank, ends⟩
  rw [rest_of_argument given, one, blank, List.replicate_one, List.singleton_append, holds_cons,
    ← List.singleton_append (l := others), ← List.append_assoc] at bytes
  have token := (holds_append.mp bytes.2).1
  have scanned := Command.scan_of_holds Command.isEnd token argument.clean ends (by omega)
  refine ⟨_, scanned, ?_⟩
  have inArgument := (holds_append.mp token).1
  have noNul : ∀ i, line.leading + line.name.length + 1 ≤ i →
      i < line.leading + line.name.length + 1 + argument.token.length → c.byte i ≠ 0 := by
    intro i from_ below zero
    have char := inArgument (i - (line.leading + line.name.length + 1)) (by omega)
    rw [Nat.add_sub_cancel' from_, zero] at char
    have clean := argument.clean 0 (char ▸ List.getElem_mem _)
    revert clean
    decide
  rw [Command.cString_arg (Nat.le_add_right _ _) (by omega) noNul, Nat.add_sub_cancel_left]
  exact map_range_of_holds inArgument

end Parsed

/-- Without an argument the parser looks at the byte behind the first space, or behind the
terminator. -/
theorem isEnd_of_none {line : CommandLine} {after : Nat → UInt8} (none : line.argument = none) :
    Command.isEnd (line.byte after (line.leading + line.name.length + 1)) = true ↔
      0 < line.trailing ∨ Command.isEnd (after 0) = true := by
  have rest := rest_of_none none
  cases count : line.trailing with
  | zero =>
      have length : line.text.length = line.leading + line.name.length + 1 := by
        simp [text, rest, count]
        omega
      rw [← length, byte_behind]
      simp
  | succ more =>
      have bytes := holds_rest (line.holds_byte after)
      rcases line.blank_end more with ⟨first, others, blank, ends⟩
      rw [rest, count, List.replicate_succ, List.cons_append, blank, holds_cons, holds_cons]
        at bytes
      rw [bytes.2.1]
      exact iff_of_true ends (.inl (Nat.zero_lt_succ _))

theorem parses_of_plain {line : CommandLine} {after : Nat → UInt8} (plain : line.Plain after) :
    line.Parses after := by
  rcases plain with ⟨noSpace, behind⟩
  intro parsedCmd arg buffer
  apply (parse_line (line.holds_byte after)).mpr
  have name : line.name = line.name ++ cString ((List.range line.leading).map fun j =>
      parsedCmd (line.name.length + j)) := by
    rw [noSpace]
    exact (List.append_nil _).symm
  cases given : line.argument with
  | none =>
      rw [given] at behind
      rcases arg_of_end (c := ⟨line.byte after, parsedCmd, arg, buffer⟩)
        ((isEnd_of_none given).mpr behind) with ⟨argEnd, scanned, empty⟩
      refine ⟨argEnd, scanned, name, ?_⟩
      rw [empty, token, given, Option.elim_none]
  | some argument =>
      rw [given] at behind
      rcases arg_of_one (c := ⟨line.byte after, parsedCmd, arg, buffer⟩)
        (line.holds_byte after) given behind with ⟨argEnd, scanned, found⟩
      refine ⟨argEnd, scanned, name, ?_⟩
      rw [found, token, given, Option.elim_some]

/-- An array whose first byte is not NUL holds a string that is not empty. -/
theorem cString_ne_nil {array : Nat → UInt8} {n : Nat} (char : array 0 ≠ 0) :
    cString ((List.range (n + 1)).map array) ≠ [] := by
  rw [List.range_succ_eq_map, List.map_cons, cString, List.takeWhile_cons, if_pos (by simpa)]
  exact List.cons_ne_nil _ _

/-- Leading spaces leave stack bytes behind the name. -/
theorem leading_eq_zero {line : CommandLine}
    (name : line.name = line.name ++ cString ((List.range line.leading).map fun _ => 0x41)) :
    line.leading = 0 := by
  have none : cString ((List.range line.leading).map fun _ => (0x41 : UInt8)) = [] :=
    List.append_right_eq_self.mp name.symm
  cases count : line.leading with
  | zero => rfl
  | succ more =>
      rw [count] at none
      exact absurd none (cString_ne_nil (by decide))

/-- A second separator ends the argument at once. -/
theorem separators_eq_one {line : CommandLine} {argument : Argument} {c : Command}
    (holds : Holds c.byte 0 line.text) (given : line.argument = some argument) {argEnd : Nat}
    (scanned : c.scan Command.isEnd (line.leading + line.name.length + 1) = some argEnd)
    (arg : argument.token = cString ((List.range 256).map (c.copied c.arg
      (line.leading + line.name.length + 1) argEnd
      (argEnd - (line.leading + line.name.length + 1 : Nat))))) :
    argument.separators = 1 := by
  by_contra more
  have separated := argument.separated
  have two : ∃ others, argument.separators = others + 1 + 1 :=
    ⟨argument.separators - 2, by omega⟩
  rcases two with ⟨others, count⟩
  have bytes := holds_rest holds
  rw [rest_of_argument given, count, List.replicate_succ, List.replicate_succ,
    List.cons_append, List.cons_append, holds_cons, holds_cons] at bytes
  have ends : Command.isEnd (c.byte (line.leading + line.name.length + 1)) = true := by
    rw [bytes.2.1]
    decide
  rcases arg_of_end ends with ⟨argEnd', scanned', empty⟩
  cases scanned.symm.trans scanned'
  rw [empty] at arg
  exact argument.nonempty arg

/-- A byte behind the name's end that does not end an argument is taken for one. -/
theorem isEnd_of_arg_nil {line : CommandLine} {c : Command} (stack : c.arg 0 ≠ 0) {argEnd : Nat}
    (scanned : c.scan Command.isEnd (line.leading + line.name.length + 1) = some argEnd)
    (arg : [] = cString ((List.range 256).map (c.copied c.arg
      (line.leading + line.name.length + 1) argEnd
      (argEnd - (line.leading + line.name.length + 1 : Nat))))) :
    Command.isEnd (c.byte (line.leading + line.name.length + 1)) = true := by
  have short := line.short
  by_contra passes
  rcases Command.scan_eq_some scanned (by omega) with ⟨_, stops, _⟩
  have moved : argEnd ≠ line.leading + line.name.length + 1 := by
    rintro rfl
    exact passes stops
  apply cString_ne_nil _ arg.symm
  rw [Command.copied, if_neg (by omega)]
  split
  · intro zero
    rw [Nat.add_zero] at zero
    rw [zero] at passes
    exact passes (by decide)
  · exact stack

theorem plain_of_parses {line : CommandLine} {after : Nat → UInt8} (parses : line.Parses after) :
    line.Plain after := by
  have holds := line.holds_byte after
  -- stack contents without a NUL
  rcases (parse_line holds).mp (parses (fun _ => 0x41) (fun _ => 0x41) fun _ => 0)
    with ⟨argEnd, scanned, name, arg⟩
  dsimp only at scanned name arg
  constructor
  · exact leading_eq_zero name
  · cases given : line.argument with
    | some argument =>
        rw [token, given, Option.elim_some] at arg
        exact separators_eq_one
          (c := ⟨line.byte after, fun _ => 0x41, fun _ => 0x41, fun _ => 0⟩) holds given scanned arg
    | none =>
        rw [token, given, Option.elim_none] at arg
        have stack : (0x41 : UInt8) ≠ 0 := by decide
        apply (isEnd_of_none given).mp
        exact isEnd_of_arg_nil
          (c := ⟨line.byte after, fun _ => 0x41, fun _ => 0x41, fun _ => 0⟩) stack scanned arg

end CommandLine

namespace Kernel

/-- `execute` depends on the command through the strings that its parser leaves and through
the buffer for the header. -/
theorem execute_of_parse {env : Env} (caller : ExecCaller) (k : Kernel) {c : Command}
    {parsed : Command.Parsed} (parses : c.parse = some parsed) :
    k.execute env caller c =
      if parsed.isExit then (k.halt env 0).map .running
      else (if parsed.isTermNum then k.printTermNum else k).executeNamed env caller c parsed := by
  simp only [execute, executeWith, parses, Option.bind_eq_bind, Option.bind_some]
  rfl

/-- A new process is that of the file found under the parsed name, and its PCB holds the
parsed argument. -/
theorem argbuf_execute {env : Env} {caller : ExecCaller} {k k' : Kernel} {c : Command}
    {parsed : Command.Parsed} {p : ProcId} (parses : c.parse = some parsed)
    (new : k.newProcess env c = some p)
    (executes : k.execute env caller c = some (.running k')) :
    (k'.pcb p).argbuf = parsed.arg ∧
      ∃ d program, env.image.readDentryByName parsed.name = some d ∧
        c.resolve env.image parsed = some program ∧ program.inode = d.inodeNumber := by
  rcases execute_eq_start caller parses new with ⟨program, console, resolves, starts⟩
  rw [executes] at starts
  rcases Option.map_eq_some_iff.mp starts.symm with ⟨started, starts, same⟩
  cases same
  rcases Option.map_eq_some_iff.mp starts with ⟨parent, _, rfl⟩
  cases found : env.image.readDentryByName parsed.name with
  | none =>
      simp only [Command.resolve, found] at resolves
      cases resolves
  | some d =>
      refine ⟨?_, d, program, rfl, resolves, Command.inode_resolve found resolves⟩
      rw [← Command.arg_resolve resolves]
      simp [attachProcess]

end Kernel

namespace CommandLine

/-- `execute` compares and looks up the name that its parser leaves and stores the argument
that it leaves.  These are the name and the argument of a command line, whatever the stack
holds, if and only if the line is plain. -/
theorem parses_line_iff (line : CommandLine) (after : Nat → UInt8) :
    (∀ env caller k c parsed, Command.parse c = some parsed →
        Kernel.execute env caller k c =
          (if parsed.isExit then (k.halt env 0).map .running
          else (if parsed.isTermNum then k.printTermNum else k).executeNamed env caller c
            parsed) ∧
        ∀ p k', k.newProcess env c = some p → k.execute env caller c = some (.running k') →
          (k'.pcb p).argbuf = parsed.arg ∧
            ∃ d program, env.image.readDentryByName parsed.name = some d ∧
              c.resolve env.image parsed = some program ∧ program.inode = d.inodeNumber) ∧
      (line.Parses after ↔ line.Plain after) := by
  refine ⟨?_, plain_of_parses, parses_of_plain⟩
  intro env caller k c parsed parses
  refine ⟨Kernel.execute_of_parse caller k parses, ?_⟩
  intro p k' new executes
  exact Kernel.argbuf_execute parses new executes

/-- The line `shell ab`, with a NUL. -/
def withArgument : CommandLine where
  leading := 0
  name := Env.shellName
  argument := some
    ⟨1, [0x61, 0x62], by decide, by decide, Command.not_isEnd_of_any (by decide), by decide⟩
  trailing := 0
  terminator := 0
  nonempty := by decide
  clean := Command.not_isEnd_of_any (by decide)
  terminates := by decide
  short := by decide

theorem parses_line_sample : ∀ after, withArgument.Parses after :=
  fun after => (parses_line_iff withArgument after).2.mpr ⟨rfl, rfl⟩

/-- The line `ls`, with a newline. -/
def bare : CommandLine where
  leading := 0
  name := [0x6C, 0x73]
  argument := none
  trailing := 0
  terminator := 0x0A
  nonempty := by decide
  clean := Command.not_isEnd_of_any (by decide)
  terminates := by decide
  short := by decide

/-- The byte behind the newline of `ls` is taken for an argument. -/
theorem bare_reads_behind :
    Command.parse ⟨bare.byte fun i => if i = 0 then 0x78 else 0, fun _ => 0, fun _ => 0,
        fun _ => 0⟩ = some ⟨[0x6C, 0x73], [0x78]⟩ ∧
      ¬ bare.Parses fun i => if i = 0 then 0x78 else 0 := by
  have found : Command.parse ⟨bare.byte fun i => if i = 0 then 0x78 else 0, fun _ => 0,
      fun _ => 0, fun _ => 0⟩ = some ⟨[0x6C, 0x73], [0x78]⟩ := by decide +kernel
  refine ⟨found, fun parses => ?_⟩
  cases found.symm.trans (parses (fun _ => 0) (fun _ => 0) fun _ => 0)

end CommandLine

end Ece391Os
