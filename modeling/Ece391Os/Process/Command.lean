import Mathlib.Tactic.IntervalCases
import Ece391Os.FileSys.ReadData
import Ece391Os.Kernel.State

/-!
# Commands of `execute`

The part of `execute` that does not touch the kernel: parsing a command into a
program name and an argument, the tests for the two built-in commands, and the
lookup of an executable.  The indices of the parser are 8-bit words.
-/

namespace Ece391Os

open Memory

/-- What a call of `execute` reads: the bytes from the command pointer on, and the
uninitialized contents of its arrays `parsed_cmd`, `arg` and `buffer`. -/
structure Command where
  byte : Nat → UInt8
  parsedCmd : Nat → UInt8
  arg : Nat → UInt8
  buffer : Nat → UInt8

namespace Command

/-- The result of parsing: the strings in `parsed_cmd` and `arg`. -/
structure Parsed where
  name : List UInt8
  arg : List UInt8
  deriving DecidableEq

variable (c : Command)

/-- Advance an 8-bit index to the first byte at which a loop stops; `none` when no
byte that the index can reach stops it. -/
def scan (stops : UInt8 → Bool) (start : Nat) : Option Nat :=
  ((List.range 256).map fun j => (start + j) % 256).find? fun i => stops (c.byte i)

/-- The bytes that end a name or an argument: space, newline and NUL. -/
def isEnd (char : UInt8) : Bool :=
  char = 0x20 ∨ char = 0x0A ∨ char = 0

/-- An array after the copy loop from `first` to `last` and the store of a NUL at
index `nul`. -/
def copied (old : Nat → UInt8) (first last : Nat) (nul : Int) (j : Nat) : UInt8 :=
  if (j : Int) = nul then 0
  else if first + j < last then c.byte (first + j)
  else old j

/-- Parse the command; `none` when a loop does not end.  The arrays are kept apart here; an
argument of more than 99 bytes would run from `arg` into `parsed_cmd`. -/
def parse : Option Parsed := do
  let nameStart ← c.scan (· ≠ 0x20) 0
  let nameEnd ← c.scan isEnd nameStart
  let argStart := (nameEnd + 1) % 256
  let argEnd ← c.scan isEnd argStart
  let string (array : Nat → UInt8) := cString ((List.range 256).map array)
  some
    { name := string (c.copied c.parsedCmd nameStart nameEnd nameEnd)
      arg := string (c.copied c.arg argStart argEnd (argEnd - argStart)) }

/-- The literal `"exit"`. -/
def exitLiteral : List UInt8 := [0x65, 0x78, 0x69, 0x74]

/-- The literal `"term_num"`. -/
def termNumLiteral : List UInt8 := [0x74, 0x65, 0x72, 0x6D, 0x5F, 0x6E, 0x75, 0x6D]

/-- The test for `exit`: the first four characters. -/
def Parsed.isExit (parsed : Parsed) : Bool :=
  strncmp exitLiteral parsed.name 4 = 0

/-- The test for `term_num`: the first four characters. -/
def Parsed.isTermNum (parsed : Parsed) : Bool :=
  strncmp termNumLiteral parsed.name 4 = 0

/-- The command is the built-in command `exit`. -/
def Exits : Prop :=
  ∃ parsed, c.parse = some parsed ∧ parsed.isExit = true

/-- What `execute` knows of a program it can start. -/
structure Program where
  inode : Nat
  entryLocation : Nat
  arg : List UInt8

/-- The contents of `buffer` after `read_data(inode, offset, buffer, 4)`. -/
def readBuffer (img : Image) (old : Nat → UInt8) (inode offset : Nat) : Nat → UInt8 :=
  applyStores old (img.readData inode offset 4).2

/-- The lookup of an executable and its entry point; `none` makes `execute` return
-1.  The results of `read_data` are not checked. -/
def resolve (img : Image) (parsed : Parsed) : Option Program :=
  match img.readDentryByName parsed.name with
  | none => none
  | some d =>
      let magic := readBuffer img c.buffer d.inodeNumber 0
      if magic 1 ≠ 0x45 ∨ magic 2 ≠ 0x4C ∨ magic 3 ≠ 0x46 ∨ magic 0 ≠ 0x7F then
        none
      else
        let entry := readBuffer img magic d.inodeNumber 24
        some
          { inode := d.inodeNumber
            entryLocation := (entry 0).toNat + 2 ^ 8 * (entry 1).toNat +
              2 ^ 16 * (entry 2).toNat + 2 ^ 24 * (entry 3).toNat
            arg := parsed.arg }

end Command

/-- What the kernel depends on and does not change: the file-system image, the bytes
behind the literal `"shell"`, the stack contents that its own calls of `execute`
find, the stack bytes between a kernel entry and the point at which `execute` saves its
stack pointer or a read routine waits, and the most stack bytes that are in use below a
kernel entry, with an interrupt and all that it calls. -/
structure Env where
  image : Image
  afterShell : Nat → UInt8
  stack : Nat → UInt8
  executeDepth : ExecCaller → Nat
  waitDepth : Nat
  stackDepth : Nat
  executeDepth_le : ∀ caller, executeDepth caller ≤ stackDepth
  waitDepth_le : waitDepth ≤ stackDepth

/-- The command of `execute((uint8_t*)"shell")`. -/
def Env.shell (env : Env) : Command where
  byte := fun i =>
    if i < 5 then [0x73, 0x68, 0x65, 0x6C, 0x6C].getD i 0
    else if i = 5 then 0
    else env.afterShell (i - 6)
  parsedCmd := env.stack
  arg := env.stack
  buffer := env.stack

namespace Env

/-- A kernel on the sample image, with zeroed memory. -/
def sample : Env where
  image := Image.sample
  afterShell := fun _ => 0
  stack := fun _ => 0
  executeDepth := fun _ => 512
  waitDepth := 512
  stackDepth := 2048
  executeDepth_le := fun _ => by decide
  waitDepth_le := by decide

/-- The name `shell`. -/
def shellName : List UInt8 := [0x73, 0x68, 0x65, 0x6C, 0x6C]

/-- A loop of the parser stops at the first byte that stops it. -/
theorem scan_eq {c : Command} {stops : UInt8 → Bool} {start n : Nat} (inRange : n < 256)
    (stop : stops (c.byte ((start + n) % 256)) = true)
    (before : ∀ j < n, stops (c.byte ((start + j) % 256)) = false) :
    c.scan stops start = some ((start + n) % 256) := by
  have first : (List.range 256).find? (fun j => stops (c.byte ((start + j) % 256))) = some n := by
    rw [List.find?_range_eq_some]
    exact ⟨stop, List.mem_range.mpr inRange, fun j below => by simp [before j below]⟩
  rw [Command.scan, List.find?_map]
  simp only [Function.comp_def, first, Option.map_some]

/-- The command of the first shell of a terminal parses to the name `shell`. -/
theorem shell_name (env : Env) {parsed : Command.Parsed}
    (parses : env.shell.parse = some parsed) : parsed.name = shellName := by
  have nameStart : env.shell.scan (· ≠ 0x20) 0 = some 0 :=
    scan_eq (n := 0) (by decide) (by rfl) (by intro j below; omega)
  have nameEnd : env.shell.scan Command.isEnd 0 = some 5 := by
    apply scan_eq (n := 5) (by decide) (by rfl)
    intro j below
    interval_cases j <;> rfl
  have range : List.range 256 = [0, 1, 2, 3, 4] ++ 5 :: (List.range 250).map (6 + ·) := by
    rw [show 256 = 6 + 250 from rfl, List.range_add]
    rfl
  simp only [Command.parse, nameStart, nameEnd, Option.bind_eq_bind, Option.bind_some] at parses
  obtain ⟨argEnd, _, done⟩ := Option.bind_eq_some_iff.mp parses
  cases done
  dsimp only
  have array : (List.range 256).map (env.shell.copied env.shell.parsedCmd 0 5 (5 : Nat)) =
      shellName ++ 0 :: ((List.range 250).map (6 + ·)).map
        (env.shell.copied env.shell.parsedCmd 0 5 (5 : Nat)) := by
    rw [range, List.map_append]
    rfl
  rw [array]
  exact cString_append_zero (by decide) _

theorem shell_isExit (env : Env) {parsed : Command.Parsed}
    (parses : env.shell.parse = some parsed) : parsed.isExit = false := by
  rw [Command.Parsed.isExit, env.shell_name parses]
  decide

/-- The shell's command is not `exit`. -/
theorem not_exits_shell (env : Env) : ¬ env.shell.Exits := by
  rintro ⟨parsed, parses, isExit⟩
  rw [env.shell_isExit parses] at isExit
  cases isExit

end Env

end Ece391Os
