import Ece391Os.Console.Cursor

/-!
# The `printf` interpreters of `lib.c`

`printf` and `printf_terminal_active` interpret a format in the same way and
differ only in the output routine, so the interpretation is one function that
returns the characters sent to the console.  The format is the list of bytes in
memory from the format pointer on, its terminating NUL and whatever follows
included: a `%` in front of the NUL makes the interpreter step over it.
-/

namespace Ece391Os

/-- The stack words behind the format pointer, and the C strings that `%s` finds
at an address. -/
structure PrintfArgs where
  word : Nat → UInt32
  string : UInt32 → List UInt8

namespace Printf

/-- The digit table of `itoa`. -/
def lookup (digit : Nat) : UInt8 :=
  if digit < 10 then UInt8.ofNat (0x30 + digit) else UInt8.ofNat (0x37 + digit)

/-- The digit loop of `itoa`, lowest place first.  Below radix 2 the source
divides by zero or does not terminate; its callers pass 10 and 16. -/
def itoaLoop (radix newval : Nat) : List UInt8 :=
  if _h : newval = 0 ∨ radix < 2 then
    []
  else
    lookup (newval % radix) :: itoaLoop radix (newval / radix)
  termination_by newval
  decreasing_by exact Nat.div_lt_self (by omega) (by omega)

/-- `itoa(value, buf, radix)`: the string left in `buf`, reversed by `strrev`. -/
def itoa (value radix : Nat) : List UInt8 :=
  if value = 0 then [0x30] else (itoaLoop radix value).reverse

/-- `%x`, zero-padded to eight digits by the `#` flag. -/
def hexConversion (alternate : Bool) (value : UInt32) : List UInt8 :=
  let digits := itoa value.toNat 16
  if alternate then List.replicate (8 - digits.length) 0x30 ++ digits else digits

/-- `%d`: a negative value is negated as an unsigned word. -/
def decConversion (value : UInt32) : List UInt8 :=
  if 2 ^ 31 ≤ value.toNat then
    0x2D :: itoa (2 ^ 32 - value.toNat) 10
  else
    itoa value.toNat 10

/-- Prepend the output of one format byte and count it. -/
def emit (output : List UInt8) (rest : Option (List UInt8 × Nat)) :
    Option (List UInt8 × Nat) :=
  rest.map fun r => (output ++ r.1, r.2 + 1)

/-- Interpret a format from one of its bytes on.  The mode is `none` in the outer
loop and `some alternate` at the label `format_char_switch`; `arg` counts the
arguments fetched.  The result is the output and the number of bytes stepped
over, undefined when the interpreter leaves the given memory. -/
def interpret (args : PrintfArgs) : Option Bool → Nat → List UInt8 → Option (List UInt8 × Nat)
  | _, _, [] => none
  | none, arg, c :: rest =>
      if c = 0 then
        some ([], 0)
      else if c = 0x25 then
        emit [] (interpret args (some false) arg rest)
      else
        emit [c] (interpret args none arg rest)
  | some alternate, arg, c :: rest =>
      if c = 0x25 then
        emit [0x25] (interpret args none arg rest)
      else if c = 0x23 then
        emit [] (interpret args (some true) arg rest)
      else if c = 0x78 then
        emit (hexConversion alternate (args.word arg)) (interpret args none (arg + 1) rest)
      else if c = 0x75 then
        emit (itoa (args.word arg).toNat 10) (interpret args none (arg + 1) rest)
      else if c = 0x64 then
        emit (decConversion (args.word arg)) (interpret args none (arg + 1) rest)
      else if c = 0x63 then
        emit [UInt8.ofNat (args.word arg).toNat] (interpret args none (arg + 1) rest)
      else if c = 0x73 then
        emit (args.string (args.word arg)) (interpret args none (arg + 1) rest)
      else
        -- an unknown conversion is skipped, also when it is the terminating NUL
        emit [] (interpret args none arg rest)

/-- A string without `%` and NUL: printing it sends its bytes as they are. -/
def Plain (text : List UInt8) : Prop :=
  ∀ c ∈ text, c ≠ 0 ∧ c ≠ 0x25

instance (text : List UInt8) : Decidable (Plain text) :=
  inferInstanceAs (Decidable (∀ c ∈ text, c ≠ 0 ∧ c ≠ 0x25))

theorem interpret_plain (args : PrintfArgs) (arg : Nat) {text : List UInt8} (plain : Plain text)
    (after : List UInt8) :
    interpret args none arg (text ++ 0 :: after) = some (text, text.length) := by
  induction text with
  | nil => rfl
  | cons c text ih =>
      have headPlain := plain c List.mem_cons_self
      have tail := ih fun d member => plain d (List.mem_cons_of_mem c member)
      simp [interpret, headPlain.1, headPlain.2, tail, emit]

end Printf

namespace Kernel

/-- `printf(format, ...)`. -/
def printf (k : Kernel) (args : PrintfArgs) (format : List UInt8) : Option (Int × Kernel) :=
  (Printf.interpret args none 0 format).map fun r => (r.2, k.puts r.1)

/-- `printf_terminal_active(format, ...)`. -/
def printfTerminalActive (k : Kernel) (args : PrintfArgs) (format : List UInt8) :
    Option (Int × Kernel) :=
  (Printf.interpret args none 0 format).map fun r => (r.2, k.putsTerminalActive r.1)

theorem printf_plain (k : Kernel) (args : PrintfArgs) {text : List UInt8}
    (plain : Printf.Plain text) (after : List UInt8) :
    k.printf args (text ++ 0 :: after) = some ((text.length : Int), k.puts text) := by
  simp [printf, Printf.interpret_plain args 0 plain after]

theorem printfTerminalActive_plain (k : Kernel) (args : PrintfArgs) {text : List UInt8}
    (plain : Printf.Plain text) (after : List UInt8) :
    k.printfTerminalActive args (text ++ 0 :: after) =
      some ((text.length : Int), k.putsTerminalActive text) := by
  simp [printfTerminalActive, Printf.interpret_plain args 0 plain after]

end Kernel

end Ece391Os
