import Ece391Os.Console.Digits
import Ece391Os.Terminal.Write

/-!
# The two `printf` interpreters over memory

`printf` and `printf_terminal_active` with the bytes of the format that they read, the
arguments that they fetch and the characters that they output.  They do what is claimed of
them on the formats that do not end inside a conversion; behind any other format they read
on.
-/

namespace Ece391Os

open Memory Transition

namespace RawPrintf

/-- What a call of `printf` is given: memory, the format pointer, the arguments on the
stack, and what `conv_buf` holds when the conversion of an argument begins. -/
structure PrintfCall where
  memory : Nat → UInt8
  format : Nat
  args : List UInt32
  convBuf : Nat → Int → UInt8

/-- The variables of an interpreter, with the bytes of the format that it has read, the
arguments it has fetched, the characters it has output, and where they have gone. -/
structure Printing (σ : Type) where
  buf : Nat
  esp : Nat
  reads : List Nat
  fetched : List Nat
  output : List UInt8
  console : σ

namespace Printing

variable {σ : Type} (call : PrintfCall) (putc : σ → UInt8 → σ)

/-- Read `*buf`. -/
def readFormat (s : Printing σ) : Printing σ :=
  { s with reads := s.reads ++ [s.buf] }

/-- `buf++`. -/
def next (s : Printing σ) : Printing σ :=
  { s with buf := s.buf + 1 }

/-- Read `*esp`, which must be an argument. -/
def fetch (s : Printing σ) : Option (UInt32 × Printing σ) :=
  call.args[s.esp]?.map fun word => (word, { s with fetched := s.fetched ++ [s.esp] })

/-- `esp++`. -/
def nextArg (s : Printing σ) : Printing σ :=
  { s with esp := s.esp + 1 }

/-- Output a character. -/
def put (s : Printing σ) (c : UInt8) : Printing σ :=
  { s with output := s.output ++ [c], console := putc s.console c }

/-- Convert a number in `conv_buf` and output it. -/
def putNumber (bound : Nat) (conversion : UInt32 → Logged Int → Option Converted)
    (s : Printing σ) : Option (Printing σ) := do
  let word ← s.fetch call
  let converted ← conversion word.1 { byte := call.convBuf s.esp, stores := [] }
  let sent ← puts (put putc) bound (chars converted.convBuf converted.start) word.2
  some sent.2.nextArg

/-- `%c`. -/
def putChar (s : Printing σ) : Option (Printing σ) :=
  (s.fetch call).map fun word => (word.2.put putc (UInt8.ofNat word.1.toNat)).nextArg

/-- `%s`. -/
def putString (bound : Nat) (s : Printing σ) : Option (Printing σ) := do
  let word ← s.fetch call
  let sent ← puts (put putc) bound (fun i => call.memory (word.1.toNat + i)) word.2
  some sent.2.nextArg

end Printing

/-- The interpreter, by the routine that outputs a character.  It goes on from the test of
the outer loop, or from the label `format_char_switch` with the value of `alternate`; the
`break` of every case leads to `buf++` and the test. -/
def interpretFrom {σ : Type} (call : PrintfCall) (putc : σ → UInt8 → σ) :
    Nat → Option Bool → Printing σ → Option (Printing σ)
  | 0, _, _ => none
  | bound + 1, none, s =>
      let c := call.memory s.buf
      let s := s.readFormat
      if c = 0 then
        some s
      else if c = 0x25 then
        interpretFrom call putc bound (some false) s.next
      else
        interpretFrom call putc bound none (s.put putc c).next
  | bound + 1, some alternate, s =>
      let c := call.memory s.buf
      let s := s.readFormat
      if c = 0x25 then
        interpretFrom call putc bound none (s.put putc 0x25).next
      else if c = 0x23 then
        interpretFrom call putc bound (some true) s.next
      else if c = 0x78 then
        (s.putNumber call putc bound (hexConversion bound alternate)).bind fun s =>
          interpretFrom call putc bound none s.next
      else if c = 0x75 then
        (s.putNumber call putc bound (unsignedConversion bound)).bind fun s =>
          interpretFrom call putc bound none s.next
      else if c = 0x64 then
        (s.putNumber call putc bound (decConversion bound)).bind fun s =>
          interpretFrom call putc bound none s.next
      else if c = 0x63 then
        (s.putChar call putc).bind fun s => interpretFrom call putc bound none s.next
      else if c = 0x73 then
        (s.putString call putc bound).bind fun s => interpretFrom call putc bound none s.next
      else
        interpretFrom call putc bound none s.next

/-- The first state of an interpreter. -/
def startOf {σ : Type} (call : PrintfCall) (console : σ) : Printing σ where
  buf := call.format
  esp := 0
  reads := []
  fetched := []
  output := []
  console := console

/-- A call of an interpreter: `buf - format`, and its last state. -/
def interpretFormat {σ : Type} (call : PrintfCall) (putc : σ → UInt8 → σ) (console : σ)
    (bound : Nat) : Option (Int × Printing σ) :=
  (interpretFrom call putc bound none (startOf call console)).map fun s =>
    ((s.buf : Int) - call.format, s)

/-- `printf(format, ...)`. -/
def printf (call : PrintfCall) (k : Kernel) (bound : Nat) : Option (Int × Printing Kernel) :=
  interpretFormat call Kernel.putc k bound

/-- `printf_terminal_active(format, ...)`. -/
def printfTerminalActive (call : PrintfCall) (k : Kernel) (bound : Nat) :
    Option (Int × Printing Kernel) :=
  interpretFormat call Kernel.putcTerminalActive k bound

/-! ## Formats -/

/-- The letters of the conversions that take an argument: `x`, `u`, `d`, `c` and `s`. -/
def argLetters : List UInt8 :=
  [0x78, 0x75, 0x64, 0x63, 0x73]

/-- The conversions of a format that take an argument, in order, from inside a conversion or
outside. -/
def conversions : Bool → List UInt8 → List UInt8
  | _, [] => []
  | false, c :: text => conversions (c = 0x25) text
  | true, c :: text =>
      if c = 0x23 then conversions true text
      else if c ∈ argLetters then c :: conversions false text
      else conversions false text

/-- A text ends inside a conversion. -/
def endsInside : Bool → List UInt8 → Bool
  | inside, [] => inside
  | false, c :: text => endsInside (c = 0x25) text
  | true, c :: text => endsInside (c = 0x23) text

/-- The format is complete: it does not end in a `%` with flags only. -/
def Complete (text : List UInt8) : Prop :=
  endsInside false text = false

instance (text : List UInt8) : Decidable (Complete text) :=
  inferInstanceAs (Decidable (endsInside false text = false))

/-- The argument of `%s` points to a string. -/
def Fits (memory : Nat → UInt8) (letter : UInt8) (word : UInt32) : Prop :=
  letter = 0x73 → ∃ text, IsString (fun i => memory (word.toNat + i)) text

/-- The format pointer points to a text, and the arguments match its conversions. -/
structure Matches (call : PrintfCall) (text : List UInt8) : Prop where
  format : IsString (fun i => call.memory (call.format + i)) text
  args : List.Forall₂ (Fits call.memory) (conversions false text) call.args

/-! ## One byte of a format -/

namespace Printing

variable {σ : Type} {call : PrintfCall} {putc : σ → UInt8 → σ}

/-- Output of a text. -/
def putText (putc : σ → UInt8 → σ) (s : Printing σ) (text : List UInt8) : Printing σ :=
  { s with output := s.output ++ text, console := text.foldl putc s.console }

theorem putText_nil (s : Printing σ) : s.putText putc [] = s := by
  simp [putText]

theorem putText_singleton (s : Printing σ) (c : UInt8) : s.putText putc [c] = s.put putc c :=
  rfl

theorem foldl_put (s : Printing σ) (text : List UInt8) :
    text.foldl (put putc) s = s.putText putc text := by
  induction text generalizing s with
  | nil => exact (putText_nil s).symm
  | cons c text ih =>
      rw [List.foldl_cons, ih]
      simp [putText, put]

/-- The state after an argument has been fetched and a text been output. -/
def converted (putc : σ → UInt8 → σ) (s : Printing σ) (text : List UInt8) : Printing σ :=
  ({ s with fetched := s.fetched ++ [s.esp] }.putText putc text).nextArg

variable {s : Printing σ} {word : UInt32} (arg : call.args[s.esp]? = some word)
include arg

theorem fetch_eq :
    s.fetch call = some (word, { s with fetched := s.fetched ++ [s.esp] }) := by
  rw [fetch, arg]
  rfl

theorem putNumber_returns {size : Nat} {text : List UInt8}
    {conversion : Nat → UInt32 → Logged Int → Option Converted}
    (prints : ∀ m, Prints size (fun bound => conversion bound word m) m text) :
    Returns (fun bound => s.putNumber call putc bound (conversion bound))
      (s.converted putc text) := by
  rcases prints { byte := call.convBuf s.esp, stores := [] } with ⟨c, returns, string, _⟩
  have sends := puts_returns (put putc) { s with fetched := s.fetched ++ [s.esp] } string
  rw [foldl_put] at sends
  have same : (fun bound => s.putNumber call putc bound (conversion bound)) = fun bound =>
      (conversion bound word { byte := call.convBuf s.esp, stores := [] }).bind fun converted =>
        (puts (put putc) bound (chars converted.convBuf converted.start)
          { s with fetched := s.fetched ++ [s.esp] }).bind fun sent => some sent.2.nextArg := by
    funext bound
    rw [putNumber, fetch_eq arg]
    rfl
  rw [same]
  exact returns.bind (sends.bind (.pure _))

theorem putString_returns {text : List UInt8}
    (string : IsString (fun i => call.memory (word.toNat + i)) text) :
    Returns (fun bound => s.putString call putc bound) (s.converted putc text) := by
  have sends := puts_returns (put putc) { s with fetched := s.fetched ++ [s.esp] } string
  rw [foldl_put] at sends
  have same : (fun bound => s.putString call putc bound) = fun bound =>
      (puts (put putc) bound (fun i => call.memory (word.toNat + i))
        { s with fetched := s.fetched ++ [s.esp] }).bind fun sent => some sent.2.nextArg := by
    funext bound
    rw [putString, fetch_eq arg]
    rfl
  rw [same]
  exact sends.bind (.pure _)

theorem putChar_eq :
    s.putChar call putc = some (s.converted putc [UInt8.ofNat word.toNat]) := by
  rw [putChar, fetch_eq arg]
  rfl

end Printing

/-- What a byte of a format outputs, the mode it leads to, and the next argument. -/
def scanByte (args : PrintfArgs) (mode : Option Bool) (arg : Nat) (c : UInt8) :
    List UInt8 × Option Bool × Nat :=
  match mode with
  | none => if c = 0x25 then ([], some false, arg) else ([c], none, arg)
  | some alternate => Printf.conversion args alternate arg c

/-- The state of an interpreter behind a byte. -/
def Printing.behind {σ : Type} (putc : σ → UInt8 → σ) (s : Printing σ)
    (scanned : List UInt8 × Option Bool × Nat) : Printing σ where
  buf := s.buf + 1
  esp := scanned.2.2
  reads := s.reads ++ [s.buf]
  fetched := s.fetched ++ List.range' s.esp (scanned.2.2 - s.esp)
  output := s.output ++ scanned.1
  console := scanned.1.foldl putc s.console

/-- The byte takes an argument. -/
def TakesArg (mode : Option Bool) (c : UInt8) : Prop :=
  mode.isSome ∧ c ∈ argLetters

/-- The next argument is the given one, and a string for `%s`. -/
structure HasArg (call : PrintfCall) (args : PrintfArgs) (arg : Nat) (c : UInt8) : Prop where
  word : call.args[arg]? = some (args.word arg)
  string : c = 0x73 → IsString (fun i => call.memory ((args.word arg).toNat + i))
    (args.string (args.word arg))

section Scan

variable {σ : Type} {call : PrintfCall} {putc : σ → UInt8 → σ} {args : PrintfArgs}
  {mode : Option Bool} {s : Printing σ} {c : UInt8}

/-- A byte that takes no argument. -/
theorem behind_of_noArg {sent : List UInt8} {next : Option Bool} :
    s.behind putc (sent, next, s.esp) = (s.readFormat.putText putc sent).next := by
  simp [Printing.behind, Printing.readFormat, Printing.putText, Printing.next]

theorem behind_of_arg {sent : List UInt8} {next : Option Bool} :
    s.behind putc (sent, next, s.esp + 1) = (s.readFormat.converted putc sent).next := by
  simp [Printing.behind, Printing.readFormat, Printing.putText, Printing.next,
    Printing.converted, Printing.nextArg, List.range'_one]

/-- An interpreter goes on behind a byte of its format. -/
theorem interpretFrom_scan (here : call.memory s.buf = c) (inside : mode = none → c ≠ 0)
    (hasArg : TakesArg mode c → HasArg call args s.esp c) {final : Printing σ} :
    Returns (fun bound => interpretFrom call putc bound mode s) final ↔
      Returns (fun bound => interpretFrom call putc bound (scanByte args mode s.esp c).2.1
        (s.behind putc (scanByte args mode s.esp c))) final := by
  rw [← Returns.round_iff]
  cases mode with
  | none =>
      have noNul := inside rfl
      by_cases percent : c = 0x25
      · simp only [interpretFrom, here, scanByte, if_neg noNul, if_pos percent, behind_of_noArg,
          Printing.putText_nil]
      · simp only [interpretFrom, here, scanByte, if_neg noNul, if_neg percent, behind_of_noArg,
          Printing.putText_singleton]
  | some alternate =>
      have takes : c ∈ argLetters → call.args[s.readFormat.esp]? = some (args.word s.esp) :=
        fun letter => (hasArg ⟨rfl, letter⟩).word
      simp only [interpretFrom, here, scanByte, Printf.conversion]
      by_cases percent : c = 0x25
      · simp only [if_pos percent]
        rw [behind_of_noArg, Printing.putText_singleton]
      simp only [if_neg percent]
      by_cases flag : c = 0x23
      · simp only [if_pos flag]
        rw [behind_of_noArg, Printing.putText_nil]
      simp only [if_neg flag]
      by_cases hex : c = 0x78
      · have arg := takes (by rw [hex]; decide)
        simp only [if_pos hex]
        rw [behind_of_arg]
        exact Returns.bind_iff (Printing.putNumber_returns arg (hex_prints alternate _))
      simp only [if_neg hex]
      by_cases unsigned : c = 0x75
      · have arg := takes (by rw [unsigned]; decide)
        simp only [if_pos unsigned]
        rw [behind_of_arg]
        exact Returns.bind_iff (Printing.putNumber_returns arg (unsigned_prints _))
      simp only [if_neg unsigned]
      by_cases dec : c = 0x64
      · have arg := takes (by rw [dec]; decide)
        simp only [if_pos dec]
        rw [behind_of_arg]
        exact Returns.bind_iff (Printing.putNumber_returns arg (dec_prints _))
      simp only [if_neg dec]
      by_cases char : c = 0x63
      · have arg := takes (by rw [char]; decide)
        simp only [if_pos char]
        rw [behind_of_arg, Printing.putChar_eq arg]
        rfl
      simp only [if_neg char]
      by_cases string : c = 0x73
      · have letter : c ∈ argLetters := by
          rw [string]
          decide
        simp only [if_pos string]
        rw [behind_of_arg]
        exact Returns.bind_iff
          (Printing.putString_returns (takes letter) ((hasArg ⟨rfl, letter⟩).string string))
      · simp only [if_neg string]
        rw [behind_of_noArg, Printing.putText_nil]

end Scan

/-! ## Whole formats -/

instance (mode : Option Bool) (c : UInt8) : Decidable (TakesArg mode c) :=
  inferInstanceAs (Decidable (mode.isSome ∧ c ∈ argLetters))

theorem not_takesArg_none (c : UInt8) : ¬ TakesArg none c :=
  fun takes => Bool.noConfusion takes.1

theorem takesArg_some_iff {alternate : Bool} {c : UInt8} :
    TakesArg (some alternate) c ↔ c ∈ argLetters :=
  ⟨And.right, fun letter => ⟨rfl, letter⟩⟩

/-- A conversion goes on behind a flag only. -/
theorem mode_conversion (args : PrintfArgs) (alternate : Bool) (arg : Nat) (c : UInt8) :
    (Printf.conversion args alternate arg c).2.1 = if c = 0x23 then some true else none := by
  unfold Printf.conversion
  by_cases flag : c = 0x23
  · subst flag
    rfl
  · rw [if_neg flag, if_neg flag]
    split_ifs <;> rfl

/-- A conversion takes an argument at its letter. -/
theorem nextArg_conversion (args : PrintfArgs) (alternate : Bool) (arg : Nat) (c : UInt8) :
    (Printf.conversion args alternate arg c).2.2 = if c ∈ argLetters then arg + 1 else arg := by
  by_cases letter : c ∈ argLetters
  · rw [if_pos letter]
    rcases List.mem_cons.mp letter with rfl | letter
    · rfl
    simp only [List.mem_cons, List.not_mem_nil, or_false] at letter
    rcases letter with rfl | rfl | rfl | rfl <;> rfl
  · have others : ∀ l ∈ argLetters, c ≠ l := fun l member same => letter (same ▸ member)
    rw [if_neg letter, Printf.conversion, if_neg (others 0x78 (by decide)),
      if_neg (others 0x75 (by decide)), if_neg (others 0x64 (by decide)),
      if_neg (others 0x63 (by decide)), if_neg (others 0x73 (by decide))]
    split_ifs <;> rfl

/-- The mode behind a byte outside a conversion. -/
theorem mode_scanByte_none (args : PrintfArgs) (arg : Nat) (c : UInt8) :
    (scanByte args none arg c).2.1.isSome = decide (c = 0x25) := by
  rw [scanByte]
  by_cases percent : c = 0x25
  · rw [if_pos percent, decide_eq_true percent]
    rfl
  · rw [if_neg percent, decide_eq_false percent]
    rfl

/-- The mode behind a byte of a conversion. -/
theorem mode_scanByte_some (args : PrintfArgs) (alternate : Bool) (arg : Nat) (c : UInt8) :
    (scanByte args (some alternate) arg c).2.1.isSome = decide (c = 0x23) := by
  rw [scanByte, mode_conversion]
  by_cases flag : c = 0x23
  · rw [if_pos flag, decide_eq_true flag]
    rfl
  · rw [if_neg flag, decide_eq_false flag]
    rfl

/-- The bytes of a text that take an argument. -/
theorem conversions_cons (args : PrintfArgs) (mode : Option Bool) (arg : Nat) (c : UInt8)
    (text : List UInt8) :
    conversions mode.isSome (c :: text) =
      (if TakesArg mode c then [c] else []) ++
        conversions (scanByte args mode arg c).2.1.isSome text := by
  cases mode with
  | none =>
      rw [if_neg (not_takesArg_none c), List.nil_append, mode_scanByte_none]
      rfl
  | some alternate =>
      rw [mode_scanByte_some, Option.isSome_some, conversions]
      simp only [takesArg_some_iff]
      by_cases flag : c = 0x23
      · subst flag
        rfl
      rw [if_neg flag, decide_eq_false flag]
      by_cases letter : c ∈ argLetters
      · rw [if_pos letter, if_pos letter]
        rfl
      · rw [if_neg letter, if_neg letter]
        rfl

theorem nextArg_scanByte (args : PrintfArgs) (mode : Option Bool) (arg : Nat) (c : UInt8) :
    (scanByte args mode arg c).2.2 = arg + (if TakesArg mode c then [c] else []).length := by
  cases mode with
  | none =>
      rw [if_neg (not_takesArg_none c), scanByte]
      split <;> rfl
  | some alternate =>
      rw [scanByte, nextArg_conversion]
      simp only [takesArg_some_iff]
      split <;> rfl

theorem endsInside_cons (args : PrintfArgs) (mode : Option Bool) (arg : Nat) (c : UInt8)
    (text : List UInt8) :
    endsInside mode.isSome (c :: text) =
      endsInside (scanByte args mode arg c).2.1.isSome text := by
  cases mode with
  | none =>
      rw [mode_scanByte_none]
      rfl
  | some alternate =>
      rw [mode_scanByte_some]
      rfl

/-- What a text outputs, the mode it leads to, and the next argument. -/
def scanText (args : PrintfArgs) : Option Bool → Nat → List UInt8 → List UInt8 × Option Bool × Nat
  | mode, arg, [] => ([], mode, arg)
  | mode, arg, c :: text =>
      let byte := scanByte args mode arg c
      let rest := scanText args byte.2.1 byte.2.2 text
      (byte.1 ++ rest.1, rest.2)

theorem nextArg_scanText (args : PrintfArgs) (mode : Option Bool) (arg : Nat)
    (text : List UInt8) :
    (scanText args mode arg text).2.2 = arg + (conversions mode.isSome text).length := by
  induction text generalizing mode arg with
  | nil => cases mode <;> rfl
  | cons c text ih =>
      rw [scanText, conversions_cons args mode arg, List.length_append, ← Nat.add_assoc,
        ← nextArg_scanByte args]
      exact ih _ _

theorem endsInside_scanText (args : PrintfArgs) (mode : Option Bool) (arg : Nat)
    (text : List UInt8) :
    (scanText args mode arg text).2.1.isSome = endsInside mode.isSome text := by
  induction text generalizing mode arg with
  | nil => cases mode <;> rfl
  | cons c text ih =>
      rw [endsInside_cons args mode arg]
      exact ih _ _

/-- A complete format leads to the outer loop. -/
theorem scanText_complete (args : PrintfArgs) {text : List UInt8} (complete : Complete text) :
    (scanText args none 0 text).2.1 = none := by
  have inside := endsInside_scanText args none 0 text
  rw [Option.isSome_none, complete] at inside
  exact Option.isNone_iff_eq_none.mp (Option.isSome_eq_false_iff.mp inside)

/-- The state of an interpreter behind a text. -/
def Printing.behindText {σ : Type} (putc : σ → UInt8 → σ) (s : Printing σ) (length : Nat)
    (scanned : List UInt8 × Option Bool × Nat) : Printing σ where
  buf := s.buf + length
  esp := scanned.2.2
  reads := s.reads ++ List.range' s.buf length
  fetched := s.fetched ++ List.range' s.esp (scanned.2.2 - s.esp)
  output := s.output ++ scanned.1
  console := scanned.1.foldl putc s.console

/-- A byte and the text behind it. -/
theorem Printing.behindText_cons {σ : Type} (putc : σ → UInt8 → σ) (s : Printing σ)
    (length : Nat) {byte rest : List UInt8 × Option Bool × Nat} (first : s.esp ≤ byte.2.2)
    (later : byte.2.2 ≤ rest.2.2) :
    (s.behind putc byte).behindText putc length rest =
      s.behindText putc (length + 1) (byte.1 ++ rest.1, rest.2) := by
  have reads : s.reads ++ [s.buf] ++ List.range' (s.buf + 1) length =
      s.reads ++ List.range' s.buf (length + 1) := by
    rw [List.append_assoc, List.range'_succ, List.singleton_append]
  have fetched : s.fetched ++ List.range' s.esp (byte.2.2 - s.esp) ++
      List.range' byte.2.2 (rest.2.2 - byte.2.2) =
      s.fetched ++ List.range' s.esp (rest.2.2 - s.esp) := by
    have here : s.esp + (byte.2.2 - s.esp) = byte.2.2 := Nat.add_sub_cancel' first
    have count : rest.2.2 - s.esp = byte.2.2 - s.esp + (rest.2.2 - byte.2.2) := by omega
    rw [List.append_assoc, count, ← List.range'_append_1, here]
  unfold Printing.behindText Printing.behind
  dsimp only
  rw [reads, fetched, List.append_assoc, List.foldl_append, Nat.add_assoc, Nat.add_comm 1]

/-- The arguments of the interpretation of a list of bytes are those of a call. -/
structure ArgsOf (call : PrintfCall) (args : PrintfArgs) : Prop where
  word : ∀ i word, call.args[i]? = some word → args.word i = word
  string : ∀ word text, IsString (fun i => call.memory (word.toNat + i)) text →
    args.string word = text

section Formats

variable {σ : Type} {call : PrintfCall} {putc : σ → UInt8 → σ} {args : PrintfArgs}

theorem hasArg_of_fits (argsOf : ArgsOf call args) {arg : Nat} {c : UInt8} {rest : List UInt8}
    (fits : List.Forall₂ (Fits call.memory) (c :: rest) (call.args.drop arg)) :
    HasArg call args arg c ∧ List.Forall₂ (Fits call.memory) rest (call.args.drop (arg + 1)) := by
  cases words : call.args.drop arg with
  | nil =>
      rw [words] at fits
      cases fits
  | cons word others =>
      rw [words] at fits
      have first : call.args[arg]? = some word := by
        rw [← List.head?_drop, words]
        rfl
      have tail : call.args.drop (arg + 1) = others := by
        rw [← List.tail_drop, words]
        rfl
      rcases List.forall₂_cons.mp fits with ⟨string, restFits⟩
      rw [tail]
      refine ⟨⟨?_, ?_⟩, restFits⟩
      · rw [argsOf.word arg word first]
        exact first
      · intro letter
        rcases string letter with ⟨text, there⟩
        rw [argsOf.word arg word first, argsOf.string word text there]
        exact there

/-- An interpreter goes on behind a text. -/
theorem interpretFrom_text (argsOf : ArgsOf call args) {mode : Option Bool} {s : Printing σ}
    {text : List UInt8} (here : Holds call.memory s.buf text) (noNul : 0 ∉ text)
    (fits : List.Forall₂ (Fits call.memory) (conversions mode.isSome text)
      (call.args.drop s.esp)) {final : Printing σ} :
    Returns (fun bound => interpretFrom call putc bound mode s) final ↔
      Returns (fun bound => interpretFrom call putc bound (scanText args mode s.esp text).2.1
        (s.behindText putc text.length (scanText args mode s.esp text))) final := by
  induction text generalizing mode s with
  | nil =>
      have same : s.behindText putc 0 ([], mode, s.esp) = s := by
        simp [Printing.behindText]
      rw [List.length_nil, scanText, same]
  | cons c text ih =>
      rcases holds_cons.mp here with ⟨first, others⟩
      rw [List.mem_cons, not_or] at noNul
      rw [conversions_cons args mode s.esp] at fits
      have step : (TakesArg mode c → HasArg call args s.esp c) ∧
          List.Forall₂ (Fits call.memory)
            (conversions (scanByte args mode s.esp c).2.1.isSome text)
            (call.args.drop (scanByte args mode s.esp c).2.2) := by
        rw [nextArg_scanByte]
        by_cases takes : TakesArg mode c
        · rw [if_pos takes] at fits ⊢
          rcases hasArg_of_fits argsOf fits with ⟨hasArg, restFits⟩
          exact ⟨fun _ => hasArg, restFits⟩
        · rw [if_neg takes] at fits ⊢
          exact ⟨fun impossible => absurd impossible takes, fits⟩
      rw [interpretFrom_scan first (fun _ => Ne.symm noNul.1) step.1,
        ih others noNul.2 step.2]
      have first : s.esp ≤ (scanByte args mode s.esp c).2.2 := by
        rw [nextArg_scanByte]
        exact Nat.le_add_right _ _
      have later : (scanByte args mode s.esp c).2.2 ≤
          (scanText args (scanByte args mode s.esp c).2.1 (scanByte args mode s.esp c).2.2
            text).2.2 := by
        rw [nextArg_scanText]
        exact Nat.le_add_right _ _
      have whole := s.behindText_cons putc text.length first later
      have state : (s.behind putc (scanByte args mode s.esp c)).esp =
          (scanByte args mode s.esp c).2.2 := rfl
      rw [state, whole]
      rfl

end Formats

/-! ## What the interpreters read -/

namespace Printing

variable {σ : Type} {call : PrintfCall} {putc : σ → UInt8 → σ} {s s' : Printing σ}

theorem reads_of_fetch {word : UInt32} (fetches : s.fetch call = some (word, s')) :
    s'.reads = s.reads := by
  rcases Option.map_eq_some_iff.mp fetches with ⟨_, _, same⟩
  cases same
  rfl

theorem reads_of_puts {bound : Nat} {char : Nat → UInt8} {r : Nat × Printing σ}
    (ends : puts (put putc) bound char s = some r) : r.2.reads = s.reads := by
  unfold puts at ends
  apply whileLoop_invariant (fun r : Nat × Printing σ => r.2.reads = s.reads) _ rfl ends
  exact fun _ kept => kept

theorem reads_of_putNumber {bound : Nat} {conversion : UInt32 → Logged Int → Option Converted}
    (ends : s.putNumber call putc bound conversion = some s') : s'.reads = s.reads := by
  rcases Option.bind_eq_some_iff.mp ends with ⟨⟨word, fetched⟩, fetches, ends⟩
  rcases Option.bind_eq_some_iff.mp ends with ⟨converted, _, ends⟩
  rcases Option.bind_eq_some_iff.mp ends with ⟨sent, sends, same⟩
  cases same
  exact (reads_of_puts sends).trans (reads_of_fetch fetches)

theorem reads_of_putString {bound : Nat} (ends : s.putString call putc bound = some s') :
    s'.reads = s.reads := by
  rcases Option.bind_eq_some_iff.mp ends with ⟨⟨word, fetched⟩, fetches, ends⟩
  rcases Option.bind_eq_some_iff.mp ends with ⟨sent, sends, same⟩
  cases same
  exact (reads_of_puts sends).trans (reads_of_fetch fetches)

theorem reads_of_putChar (ends : s.putChar call putc = some s') : s'.reads = s.reads := by
  rcases Option.map_eq_some_iff.mp ends with ⟨⟨word, fetched⟩, fetches, rfl⟩
  have same : fetched.reads = s.reads := reads_of_fetch fetches
  exact same

end Printing

/-- One byte further an interpreter has read that byte. -/
theorem reads_step {σ : Type} {call : PrintfCall} {putc : σ → UInt8 → σ} {bound : Nat}
    {mode : Option Bool} {s final : Printing σ}
    (ends : interpretFrom call putc (bound + 1) mode s = some final) :
    final.reads = s.reads ++ [s.buf] ∨
      ∃ mode' s', interpretFrom call putc bound mode' s' = some final ∧
        s'.reads = s.reads ++ [s.buf] := by
  cases mode with
  | none =>
      simp only [interpretFrom] at ends
      split_ifs at ends
      · cases ends
        exact .inl rfl
      · exact .inr ⟨_, _, ends, rfl⟩
      · exact .inr ⟨_, _, ends, rfl⟩
  | some alternate =>
      right
      simp only [interpretFrom] at ends
      split_ifs at ends
      · exact ⟨_, _, ends, rfl⟩
      · exact ⟨_, _, ends, rfl⟩
      · rcases Option.bind_eq_some_iff.mp ends with ⟨s', number, ends⟩
        exact ⟨_, _, ends, Printing.reads_of_putNumber number⟩
      · rcases Option.bind_eq_some_iff.mp ends with ⟨s', number, ends⟩
        exact ⟨_, _, ends, Printing.reads_of_putNumber number⟩
      · rcases Option.bind_eq_some_iff.mp ends with ⟨s', number, ends⟩
        exact ⟨_, _, ends, Printing.reads_of_putNumber number⟩
      · rcases Option.bind_eq_some_iff.mp ends with ⟨s', char, ends⟩
        exact ⟨_, _, ends, Printing.reads_of_putChar char⟩
      · rcases Option.bind_eq_some_iff.mp ends with ⟨s', string, ends⟩
        exact ⟨_, _, ends, Printing.reads_of_putString string⟩
      · exact ⟨_, _, ends, rfl⟩

/-- An interpreter reads the byte at which it goes on. -/
theorem reads_prefix {σ : Type} {call : PrintfCall} {putc : σ → UInt8 → σ} {bound : Nat}
    {mode : Option Bool} {s final : Printing σ}
    (ends : interpretFrom call putc bound mode s = some final) :
    s.reads ++ [s.buf] <+: final.reads := by
  induction bound generalizing mode s with
  | zero => cases ends
  | succ bound ih =>
      rcases reads_step ends with read | ⟨mode', s', rest, read⟩
      · rw [← read]
      · rw [← read]
        exact (List.prefix_append _ _).trans (ih rest)

/-! ## Complete formats -/

/-- One string is at a pointer. -/
theorem IsString.unique {char : Nat → UInt8} {text other : List UInt8}
    (string : IsString char text) (second : IsString char other) : text = other := by
  have one := puts_returns (fun (output : List UInt8) c => output ++ [c]) [] string
  have two := puts_returns (fun (output : List UInt8) c => output ++ [c]) [] second
  have same := (Prod.mk.inj (one.unique two)).2
  rwa [foldl_concat_eq, foldl_concat_eq, List.nil_append, List.nil_append] at same

/-- The words and strings that a call is given. -/
theorem exists_argsOf (call : PrintfCall) : ∃ args, ArgsOf call args := by
  classical
  let textAt (word : UInt32) : List UInt8 :=
    if there : ∃ text, IsString (fun i => call.memory (word.toNat + i)) text then there.choose
    else []
  refine ⟨{ word := fun i => call.args[i]?.getD 0, string := textAt }, ?_, ?_⟩
  · intro i word found
    dsimp only
    rw [found]
    rfl
  · intro word text string
    have there : ∃ text, IsString (fun i => call.memory (word.toNat + i)) text := ⟨text, string⟩
    dsimp only [textAt]
    rw [dif_pos there]
    exact there.choose_spec.unique string

section Calls

variable {σ : Type} {call : PrintfCall} {putc : σ → UInt8 → σ} {args : PrintfArgs}
  {console : σ} {text : List UInt8}

/-- The last state of an interpreter on a complete format. -/
def endOf (call : PrintfCall) (putc : σ → UInt8 → σ) (args : PrintfArgs) (console : σ)
    (text : List UInt8) : Printing σ :=
  ((startOf call console).behindText putc text.length (scanText args none 0 text)).readFormat

section Matched

variable (matched : Matches call text) (argsOf : ArgsOf call args)
include matched argsOf

/-- An interpreter goes on behind the text of its format. -/
theorem startOf_text {final : Printing σ} :
    Returns (fun bound => interpretFrom call putc bound none (startOf call console)) final ↔
      Returns (fun bound => interpretFrom call putc bound (scanText args none 0 text).2.1
        ((startOf call console).behindText putc text.length (scanText args none 0 text)))
        final := by
  have here : Holds call.memory call.format text := by
    intro i inside
    have char := matched.format.char_eq inside
    exact char
  have fits : List.Forall₂ (Fits call.memory) (conversions (none : Option Bool).isSome text)
      (call.args.drop (startOf call console).esp) := matched.args
  exact interpretFrom_text argsOf here matched.format.2 fits

/-- On a complete format an interpreter stops at the NUL. -/
theorem interpretFormat_complete (complete : Complete text) :
    Returns (interpretFormat call putc console)
      ((text.length : Int), endOf call putc args console text) := by
  have outside := scanText_complete args complete
  have ends : Returns (fun bound => interpretFrom call putc bound none (startOf call console))
      (endOf call putc args console text) := by
    rw [startOf_text matched argsOf, outside, ← Returns.round_iff]
    have nul := (matched.format.char_eq_zero_iff (Nat.le_refl _)).mpr rfl
    have same : (fun bound => interpretFrom call putc (bound + 1) none
        ((startOf call console).behindText putc text.length (scanText args none 0 text))) =
        fun _ => some (endOf call putc args console text) := by
      funext bound
      exact if_pos nul
    rw [same]
    exact .pure _
  have value : ((endOf call putc args console text).buf : Int) - call.format = text.length :=
    add_sub_cancel_left (call.format : Int) text.length
  rw [← value]
  exact ends.map

/-- Behind an incomplete format an interpreter reads on. -/
theorem reads_behind (incomplete : ¬ Complete text) {r : Int × Printing σ}
    (returns : Returns (interpretFormat call putc console) r) :
    call.format + text.length + 1 ∈ r.2.reads := by
  have inside : ∃ alternate, (scanText args none 0 text).2.1 = some alternate := by
    have inside := endsInside_scanText args none 0 text
    rw [Option.isSome_none, Bool.eq_true_of_not_eq_false incomplete] at inside
    exact Option.isSome_iff_exists.mp inside
  rcases inside with ⟨alternate, inside⟩
  have pairs : Function.Injective fun s : Printing σ => ((s.buf : Int) - call.format, s) :=
    fun _ _ same => (Prod.mk.inj same).2
  rcases Returns.of_map pairs returns with ⟨final, ends, rfl⟩
  have nul := (matched.format.char_eq_zero_iff (Nat.le_refl _)).mpr rfl
  have noArg : ¬ TakesArg (some alternate) 0 := by
    rw [takesArg_some_iff]
    decide
  have hasArg : TakesArg (some alternate) 0 →
      HasArg call args (scanText args none 0 text).2.2 0 := fun takes => absurd takes noArg
  have start := (startOf_text matched argsOf).mp ends
  rw [inside, interpretFrom_scan nul (fun outer => by cases outer) hasArg] at start
  rcases start with ⟨least, start⟩
  have read := reads_prefix (start least (Nat.le_refl _))
  exact read.subset (List.mem_append_right _ List.mem_cons_self)

end Matched

end Calls

/-- What is claimed of one interpreter: it reads no byte behind the NUL of its format,
fetches one argument for each conversion, outputs a text and returns the length of the
format. -/
structure Interpreted (call : PrintfCall) (text output : List UInt8)
    (r : Int × Printing Kernel) : Prop where
  value : r.1 = text.length
  reads : ∀ address ∈ r.2.reads,
    call.format ≤ address ∧ address ≤ call.format + text.length
  fetched : r.2.fetched = List.range (conversions false text).length
  output : r.2.output = output

/-- The two interpreters are safe and agree. -/
def SafeAndAgree (call : PrintfCall) (text : List UInt8) (k : Kernel) : Prop :=
  ∃ r r' output, Returns (printf call k) r ∧ Returns (printfTerminalActive call k) r' ∧
    Interpreted call text output r ∧ Interpreted call text output r'

theorem interpreted_endOf {call : PrintfCall} (putc : Kernel → UInt8 → Kernel)
    (args : PrintfArgs) (k : Kernel) (text : List UInt8) :
    Interpreted call text (scanText args none 0 text).1
      ((text.length : Int), endOf call putc args k text) := by
  constructor
  case value => rfl
  case reads =>
    intro address member
    rcases List.mem_append.mp member with before | last
    · have within : call.format ≤ address ∧ address < call.format + text.length :=
        List.mem_range'_1.mp before
      exact ⟨within.1, Nat.le_of_lt within.2⟩
    · rw [List.mem_singleton.mp last]
      exact ⟨Nat.le_add_right _ _, Nat.le_refl _⟩
  case fetched =>
    have count : (scanText args none 0 text).2.2 = (conversions false text).length := by
      rw [nextArg_scanText, Nat.zero_add]
      rfl
    rw [List.range_eq_range', ← count]
    rfl
  case output => rfl

/-- On an incomplete format `printf` reads behind the NUL. -/
theorem complete_of_safe {call : PrintfCall} {text : List UInt8} (matched : Matches call text)
    {k : Kernel} (safe : SafeAndAgree call text k) : Complete text := by
  rcases exists_argsOf call with ⟨args, argsOf⟩
  rcases safe with ⟨r, r', output, returns, _, interpreted, _⟩
  by_contra incomplete
  have read := reads_behind matched argsOf incomplete returns
  have within := (interpreted.reads _ read).2
  omega

/-- `printf` and `printf_terminal_active` are safe and agree exactly on the formats that do
not end inside a conversion. -/
theorem printf_safe_iff {call : PrintfCall} {text : List UInt8} (matched : Matches call text)
    (k : Kernel) : SafeAndAgree call text k ↔ Complete text := by
  constructor
  · exact complete_of_safe matched
  · intro complete
    rcases exists_argsOf call with ⟨args, argsOf⟩
    exact ⟨_, _, _, interpretFormat_complete matched argsOf complete,
      interpretFormat_complete matched argsOf complete,
      interpreted_endOf _ args k text, interpreted_endOf _ args k text⟩

/-- A call with a format and its NUL at address 0, no arguments, and zeros behind. -/
def callOf (text : List UInt8) : PrintfCall where
  memory := fun address => (text[address]?).getD 0
  format := 0
  args := []
  convBuf := fun _ _ => 0

theorem isString_callOf {text : List UInt8} (noNul : 0 ∉ text) :
    IsString (fun i => (callOf text).memory ((callOf text).format + i)) text := by
  refine ⟨fun i inside => ?_, noNul⟩
  dsimp only [callOf]
  by_cases before : i < text.length
  · rw [Nat.zero_add, Nat.zero_add, List.getElem?_eq_getElem before, Option.getD_some,
      List.getElem_append_left before]
  · rw [List.length_append, List.length_singleton] at inside
    have last : i = text.length := by omega
    subst last
    simp

theorem matches_callOf {text : List UInt8} (noNul : 0 ∉ text)
    (noArgs : conversions false text = []) : Matches (callOf text) text := by
  constructor
  · exact isString_callOf noNul
  · rw [noArgs]
    exact .nil

/-- The format `%d %s%%`. -/
def sampleFormat : List UInt8 := [0x25, 0x64, 0x20, 0x25, 0x73, 0x25, 0x25]

/-- A call with this format, the number -5 and a pointer to its last two characters. -/
def sampleCall : PrintfCall :=
  { callOf sampleFormat with args := [0xFFFFFFFB, 5] }

theorem matches_sampleCall : Matches sampleCall sampleFormat where
  format := isString_callOf (by decide)
  args := by
    have letters : conversions false sampleFormat = [0x64, 0x73] := by decide
    rw [letters]
    refine .cons nofun (.cons (fun _ => ⟨[0x25, 0x25], ?_, by decide⟩) .nil)
    exact holds_cons.mpr ⟨rfl, holds_cons.mpr ⟨rfl, holds_cons.mpr ⟨rfl, nofun⟩⟩⟩

/-- The format `%d %s%%` with its arguments. -/
theorem printf_safe_sample : SafeAndAgree sampleCall sampleFormat default :=
  (printf_safe_iff matches_sampleCall default).mpr rfl

/-- The format `100%`. -/
theorem percent_reads_behind :
    Matches (callOf [0x31, 0x30, 0x30, 0x25]) [0x31, 0x30, 0x30, 0x25] ∧
      ¬ SafeAndAgree (callOf [0x31, 0x30, 0x30, 0x25]) [0x31, 0x30, 0x30, 0x25] default := by
  have matched : Matches (callOf [0x31, 0x30, 0x30, 0x25]) [0x31, 0x30, 0x30, 0x25] :=
    matches_callOf (by decide) rfl
  refine ⟨matched, fun safe => ?_⟩
  have complete := complete_of_safe matched safe
  revert complete
  decide

/-! ## The interpretation of a list of bytes -/

theorem interpret_scan (args : PrintfArgs) {mode : Option Bool} (arg : Nat) {c : UInt8}
    (inside : mode = none → c ≠ 0) (rest : List UInt8) :
    Printf.interpret args mode arg (c :: rest) =
      Printf.emit (scanByte args mode arg c).1
        (Printf.interpret args (scanByte args mode arg c).2.1 (scanByte args mode arg c).2.2
          rest) := by
  cases mode with
  | none =>
      rw [scanByte]
      split
      · rename_i percent
        subst percent
        exact Printf.interpret_percent args arg rest
      · rename_i literal
        exact Printf.interpret_char args arg rest (inside rfl) literal
  | some alternate => exact Printf.interpret_conversion args alternate arg c rest

theorem interpret_text (args : PrintfArgs) (mode : Option Bool) (arg : Nat) {text : List UInt8}
    (noNul : 0 ∉ text) (rest : List UInt8) :
    Printf.interpret args mode arg (text ++ rest) =
      (Printf.interpret args (scanText args mode arg text).2.1 (scanText args mode arg text).2.2
        rest).map fun r => ((scanText args mode arg text).1 ++ r.1, r.2 + text.length) := by
  induction text generalizing mode arg with
  | nil => simp [scanText]
  | cons c text ih =>
      rw [List.mem_cons, not_or] at noNul
      rw [List.cons_append, interpret_scan args arg (fun _ => Ne.symm noNul.1), ih _ _ noNul.2,
        Printf.emit, Option.map_map]
      simp only [scanText, Function.comp_def, List.append_assoc, List.length_cons, Nat.add_assoc]

/-- On a complete format the loops over memory do what the interpretation of the bytes from
the format pointer on says. -/
theorem printf_refines {call : PrintfCall} {text : List UInt8} (matched : Matches call text)
    {args : PrintfArgs} (argsOf : ArgsOf call args) (complete : Complete text) (k : Kernel)
    (after : List UInt8) :
    ∃ r r', Returns (printf call k) r ∧ Returns (printfTerminalActive call k) r' ∧
      k.printf args (text ++ 0 :: after) = some (r.1, r.2.console) ∧
      k.printfTerminalActive args (text ++ 0 :: after) = some (r'.1, r'.2.console) := by
  have outside : (scanText args none 0 text).2.1 = none := scanText_complete args complete
  have interprets : Printf.interpret args none 0 (text ++ 0 :: after) =
      some ((scanText args none 0 text).1, text.length) := by
    rw [interpret_text args none 0 matched.format.2, outside]
    simp [Printf.interpret]
  refine ⟨_, _, interpretFormat_complete matched argsOf complete,
    interpretFormat_complete matched argsOf complete, ?_, ?_⟩
  · rw [Kernel.printf, interprets]
    rfl
  · rw [Kernel.printfTerminalActive, interprets]
    rfl

end RawPrintf

end Ece391Os
