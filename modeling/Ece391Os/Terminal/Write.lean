import Ece391Os.FileSys.Image
import Ece391Os.Terminal.Screen

/-!
# What `terminal_write` sends

`terminal_write` passes its buffer to `printf` as the format and leaves its byte count
unused.  The buffer is sent literally when a NUL ends it and no `%` stands in front of
the NUL.
-/

namespace Ece391Os

namespace Printf

/-! ## One byte of a conversion -/

/-- What a byte of a conversion sends, the mode it leads to, and the next argument. -/
def conversion (args : PrintfArgs) (alternate : Bool) (arg : Nat) (c : UInt8) :
    List UInt8 × Option Bool × Nat :=
  if c = 0x25 then ([0x25], none, arg)
  else if c = 0x23 then ([], some true, arg)
  else if c = 0x78 then (hexConversion alternate (args.word arg), none, arg + 1)
  else if c = 0x75 then (itoa (args.word arg).toNat 10, none, arg + 1)
  else if c = 0x64 then (decConversion (args.word arg), none, arg + 1)
  else if c = 0x63 then ([UInt8.ofNat (args.word arg).toNat], none, arg + 1)
  else if c = 0x73 then (args.string (args.word arg), none, arg + 1)
  else ([], none, arg)

theorem interpret_conversion (args : PrintfArgs) (alternate : Bool) (arg : Nat) (c : UInt8)
    (rest : List UInt8) :
    interpret args (some alternate) arg (c :: rest) =
      emit (conversion args alternate arg c).1
        (interpret args (conversion args alternate arg c).2.1
          (conversion args alternate arg c).2.2 rest) := by
  unfold conversion
  rw [interpret]
  split_ifs <;> rfl

theorem interpret_percent (args : PrintfArgs) (arg : Nat) (rest : List UInt8) :
    interpret args none arg (0x25 :: rest) = emit [] (interpret args (some false) arg rest) :=
  rfl

theorem interpret_char (args : PrintfArgs) (arg : Nat) {c : UInt8} (rest : List UInt8)
    (noNul : c ≠ 0) (literal : c ≠ 0x25) :
    interpret args none arg (c :: rest) = emit [c] (interpret args none arg rest) := by
  rw [interpret, if_neg noNul, if_neg literal]

theorem emit_eq_some {output : List UInt8} {rest : Option (List UInt8 × Nat)}
    {r : List UInt8 × Nat} (emitted : emit output rest = some r) :
    ∃ r', rest = some r' ∧ r = (output ++ r'.1, r'.2 + 1) := by
  rcases Option.map_eq_some_iff.mp emitted with ⟨r', rest, equal⟩
  exact ⟨r', rest, equal.symm⟩

/-! ## Formats without a NUL -/

/-- The interpreter does not stop in front of the first NUL. -/
theorem interpret_of_noNul (args : PrintfArgs) (mode : Option Bool) (arg : Nat)
    {text : List UInt8} (noNul : 0 ∉ text) : interpret args mode arg text = none := by
  induction text generalizing mode arg with
  | nil => rw [interpret]
  | cons c text ih =>
      have head : c ≠ 0 := fun zero => noNul (zero ▸ List.mem_cons_self)
      have tail : 0 ∉ text := fun member => noNul (List.mem_cons_of_mem c member)
      rcases mode with _ | alternate
      · by_cases percent : c = 0x25
        · subst c
          rw [interpret_percent, ih _ _ tail]
          rfl
        · rw [interpret_char _ _ _ head percent, ih _ _ tail]
          rfl
      · rw [interpret_conversion, ih _ _ tail]
        rfl

/-! ## Formats with a `%` -/

/-- Stack words of zero and empty strings. -/
def zeroArgs : PrintfArgs where
  word _ := 0
  string _ := []

/-- With such arguments only the conversion `%%` sends a `%`. -/
theorem count_conversion (alternate : Bool) (arg : Nat) (c : UInt8) :
    (conversion zeroArgs alternate arg c).1.count 0x25 ≤ [c].count 0x25 := by
  have hex : (hexConversion alternate 0).count 0x25 = 0 := by
    revert alternate
    decide
  have dec : (decConversion 0).count 0x25 = 0 := by decide
  have digits : (itoa (0 : UInt32).toNat 10).count 0x25 = 0 := by decide
  have char : [UInt8.ofNat (0 : UInt32).toNat].count 0x25 = 0 := by decide
  unfold conversion zeroArgs
  split_ifs with percent
  · rw [percent]
  all_goals simp_all

/-- The characters `%` that are sent when the interpreter stops behind a text: no more than
the text has, and fewer in the outer loop if it has any. -/
theorem count_percent {mode : Option Bool} {arg : Nat} {text after : List UInt8}
    {r : List UInt8 × Nat}
    (returns : interpret zeroArgs mode arg (text ++ 0 :: after) = some r)
    (ends : r.2 = text.length) :
    r.1.count 0x25 ≤ text.count 0x25 ∧
      (mode = none → 0x25 ∈ text → r.1.count 0x25 < text.count 0x25) := by
  induction text generalizing mode arg r with
  | nil =>
      rcases mode with _ | alternate
      · cases returns
        exact ⟨Nat.le_refl _, fun _ member => absurd member List.not_mem_nil⟩
      · -- the NUL is skipped as an unknown conversion
        rw [List.nil_append, interpret_conversion] at returns
        rcases emit_eq_some returns with ⟨r', _, rfl⟩
        cases ends
  | cons c text ih =>
      rw [List.cons_append] at returns
      rcases mode with _ | alternate
      · by_cases nul : c = 0
        · subst c
          cases returns
          cases ends
        by_cases percent : c = 0x25
        · subst c
          rw [interpret_percent] at returns
          rcases emit_eq_some returns with ⟨r', rest, rfl⟩
          have fewer := (ih rest (Nat.succ.inj ends)).1
          rw [List.count_cons_self, List.nil_append]
          exact ⟨Nat.le_succ_of_le fewer, fun _ _ => Nat.lt_succ_of_le fewer⟩
        · rw [interpret_char _ _ _ nul percent] at returns
          rcases emit_eq_some returns with ⟨r', rest, rfl⟩
          rcases ih rest (Nat.succ.inj ends) with ⟨fewer, strict⟩
          rw [List.singleton_append, List.count_cons_of_ne percent, List.count_cons_of_ne percent]
          refine ⟨fewer, fun _ member => strict rfl ?_⟩
          rcases List.mem_cons.mp member with head | tail
          · exact absurd head.symm percent
          · exact tail
      · rw [interpret_conversion] at returns
        rcases emit_eq_some returns with ⟨r', rest, rfl⟩
        have fewer := (ih rest (Nat.succ.inj ends)).1
        have sent := count_conversion alternate arg c
        refine ⟨?_, fun outer => by cases outer⟩
        calc
          ((conversion zeroArgs alternate arg c).1 ++ r'.1).count 0x25 =
              (conversion zeroArgs alternate arg c).1.count 0x25 + r'.1.count 0x25 :=
            List.count_append
          _ ≤ [c].count 0x25 + text.count 0x25 := Nat.add_le_add sent fewer
          _ = (c :: text).count 0x25 := List.count_append.symm

end Printf

namespace Kernel

/-! ## `terminal_write` -/

/-- The bytes that `terminal_write` sends to the console, and what it returns. -/
def terminalWriteSends (args : PrintfArgs) (buf : List UInt8) : Option (List UInt8 × Int) :=
  (Printf.interpret args none 0 buf).map fun r => (r.1, r.2)

/-- Send bytes to the screen or, on a terminal that is not displayed, to the saved screen. -/
def sendToConsole (k : Kernel) (text : List UInt8) : Kernel :=
  if k.curTerm = k.curActiveTerminal then k.puts text else k.putsTerminalActive text

theorem terminalWrite_eq (k : Kernel) (args : PrintfArgs) (buf : List UInt8) (numBytes : Int) :
    k.terminalWrite args buf numBytes =
      (terminalWriteSends args buf).map fun sent => (sent.2, k.sendToConsole sent.1) := by
  unfold terminalWrite terminalWriteSends sendToConsole printf printfTerminalActive
  split <;> rw [Option.map_map] <;> rfl

/-- The first bytes of the memory at a buffer. -/
def firstBytes (memory : Nat → UInt8) (numBytes : Nat) : List UInt8 :=
  (List.range numBytes).map memory

/-- Whatever the stack holds, and whatever memory there is behind `buf + num_bytes`, or
none, `terminal_write` sends the bytes in front of the first NUL and returns their number. -/
def WritesLiterally (memory : Nat → UInt8) (numBytes : Nat) : Prop :=
  ∀ args behind, terminalWriteSends args (firstBytes memory numBytes ++ behind) =
    some (cString (firstBytes memory numBytes),
      ((cString (firstBytes memory numBytes)).length : Int))

/-- `terminal_write` sends what its format interpreter makes of the buffer, on the displayed
terminal and on a hidden one; and that is the literal text, read from inside the buffer, if
and only if a NUL is among the bytes of the buffer and no `%` in front of it. -/
theorem terminalWrite_literal_iff (memory : Nat → UInt8) (numBytes : Nat) :
    (∀ (k : Kernel) args buf n, k.terminalWrite args buf n =
      (terminalWriteSends args buf).map fun sent => (sent.2, k.sendToConsole sent.1)) ∧
      (WritesLiterally memory numBytes ↔
        0 ∈ firstBytes memory numBytes ∧ 0x25 ∉ cString (firstBytes memory numBytes)) := by
  constructor
  · intro k args buf n
    exact terminalWrite_eq k args buf n
  generalize textEq : firstBytes memory numBytes = bytes
  unfold WritesLiterally
  rw [textEq]
  constructor
  · intro literal
    have nul : 0 ∈ bytes := by
      by_contra noNul
      have sends := literal Printf.zeroArgs []
      rw [List.append_nil, terminalWriteSends, Printf.interpret_of_noNul _ _ _ noNul] at sends
      cases sends
    refine ⟨nul, fun percent => ?_⟩
    rcases cString_split nul with ⟨after, split⟩
    rcases Option.map_eq_some_iff.mp (literal Printf.zeroArgs []) with ⟨r, returns, sent⟩
    rcases Prod.mk.injEq _ _ _ _ ▸ sent with ⟨output, count⟩
    rw [List.append_nil, split] at returns
    have fewer := (Printf.count_percent returns (Int.ofNat.inj count)).2 rfl percent
    rw [output] at fewer
    exact absurd fewer (Nat.lt_irrefl _)
  · rintro ⟨nul, noPercent⟩ args behind
    have plain : Printf.Plain (cString bytes) := by
      intro c member
      exact ⟨fun zero => zero_notMem_cString bytes (zero ▸ member),
        fun percent => noPercent (percent ▸ member)⟩
    rcases cString_split nul with ⟨after, split⟩
    have returns := Printf.interpret_plain args 0 plain (after ++ behind)
    rw [← List.cons_append, ← List.append_assoc, ← split] at returns
    rw [terminalWriteSends, returns]
    rfl

/-- The test `terminal_write(0, "fo ur", 4)`: the NUL is behind the four bytes. -/
theorem terminalWrite_ignores_count :
    ¬ WritesLiterally (fun i => [0x66, 0x6F, 0x20, 0x75, 0x72, 0x00].getD i 0) 4 := by
  intro literal
  exact absurd (literal Printf.zeroArgs []) (by decide)

end Kernel

end Ece391Os
