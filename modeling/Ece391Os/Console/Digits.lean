import Ece391Os.Console.Printf
import Ece391Os.Memory.Contents
import Ece391Os.Memory.Loops
import Ece391Os.Numeral.Canonical
import Ece391Os.Transition.Bounded

/-!
# Number conversion

`itoa`, `strrev`, `strlen` and `puts` of `lib.c` as loops over memory, and the conversions
of numbers by `printf` in its buffer `conv_buf`.  Addresses are offsets from the start of
the buffer, and every store is logged.
-/

namespace Ece391Os

open Memory Numeral Transition

namespace RawPrintf

/-! ## Strings -/

/-- The characters at a pointer. -/
def chars (m : Logged Int) (s : Int) (i : Nat) : UInt8 :=
  m.byte (s + i)

/-- The characters at a pointer are those of a text and its terminating NUL. -/
def IsString (char : Nat → UInt8) (text : List UInt8) : Prop :=
  Holds char 0 (text ++ [0]) ∧ 0 ∉ text

/-- `strlen(s)`. -/
def strlen (bound : Nat) (char : Nat → UInt8) : Option Nat :=
  whileLoop (fun len => char len ≠ 0) (fun len => len + 1) bound 0

/-- `puts(s)` and `puts_terminal_active(s)`, by the routine that outputs a character. -/
def puts {σ : Type*} (putc : σ → UInt8 → σ) (bound : Nat) (char : Nat → UInt8) (state : σ) :
    Option (Nat × σ) :=
  whileLoop (fun r => char r.1 ≠ 0) (fun r => (r.1 + 1, putc r.2 (char r.1))) bound (0, state)

/-- The variables of `strrev`. -/
structure Reversal where
  beg : Int
  endIndex : Int
  memory : Logged Int

/-- One round of the loop of `strrev`. -/
def Reversal.swap (s : Int) (r : Reversal) : Reversal :=
  let tmp := r.memory.byte (s + r.endIndex)
  let memory := r.memory.store (s + r.endIndex) (r.memory.byte (s + r.beg))
  { beg := r.beg + 1
    endIndex := r.endIndex - 1
    memory := memory.store (s + r.beg) tmp }

/-- `strrev(s)`. -/
def strrev (bound : Nat) (m : Logged Int) (s : Int) : Option (Int × Logged Int) := do
  let len ← strlen bound (chars m s)
  let r ← whileLoop (fun r => r.beg < r.endIndex) (Reversal.swap s) bound
    { beg := 0, endIndex := (len : Int) - 1, memory := m }
  some (s, r.memory)

/-- The variables of `itoa`. -/
structure Division where
  newval : UInt32
  newbuf : Int
  memory : Logged Int

/-- One round of the loop of `itoa`. -/
def Division.digit (radix : UInt32) (d : Division) : Division where
  newval := d.newval / radix
  newbuf := d.newbuf + 1
  memory := d.memory.store d.newbuf (Printf.lookup (d.newval % radix).toNat)

/-- `itoa(value, buf, radix)`; a radix of zero is a division by zero. -/
def itoa (bound : Nat) (m : Logged Int) (value : UInt32) (buf : Int) (radix : UInt32) :
    Option (Int × Logged Int) :=
  if value = 0 then
    some (buf, (m.store buf 0x30).store (buf + 1) 0)
  else if radix = 0 then
    none
  else do
    let d ← whileLoop (fun d => 0 < d.newval) (Division.digit radix) bound
      { newval := value, newbuf := buf, memory := m }
    strrev bound (d.memory.store d.newbuf 0) buf

/-! ## The conversions -/

/-- `conv_buf`, and the pointer into it that goes to `puts`. -/
structure Converted where
  start : Int
  convBuf : Logged Int

/-- `%x`, and `%#x` for `alternate`. -/
def hexConversion (bound : Nat) (alternate : Bool) (word : UInt32) (convBuf : Logged Int) :
    Option Converted :=
  if alternate then do
    let converted ← itoa bound convBuf word 8 16
    let startingIndex ← strlen bound (chars converted.2 8)
    let filled ← whileLoop (fun s => s.1 < 8) (fun s => (s.1 + 1, s.2.store s.1 0x30)) bound
      ((startingIndex : Int), converted.2)
    some { start := startingIndex, convBuf := filled.2 }
  else do
    let converted ← itoa bound convBuf word 0 16
    some { start := 0, convBuf := converted.2 }

/-- `%u`. -/
def unsignedConversion (bound : Nat) (word : UInt32) (convBuf : Logged Int) :
    Option Converted := do
  let converted ← itoa bound convBuf word 0 10
  some { start := 0, convBuf := converted.2 }

/-- `%d`; the negation wraps around. -/
def decConversion (bound : Nat) (word : UInt32) (convBuf : Logged Int) : Option Converted :=
  let value := word.toInt32
  if value < 0 then do
    let converted ← itoa bound (convBuf.store 0 0x2D) (-value).toUInt32 1 10
    some { start := 0, convBuf := converted.2 }
  else do
    let converted ← itoa bound convBuf value.toUInt32 0 10
    some { start := 0, convBuf := converted.2 }

/-! ## The loops over strings -/

section Strings

variable {char : Nat → UInt8} {text : List UInt8}

/-- A string has a character in front of its end, and a NUL there. -/
theorem IsString.char_eq_zero_iff (string : IsString char text) {i : Nat}
    (inside : i ≤ text.length) : char i = 0 ↔ i = text.length := by
  rcases holds_append.mp string.1 with ⟨front, nul⟩
  have ends : char text.length = 0 := by
    simpa using nul 0 Nat.zero_lt_one
  constructor
  · intro zero
    by_contra differs
    have before : i < text.length := Nat.lt_of_le_of_ne inside differs
    have here := front i before
    rw [Nat.zero_add, zero] at here
    exact string.2 (here ▸ List.getElem_mem before)
  · rintro rfl
    exact ends

theorem IsString.char_eq (string : IsString char text) {i : Nat} (inside : i < text.length) :
    char i = text[i] := by
  have front := (holds_append.mp string.1).1 i inside
  rwa [Nat.zero_add] at front

theorem strlen_returns (string : IsString char text) :
    Returns (fun bound => strlen bound char) text.length := by
  have round : ∀ len, len ≤ text.length → decide (char len ≠ 0) = true →
      len + 1 ≤ text.length ∧ text.length - (len + 1) < text.length - len := by
    intro len inside more
    have noNul : char len ≠ 0 := of_decide_eq_true more
    have before : len ≠ text.length := fun same =>
      noNul ((string.char_eq_zero_iff inside).mpr same)
    omega
  rcases whileLoop_returns _ _ _ _ round (Nat.zero_le _) with ⟨len, returns, inside, ends⟩
  have nul : char len = 0 := by simpa using ends
  rw [(string.char_eq_zero_iff inside).mp nul] at returns
  exact returns

/-- `puts` outputs the characters in front of the NUL. -/
theorem puts_returns {σ : Type*} (putc : σ → UInt8 → σ) (state : σ)
    (string : IsString char text) :
    Returns (fun bound => puts putc bound char state) (text.length, text.foldl putc state) := by
  let Sent (r : Nat × σ) : Prop :=
    r.1 ≤ text.length ∧ r.2 = (text.take r.1).foldl putc state
  have round : ∀ r, Sent r → decide (char r.1 ≠ 0) = true →
      Sent (r.1 + 1, putc r.2 (char r.1)) ∧ text.length - (r.1 + 1) < text.length - r.1 := by
    rintro ⟨index, output⟩ ⟨inside, sent⟩ more
    have noNul : char index ≠ 0 := of_decide_eq_true more
    have differs : index ≠ text.length := fun same =>
      noNul ((string.char_eq_zero_iff inside).mpr same)
    have before : index < text.length := Nat.lt_of_le_of_ne inside differs
    refine ⟨⟨before, ?_⟩, Nat.sub_succ_lt_self _ _ before⟩
    dsimp only at sent ⊢
    rw [sent, string.char_eq before, List.take_add_one, List.getElem?_eq_getElem before,
      Option.toList_some, List.foldl_concat]
  have start : Sent (0, state) := ⟨Nat.zero_le _, rfl⟩
  rcases whileLoop_returns _ _ Sent (fun r => text.length - r.1) round start with
    ⟨⟨index, output⟩, returns, ⟨inside, sent⟩, ends⟩
  have nul : char index = 0 := by simpa using ends
  have whole : index = text.length := (string.char_eq_zero_iff inside).mp nul
  dsimp only at sent
  rw [whole, List.take_length] at sent
  rw [whole, sent] at returns
  exact returns

end Strings

/-! ## The reversal -/

/-- A store through a pointer. -/
theorem chars_store (m : Logged Int) (s : Int) (i : Nat) (value : UInt8) :
    chars (m.store (s + i) value) s = Function.update (chars m s) i value := by
  funext j
  by_cases same : j = i
  · subst same
    rw [Function.update_self]
    exact m.store_byte_self _ _
  · rw [Function.update_of_ne same]
    have differs : s + (j : Int) ≠ s + (i : Int) := by omega
    exact m.store_byte_of_ne value differs

/-- The first characters and as many of the last ones are swapped. -/
def swapped (n : Nat) (char : Nat → UInt8) (beg i : Nat) : UInt8 :=
  if i < n ∧ (i < beg ∨ n ≤ i + beg) then char (n - 1 - i) else char i

/-- One more swap. -/
theorem swapped_succ {n beg : Nat} (char : Nat → UInt8) (inside : beg + beg + 1 < n) :
    Function.update (Function.update (swapped n char beg) (n - 1 - beg) (swapped n char beg beg))
      beg (swapped n char beg (n - 1 - beg)) = swapped n char (beg + 1) := by
  funext i
  by_cases first : i = beg
  · subst first
    have mirrored : n - 1 - i < n ∧ ¬ (n - 1 - i < i ∨ n ≤ n - 1 - i + i) := by omega
    have now : i < n ∧ (i < i + 1 ∨ n ≤ i + (i + 1)) := by omega
    rw [Function.update_self, swapped, swapped, if_pos now, if_neg (fun both => mirrored.2 both.2)]
  by_cases last : i = n - 1 - beg
  · subst last
    have before : ¬ (beg < beg ∨ n ≤ beg + beg) := by omega
    have now : n - 1 - beg < n ∧ (n - 1 - beg < beg + 1 ∨ n ≤ n - 1 - beg + (beg + 1)) := by
      omega
    have back : n - 1 - (n - 1 - beg) = beg := by omega
    rw [Function.update_of_ne first, Function.update_self, swapped, swapped, if_pos now,
      if_neg (fun both => before both.2), back]
  · have same : (i < n ∧ (i < beg + 1 ∨ n ≤ i + (beg + 1))) ↔
        (i < n ∧ (i < beg ∨ n ≤ i + beg)) := by omega
    rw [Function.update_of_ne first, Function.update_of_ne last, swapped, swapped]
    simp only [same]

/-- The addresses of a string of `n` characters and its NUL. -/
def Inside (s : Int) (n : Nat) (address : Int) : Prop :=
  s ≤ address ∧ address ≤ s + n

/-- What the rounds of `strrev` keep. -/
structure Reversal.Swapped (m : Logged Int) (s : Int) (n : Nat) (r : Reversal) (rounds : Nat) :
    Prop where
  beg : r.beg = rounds
  endIndex : r.endIndex = (n : Int) - 1 - rounds
  within : rounds + rounds ≤ n
  swapped : chars r.memory s = RawPrintf.swapped n (chars m s) rounds
  only : m.OnlyIn (Inside s n) r.memory

theorem Reversal.Swapped.swap {m : Logged Int} {s : Int} {n beg : Nat} {r : Reversal}
    (kept : r.Swapped m s n beg) (more : r.beg < r.endIndex) :
    (r.swap s).Swapped m s n (beg + 1) := by
  have begEq := kept.beg
  have endEq := kept.endIndex
  have inside : beg + beg + 1 < n := by omega
  have last : r.endIndex = ((n - 1 - beg : Nat) : Int) := by omega
  constructor
  case beg => simp [Reversal.swap, begEq]
  case endIndex =>
    dsimp only [Reversal.swap]
    omega
  case within => omega
  case swapped =>
    have swaps := swapped_succ (chars m s) inside
    rw [← kept.swapped, ← chars_store, ← chars_store] at swaps
    rw [← swaps]
    dsimp only [Reversal.swap]
    rw [begEq, last]
    rfl
  case only =>
    apply (kept.only.store _ _).store
    · constructor <;> omega
    · constructor <;> omega

/-- `strrev` reverses a string in place. -/
theorem strrev_returns {m : Logged Int} {s : Int} {text : List UInt8}
    (string : IsString (chars m s) text) :
    ∃ m', Returns (fun bound => strrev bound m s) (s, m') ∧
      IsString (chars m' s) text.reverse ∧ m.OnlyIn (Inside s text.length) m' := by
  have start : Reversal.Swapped m s text.length
      { beg := 0, endIndex := (text.length : Int) - 1, memory := m } 0 := by
    constructor
    case beg => rfl
    case endIndex => simp
    case within => exact Nat.zero_le _
    case swapped =>
      funext i
      have none : ¬ (i < text.length ∧ (i < 0 ∨ text.length ≤ i + 0)) := by omega
      rw [swapped, if_neg none]
    case only => exact .refl _ m
  have round : ∀ r : Reversal, (∃ beg, r.Swapped m s text.length beg) →
      decide (r.beg < r.endIndex) = true →
      (∃ beg, (r.swap s).Swapped m s text.length beg) ∧
        ((r.swap s).endIndex - (r.swap s).beg).toNat < (r.endIndex - r.beg).toNat := by
    rintro r ⟨beg, kept⟩ more
    have room := of_decide_eq_true more
    refine ⟨⟨beg + 1, kept.swap room⟩, ?_⟩
    dsimp only [Reversal.swap]
    omega
  rcases whileLoop_returns _ _ (fun r : Reversal => ∃ beg, r.Swapped m s text.length beg)
    (fun r => (r.endIndex - r.beg).toNat) round ⟨0, start⟩ with ⟨r, returns, ⟨beg, kept⟩, ends⟩
  have stopped : ¬ r.beg < r.endIndex := by simpa using ends
  refine ⟨r.memory, ?_, ⟨?_, ?_⟩, kept.only⟩
  · exact (strlen_returns string).bind (returns.bind (.pure _))
  · intro i inside
    have begEq := kept.beg
    have endEq := kept.endIndex
    have within := kept.within
    rw [List.length_append, List.length_reverse, List.length_singleton] at inside
    rw [kept.swapped, Nat.zero_add, swapped]
    by_cases before : i < text.length
    · have mirrored : (if i < text.length ∧ (i < beg ∨ text.length ≤ i + beg) then
          chars m s (text.length - 1 - i) else chars m s i) =
          chars m s (text.length - 1 - i) := by
        split
        · rfl
        · congr 1
          omega
      have there : text.length - 1 - i < text.length := by omega
      rw [mirrored, string.char_eq there, List.getElem_append_left (by simpa using before),
        List.getElem_reverse]
    · have nul : i = text.length := by omega
      subst nul
      have outside : ¬ (text.length < text.length ∧
          (text.length < beg ∨ text.length ≤ text.length + beg)) := by omega
      rw [if_neg outside, (string.char_eq_zero_iff (Nat.le_refl _)).mpr rfl]
      simp
  · rw [List.mem_reverse]
    exact string.2

/-! ## The digits -/

/-- A character stored behind a text. -/
theorem holds_store {m : Logged Int} {s : Int} {text : List UInt8}
    (holds : Holds (chars m s) 0 text) (value : UInt8) :
    Holds (chars (m.store (s + text.length) value) s) 0 (text ++ [value]) := by
  rw [chars_store, holds_append]
  constructor
  · intro i inside
    have differs : 0 + i ≠ text.length := by omega
    rw [Function.update_of_ne differs]
    exact holds i inside
  · intro i inside
    have zero : i = 0 := Nat.lt_one_iff.mp inside
    subst zero
    simp

/-- Characters at an offset from a pointer. -/
theorem holds_shift {m : Logged Int} {s : Int} {offset : Nat} {text : List UInt8} :
    Holds (chars m (s + offset)) 0 text ↔ Holds (chars m s) offset text := by
  have same : ∀ i, chars m (s + offset) (0 + i) = chars m s (offset + i) := by
    intro i
    unfold chars
    congr 1
    omega
  unfold Holds
  simp only [same]

/-- What the rounds of `itoa` keep. -/
structure Division.Kept (m : Logged Int) (value radix : UInt32) (buf : Int)
    (d : Division) (written : List UInt8) : Prop where
  digits : Printf.itoaLoop radix.toNat value.toNat =
    written ++ Printf.itoaLoop radix.toNat d.newval.toNat
  newbuf : d.newbuf = buf + written.length
  written : Holds (chars d.memory buf) 0 written
  only : m.OnlyIn (Inside buf (Printf.itoaLoop radix.toNat value.toNat).length) d.memory

section Itoa

variable {m : Logged Int} {value radix : UInt32} {buf : Int}

theorem itoaLoop_zero (radix : Nat) : Printf.itoaLoop radix 0 = [] := by
  rw [Printf.itoaLoop, dif_pos (.inl rfl)]

theorem itoaLoop_of_pos {newval : Nat} (positive : 0 < newval) (base : 2 ≤ radix.toNat) :
    Printf.itoaLoop radix.toNat newval =
      Printf.lookup (newval % radix.toNat) ::
        Printf.itoaLoop radix.toNat (newval / radix.toNat) := by
  rw [Printf.itoaLoop, dif_neg]
  omega

theorem Division.Kept.digit {d : Division} {written : List UInt8}
    (kept : d.Kept m value radix buf written) (base : 2 ≤ radix.toNat) (more : 0 < d.newval) :
    (d.digit radix).Kept m value radix buf
      (written ++ [Printf.lookup (d.newval % radix).toNat]) := by
  have positive : 0 < d.newval.toNat := UInt32.lt_iff_toNat_lt.mp more
  have digits := kept.digits
  rw [itoaLoop_of_pos positive base] at digits
  constructor
  case digits =>
    rw [digits, List.append_assoc]
    simp [Division.digit]
  case newbuf =>
    simp [Division.digit, kept.newbuf, Int.add_assoc]
  case written =>
    dsimp only [Division.digit]
    rw [kept.newbuf]
    exact holds_store kept.written _
  case only =>
    apply kept.only.store
    rw [kept.newbuf, digits, List.length_append]
    constructor <;> omega

/-- The loop of `itoa` writes the digits, lowest place first. -/
theorem divisions_return (m : Logged Int) (value : UInt32) (buf : Int)
    (base : 2 ≤ radix.toNat) :
    ∃ d, Returns (fun bound => whileLoop (fun d : Division => decide (0 < d.newval))
        (Division.digit radix) bound { newval := value, newbuf := buf, memory := m }) d ∧
      d.Kept m value radix buf (Printf.itoaLoop radix.toNat value.toNat) := by
  have start : Division.Kept m value radix buf
      { newval := value, newbuf := buf, memory := m } [] := by
    constructor
    case digits => rfl
    case newbuf => simp
    case written => exact fun i inside => absurd inside (Nat.not_lt_zero i)
    case only => exact .refl _ m
  have round : ∀ d : Division, (∃ written, d.Kept m value radix buf written) →
      decide (0 < d.newval) = true → (∃ written, (d.digit radix).Kept m value radix buf written) ∧
        (d.digit radix).newval.toNat < d.newval.toNat := by
    rintro d ⟨written, kept⟩ more
    have positive := of_decide_eq_true more
    refine ⟨⟨_, kept.digit base positive⟩, ?_⟩
    dsimp only [Division.digit]
    rw [UInt32.toNat_div]
    exact Nat.div_lt_self (UInt32.lt_iff_toNat_lt.mp positive) base
  rcases whileLoop_returns _ _ (fun d : Division => ∃ written, d.Kept m value radix buf written)
    (fun d => d.newval.toNat) round ⟨[], start⟩ with ⟨d, returns, ⟨written, kept⟩, ends⟩
  have stopped : ¬ 0 < d.newval := by simpa using ends
  have zero : d.newval.toNat = 0 := by
    have notPositive : ¬ 0 < d.newval.toNat := fun positive =>
      stopped (UInt32.lt_iff_toNat_lt.mpr positive)
    omega
  have whole := kept.digits
  rw [zero, itoaLoop_zero, List.append_nil] at whole
  rw [whole]
  exact ⟨d, returns, kept⟩

end Itoa

/-! ## Numerals -/

/-- The value of a character among `0-9A-Z`. -/
def digitOf (c : UInt8) : Option Nat :=
  if 0x30 ≤ c ∧ c ≤ 0x39 then some (c.toNat - 0x30)
  else if 0x41 ≤ c ∧ c ≤ 0x5A then some (c.toNat - 0x37)
  else none

theorem digitOf_lookup : ∀ digit < 36, digitOf (Printf.lookup digit) = some digit := by
  decide

theorem itoaLoop_eq_digits {radix : Nat} (base : 1 < radix) (value : Nat) :
    Printf.itoaLoop radix value = (Nat.digits radix value).map Printf.lookup := by
  induction value using Nat.strongRecOn with
  | ind value ih =>
      rcases Nat.eq_zero_or_pos value with rfl | positive
      · rw [itoaLoop_zero, Nat.digits_zero]
        rfl
      · have outside : ¬ (value = 0 ∨ radix < 2) := by omega
        rw [Printf.itoaLoop, dif_neg outside, ih _ (Nat.div_lt_self positive base),
          Nat.digits_def' base positive]
        rfl

section Radix

variable {radix : Nat} (base : 2 ≤ radix) (known : radix ≤ 36)
include base known

/-- `itoa` gives the numeral of the value. -/
theorem canonical_itoa (value : Nat) :
    Canonical digitOf radix value (Printf.itoa value radix) := by
  have symbols : ∀ digit < radix, digitOf (Printf.lookup digit) = some digit :=
    fun digit below => digitOf_lookup digit (Nat.lt_of_lt_of_le below known)
  unfold Printf.itoa
  split
  · rename_i zero
    subst zero
    exact canonical_zero symbols base
  · rename_i positive
    rw [itoaLoop_eq_digits base]
    exact canonical_digits symbols base positive

theorem zero_notMem_itoaLoop (value : Nat) : 0 ∉ Printf.itoaLoop radix value := by
  rw [itoaLoop_eq_digits base]
  intro member
  rcases List.mem_map.mp member with ⟨digit, there, zero⟩
  have below : digit < 36 := Nat.lt_of_lt_of_le (Nat.digits_lt_base base there) known
  have known := digitOf_lookup digit below
  rw [zero] at known
  cases known

omit known in
/-- The number of digits. -/
theorem length_itoa_le {value digits : Nat} (some : 0 < digits) (below : value < radix ^ digits) :
    (Printf.itoa value radix).length ≤ digits := by
  unfold Printf.itoa
  split
  · exact some
  · rw [List.length_reverse, itoaLoop_eq_digits base, List.length_map]
    exact (Nat.digits_length_le_iff base value).mpr below

end Radix

/-- `itoa` leaves the string of the digits in `buf`. -/
theorem itoa_returns (m : Logged Int) (value : UInt32) (buf : Int) (radix : UInt32)
    (base : 2 ≤ radix.toNat) (known : radix.toNat ≤ 36) :
    ∃ m', Returns (fun bound => itoa bound m value buf radix) (buf, m') ∧
      IsString (chars m' buf) (Printf.itoa value.toNat radix.toNat) ∧
      m.OnlyIn (Inside buf (Printf.itoa value.toNat radix.toNat).length) m' := by
  by_cases zero : value = 0
  · subst zero
    refine ⟨(m.store buf 0x30).store (buf + 1) 0, .pure _, ⟨?_, ?_⟩, ?_⟩
    · have empty : Holds (chars m buf) 0 [] := fun i inside => absurd inside (Nat.not_lt_zero i)
      have digit := holds_store empty 0x30
      rw [List.length_nil, Int.natCast_zero, Int.add_zero] at digit
      exact holds_store digit 0
    · simp [Printf.itoa]
    · apply ((Logged.OnlyIn.refl _ m).store _ _).store
      · constructor <;> simp [Printf.itoa]
      · constructor <;> simp [Printf.itoa]
  have positive : value.toNat ≠ 0 := fun same => zero (UInt32.toNat_inj.mp same)
  have divides : radix ≠ 0 := by
    rintro rfl
    exact absurd base (by decide)
  have digits : Printf.itoa value.toNat radix.toNat =
      (Printf.itoaLoop radix.toNat value.toNat).reverse := if_neg positive
  rcases divisions_return m value buf base with ⟨d, returns, kept⟩
  have string : IsString (chars (d.memory.store d.newbuf 0) buf)
      (Printf.itoaLoop radix.toNat value.toNat) := by
    constructor
    · rw [kept.newbuf]
      exact holds_store kept.written 0
    · exact zero_notMem_itoaLoop base known value.toNat
  rcases strrev_returns string with ⟨m', reversed, final, only⟩
  rw [digits, List.length_reverse]
  refine ⟨m', ?_, final, ?_⟩
  · have same : (fun bound => itoa bound m value buf radix) = fun bound =>
        (whileLoop (fun d : Division => decide (0 < d.newval)) (Division.digit radix) bound
          { newval := value, newbuf := buf, memory := m }).bind fun d =>
            strrev bound (d.memory.store d.newbuf 0) buf := by
      funext bound
      rw [itoa, if_neg zero, if_neg divides]
      rfl
    rw [same]
    exact returns.bind reversed
  · apply (kept.only.store _ 0).trans only
    rw [kept.newbuf]
    constructor <;> omega

/-! ## The conversions of `printf` -/

/-- A conversion gives `puts` a text, and stores in the first bytes of `conv_buf` only. -/
def Prints (size : Nat) (conversion : Nat → Option Converted) (m : Logged Int)
    (text : List UInt8) : Prop :=
  ∃ c, Returns conversion c ∧ IsString (chars c.convBuf c.start) text ∧
    m.OnlyIn (fun a : Int => 0 ≤ a ∧ a < size) c.convBuf

theorem length_decimal_le (value : UInt32) : (Printf.itoa value.toNat 10).length ≤ 10 :=
  length_itoa_le (by decide) (by decide) (Nat.lt_trans value.toNat_lt (by decide))

theorem length_hexadecimal_le (value : UInt32) : (Printf.itoa value.toNat 16).length ≤ 8 :=
  length_itoa_le (by decide) (by decide) (Nat.lt_of_lt_of_le value.toNat_lt (by decide))

/-- The decimal digits of a value, from an offset of `conv_buf` on. -/
theorem decimal_returns (m : Logged Int) (value : UInt32) (buf : Int) (start : 0 ≤ buf)
    (room : buf ≤ 25) :
    ∃ m', Returns (fun bound => itoa bound m value buf 10) (buf, m') ∧
      IsString (chars m' buf) (Printf.itoa value.toNat 10) ∧
      m.OnlyIn (fun a : Int => buf ≤ a ∧ a < 36) m' := by
  rcases itoa_returns m value buf 10 (by decide) (by decide) with
    ⟨m', returns, string, only⟩
  refine ⟨m', returns, string, only.mono ?_⟩
  rintro a ⟨first, last⟩
  have length : (Printf.itoa value.toNat (10 : UInt32).toNat).length ≤ 10 :=
    length_decimal_le value
  omega

/-- The hexadecimal digits of a value, from an offset of `conv_buf` on. -/
theorem hexadecimal_returns (m : Logged Int) (value : UInt32) (buf : Int) (start : 0 ≤ buf)
    (room : buf ≤ 55) :
    ∃ m', Returns (fun bound => itoa bound m value buf 16) (buf, m') ∧
      IsString (chars m' buf) (Printf.itoa value.toNat 16) ∧
      m.OnlyIn (fun a : Int => buf ≤ a ∧ a < 64) m' := by
  rcases itoa_returns m value buf 16 (by decide) (by decide) with
    ⟨m', returns, string, only⟩
  refine ⟨m', returns, string, only.mono ?_⟩
  rintro a ⟨first, last⟩
  have length : (Printf.itoa value.toNat (16 : UInt32).toNat).length ≤ 8 :=
    length_hexadecimal_le value
  omega

theorem unsigned_prints (word : UInt32) (m : Logged Int) :
    Prints 36 (fun bound => unsignedConversion bound word m) m (Printf.itoa word.toNat 10) := by
  rcases decimal_returns m word 0 (by decide) (by decide) with ⟨m', returns, string, only⟩
  exact ⟨{ start := 0, convBuf := m' }, returns.bind (.pure _), string, only⟩

/-- The signed value of a word. -/
theorem toInt_toInt32 (word : UInt32) :
    word.toInt32.toInt =
      if word.toNat < 2 ^ 31 then (word.toNat : Int) else word.toNat - 2 ^ 32 := by
  have value : word.toInt32.toInt = word.toBitVec.toInt := rfl
  have nat : word.toBitVec.toNat = word.toNat := rfl
  rw [value, BitVec.toInt_eq_toNat_cond, nat]
  split <;> split <;> omega

/-- The negation of a negative value. -/
theorem toNat_neg_toInt32 {word : UInt32} (negative : 2 ^ 31 ≤ word.toNat) :
    (-word.toInt32).toUInt32.toNat = 2 ^ 32 - word.toNat := by
  have value : (-word.toInt32).toUInt32.toNat = (-word.toBitVec).toNat := rfl
  have nat : word.toBitVec.toNat = word.toNat := rfl
  have below := word.toNat_lt
  rw [value, BitVec.toNat_neg, nat]
  omega

theorem dec_prints (word : UInt32) (m : Logged Int) :
    Prints 36 (fun bound => decConversion bound word m) m (Printf.decConversion word) := by
  have sign := toInt_toInt32 word
  by_cases negative : 2 ^ 31 ≤ word.toNat
  · have below : word.toInt32 < 0 := by
      rw [Int32.lt_iff_toInt_lt, sign, if_neg (Nat.not_lt.mpr negative)]
      have bound := word.toNat_lt
      simp only [Int32.toInt_zero]
      omega
    rcases decimal_returns (m.store 0 0x2D) (-word.toInt32).toUInt32 1 (by decide) (by decide)
      with ⟨m', returns, string, only⟩
    rw [toNat_neg_toInt32 negative] at string
    have first : m'.byte 0 = 0x2D := by
      rw [only.byte 0 (by decide)]
      exact m.store_byte_self _ _
    have sent : Printf.decConversion word = 0x2D :: Printf.itoa (2 ^ 32 - word.toNat) 10 :=
      if_pos negative
    refine ⟨{ start := 0, convBuf := m' }, ?_, ⟨?_, ?_⟩, ?_⟩
    · have same : (fun bound => decConversion bound word m) = fun bound =>
          (itoa bound (m.store 0 0x2D) (-word.toInt32).toUInt32 1 10).bind fun converted =>
            some { start := 0, convBuf := converted.2 } := by
        funext bound
        exact if_pos below
      rw [same]
      exact returns.bind (.pure _)
    · rw [sent, List.cons_append, holds_cons]
      exact ⟨first, holds_shift.mp string.1⟩
    · rw [sent, List.mem_cons]
      exact fun member => member.elim (by decide) string.2
    · have sign : m.OnlyIn (fun a : Int => 0 ≤ a ∧ a < 36) (m.store 0 0x2D) :=
        (Logged.OnlyIn.refl _ m).store (by decide) _
      exact sign.trans (only.mono fun a inside => ⟨by omega, inside.2⟩)
  · have positive : word.toNat < 2 ^ 31 := Nat.lt_of_not_le negative
    have above : ¬ word.toInt32 < 0 := by
      rw [Int32.lt_iff_toInt_lt, sign, if_pos positive]
      exact Int.not_lt.mpr (Int.natCast_nonneg _)
    have sent : Printf.decConversion word = Printf.itoa word.toNat 10 := if_neg negative
    rcases decimal_returns m word 0 (by decide) (by decide) with ⟨m', returns, string, only⟩
    rw [sent]
    refine ⟨{ start := 0, convBuf := m' }, ?_, string, only⟩
    have same : (fun bound => decConversion bound word m) = fun bound =>
        (itoa bound m word 0 10).bind fun converted =>
          some { start := 0, convBuf := converted.2 } := by
      funext bound
      exact if_neg above
    rw [same]
    exact returns.bind (.pure _)

/-- The loop that fills `conv_buf` with zeros up to the digits. -/
theorem fill_returns (m : Logged Int) {first : Nat} (room : first ≤ 8) :
    ∃ m', Returns (fun bound => whileLoop (fun s : Int × Logged Int => decide (s.1 < 8))
        (fun s => (s.1 + 1, s.2.store s.1 0x30)) bound ((first : Int), m)) (8, m') ∧
      Holds (chars m' first) 0 (List.replicate (8 - first) 0x30) ∧
      m.OnlyIn (fun a : Int => first ≤ a ∧ a < 8) m' := by
  let Filled (s : Int × Logged Int) : Prop :=
    ∃ count : Nat, first + count ≤ 8 ∧ s.1 = (first : Int) + count ∧
      Holds (chars s.2 first) 0 (List.replicate count 0x30) ∧
      m.OnlyIn (fun a : Int => first ≤ a ∧ a < 8) s.2
  have start : Filled ((first : Int), m) :=
    ⟨0, room, (Int.add_zero _).symm, fun i inside => absurd inside (Nat.not_lt_zero i),
      .refl _ m⟩
  have round : ∀ s : Int × Logged Int, Filled s → decide (s.1 < 8) = true →
      Filled (s.1 + 1, s.2.store s.1 0x30) ∧ (8 - (s.1 + 1)).toNat < (8 - s.1).toNat := by
    rintro ⟨i, filled⟩ ⟨count, within, index, zeros, only⟩ more
    have inside : i < 8 := of_decide_eq_true more
    dsimp only at index zeros only inside ⊢
    refine ⟨⟨count + 1, by omega, by simp only [index]; omega, ?_, only.store (by omega) _⟩,
      by omega⟩
    have stored := holds_store zeros 0x30
    rw [List.length_replicate, ← List.replicate_succ', ← index] at stored
    exact stored
  rcases whileLoop_returns _ _ Filled (fun s => (8 - s.1).toNat) round start with
    ⟨⟨i, m'⟩, returns, ⟨count, within, index, zeros, only⟩, ends⟩
  have stopped : ¬ i < 8 := by simpa using ends
  dsimp only at index zeros only
  have last : i = 8 := by omega
  have all : count = 8 - first := by omega
  subst last all
  exact ⟨m', returns, zeros, only⟩

theorem hex_prints (alternate : Bool) (word : UInt32) (m : Logged Int) :
    Prints 64 (fun bound => hexConversion bound alternate word m) m
      (Printf.hexConversion alternate word) := by
  cases alternate with
  | false =>
      rcases hexadecimal_returns m word 0 (by decide) (by decide) with ⟨m', returns, string, only⟩
      exact ⟨{ start := 0, convBuf := m' }, returns.bind (.pure _), string, only⟩
  | true =>
      rcases hexadecimal_returns m word 8 (by decide) (by decide) with
        ⟨digits, returns, string, only⟩
      have length := length_hexadecimal_le word
      have padded : Printf.hexConversion true word =
          List.replicate (8 - (Printf.itoa word.toNat 16).length) 0x30 ++
            Printf.itoa word.toNat 16 := rfl
      rcases fill_returns digits length with ⟨m', fills, zeros, front⟩
      refine ⟨{ start := (Printf.itoa word.toNat 16).length, convBuf := m' }, ?_, ⟨?_, ?_⟩, ?_⟩
      · exact returns.bind ((strlen_returns string).bind (fills.bind (.pure _)))
      · have behind : Holds (chars m' 8) 0 (Printf.itoa word.toNat 16 ++ [0]) := by
          intro i inside
          have outside : ¬ (((Printf.itoa word.toNat 16).length : Int) ≤ 8 + ((0 + i : Nat) : Int) ∧
              8 + ((0 + i : Nat) : Int) < 8) := by omega
          exact (front.byte _ outside).trans (string.1 i inside)
        have eight : (8 : Int) = ((Printf.itoa word.toNat 16).length : Int) +
            ((8 - (Printf.itoa word.toNat 16).length : Nat) : Int) := by omega
        rw [eight, holds_shift] at behind
        rw [padded, List.append_assoc, holds_append, List.length_replicate, Nat.zero_add]
        exact ⟨zeros, behind⟩
      · rw [padded, List.mem_append]
        rintro (zero | digit)
        · exact absurd (List.eq_of_mem_replicate zero) (by decide)
        · exact string.2 digit
      · have before : m.OnlyIn (fun a : Int => 0 ≤ a ∧ a < 64) digits :=
          only.mono fun a inside => ⟨by omega, inside.2⟩
        exact before.trans (front.mono fun a inside => ⟨by omega, by omega⟩)

/-- What `printf` prints for a conversion of a number, for any contents of `conv_buf`: the
text meets a condition, and all stores are inside the buffer. -/
def PrintsInBuffer (size : Nat) (conversion : Nat → Logged Int → Option Converted)
    (meets : List UInt8 → Prop) : Prop :=
  ∀ byte : Int → UInt8, ∃ c text,
    Returns (fun bound => conversion bound { byte := byte, stores := [] }) c ∧
      Returns (fun bound => puts (fun output char => output ++ [char]) bound
        (chars c.convBuf c.start) []) (text.length, text) ∧
      meets text ∧ c.convBuf.Within fun a : Int => 0 ≤ a ∧ a < size

/-- Characters output one by one. -/
theorem foldl_concat_eq (output text : List UInt8) :
    text.foldl (fun output char => output ++ [char]) output = output ++ text := by
  induction text generalizing output with
  | nil => exact (List.append_nil output).symm
  | cons char text ih => rw [List.foldl_cons, ih, List.append_assoc, List.singleton_append]

theorem printsInBuffer {size : Nat} {conversion : Nat → Logged Int → Option Converted}
    {meets : List UInt8 → Prop} {text : List UInt8} (met : meets text)
    (prints : ∀ m, Prints size (fun bound => conversion bound m) m text) :
    PrintsInBuffer size conversion meets := by
  intro byte
  rcases prints { byte := byte, stores := [] } with ⟨c, returns, string, only⟩
  have output := puts_returns (fun (output : List UInt8) char => output ++ [char]) [] string
  rw [foldl_concat_eq, List.nil_append] at output
  exact ⟨c, text, returns, output, met, only.within fun _ member => absurd member List.not_mem_nil⟩

/-- The numeral of a signed value. -/
def SignedNumeral (value : Int) (text : List UInt8) : Prop :=
  if value < 0 then ∃ digits, text = 0x2D :: digits ∧ Canonical digitOf 10 value.natAbs digits
  else Canonical digitOf 10 value.natAbs text

theorem signedNumeral_decConversion (word : UInt32) :
    SignedNumeral word.toInt32.toInt (Printf.decConversion word) := by
  have below := word.toNat_lt
  rw [toInt_toInt32, SignedNumeral, Printf.decConversion]
  by_cases negative : 2 ^ 31 ≤ word.toNat
  · have value : ((word.toNat : Int) - 2 ^ 32).natAbs = 2 ^ 32 - word.toNat := by omega
    rw [if_neg (Nat.not_lt.mpr negative), if_pos (by omega), if_pos negative, value]
    exact ⟨_, rfl, canonical_itoa (by decide) (by decide) _⟩
  · rw [if_pos (Nat.lt_of_not_le negative), if_neg (by omega), if_neg negative, Int.natAbs_natCast]
    exact canonical_itoa (by decide) (by decide) _

theorem eight_digits (word : UInt32) :
    (Printf.hexConversion true word).length = 8 ∧
      evaluate digitOf 16 (Printf.hexConversion true word) = some word.toNat := by
  have length := length_hexadecimal_le word
  have padded : Printf.hexConversion true word =
      List.replicate (8 - (Printf.itoa word.toNat 16).length) (Printf.lookup 0) ++
        Printf.itoa word.toNat 16 := rfl
  have symbols : ∀ digit < 16, digitOf (Printf.lookup digit) = some digit :=
    fun digit below => digitOf_lookup digit (Nat.lt_trans below (by decide))
  have numeral : Canonical digitOf 16 word.toNat (Printf.itoa word.toNat 16) :=
    canonical_itoa (by decide) (by decide) word.toNat
  constructor
  · rw [padded, List.length_append, List.length_replicate]
    omega
  · rw [padded, evaluate_replicate_zero symbols (by decide)]
    exact numeral.evaluates

/-- `itoa` leaves the NUL-terminated numeral of its value in the buffer, for every radix from
2 to 36; and `printf` prints the decimal numerals of unsigned and signed values, the
hexadecimal numeral, and eight hexadecimal digits for `%#x`, with all stores in `conv_buf`. -/
theorem number_conversion_exact :
    (∀ (m : Logged Int) (value : UInt32) (buf : Int) (radix : UInt32),
      2 ≤ radix.toNat → radix.toNat ≤ 36 →
        ∃ m' text, Returns (fun bound => itoa bound m value buf radix) (buf, m') ∧
          Canonical digitOf radix.toNat value.toNat text ∧ IsString (chars m' buf) text ∧
          m.OnlyIn (Inside buf text.length) m') ∧
      ∀ word : UInt32,
        PrintsInBuffer 36 (fun bound => unsignedConversion bound word)
            (Canonical digitOf 10 word.toNat) ∧
          PrintsInBuffer 36 (fun bound => decConversion bound word)
            (SignedNumeral word.toInt32.toInt) ∧
          PrintsInBuffer 64 (fun bound => hexConversion bound false word)
            (Canonical digitOf 16 word.toNat) ∧
          PrintsInBuffer 64 (fun bound => hexConversion bound true word)
            (fun text => text.length = 8 ∧ evaluate digitOf 16 text = some word.toNat) := by
  constructor
  · intro m value buf radix base known
    rcases itoa_returns m value buf radix base known with ⟨m', returns, string, only⟩
    exact ⟨m', _, returns, canonical_itoa base known value.toNat, string, only⟩
  · intro word
    refine ⟨?unsigned, ?signed, ?hexadecimal, ?padded⟩
    case unsigned =>
      exact printsInBuffer (canonical_itoa (by decide) (by decide) _) (unsigned_prints word)
    case signed => exact printsInBuffer (signedNumeral_decConversion word) (dec_prints word)
    case hexadecimal =>
      exact printsInBuffer (canonical_itoa (by decide) (by decide) _) (hex_prints false word)
    case padded => exact printsInBuffer (eight_digits word) (hex_prints true word)

/-- The extreme negative value. -/
theorem number_conversion_exact_sample :
    PrintsInBuffer 36 (fun bound => decConversion bound 0x80000000)
        (SignedNumeral (-2147483648)) ∧
      ∃ m' text, Returns (fun bound => itoa bound { byte := fun _ => 0, stores := [] } 255 0 2)
          (0, m') ∧
        Canonical digitOf 2 255 text ∧ IsString (chars m' 0) text := by
  constructor
  · exact (number_conversion_exact.2 0x80000000).2.1
  · rcases number_conversion_exact.1 { byte := fun _ => 0, stores := [] } 255 0 2 (by decide)
      (by decide) with ⟨m', text, returns, numeral, string, _⟩
    exact ⟨m', text, returns, numeral, string⟩

end RawPrintf

end Ece391Os
