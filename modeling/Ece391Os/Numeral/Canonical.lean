import Mathlib.Data.Nat.Digits.Lemmas

/-!
# Canonical numerals

Numerals in a positional system, most significant digit first, over any symbols that have
values as digits.
-/

namespace Ece391Os.Numeral

universe u

variable {α : Type u}

/-- The value of a symbol as a digit of a radix. -/
def digitBelow (digitOf : α → Option Nat) (radix : Nat) (symbol : α) : Option Nat :=
  (digitOf symbol).filter (· < radix)

/-- The value of a numeral, undefined if a symbol is not a digit of the radix. -/
def evaluate (digitOf : α → Option Nat) (radix : Nat) (text : List α) : Option Nat :=
  text.foldl
    (fun value symbol => value.bind fun value =>
      (digitBelow digitOf radix symbol).map fun digit => value * radix + digit)
    (some 0)

/-- The numeral of a value: only zero starts with the digit zero, and is that digit. -/
structure Canonical (digitOf : α → Option Nat) (radix value : Nat) (text : List α) : Prop where
  evaluates : evaluate digitOf radix text = some value
  nonempty : text ≠ []
  leading : ∀ symbol rest, text = symbol :: rest → digitOf symbol = some 0 →
    value = 0 ∧ rest = []

variable {digitOf : α → Option Nat} {radix : Nat} {symbolOf : Nat → α}

theorem evaluate_concat (text : List α) (symbol : α) :
    evaluate digitOf radix (text ++ [symbol]) =
      (evaluate digitOf radix text).bind fun value =>
        (digitBelow digitOf radix symbol).map fun digit => value * radix + digit := by
  simp [evaluate, List.foldl_append]

section Symbols

variable (symbols : ∀ digit < radix, digitOf (symbolOf digit) = some digit)
include symbols

theorem digitBelow_symbolOf {digit : Nat} (below : digit < radix) :
    digitBelow digitOf radix (symbolOf digit) = some digit := by
  rw [digitBelow, symbols digit below, Option.filter_some, if_pos (decide_eq_true below)]

/-- The symbols of digits evaluate to the number of the digits. -/
theorem evaluate_digits {digits : List Nat} (below : ∀ digit ∈ digits, digit < radix) :
    evaluate digitOf radix (digits.map symbolOf).reverse = some (Nat.ofDigits radix digits) := by
  induction digits with
  | nil => rfl
  | cons digit digits ih =>
      have first := digitBelow_symbolOf symbols (below digit List.mem_cons_self)
      have rest := ih fun other member => below other (List.mem_cons_of_mem _ member)
      rw [List.map_cons, List.reverse_cons, evaluate_concat, rest, Option.bind_some, first,
        Option.map_some, Nat.ofDigits_cons, Nat.add_comm, Nat.mul_comm]

/-- The digits of a positive number make its numeral. -/
theorem canonical_digits {value : Nat} (base : 1 < radix) (positive : value ≠ 0) :
    Canonical digitOf radix value ((Nat.digits radix value).map symbolOf).reverse where
  evaluates := by
    rw [evaluate_digits symbols fun digit member => Nat.digits_lt_base base member,
      Nat.ofDigits_digits]
  nonempty := by
    intro empty
    rw [List.reverse_eq_nil_iff, List.map_eq_nil_iff] at empty
    exact Nat.digits_ne_nil_iff_ne_zero.mpr positive empty
  leading := by
    intro symbol rest split zero
    have digitsNonempty : Nat.digits radix value ≠ [] :=
      Nat.digits_ne_nil_iff_ne_zero.mpr positive
    have last := Nat.getLast_digit_ne_zero radix positive
    have member := List.getLast_mem digitsNonempty
    have below := Nat.digits_lt_base base member
    have head : symbol = symbolOf ((Nat.digits radix value).getLast digitsNonempty) := by
      have first := congrArg List.head? split
      rw [List.head?_reverse, List.getLast?_map, List.getLast?_eq_some_getLast digitsNonempty]
        at first
      exact (Option.some.inj first).symm
    rw [head, symbols _ below] at zero
    exact absurd (Option.some.inj zero) last

/-- The digit zero is the numeral of zero. -/
theorem canonical_zero (base : 1 < radix) : Canonical digitOf radix 0 [symbolOf 0] where
  evaluates := by
    rw [← List.nil_append [symbolOf 0], evaluate_concat,
      digitBelow_symbolOf symbols (Nat.zero_lt_of_lt base)]
    simp [evaluate]
  nonempty := List.cons_ne_nil _ _
  leading := by
    intro symbol rest split _
    cases split
    exact ⟨rfl, rfl⟩

/-- Zeros in front do not change the value. -/
theorem evaluate_replicate_zero (base : 1 < radix) (count : Nat) (text : List α) :
    evaluate digitOf radix (List.replicate count (symbolOf 0) ++ text) =
      evaluate digitOf radix text := by
  have zeros : evaluate digitOf radix (List.replicate count (symbolOf 0)) = some 0 := by
    induction count with
    | zero => rfl
    | succ count ih =>
        rw [List.replicate_succ', evaluate_concat, ih,
          digitBelow_symbolOf symbols (Nat.zero_lt_of_lt base)]
        simp
  unfold evaluate at zeros ⊢
  rw [List.foldl_append, zeros]

end Symbols

end Ece391Os.Numeral
