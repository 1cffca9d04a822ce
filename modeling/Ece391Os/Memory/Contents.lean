import Mathlib.Data.List.Basic

/-!
# Contents of memory

A list of bytes in memory, from an address on.
-/

namespace Ece391Os.Memory

/-- The bytes from an address on are those of a list. -/
def Holds (byte : Nat → UInt8) (start : Nat) (bytes : List UInt8) : Prop :=
  ∀ i (inside : i < bytes.length), byte (start + i) = bytes[i]

variable {byte : Nat → UInt8} {start : Nat} {first second : List UInt8}

theorem holds_append :
    Holds byte start (first ++ second) ↔
      Holds byte start first ∧ Holds byte (start + first.length) second := by
  constructor
  · intro holds
    constructor
    · intro i inside
      have whole := holds i (by rw [List.length_append]; omega)
      rwa [List.getElem_append_left inside] at whole
    · intro i inside
      have whole := holds (first.length + i) (by rw [List.length_append]; omega)
      rw [List.getElem_append_right (Nat.le_add_right _ _)] at whole
      simpa [Nat.add_assoc] using whole
  · rintro ⟨left, right⟩ i inside
    by_cases before : i < first.length
    · rw [List.getElem_append_left before]
      exact left i before
    · have behind : first.length ≤ i := Nat.le_of_not_lt before
      rw [List.length_append] at inside
      have there := right (i - first.length) (by omega)
      rw [Nat.add_assoc, Nat.add_sub_cancel' behind] at there
      rw [List.getElem_append_right behind]
      exact there

theorem holds_cons {head : UInt8} {rest : List UInt8} :
    Holds byte start (head :: rest) ↔ byte start = head ∧ Holds byte (start + 1) rest := by
  have split : head :: rest = [head] ++ rest := rfl
  rw [split, holds_append]
  constructor
  · rintro ⟨one, others⟩
    exact ⟨one 0 Nat.zero_lt_one, others⟩
  · rintro ⟨one, others⟩
    refine ⟨fun i inside => ?_, others⟩
    have zero : i = 0 := Nat.lt_one_iff.mp inside
    subst zero
    exact one

/-- Reading the bytes one by one gives the list. -/
theorem map_range_of_holds {bytes : List UInt8} (holds : Holds byte start bytes) :
    (List.range bytes.length).map (fun i => byte (start + i)) = bytes := by
  apply List.ext_getElem
  · simp
  · intro i _ inside
    rw [List.getElem_map, List.getElem_range]
    exact holds i inside

end Ece391Os.Memory
