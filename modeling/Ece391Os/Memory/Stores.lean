import Mathlib.Logic.Function.Basic
import Mathlib.Data.List.Basic

/-!
# Logs of byte stores

A routine that writes through a pointer is described by the list of its stores,
in execution order, rather than by the memory it leaves: the log shows the
address of every store, also of one that writes the value already there.
-/

namespace Ece391Os.Memory

universe u

/-- A store log: pairs of an address and the stored byte, oldest first. -/
abbrev Stores (A : Type u) := List (A × UInt8)

variable {A : Type u} [DecidableEq A]

/-- The memory left by a store log. -/
def applyStores (memory : A → UInt8) (stores : Stores A) : A → UInt8 :=
  stores.foldl (fun current store => Function.update current store.1 store.2) memory

@[simp]
theorem applyStores_nil (memory : A → UInt8) : applyStores memory [] = memory :=
  rfl

theorem applyStores_append (memory : A → UInt8) (first second : Stores A) :
    applyStores memory (first ++ second) = applyStores (applyStores memory first) second := by
  simp [applyStores, List.foldl_append]

/-- The stores of `count` consecutive bytes starting at offset `base`. -/
def storeRange (base count : Nat) (bytes : Nat → UInt8) : Stores Nat :=
  (List.range count).map fun i => (base + i, bytes i)

@[simp]
theorem storeRange_zero (base : Nat) (bytes : Nat → UInt8) : storeRange base 0 bytes = [] :=
  rfl

theorem mem_storeRange {base count : Nat} {bytes : Nat → UInt8} {store : Nat × UInt8} :
    store ∈ storeRange base count bytes ↔ ∃ i < count, store = (base + i, bytes i) := by
  simp [storeRange, eq_comm]

theorem map_fst_storeRange_zero (count : Nat) (bytes : Nat → UInt8) :
    (storeRange 0 count bytes).map Prod.fst = List.range count := by
  simp [storeRange, Function.comp_def]

theorem map_snd_storeRange (base count : Nat) (bytes : Nat → UInt8) :
    (storeRange base count bytes).map Prod.snd = (List.range count).map bytes := by
  simp [storeRange, Function.comp_def]

theorem storeRange_congr {base count : Nat} {left right : Nat → UInt8}
    (agree : ∀ i < count, left i = right i) :
    storeRange base count left = storeRange base count right :=
  List.map_congr_left fun i member => by rw [agree i (List.mem_range.mp member)]

/-- Two adjacent ranges of stores are one range. -/
theorem storeRange_append (base first second : Nat) (left right whole : Nat → UInt8)
    (leftEq : ∀ i < first, left i = whole i)
    (rightEq : ∀ i < second, right i = whole (first + i)) :
    storeRange base first left ++ storeRange (base + first) second right =
      storeRange base (first + second) whole := by
  simp only [storeRange, List.range_add, List.map_append, List.map_map]
  congr 1
  · exact storeRange_congr leftEq
  · apply List.map_congr_left
    intro i member
    simp only [Function.comp]
    rw [rightEq i (List.mem_range.mp member), Nat.add_assoc]

theorem storeRange_succ (base count : Nat) (bytes : Nat → UInt8) :
    storeRange base (count + 1) bytes =
      storeRange base count bytes ++ [(base + count, bytes count)] := by
  simp [storeRange, List.range_succ]

/-- What a range of stores leaves at an address. -/
theorem applyStores_storeRange (memory : Nat → UInt8) (base count : Nat) (bytes : Nat → UInt8)
    (i : Nat) :
    applyStores memory (storeRange base count bytes) i =
      if base ≤ i ∧ i < base + count then bytes (i - base) else memory i := by
  induction count with
  | zero =>
      have outside : ¬ (base ≤ i ∧ i < base + 0) := by omega
      rw [storeRange_zero, applyStores_nil, if_neg outside]
  | succ count ih =>
      rw [storeRange_succ, applyStores_append]
      by_cases last : i = base + count
      · subst i
        have inside : base ≤ base + count ∧ base + count < base + (count + 1) := by omega
        simp [applyStores, inside]
      · have same : base ≤ i ∧ i < base + (count + 1) ↔ base ≤ i ∧ i < base + count := by omega
        simp only [same]
        rw [← ih]
        exact Function.update_of_ne last _ _

end Ece391Os.Memory
