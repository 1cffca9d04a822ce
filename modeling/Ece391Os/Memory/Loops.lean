import Ece391Os.Memory.Stores

/-!
# Counting loops over memory

A memory that keeps the log of its stores, and `for` loops that count up, with the
rule that an invariant kept by every round holds at the end.
-/

namespace Ece391Os.Memory

universe u v

/-- A memory with the log of the stores made to it. -/
structure Logged (A : Type u) where
  byte : A → UInt8
  stores : Stores A

namespace Logged

variable {A : Type u} [DecidableEq A]

/-- Store a byte. -/
def store (m : Logged A) (address : A) (value : UInt8) : Logged A where
  byte := Function.update m.byte address value
  stores := m.stores ++ [(address, value)]

@[simp]
theorem store_byte_self (m : Logged A) (address : A) (value : UInt8) :
    (m.store address value).byte address = value :=
  Function.update_self _ _ _

theorem store_byte_of_ne (m : Logged A) {address other : A} (value : UInt8)
    (differs : other ≠ address) : (m.store address value).byte other = m.byte other :=
  Function.update_of_ne differs _ _

/-- Every store in the log meets a condition on its address. -/
def Within (inside : A → Prop) (m : Logged A) : Prop :=
  ∀ store ∈ m.stores, inside store.1

theorem Within.store {inside : A → Prop} {m : Logged A} (within : m.Within inside)
    {address : A} (there : inside address) (value : UInt8) :
    (m.store address value).Within inside := by
  intro entry member
  rcases List.mem_append.mp member with earlier | new
  · exact within entry earlier
  · rw [List.mem_singleton.mp new]
    exact there

end Logged

/-- A routine stores inside a region only. -/
structure Logged.OnlyIn {A : Type u} (inside : A → Prop) (m m' : Logged A) : Prop where
  byte : ∀ address, ¬ inside address → m'.byte address = m.byte address
  stores : ∃ later, m'.stores = m.stores ++ later ∧ ∀ store ∈ later, inside store.1

namespace Logged.OnlyIn

variable {A : Type u} {inside : A → Prop} {m m' m'' : Logged A}

theorem refl (inside : A → Prop) (m : Logged A) : OnlyIn inside m m where
  byte := fun _ _ => rfl
  stores := ⟨[], (List.append_nil _).symm, fun _ member => absurd member List.not_mem_nil⟩

theorem trans (first : OnlyIn inside m m') (second : OnlyIn inside m' m'') :
    OnlyIn inside m m'' where
  byte := fun address outside =>
    (second.byte address outside).trans (first.byte address outside)
  stores := by
    rcases first.stores with ⟨earlier, split, within⟩
    rcases second.stores with ⟨later, splitLater, withinLater⟩
    refine ⟨earlier ++ later, ?_, fun store member => ?_⟩
    · rw [splitLater, split, List.append_assoc]
    · rcases List.mem_append.mp member with early | late
      · exact within store early
      · exact withinLater store late

/-- One more store inside the region. -/
theorem store [DecidableEq A] (only : OnlyIn inside m m') {address : A} (there : inside address)
    (value : UInt8) : OnlyIn inside m (m'.store address value) where
  byte := by
    intro other outside
    have differs : other ≠ address := fun same => outside (same ▸ there)
    rw [store_byte_of_ne m' value differs]
    exact only.byte other outside
  stores := by
    rcases only.stores with ⟨earlier, split, within⟩
    refine ⟨earlier ++ [(address, value)], ?_, fun store member => ?_⟩
    · rw [← List.append_assoc, ← split]
      rfl
    · rcases List.mem_append.mp member with early | new
      · exact within store early
      · rw [List.mem_singleton.mp new]
        exact there

/-- A larger region. -/
theorem mono {larger : A → Prop} (only : OnlyIn inside m m')
    (contained : ∀ address, inside address → larger address) : OnlyIn larger m m' where
  byte := fun address outside => only.byte address fun there => outside (contained address there)
  stores := by
    rcases only.stores with ⟨later, split, within⟩
    exact ⟨later, split, fun store member => contained store.1 (within store member)⟩

/-- All stores are inside the region if those before are. -/
theorem within (only : OnlyIn inside m m') (before : m.Within inside) : m'.Within inside := by
  rcases only.stores with ⟨later, split, there⟩
  intro store member
  rw [split] at member
  rcases List.mem_append.mp member with early | late
  · exact before store early
  · exact there store late

end Logged.OnlyIn

/-- `for (i = 0; i < count; i++) body(i)`. -/
def loop {σ : Type v} (count : Nat) (body : Nat → σ → σ) (state : σ) : σ :=
  (List.range count).foldl (fun state i => body i state) state

/-- An invariant of the rounds holds after the last one. -/
theorem loop_invariant {σ : Type v} (invariant : Nat → σ → Prop) {count : Nat}
    {body : Nat → σ → σ} {state : σ} (start : invariant 0 state)
    (round : ∀ i < count, ∀ state, invariant i state → invariant (i + 1) (body i state)) :
    invariant count (loop count body state) := by
  induction count with
  | zero => exact start
  | succ count ih =>
      have before := ih fun i inside => round i (Nat.lt_succ_of_lt inside)
      have last := round count (Nat.lt_succ_self count) _ before
      simpa [loop, List.range_succ] using last

end Ece391Os.Memory
