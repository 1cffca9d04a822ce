import Mathlib.Data.Option.Basic

/-!
# Routines with a bound on their loops

A routine that loops takes a bound on its rounds and is undefined where the bound is too
small.  It returns a result when it gives the same one under every large enough bound, so
that routines can be put together without counting the rounds of their parts.
-/

namespace Ece391Os.Transition

universe u v

variable {σ : Type u} {α : Type u} {β : Type v}

/-- Every large enough bound gives the result. -/
def Returns (routine : Nat → Option α) (result : α) : Prop :=
  ∃ least, ∀ bound, least ≤ bound → routine bound = some result

namespace Returns

variable {routine : Nat → Option α} {result other : α}

theorem pure (result : α) : Returns (fun _ => some result) result :=
  ⟨0, fun _ _ => rfl⟩

/-- A routine returns one result. -/
theorem unique (first : Returns routine result) (second : Returns routine other) :
    result = other := by
  rcases first with ⟨least, first⟩
  rcases second with ⟨later, second⟩
  have one := first (max least later) (Nat.le_max_left _ _)
  have two := second (max least later) (Nat.le_max_right _ _)
  exact Option.some.inj (one.symm.trans two)

/-- A routine that calls another one and goes on with its result. -/
theorem bind {rest : Nat → α → Option β} {final : β} (first : Returns routine result)
    (second : Returns (fun bound => rest bound result) final) :
    Returns (fun bound => (routine bound).bind (rest bound)) final := by
  rcases first with ⟨least, first⟩
  rcases second with ⟨later, second⟩
  refine ⟨max least later, fun bound enough => ?_⟩
  dsimp only
  rw [first bound (Nat.le_trans (Nat.le_max_left _ _) enough), Option.bind_some]
  exact second bound (Nat.le_trans (Nat.le_max_right _ _) enough)

/-- Where the first routine returns, its caller does what the rest does. -/
theorem bind_iff {rest : Nat → α → Option β} {final : β} (first : Returns routine result) :
    Returns (fun bound => (routine bound).bind (rest bound)) final ↔
      Returns (fun bound => rest bound result) final := by
  constructor
  · rcases first with ⟨least, first⟩
    rintro ⟨later, whole⟩
    refine ⟨max least later, fun bound enough => ?_⟩
    have calls := whole bound (Nat.le_trans (Nat.le_max_right _ _) enough)
    dsimp only at calls
    rwa [first bound (Nat.le_trans (Nat.le_max_left _ _) enough), Option.bind_some] at calls
  · exact first.bind

theorem map {change : α → β} (first : Returns routine result) :
    Returns (fun bound => (routine bound).map change) (change result) := by
  rcases first with ⟨least, first⟩
  refine ⟨least, fun bound enough => ?_⟩
  dsimp only
  rw [first bound enough, Option.map_some]

/-- What a routine has returned whose result is only renamed. -/
theorem of_map {change : α → β} (injective : Function.Injective change) {final : β}
    (mapped : Returns (fun bound => (routine bound).map change) final) :
    ∃ result, Returns routine result ∧ change result = final := by
  rcases mapped with ⟨least, mapped⟩
  rcases Option.map_eq_some_iff.mp (mapped least (Nat.le_refl _)) with ⟨result, _, same⟩
  refine ⟨result, ⟨least, fun bound enough => ?_⟩, same⟩
  rcases Option.map_eq_some_iff.mp (mapped bound enough) with ⟨other, returned, again⟩
  rw [returned, injective (again.trans same.symm)]

/-- A routine that returns after one more round. -/
theorem round (rest : Returns (fun bound => routine (bound + 1)) result) :
    Returns routine result := by
  rcases rest with ⟨least, rest⟩
  refine ⟨least + 1, fun bound enough => ?_⟩
  cases bound with
  | zero => exact absurd enough (Nat.not_succ_le_zero least)
  | succ bound => exact rest bound (Nat.le_of_succ_le_succ enough)

/-- What a routine returns, it returns after one more round. -/
theorem ofRound (returns : Returns routine result) :
    Returns (fun bound => routine (bound + 1)) result := by
  rcases returns with ⟨least, returns⟩
  exact ⟨least, fun bound enough => returns (bound + 1) (Nat.le_succ_of_le enough)⟩

theorem round_iff : Returns (fun bound => routine (bound + 1)) result ↔ Returns routine result :=
  ⟨round, ofRound⟩

end Returns

/-- `while (test) body`. -/
def whileLoop (test : σ → Bool) (body : σ → σ) : Nat → σ → Option σ
  | 0, _ => none
  | bound + 1, state => if test state then whileLoop test body bound (body state) else some state

/-- An invariant of the rounds holds where a loop ends. -/
theorem whileLoop_invariant {test : σ → Bool} {body : σ → σ} (invariant : σ → Prop)
    (round : ∀ state, invariant state → invariant (body state)) {bound : Nat} {state final : σ}
    (start : invariant state) (ends : whileLoop test body bound state = some final) :
    invariant final := by
  induction bound generalizing state with
  | zero => cases ends
  | succ bound ih =>
      rw [whileLoop] at ends
      split at ends
      · exact ih (round state start) ends
      · cases ends
        exact start

/-- A loop whose rounds keep an invariant and lower a measure returns a state that meets the
invariant and not the test. -/
theorem whileLoop_returns (test : σ → Bool) (body : σ → σ) (invariant : σ → Prop)
    (measure : σ → Nat)
    (round : ∀ state, invariant state → test state = true →
      invariant (body state) ∧ measure (body state) < measure state)
    {state : σ} (start : invariant state) :
    ∃ final, Returns (fun bound => whileLoop test body bound state) final ∧
      invariant final ∧ test final = false := by
  induction rounds : measure state using Nat.strongRecOn generalizing state with
  | ind rounds ih =>
      subst rounds
      cases more : test state with
      | false =>
          refine ⟨state, Returns.round ?_, start, more⟩
          simp only [whileLoop, more]
          exact .pure state
      | true =>
          rcases round state start more with ⟨kept, lower⟩
          rcases ih _ lower kept rfl with ⟨final, returns, holds, ends⟩
          refine ⟨final, Returns.round ?_, holds, ends⟩
          simp only [whileLoop, more]
          exact returns

end Ece391Os.Transition
