import Mathlib.Data.List.Basic

/-!
# Runs of event-driven partial transition systems

A system is an option-valued step labelled by events.  A run executes a list of
events and stops at the first undefined step.  `EachStep` states that every step
of a run satisfies a condition on its source state and its event, which is the
shape both of an assumption on a run and of a property of all its steps.

The module gives the induction rules for such runs: an invariant kept by every
step that meets a condition, and a simulation of a total specification.
-/

namespace Ece391Os.Transition

universe u v w

/-- A deterministic partial step labelled by an event. -/
abbrev EventStep (σ : Type u) (ε : Type v) := σ → ε → Option σ

variable {σ : Type u} {ε : Type v}

/-- Execute a list of events, failing at the first undefined step. -/
def run (next : EventStep σ ε) : σ → List ε → Option σ
  | state, [] => some state
  | state, event :: events => (next state event).bind fun target => run next target events

/-- Every executed step of a run satisfies `condition`. -/
def EachStep (next : EventStep σ ε) (condition : σ → ε → Prop) : σ → List ε → Prop
  | _, [] => True
  | state, event :: events =>
      condition state event ∧
        ∀ target, next state event = some target → EachStep next condition target events

theorem run_cons (next : EventStep σ ε) (state : σ) (event : ε) (events : List ε) :
    run next state (event :: events) =
      (next state event).bind fun target => run next target events :=
  rfl

theorem run_cons_eq_some_iff (next : EventStep σ ε) (state final : σ) (event : ε)
    (events : List ε) :
    run next state (event :: events) = some final ↔
      ∃ target, next state event = some target ∧ run next target events = some final := by
  rw [run_cons]
  exact Option.bind_eq_some_iff

/-- Runs split at every point. -/
theorem run_append (next : EventStep σ ε) (state : σ) (first second : List ε) :
    run next state (first ++ second) =
      (run next state first).bind fun middle => run next middle second := by
  induction first generalizing state with
  | nil => rfl
  | cons event events ih =>
      simp only [List.cons_append, run_cons, Option.bind_assoc]
      congr 1
      funext target
      exact ih target

variable {next : EventStep σ ε} {condition property : σ → ε → Prop}

/-- A weaker condition on the steps of a run. -/
theorem EachStep.imp (weaker : ∀ state event, condition state event → property state event)
    {state : σ} {events : List ε} (each : EachStep next condition state events) :
    EachStep next property state events := by
  induction events generalizing state with
  | nil => trivial
  | cons event events ih =>
      constructor
      · exact weaker state event each.1
      · exact fun target step => ih (each.2 target step)

/-- Two conditions on the steps of a run are one condition on them. -/
theorem EachStep.and {state : σ} {events : List ε} (left : EachStep next condition state events)
    (right : EachStep next property state events) :
    EachStep next (fun state event => condition state event ∧ property state event)
      state events := by
  induction events generalizing state with
  | nil => trivial
  | cons event events ih =>
      constructor
      · exact ⟨left.1, right.1⟩
      · intro target step
        exact ih (left.2 target step) (right.2 target step)

/-- A property of the steps of a run is one of the steps up to a point. -/
theorem EachStep.left {state : σ} {first second : List ε}
    (each : EachStep next condition state (first ++ second)) :
    EachStep next condition state first := by
  induction first generalizing state with
  | nil => trivial
  | cons event events ih => exact ⟨each.1, fun target step => ih (each.2 target step)⟩

/-- A property of the steps of a run is one of the steps from a point on. -/
theorem EachStep.right {state middle : σ} {first second : List ε}
    (each : EachStep next condition state (first ++ second))
    (reached : run next state first = some middle) : EachStep next condition middle second := by
  induction first generalizing state with
  | nil =>
      cases reached
      exact each
  | cons event events ih =>
      rcases (run_cons_eq_some_iff _ _ _ _ _).mp reached with ⟨target, step, rest⟩
      exact ih (each.2 target step) rest

/-- A property of each step of a run holds of the last one. -/
theorem EachStep.last {state middle : σ} {events : List ε} {event : ε}
    (each : EachStep next property state (events ++ [event]))
    (reached : run next state events = some middle) : property middle event :=
  (each.right reached).1

/-- Whether each step of a run meets a condition can be computed. -/
instance decidableEachStep
    [decides : ∀ state event, Decidable (condition state event)] :
    ∀ (state : σ) (events : List ε), Decidable (EachStep next condition state events)
  | _, [] => .isTrue trivial
  | state, event :: events =>
      match decides state event, reached : next state event with
      | .isFalse fails, _ => .isFalse fun each => fails each.1
      | .isTrue holds, none =>
          .isTrue ⟨holds, fun target step => by rw [reached] at step; cases step⟩
      | .isTrue holds, some target =>
          match decidableEachStep target events with
          | .isTrue rest => .isTrue ⟨holds, fun other step => by
              rw [reached] at step
              cases step
              exact rest⟩
          | .isFalse fails => .isFalse fun each => fails (each.2 target reached)

theorem eachStep_true (state : σ) (events : List ε) :
    EachStep next (fun _ _ => True) state events := by
  induction events generalizing state with
  | nil => trivial
  | cons event events ih => exact ⟨trivial, fun target _ => ih target⟩

/-- An invariant kept by every step that meets `condition` holds at the end of
every run all of whose steps meet it. -/
theorem run_invariant (invariant : σ → Prop)
    (kept : ∀ state event target, invariant state → condition state event →
      next state event = some target → invariant target)
    {state final : σ} {events : List ε} (start : invariant state)
    (each : EachStep next condition state events)
    (reached : run next state events = some final) : invariant final := by
  induction events generalizing state with
  | nil =>
      cases reached
      exact start
  | cons event events ih =>
      obtain ⟨target, step, rest⟩ := (run_cons_eq_some_iff _ _ _ _ _).mp reached
      exact ih (kept state event target start each.1 step) (each.2 target step) rest

/-- An invariant kept by every step holds at the end of every run. -/
theorem run_invariant_always (invariant : σ → Prop)
    (kept : ∀ state event target, invariant state → next state event = some target →
      invariant target)
    {state final : σ} {events : List ε} (start : invariant state)
    (reached : run next state events = some final) : invariant final :=
  run_invariant invariant
    (fun state event target holds _ step => kept state event target holds step)
    start (eachStep_true state events) reached

/-- Along a run whose steps meet `condition`, a property that follows from the
invariant at one step holds at each of them. -/
theorem eachStep_of_invariant (invariant : σ → Prop)
    (kept : ∀ state event target, invariant state → condition state event →
      next state event = some target → invariant target)
    (atStep : ∀ state event, invariant state → condition state event → property state event)
    {state : σ} {events : List ε} (start : invariant state)
    (each : EachStep next condition state events) : EachStep next property state events := by
  induction events generalizing state with
  | nil => trivial
  | cons event events ih =>
      exact ⟨atStep state event start each.1, fun target step =>
        ih (kept state event target start each.1 step) (each.2 target step)⟩

/-- A property that follows from an invariant of every step holds at every step. -/
theorem eachStep_always (invariant : σ → Prop)
    (kept : ∀ state event target, invariant state → next state event = some target →
      invariant target)
    (atStep : ∀ state event, invariant state → property state event)
    {state : σ} {events : List ε} (start : invariant state) :
    EachStep next property state events :=
  eachStep_of_invariant invariant
    (fun state event target holds _ step => kept state event target holds step)
    (fun state event holds _ => atStep state event holds) start (eachStep_true state events)

/-- A system whose step is defined under an invariant, and keeps it, makes every run. -/
theorem run_defined (invariant : σ → Prop)
    (progress : ∀ state event, invariant state →
      ∃ target, next state event = some target ∧ invariant target)
    {state : σ} (start : invariant state) (events : List ε) :
    ∃ final, run next state events = some final ∧ invariant final := by
  induction events generalizing state with
  | nil => exact ⟨state, rfl, start⟩
  | cons event events ih =>
      obtain ⟨target, step, kept⟩ := progress state event start
      obtain ⟨final, rest, holds⟩ := ih kept
      exact ⟨final, (run_cons_eq_some_iff _ _ _ _ _).mpr ⟨target, step, rest⟩, holds⟩

/-- All systems of a family make the same runs, which are defined and end related to the
run of a total specification, when each step from related states is. -/
theorem run_simulation_family {ι : Type*} {τ : Type w} {next : ι → EventStep σ ε}
    {related : σ → τ → Prop} {spec : τ → ε → τ}
    (simulates : ∀ state abstract event, related state abstract →
      ∃ target, (∀ i, next i state event = some target) ∧ related target (spec abstract event))
    {state : σ} {abstract : τ} (start : related state abstract) (events : List ε) :
    ∃ final, (∀ i, run (next i) state events = some final) ∧
      related final (events.foldl spec abstract) := by
  induction events generalizing state abstract with
  | nil => exact ⟨state, fun _ => rfl, start⟩
  | cons event events ih =>
      obtain ⟨target, step, stepRelated⟩ := simulates state abstract event start
      obtain ⟨final, rest, restRelated⟩ := ih stepRelated
      refine ⟨final, fun i => ?_, restRelated⟩
      exact (run_cons_eq_some_iff _ _ _ _ _).mpr ⟨target, step i, rest i⟩

/-- Every run of a system is defined and ends related to the run of a total
specification, when each step from related states is. -/
theorem run_simulation {τ : Type w} {related : σ → τ → Prop} {spec : τ → ε → τ}
    (simulates : ∀ state abstract event, related state abstract →
      ∃ target, next state event = some target ∧ related target (spec abstract event))
    {state : σ} {abstract : τ} (start : related state abstract) (events : List ε) :
    ∃ final, run next state events = some final ∧
      related final (events.foldl spec abstract) := by
  have family : ∀ state abstract event, related state abstract →
      ∃ target, (∀ _ : Unit, next state event = some target) ∧
        related target (spec abstract event) := by
    intro state abstract event holds
    obtain ⟨target, step, stepRelated⟩ := simulates state abstract event holds
    exact ⟨target, fun _ => step, stepRelated⟩
  obtain ⟨final, reached, finalRelated⟩ := run_simulation_family family start events
  exact ⟨final, reached (), finalRelated⟩

/-- A property of each step of a run is a condition on each step of the run of a
specification, when they agree on related states and the condition keeps states related. -/
theorem eachStep_iff_of_simulation {τ : Type w} {related : σ → τ → Prop}
    {spec : EventStep τ ε} {specCondition : τ → ε → Prop}
    (agree : ∀ state abstract event, related state abstract →
      (property state event ↔ specCondition abstract event))
    (simulates : ∀ state abstract event, related state abstract → specCondition abstract event →
      ∃ target after, next state event = some target ∧ spec abstract event = some after ∧
        related target after)
    {state : σ} {abstract : τ} (start : related state abstract) (events : List ε) :
    EachStep next property state events ↔ EachStep spec specCondition abstract events := by
  induction events generalizing state abstract with
  | nil => exact Iff.rfl
  | cons event events ih =>
      have first := agree state abstract event start
      by_cases meets : specCondition abstract event
      · obtain ⟨target, after, step, specStep, rest⟩ :=
          simulates state abstract event start meets
        have later := ih rest
        constructor
        · rintro ⟨_, each⟩
          refine ⟨meets, fun other otherStep => ?_⟩
          cases specStep.symm.trans otherStep
          exact later.mp (each target step)
        · rintro ⟨_, each⟩
          refine ⟨first.mpr meets, fun other otherStep => ?_⟩
          cases step.symm.trans otherStep
          exact later.mpr (each after specStep)
      · constructor
        · rintro ⟨holds, _⟩
          exact absurd (first.mp holds) meets
        · rintro ⟨holds, _⟩
          exact absurd holds meets

end Ece391Os.Transition
