import Ece391Os.Transition.Run

/-!
# Bounded waiting

A run comes nearer to a goal with each step of one kind, and loses ground by steps of
another kind only.  As long as it has not passed the goal, there are not more steps of the
first kind than its distance at the start and the steps of the second kind allow.
-/

namespace Ece391Os.Transition

universe u v

variable {σ : Type u} {ε : Type v} {next : EventStep σ ε}

/-- The number of steps of a kind that a run makes. -/
def stepCount (next : EventStep σ ε) (kind : σ → ε → Bool) : σ → List ε → Nat
  | _, [] => 0
  | state, event :: events =>
      (kind state event).toNat +
        match next state event with
        | none => 0
        | some target => stepCount next kind target events

theorem stepCount_cons {kind : σ → ε → Bool} {state target : σ} {event : ε} {events : List ε}
    (step : next state event = some target) :
    stepCount next kind state (event :: events) =
      (kind state event).toNat + stepCount next kind target events := by
  rw [stepCount, step]

/-- A kind of steps that is known by the event. -/
theorem stepCount_eq_countP {kind : ε → Bool} {state final : σ} {events : List ε}
    (reached : run next state events = some final) :
    stepCount next (fun _ => kind) state events = events.countP kind := by
  induction events generalizing state with
  | nil => rfl
  | cons event events ih =>
      rcases (run_cons_eq_some_iff _ _ _ _ _).mp reached with ⟨target, step, rest⟩
      rw [stepCount_cons step, ih rest, List.countP_cons, Nat.add_comm]
      cases kind event <;> rfl

/-- A run passes a state with a property. -/
def Passes (next : EventStep σ ε) (goal : σ → Prop) (state : σ) (events : List ε) : Prop :=
  ∃ first second middle, events = first ++ second ∧ run next state first = some middle ∧
    goal middle

theorem Passes.here {goal : σ → Prop} {state : σ} (holds : goal state) (events : List ε) :
    Passes next goal state events :=
  ⟨[], events, state, rfl, rfl, holds⟩

theorem Passes.later {goal : σ → Prop} {state target : σ} {event : ε} {events : List ε}
    (step : next state event = some target) (passes : Passes next goal target events) :
    Passes next goal state (event :: events) := by
  rcases passes with ⟨first, second, middle, rfl, reached, holds⟩
  exact ⟨event :: first, second, middle, rfl,
    (run_cons_eq_some_iff _ _ _ _ _).mpr ⟨target, step, reached⟩, holds⟩

/-- A run that has not passed the goal has made no more steps towards it than its distance
and the steps away from it allow. -/
theorem passes_or_waits {condition : σ → ε → Prop} {goal : σ → Prop} {distance : σ → Nat}
    {urges delays : σ → ε → Bool}
    (progress : ∀ state event target, condition state event → ¬ goal state →
      next state event = some target → ¬ goal target →
      distance target + (urges state event).toNat ≤
        distance state + (delays state event).toNat)
    {state final : σ} {events : List ε} (each : EachStep next condition state events)
    (reached : run next state events = some final) :
    Passes next goal state events ∨
      distance final + stepCount next urges state events ≤
        distance state + stepCount next delays state events := by
  classical
  induction events generalizing state with
  | nil =>
      cases reached
      exact .inr (Nat.le_refl _)
  | cons event events ih =>
      by_cases here : goal state
      · exact .inl (.here here _)
      rcases (run_cons_eq_some_iff _ _ _ _ _).mp reached with ⟨target, step, rest⟩
      by_cases there : goal target
      · exact .inl (.later step (.here there _))
      rcases ih (each.2 target step) rest with passes | waits
      · exact .inl (passes.later step)
      · right
        have nearer := progress state event target each.1 here step there
        rw [stepCount_cons step, stepCount_cons step]
        omega

/-- A run with more steps towards the goal than it can wait for passes it. -/
theorem passes_of_progress {condition : σ → ε → Prop} {goal : σ → Prop} {distance : σ → Nat}
    {urges delays : σ → ε → Bool}
    (progress : ∀ state event target, condition state event → ¬ goal state →
      next state event = some target → ¬ goal target →
      distance target + (urges state event).toNat ≤
        distance state + (delays state event).toNat)
    {state final : σ} {events : List ε} (each : EachStep next condition state events)
    (reached : run next state events = some final)
    (enough : distance state + stepCount next delays state events <
      distance final + stepCount next urges state events) :
    Passes next goal state events := by
  rcases passes_or_waits progress each reached with passes | waits
  · exact passes
  · exact absurd enough (Nat.not_lt.mpr waits)

end Ece391Os.Transition
