import Ece391Os.Transition.Run

/-!
# Runs with a history

A system is extended by a history that each step adds to and that no step looks at.
The extended system makes the same runs, so what is shown of its histories holds of the
runs of the system itself.
-/

namespace Ece391Os.Transition

universe u v w

variable {σ : Type u} {ε : Type v} {η : Type w}

/-- Extend a system by a history, which `note` brings up to date after each step. -/
def withHistory (next : EventStep σ ε) (note : σ → ε → σ → η → η) : EventStep (σ × η) ε :=
  fun state event =>
    (next state.1 event).map fun target => (target, note state.1 event target state.2)

variable {next : EventStep σ ε} {note : σ → ε → σ → η → η}

theorem withHistory_eq_some_iff {state target : σ × η} {event : ε} :
    withHistory next note state event = some target ↔
      next state.1 event = some target.1 ∧ target.2 = note state.1 event target.1 state.2 := by
  unfold withHistory
  rw [Option.map_eq_some_iff]
  constructor
  · rintro ⟨reached, step, rfl⟩
    exact ⟨step, rfl⟩
  · rintro ⟨step, noted⟩
    exact ⟨target.1, step, Prod.ext rfl noted.symm⟩

/-- The extended system makes the runs of the system. -/
theorem run_withHistory (state : σ × η) (events : List ε) :
    (run (withHistory next note) state events).map Prod.fst = run next state.1 events := by
  induction events generalizing state with
  | nil => rfl
  | cons event events ih =>
      rw [run_cons, run_cons]
      unfold withHistory
      cases next state.1 event with
      | none => rfl
      | some target => exact ih (target, note state.1 event target state.2)

/-- A condition on the steps of the system is one on those of the extended system. -/
theorem EachStep.withHistory {condition : σ → ε → Prop} {state : σ} {events : List ε}
    (each : EachStep next condition state events) (history : η) :
    EachStep (withHistory next note) (fun state event => condition state.1 event)
      (state, history) events := by
  induction events generalizing state history with
  | nil => trivial
  | cons event events ih =>
      constructor
      · exact each.1
      · intro target step
        rcases withHistory_eq_some_iff.mp step with ⟨reached, _⟩
        exact ih (each.2 target.1 reached) target.2

/-- A run from a computed start, with what is seen of the state that it reaches. -/
structure ObservedRun {α : Type} (start : Option σ) (next : EventStep σ ε) (events : List ε)
    (observe : σ → α) (seen : α) where
  initial : σ
  final : σ
  starts : start = some initial
  reached : run next initial events = some final
  saw : observe final = seen

/-- The run of a list of events, from the computation of what is seen. -/
def ObservedRun.of {α : Type} {start : Option σ} {events : List ε} {observe : σ → α} {seen : α}
    (computed : (start.bind fun initial => run next initial events).map observe = some seen) :
    ObservedRun start next events observe seen :=
  match starts : start with
  | none => absurd computed (by simp)
  | some initial =>
      match reached : run next initial events with
      | none => absurd computed (by simp [reached])
      | some final => ⟨initial, final, rfl, reached, by simpa [reached] using computed⟩

end Ece391Os.Transition
