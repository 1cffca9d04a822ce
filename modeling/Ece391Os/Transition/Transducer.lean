import Ece391Os.Transition.Run

/-!
# Transducers

A transducer reads events and emits at most one output for each.  Two transducers that
emit at the same events have the same outputs exactly when they agree at each event.  What
a partial system emits along its runs is the output of a transducer that it simulates.
-/

namespace Ece391Os.Transition

universe u v w x y

/-- A total system that emits at most one output for each event. -/
structure Transducer (σ : Type u) (ε : Type v) (α : Type w) where
  next : σ → ε → σ
  emit : σ → ε → Option α

namespace Transducer

variable {σ : Type u} {τ : Type x} {ε : Type v} {α : Type w}

/-- The state after a list of events. -/
def after (system : Transducer σ ε α) (state : σ) (events : List ε) : σ :=
  events.foldl system.next state

/-- The outputs along a list of events. -/
def outputs (system : Transducer σ ε α) : σ → List ε → List α
  | _, [] => []
  | state, event :: events =>
      (system.emit state event).toList ++ outputs system (system.next state event) events

theorem after_concat (system : Transducer σ ε α) (state : σ) (events : List ε) (event : ε) :
    system.after state (events ++ [event]) = system.next (system.after state events) event :=
  List.foldl_concat _ _ _ _

/-- The two systems emit the same at each of the events. -/
def AgreeAt (left : Transducer σ ε α) (right : Transducer τ ε α) (start : σ) (other : τ)
    (events : List ε) : Prop :=
  ∀ before event rest, events = before ++ event :: rest →
    left.emit (left.after start before) event = right.emit (right.after other before) event

variable {left : Transducer σ ε α} {right : Transducer τ ε α} {start : σ} {other : τ}

theorem agreeAt_cons_iff {event : ε} {events : List ε} :
    left.AgreeAt right start other (event :: events) ↔
      left.emit start event = right.emit other event ∧
        left.AgreeAt right (left.next start event) (right.next other event) events := by
  constructor
  · intro agree
    constructor
    · exact agree [] event events rfl
    · intro before later rest split
      exact agree (event :: before) later rest (by rw [split, List.cons_append])
  · rintro ⟨first, agree⟩ before later rest split
    cases before with
    | nil =>
        cases split
        exact first
    | cons head before =>
        cases split
        exact agree before later rest rfl

/-- Systems that emit at the same events have the same outputs if and only if they emit the
same at each event. -/
theorem outputs_eq_iff
    (together : ∀ before event, (left.emit (left.after start before) event).isSome =
      (right.emit (right.after other before) event).isSome) (events : List ε) :
    left.outputs start events = right.outputs other events ↔
      left.AgreeAt right start other events := by
  induction events generalizing start other with
  | nil =>
      apply iff_of_true rfl
      intro before event rest split
      exact absurd split (by simp)
  | cons event events ih =>
      have rest := ih fun before later => together (event :: before) later
      have first := together [] event
      rw [agreeAt_cons_iff, ← rest]
      simp only [outputs]
      change (left.emit start event).isSome = (right.emit other event).isSome at first
      cases emitted : left.emit start event with
      | none =>
          rw [emitted] at first
          cases otherEmitted : right.emit other event with
          | none => simp
          | some _ =>
              rw [otherEmitted] at first
              cases first
      | some output =>
          rw [emitted] at first
          cases otherEmitted : right.emit other event with
          | none =>
              rw [otherEmitted] at first
              cases first
          | some _ => simp

end Transducer

/-! ## Partial systems -/

variable {σ : Type u} {τ : Type x} {ε : Type v} {ι : Type y} {α : Type w}

/-- What a partial system emits along a list of events, up to the first undefined step. -/
def emitted (next : EventStep σ ε) (emit : σ → ε → Option α) : σ → List ε → List α
  | _, [] => []
  | state, event :: events =>
      (emit state event).toList ++
        match next state event with
        | none => []
        | some target => emitted next emit target events

/-- A run emits the outputs of a transducer that reads some of its events and that each step
simulates, under an invariant. -/
theorem emitted_eq_outputs {next : EventStep σ ε} {emit : σ → ε → Option α}
    (system : Transducer τ ι α) (read : ε → Option ι) (view : σ → τ)
    (simulates : ∀ state event target, next state event = some target →
      view target = (read event).elim (view state) (system.next (view state)))
    (emits : ∀ state event, emit state event = (read event).bind (system.emit (view state)))
    {state final : σ} {events : List ε} (reached : run next state events = some final) :
    emitted next emit state events = system.outputs (view state) (events.filterMap read) := by
  induction events generalizing state with
  | nil => rfl
  | cons event events ih =>
      rcases (run_cons_eq_some_iff _ _ _ _ _).mp reached with ⟨target, step, rest⟩
      have seen := simulates state event target step
      unfold emitted
      rw [step, emits]
      dsimp only
      rw [ih rest, seen]
      cases input : read event with
      | none =>
          rw [List.filterMap_cons_none input]
          rfl
      | some scan =>
          rw [List.filterMap_cons_some input]
          rfl

end Ece391Os.Transition
