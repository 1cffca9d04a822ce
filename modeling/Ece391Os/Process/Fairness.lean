import Ece391Os.Process.Coherence
import Ece391Os.Transition.History
import Ece391Os.Transition.Waiting

/-!
# No terminal starves

The scheduler goes around the active terminals.  A terminal that stays active runs again
after three timer interrupts at most, and one more for each program that is started while
an idle terminal is displayed, since such a program gets the processor out of turn.
-/

namespace Ece391Os

open Transition

namespace ProcTable

variable {v : ProcTable}

/-- The process that a terminal names runs, and the terminal is scheduled. -/
def Runs (v : ProcTable) (t : TermId) : Prop :=
  v.scheduled = t ∧ v.mapped = v.apn t

/-- The timer interrupts that can pass until a terminal runs. -/
def turnsUntil (v : ProcTable) (t : TermId) : Nat :=
  if v.scheduled = t then 3 else (t - v.scheduled).val

theorem turnsUntil_le (v : ProcTable) (t : TermId) : v.turnsUntil t ≤ 3 := by
  unfold turnsUntil
  split
  · exact Nat.le_refl 3
  · exact Nat.le_of_lt (t - v.scheduled).isLt

theorem turnsUntil_pos (v : ProcTable) (t : TermId) : 0 < v.turnsUntil t := by
  have differ : ∀ s : TermId, s ≠ t → 0 < (t - s).val := by
    revert t
    decide
  unfold turnsUntil
  split
  · decide
  · rename_i elsewhere
    exact differ _ elsewhere

/-- From the scheduled terminal, one or two others come before a terminal. -/
theorem turnsUntil_of_ne {t : TermId} (elsewhere : v.scheduled ≠ t) : v.turnsUntil t ≤ 2 := by
  rw [turnsUntil, if_neg elsewhere]
  exact Nat.le_of_lt_succ (t - v.scheduled).isLt

/-- The program gets the processor out of turn: it is started on an idle terminal. -/
def OutOfTurn (v : ProcTable) : ProcAction → Prop
  | .start _ | .restart _ => v.active v.shown = false
  | _ => False

/-- Only the scheduler and programs out of turn change the scheduled terminal. -/
theorem scheduled_act {action : ProcAction} (noSelect : ∀ t, action ≠ .select t) :
    (v.act action).scheduled = v.scheduled ∨
      v.OutOfTurn action ∧ (v.act action).scheduled = v.shown := by
  have started : ∀ (w : ProcTable) (p : ProcId), (w.start p).scheduled =
      if w.active w.shown then w.scheduled else w.shown := fun _ _ => rfl
  cases action with
  | start p =>
      cases busy : v.active v.shown with
      | true => exact .inl ((started v p).trans (by rw [busy, if_pos rfl]))
      | false => exact .inr ⟨busy, (started v p).trans (by rw [busy, if_neg (by decide)])⟩
  | finish esp0 =>
      left
      unfold act
      dsimp only
      split <;> rfl
  | restart p =>
      cases apn : v.apn v.scheduled with
      | none =>
          left
          simp only [act, apn]
      | some q =>
          simp only [act, apn, started]
          by_cases here : v.shown = v.scheduled
          · left
            simp [release, here]
          · have other : Function.update v.active v.scheduled false v.shown = v.active v.shown :=
              Function.update_of_ne here _ _
            cases busy : v.active v.shown with
            | true =>
                left
                simp [release, other, busy]
            | false =>
                right
                exact ⟨busy, by simp [release, other, busy]⟩
  | select t => exact absurd rfl (noSelect t)
  | stay => exact .inl rfl
  | vidmap => exact .inl rfl
  | display t => exact .inl rfl
  | displayIdle t => exact .inl rfl

/-- A context switch brings an active terminal one turn nearer, if it does not run it. -/
theorem turnsUntil_select {t u : TermId} (active : v.active t = true)
    (enabled : v.Enabled (.select u)) (waits : ¬ (v.act (.select u)).Runs t) :
    (v.act (.select u)).turnsUntil t + 1 ≤ v.turnsUntil t := by
  rcases enabled with ⟨_, named, selected⟩
  rcases Option.isSome_iff_exists.mp named with ⟨p, apn⟩
  have scheduled : (v.act (.select u)).scheduled = u := by
    simp only [act, apn]
  have runs : (v.act (.select u)).Runs u := by
    refine ⟨scheduled, ?_⟩
    simp only [act, apn]
  have differs : u ≠ t := by
    rintro rfl
    exact waits runs
  have nearer : ∀ s u t : TermId, u ≠ t → (u = s + 1 ∨ (u = s + 1 + 1 ∧ t ≠ s + 1)) →
      (t - u).val + 1 ≤ if s = t then 3 else (t - s).val := by
    decide
  have next : u = v.scheduled + 1 ∨ u = v.scheduled + 1 + 1 ∧ t ≠ v.scheduled + 1 := by
    by_cases first : v.active (v.scheduled + 1) = true
    · left
      rwa [if_pos first] at selected
    · right
      rw [if_neg first] at selected
      refine ⟨selected, ?_⟩
      rintro rfl
      exact first active
  rw [turnsUntil, turnsUntil, scheduled, if_neg differs]
  exact nearer v.scheduled u t differs next

/-- Every other action keeps a terminal's turn, or is out of turn. -/
theorem turnsUntil_act {t : TermId} {action : ProcAction} (active : v.active t = true)
    (noSelect : ∀ t, action ≠ .select t) :
    (v.act action).turnsUntil t ≤ v.turnsUntil t ∨
      v.OutOfTurn action ∧ (v.act action).turnsUntil t ≤ v.turnsUntil t + 1 := by
  rcases scheduled_act (v := v) noSelect with same | ⟨outOfTurn, shown⟩
  · left
    rw [turnsUntil, turnsUntil, same]
  · right
    have idle : v.active v.shown = false := by
      cases action with
      | start => exact outOfTurn
      | restart => exact outOfTurn
      | _ => exact outOfTurn.elim
    have elsewhere : (v.act action).scheduled ≠ t := by
      rw [shown]
      rintro rfl
      rw [active] at idle
      cases idle
    have near := turnsUntil_of_ne elsewhere
    have before := v.turnsUntil_pos t
    exact ⟨outOfTurn, by omega⟩

end ProcTable

/-- The event is a timer interrupt. -/
def Event.isTimer : Event → Bool
  | .timer => true
  | _ => false

namespace Kernel

variable {env : Env} {k k' : Kernel} {event : Event}

/-- A program may be started while an idle terminal is displayed. -/
def startsOnIdle (k : Kernel) (event : Event) : Bool :=
  !(k.terminal k.curTerm).active &&
    match event with
    | .execute _ | .halt _ => true
    | .wait =>
        match k.cpu.activity with
        | .launch .. => true
        | .user _ | .terminalRead .. | .rtcRead _ => false
    | _ => false

theorem startsOnIdle_of_outOfTurn {action : ProcAction} (performs : Performs env k event action)
    (outOfTurn : k.procs.OutOfTurn action) : k.startsOnIdle event = true := by
  have idle : (k.terminal k.curTerm).active = false := by
    cases action with
    | start => exact outOfTurn
    | restart => exact outOfTurn
    | _ => exact outOfTurn.elim
  unfold startsOnIdle
  rw [idle]
  cases performs with
  | start => rfl
  | halt => rfl
  | exit => rfl
  | launch old interrupted p launching _ =>
      rw [launching]
      rfl
  | switch _ _ _ _ switched => cases switched <;> exact outOfTurn.elim
  | _ => exact outOfTurn.elim

/-- Only the timer interrupt makes context switches. -/
theorem Performs.noSelect {action : ProcAction} (performs : Performs env k event action)
    (noTimer : event.isTimer = false) (t : TermId) : action ≠ .select t := by
  rintro rfl
  cases performs with
  | halt _ _ halted => cases halted
  | exit _ _ _ halted => cases halted
  | select => cases noTimer
  | switch _ _ _ _ switched => cases switched

/-- A timer interrupt makes a context switch when a terminal other than the first is
active. -/
theorem pitScheduling_selects (others : (k.terminal 1).active = true ∨ (k.terminal 2).active = true)
    (scheduled : k.pitScheduling = some k') :
    ∃ t, k.procs.Enabled (.select t) ∧ k'.procs = k.procs.act (.select t) := by
  unfold pitScheduling at scheduled
  rw [if_pos others] at scheduled
  rcases Option.bind_eq_some_iff.mp scheduled with ⟨nextProcess, apn, switches⟩
  refine ⟨k.getNextScheduled, ⟨others, ?_, k.getNextScheduled_eq⟩, ?_⟩
  · exact Option.isSome_iff_exists.mpr ⟨nextProcess, apn⟩
  · exact processContextswitch_act apn switches

/-- The terminal and another one are active. -/
def Competes (k : Kernel) (t : TermId) : Prop :=
  (k.terminal t).active = true ∧ ∃ u, u ≠ t ∧ (k.terminal u).active = true

/-- A step brings a terminal that does not run nearer to its turn. -/
theorem turnsUntil_step {t : TermId} (competes : k.Competes t)
    (step : k.step env event = some k') (waits : ¬ k'.procs.Runs t) :
    k'.procs.turnsUntil t + event.isTimer.toNat ≤
      k.procs.turnsUntil t + (k.startsOnIdle event).toNat := by
  rcases competes with ⟨active, u, differs, other⟩
  cases timer : event.isTimer with
  | true =>
      cases event with
      | timer =>
          have others : (k.terminal 1).active = true ∨ (k.terminal 2).active = true := by
            have two : ∀ t u : TermId, u ≠ t → t = 1 ∨ t = 2 ∨ u = 1 ∨ u = 2 := by decide
            rcases two t u differs with rfl | rfl | rfl | rfl
            · exact .inl active
            · exact .inr active
            · exact .inl other
            · exact .inr other
          rcases pitScheduling_selects others step with ⟨next, enabled, table⟩
          rw [table] at waits ⊢
          exact Nat.le_add_right_of_le (ProcTable.turnsUntil_select active enabled waits)
      | _ => cases timer
  | false =>
      rcases step_act step with ⟨action, performs, table⟩
      rw [table]
      rcases ProcTable.turnsUntil_act (v := k.procs) active (performs.noSelect timer) with
        same | ⟨outOfTurn, near⟩
      · exact Nat.le_add_right_of_le same
      · rw [startsOnIdle_of_outOfTurn performs outOfTurn]
        exact near

/-- In every run, a terminal that stays active beside another one has its process run after
three timer interrupts at most, and one more for each program that may be started while an
idle terminal is displayed. -/
theorem runs_within {final : Kernel} {events : List Event} {t : TermId}
    (competes : EachStep (step env) (fun k _ => k.Competes t) k events)
    (reached : run (step env) k events = some final)
    (enough : 3 + stepCount (step env) startsOnIdle k events ≤ events.countP Event.isTimer) :
    Passes (step env) (fun k => k.curActiveTerminal = t ∧
      k.mappedProcess = (k.terminal t).apn) k events := by
  have progress : ∀ state event target, state.Competes t → ¬ state.procs.Runs t →
      step env state event = some target → ¬ target.procs.Runs t →
      target.procs.turnsUntil t + event.isTimer.toNat ≤
        state.procs.turnsUntil t + (state.startsOnIdle event).toNat :=
    fun state event target competes _ step waits => turnsUntil_step competes step waits
  have counted : stepCount (step env) (fun _ => Event.isTimer) k events =
      events.countP Event.isTimer := stepCount_eq_countP reached
  have atStart := k.procs.turnsUntil_le t
  have atEnd := final.procs.turnsUntil_pos t
  exact passes_of_progress progress competes reached (by omega)

instance (k : Kernel) (t : TermId) : Decidable (k.Competes t) :=
  inferInstanceAs (Decidable (_ ∧ _))

/-- The shell of the second terminal is started, and the timer interrupts three times. -/
def threeTurnsRun : BootRun Env.sample [.keyboard 0x38, .keyboard 0x3C, .wait]
    (fun k =>
      (decide (EachStep (step Env.sample) (fun k _ => k.Competes 0) k [.timer, .timer, .timer]),
        (run (step Env.sample) k [.timer, .timer, .timer]).isSome,
        stepCount (step Env.sample) startsOnIdle k [.timer, .timer, .timer],
        k.curActiveTerminal))
    (true, true, 0, 1) :=
  .of (by decide +kernel)

theorem runs_within_sample :
    threeTurnsRun.final.curActiveTerminal = 1 ∧
      Passes (step Env.sample) (fun k => k.curActiveTerminal = 0 ∧
        k.mappedProcess = (k.terminal 0).apn) threeTurnsRun.final [.timer, .timer, .timer] := by
  have saw := threeTurnsRun.saw
  simp only [Prod.mk.injEq, decide_eq_true_eq] at saw
  rcases saw with ⟨competes, ends, none, scheduled⟩
  rcases Option.isSome_iff_exists.mp ends with ⟨final, reached⟩
  refine ⟨scheduled, runs_within competes reached ?_⟩
  rw [none]
  decide

end Kernel

end Ece391Os
