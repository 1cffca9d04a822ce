import Ece391Os.Process.Forest

/-!
# Runs on one terminal

Without a terminal switch, only the first terminal is ever active, and its stack is the
chain of parents of its active process.
-/

namespace Ece391Os

open Transition

namespace ProcTable

/-- The first terminal is displayed, scheduled and the only active one. -/
structure OneTerminal (v : ProcTable) : Prop where
  shown : v.shown = 0
  scheduled : v.scheduled = 0
  active : ∀ t, v.active t = true ↔ t = 0

/-- The processes of the terminal after an action. -/
def chainAfter (chain : List ProcId) : ProcAction → List ProcId
  | .start p => p :: chain
  | .finish _ => chain.tail
  | .restart p => p :: chain.tail
  | _ => chain

namespace OneTerminal

variable {v : ProcTable}

theorem active_scheduled (one : v.OneTerminal) : v.active v.scheduled = true :=
  (one.active v.scheduled).mpr one.scheduled

theorem start (shown : v.shown = 0) (scheduled : v.scheduled = 0)
    (others : ∀ t, t ≠ 0 → v.active t = false) (p : ProcId) : (v.start p).OneTerminal := by
  constructor
  · exact shown
  · simp [ProcTable.start, shown, scheduled]
  · intro t
    by_cases first : t = 0
    · simp [ProcTable.start, shown, first]
    · simp [ProcTable.start, shown, first, others t first]

theorem inactive (one : v.OneTerminal) {t : TermId} (other : t ≠ 0) : v.active t = false := by
  cases active : v.active t with
  | false => rfl
  | true => exact absurd ((one.active t).mp active) other

/-- Actions other than a change of the displayed terminal stay on the terminal. -/
theorem act (one : v.OneTerminal) {action : ProcAction} (enabled : v.Enabled action)
    (stays : ∀ t, action ≠ .display t ∧ action ≠ .displayIdle t) :
    (v.act action).OneTerminal := by
  cases action with
  | stay => exact one
  | vidmap => exact ⟨one.shown, one.scheduled, one.active⟩
  | start p => exact start one.shown one.scheduled (fun t other => one.inactive other) p
  | finish esp0 =>
      rcases enabled with ⟨p, apn, _⟩
      unfold ProcTable.act
      rw [apn]
      exact ⟨one.shown, one.scheduled, one.active⟩
  | restart p =>
      rcases enabled with ⟨q, apn, _, _⟩
      rw [act_restart apn]
      apply start
      · exact one.shown
      · exact one.scheduled
      · intro t other
        simpa [one.scheduled, other] using one.inactive other
  | select t =>
      rcases enabled with ⟨one' | two, _⟩
      · exact absurd ((one.active 1).mp one') (by decide)
      · exact absurd ((one.active 2).mp two) (by decide)
  | display t => exact absurd rfl (stays t).1
  | displayIdle t => exact absurd rfl (stays t).2

theorem stacksAfter (one : v.OneTerminal) (owned : Stacks) (action : ProcAction) :
    v.stacksAfter owned action 0 = chainAfter (owned 0) action := by
  cases action with
  | start p =>
      unfold ProcTable.stacksAfter
      rw [one.shown]
      exact Stacks.push_self
  | finish esp0 =>
      unfold ProcTable.stacksAfter
      rw [one.scheduled]
      exact Stacks.pop_self
  | restart p =>
      have pushed : Stacks.push (owned.pop 0) 0 p 0 = p :: (owned 0).tail := by
        rw [Stacks.push_self, Stacks.pop_self]
      unfold ProcTable.stacksAfter
      rw [one.scheduled, one.shown]
      exact pushed
  | _ => rfl

end OneTerminal

end ProcTable

namespace Kernel

/-- The event is no switch to another terminal. -/
def NoSwitch (k : Kernel) (event : Event) : Prop :=
  ∀ scancode termNum, event = .keyboard scancode →
    (k.keyboard.decode scancode).2 = .switchTerminal termNum →
    ∀ t : TermId, termNum = t.val → t = k.curTerm

instance (k : Kernel) (event : Event) : Decidable (k.NoSwitch event) :=
  match event with
  | .keyboard scancode =>
      decidable_of_iff
        (∀ t : TermId, (k.keyboard.decode scancode).2 = .switchTerminal t.val → t = k.curTerm)
        (by
          constructor
          · rintro same _ _ ⟨⟩ decoded t rfl
            exact same t decoded
          · intro noSwitch t decoded
            exact noSwitch scancode t rfl decoded t rfl)
  | .timer | .clock | .halt _ | .execute _ | .read .. | .write .. | .openFile _ | .closeFile _
  | .getargs .. | .vidmap _ | .wait => .isTrue nofun

theorem Performs.stays {env : Env} {k : Kernel} {event : Event} {action : ProcAction}
    (performs : Performs env k event action) (noSwitch : k.NoSwitch event) (t : TermId) :
    action ≠ .display t ∧ action ≠ .displayIdle t := by
  cases performs with
  | halt _ _ halted => cases halted <;> exact ⟨nofun, nofun⟩
  | exit _ _ _ halted => cases halted <;> exact ⟨nofun, nofun⟩
  | switch scancode termNum _ decoded switched =>
      cases switched with
      | stay => exact ⟨nofun, nofun⟩
      | display u target enabled =>
          exact absurd (noSwitch scancode termNum rfl decoded u target) enabled.1
      | displayIdle u target enabled =>
          exact absurd (noSwitch scancode termNum rfl decoded u target) enabled.1
  | _ => exact ⟨nofun, nofun⟩

/-- The live processes are a chain on the first terminal. -/
structure OnChain (k : Kernel) (chain : List ProcId) : Prop where
  one : k.procs.OneTerminal
  owns : ∃ owned, k.Owns owned ∧ owned 0 = chain

namespace OnChain

variable {k k' : Kernel} {chain : List ProcId}

/-- The newest process of the chain is the active one. -/
theorem newest (on : k.OnChain chain) :
    ∃ p rest, chain = p :: rest ∧ (k.terminal 0).apn = some p := by
  rcases on.owns with ⟨owned, ⟨forest, _⟩, rfl⟩
  exact forest.newest 0 ((on.one.active 0).mpr rfl)

theorem nodup (on : k.OnChain chain) : chain.Nodup := by
  rcases on.owns with ⟨owned, ⟨forest, _⟩, rfl⟩
  exact forest.nodup 0

theorem linked (on : k.OnChain chain) :
    Linked (fun p => (k.pcb p).parentProcessNumber) chain := by
  rcases on.owns with ⟨owned, ⟨forest, _⟩, rfl⟩
  exact forest.linked 0

theorem number (on : k.OnChain chain) {p : ProcId} (member : p ∈ chain) :
    (k.pcb p).processNumber = p := by
  rcases on.owns with ⟨owned, ⟨forest, _⟩, rfl⟩
  exact (forest.member 0 p member).2.2

theorem term (on : k.OnChain chain) {p : ProcId} (member : p ∈ chain) : (k.pcb p).term = 0 := by
  rcases on.owns with ⟨owned, ⟨forest, _⟩, rfl⟩
  exact (forest.member 0 p member).2.1

/-- `pid_array` marks the processes of the chain. -/
theorem live_iff (on : k.OnChain chain) (p : ProcId) : k.pidArray p = true ↔ p ∈ chain := by
  rcases on.owns with ⟨owned, ⟨forest, covers⟩, rfl⟩
  constructor
  · intro live
    rcases covers p live with ⟨t, member⟩
    by_cases first : t = 0
    · rwa [first] at member
    · rw [forest.inactive t (on.one.inactive first)] at member
      cases member
  · intro member
    exact (forest.member 0 p member).1

/-- The active process of the displayed terminal belongs to it. -/
theorem own (on : k.OnChain chain) {p : ProcId} (apn : (k.terminal k.curTerm).apn = some p) :
    (k.pcb p).term = k.curTerm := by
  rcases on.newest with ⟨q, rest, rfl, active⟩
  have shown : k.curTerm = 0 := on.one.shown
  rw [shown, active] at apn
  cases apn
  rw [shown]
  exact on.term List.mem_cons_self

/-- The scheduler has no other terminal to resume. -/
theorem pitScheduling_eq (on : k.OnChain chain) (scheduled : k.pitScheduling = some k') :
    k' = k := by
  rcases pitScheduling_act scheduled with same | ⟨t, ⟨active, _⟩, _⟩
  · exact same
  · rcases active with first | second
    · exact absurd ((on.one.active 1).mp first) (by decide)
    · exact absurd ((on.one.active 2).mp second) (by decide)

theorem act (on : k.OnChain chain) {action : ProcAction} (enabled : k.procs.Enabled action)
    (stays : ∀ t, action ≠ .display t ∧ action ≠ .displayIdle t)
    (table : k'.procs = k.procs.act action) : k'.OnChain (ProcTable.chainAfter chain action) := by
  rcases on with ⟨one, owned, ⟨forest, covers⟩, rfl⟩
  constructor
  · rw [table]
    exact one.act enabled stays
  · refine ⟨k.procs.stacksAfter owned action, ⟨?_, ?_⟩, one.stacksAfter owned action⟩
    · rw [table]
      exact forest.act enabled fun _ => one.active_scheduled
    · rw [table]
      exact covers.act forest enabled fun _ => one.active_scheduled

/-- A step that is no switch stays on one chain. -/
theorem step {env : Env} {event : Event} (on : k.OnChain chain) (noSwitch : k.NoSwitch event)
    (step : k.step env event = some k') : ∃ chain, k'.OnChain chain := by
  rcases step_act step with ⟨action, performs, table⟩
  exact ⟨_, on.act performs.enabled (performs.stays noSwitch) table⟩

end OnChain

theorem onChain_of_boot {env : Env} {k start : Kernel} (booted : boot env k = some start) :
    ∃ p, start.procs = k.procs.beforeBoot.start p ∧ start.OnChain [p] := by
  rcases owns_of_boot booted with ⟨p, table, owns⟩
  refine ⟨p, table, ?_, _, owns, Stacks.push_self⟩
  rw [table]
  exact ProcTable.OneTerminal.start rfl rfl (fun _ _ => rfl) p

/-- Every state of a run without a terminal switch is on one chain. -/
theorem onChain_of_run {env : Env} {k start final : Kernel} {events : List Event}
    (booted : boot env k = some start)
    (alone : EachStep (Kernel.step env) NoSwitch start events)
    (reached : run (Kernel.step env) start events = some final) :
    ∃ chain, final.OnChain chain := by
  apply run_invariant (fun k => ∃ chain, k.OnChain chain) _ _ alone reached
  · rintro state event target ⟨chain, on⟩ noSwitch step
    exact on.step noSwitch step
  · rcases onChain_of_boot booted with ⟨p, _, on⟩
    exact ⟨[p], on⟩

end Kernel

end Ece391Os
