import Ece391Os.Process.Refines
import Ece391Os.Transition.Run

/-!
# The processes of the terminals

Each active terminal has a stack of live processes, from the one that it names to a root
that is its own parent.  A start pushes a process on the stack of the displayed terminal,
and a halt pops the scheduled one, whatever process makes the call.
-/

namespace Ece391Os

open Transition

/-- A stack of processes for each terminal, the newest process first. -/
abbrev Stacks := TermId → List ProcId

namespace Stacks

variable {owned : Stacks} {t : TermId} {p : ProcId}

/-- A new process of a terminal. -/
def push (owned : Stacks) (t : TermId) (p : ProcId) : Stacks :=
  Function.update owned t (p :: owned t)

/-- The newest process of a terminal is gone. -/
def pop (owned : Stacks) (t : TermId) : Stacks :=
  Function.update owned t (owned t).tail

theorem push_self : owned.push t p t = p :: owned t :=
  Function.update_self _ _ _

theorem push_of_ne {u : TermId} (differs : u ≠ t) : owned.push t p u = owned u :=
  Function.update_of_ne differs _ _

theorem pop_self : owned.pop t t = (owned t).tail :=
  Function.update_self _ _ _

theorem pop_of_ne {u : TermId} (differs : u ≠ t) : owned.pop t u = owned u :=
  Function.update_of_ne differs _ _

theorem mem_push {u : TermId} {q : ProcId} :
    q ∈ owned.push t p u ↔ (u = t ∧ q = p) ∨ q ∈ owned u := by
  by_cases here : u = t
  · subst here
    rw [push_self, List.mem_cons]
    simp
  · rw [push_of_ne here]
    simp [here]

end Stacks

/-- The tail of a linked list is linked. -/
theorem Linked.tail {parent : ProcId → ProcId} {processes : List ProcId}
    (linked : Linked parent processes) : Linked parent processes.tail := by
  cases processes with
  | nil => trivial
  | cons p rest =>
      cases rest with
      | nil => trivial
      | cons q rest => exact linked.2

namespace ProcTable

/-- The terminals own the processes on their stacks. -/
structure Forest (v : ProcTable) (owned : Stacks) : Prop where
  inactive : ∀ t, v.active t = false → owned t = []
  newest : ∀ t, v.active t = true → ∃ p rest, owned t = p :: rest ∧ v.apn t = some p
  member : ∀ t p, p ∈ owned t → v.live p = true ∧ v.term p = t ∧ v.number p = p
  nodup : ∀ t, (owned t).Nodup
  linked : ∀ t, Linked v.parent (owned t)

/-- Every live process is a process of a terminal. -/
def Covers (v : ProcTable) (owned : Stacks) : Prop :=
  ∀ p, v.live p = true → ∃ t, p ∈ owned t

variable {v : ProcTable} {owned : Stacks}

namespace Forest

theorem notMem_of_free (forest : v.Forest owned) {p : ProcId} (free : v.live p = false)
    (t : TermId) : p ∉ owned t := by
  intro member
  have live := (forest.member t p member).1
  rw [free] at live
  cases live

/-- A process is on the stack of one terminal only. -/
theorem notMem_of_ne (forest : v.Forest owned) {p : ProcId} {t u : TermId}
    (member : p ∈ owned t) (differs : u ≠ t) : p ∉ owned u := by
  intro other
  have here := (forest.member t p member).2.1
  have there := (forest.member u p other).2.1
  exact differs (there.symm.trans here)

/-- The process that an active terminal names is live. -/
theorem live_of_active (forest : v.Forest owned) {t : TermId} (active : v.active t = true) :
    ∃ p, v.apn t = some p ∧ v.live p = true := by
  rcases forest.newest t active with ⟨p, rest, stack, apn⟩
  have member : p ∈ owned t := by simp [stack]
  exact ⟨p, apn, (forest.member t p member).1⟩

/-- A new process with a free number is pushed on the stack of the displayed terminal. -/
theorem start (forest : v.Forest owned) {p : ProcId} (free : v.live p = false) :
    (v.start p).Forest (owned.push v.shown p) := by
  have fresh := forest.notMem_of_free free
  have others : ∀ t q, q ∈ owned t → q ≠ p := fun t q member same => fresh t (same ▸ member)
  constructor
  · intro t idle
    by_cases here : t = v.shown
    · subst here
      simp [ProcTable.start] at idle
    · rw [Stacks.push_of_ne here]
      exact forest.inactive t (by simpa [ProcTable.start, here] using idle)
  · intro t busy
    by_cases here : t = v.shown
    · subst here
      exact ⟨p, owned v.shown, Stacks.push_self, by simp [ProcTable.start]⟩
    · rcases forest.newest t (by simpa [ProcTable.start, here] using busy)
        with ⟨q, rest, stack, apn⟩
      rw [Stacks.push_of_ne here]
      exact ⟨q, rest, stack, by simpa [ProcTable.start, here] using apn⟩
  · intro t q member
    rcases Stacks.mem_push.mp member with ⟨rfl, rfl⟩ | old
    · simp [ProcTable.start]
    · simpa [ProcTable.start, others t q old] using forest.member t q old
  · intro t
    by_cases here : t = v.shown
    · subst here
      rw [Stacks.push_self]
      exact List.nodup_cons.mpr ⟨fresh v.shown, forest.nodup v.shown⟩
    · rw [Stacks.push_of_ne here]
      exact forest.nodup t
  · intro t
    have kept : Linked (v.start p).parent (owned t) :=
      (forest.linked t).congr fun q member => by simp [ProcTable.start, others t q member]
    by_cases here : t = v.shown
    · subst here
      rw [Stacks.push_self]
      cases busy : v.active v.shown with
      | true =>
          rcases forest.newest v.shown busy with ⟨q, rest, stack, apn⟩
          have member : q ∈ owned v.shown := by simp [stack]
          have number := (forest.member v.shown q member).2.2
          rw [stack] at kept ⊢
          constructor
          · simp [ProcTable.start, busy, apn, others _ _ member, number]
          · exact kept
      | false =>
          rw [forest.inactive v.shown busy]
          simp [Linked, ProcTable.start, busy]
    · rw [Stacks.push_of_ne here]
      exact kept

/-! ## Halting -/

section Release

variable {p : ProcId} {rest : List ProcId}

theorem mem_pop (forest : v.Forest owned) (stack : owned v.scheduled = p :: rest)
    (t : TermId) (q : ProcId) : q ∈ owned.pop v.scheduled t ↔ q ≠ p ∧ q ∈ owned t := by
  have head : p ∈ owned v.scheduled := by simp [stack]
  by_cases here : t = v.scheduled
  · subst here
    have distinct := forest.nodup v.scheduled
    rw [stack, List.nodup_cons] at distinct
    rw [Stacks.pop_self, stack, List.tail_cons, List.mem_cons]
    constructor
    · intro member
      exact ⟨fun same => distinct.1 (same ▸ member), .inr member⟩
    · rintro ⟨differs, same | member⟩
      · exact absurd same differs
      · exact member
  · rw [Stacks.pop_of_ne here]
    constructor
    · intro member
      exact ⟨fun same => forest.notMem_of_ne head here (same ▸ member), member⟩
    · exact And.right

/-- The facts about members that a release keeps. -/
theorem member_release (forest : v.Forest owned) (stack : owned v.scheduled = p :: rest)
    (t : TermId) (q : ProcId) (member : q ∈ owned.pop v.scheduled t) :
    (v.release p).live q = true ∧ v.term q = t ∧ v.number q = q := by
  have number : v.number p = p := (forest.member v.scheduled p (by simp [stack])).2.2
  rcases (forest.mem_pop stack t q).mp member with ⟨differs, old⟩
  rcases forest.member t q old with ⟨live, term, self⟩
  exact ⟨by simpa [release, number, differs] using live, term, self⟩

theorem nodup_pop (forest : v.Forest owned) (t : TermId) :
    (owned.pop v.scheduled t).Nodup := by
  by_cases here : t = v.scheduled
  · subst here
    rw [Stacks.pop_self]
    exact (forest.nodup v.scheduled).tail
  · rw [Stacks.pop_of_ne here]
    exact forest.nodup t

theorem linked_pop (forest : v.Forest owned) (t : TermId) :
    Linked v.parent (owned.pop v.scheduled t) := by
  by_cases here : t = v.scheduled
  · subst here
    rw [Stacks.pop_self]
    exact (forest.linked v.scheduled).tail
  · rw [Stacks.pop_of_ne here]
    exact forest.linked t

/-- The process that an active terminal names is on top of its stack. -/
theorem stack_of_apn (forest : v.Forest owned) {t : TermId} (active : v.active t = true)
    (apn : v.apn t = some p) : ∃ rest, owned t = p :: rest := by
  rcases forest.newest t active with ⟨q, rest, stack, named⟩
  cases apn.symm.trans named
  exact ⟨rest, stack⟩

/-- Below a process that is not its own parent comes its parent. -/
theorem parent_below (forest : v.Forest owned) (stack : owned v.scheduled = p :: rest)
    (child : v.number p ≠ v.parent p) : ∃ lower, rest = v.parent p :: lower := by
  have number : v.number p = p := (forest.member v.scheduled p (by simp [stack])).2.2
  have linked := forest.linked v.scheduled
  rw [stack] at linked
  cases rest with
  | nil => exact absurd (number.trans linked.symm) child
  | cons q lower => exact ⟨lower, by rw [linked.1]⟩

/-- A process that is its own parent is alone on its stack. -/
theorem root_alone (forest : v.Forest owned) (stack : owned v.scheduled = p :: rest)
    (root : v.number p = v.parent p) : rest = [] := by
  have number : v.number p = p := (forest.member v.scheduled p (by simp [stack])).2.2
  have linked := forest.linked v.scheduled
  have distinct := forest.nodup v.scheduled
  rw [stack] at linked distinct
  cases rest with
  | nil => rfl
  | cons q rest =>
      have self : p = q := number.symm.trans (root.trans linked.1)
      simp [self] at distinct

/-- A halted process that is not its own parent is followed by its parent. -/
theorem release_child (forest : v.Forest owned) (active : v.active v.scheduled = true)
    (apn : v.apn v.scheduled = some p) (child : v.number p ≠ v.parent p) :
    (v.release p).Forest (owned.pop v.scheduled) := by
  rcases forest.stack_of_apn active apn with ⟨rest, stack⟩
  rcases forest.parent_below stack child with ⟨lower, rfl⟩
  have parentNumber : v.number (v.parent p) = v.parent p :=
    (forest.member v.scheduled (v.parent p) (by simp [stack])).2.2
  constructor
  · intro t idle
    have here : t ≠ v.scheduled := by
      rintro rfl
      exact absurd active (by rw [show v.active v.scheduled = false from idle]; decide)
    rw [Stacks.pop_of_ne here]
    exact forest.inactive t idle
  · intro t busy
    by_cases here : t = v.scheduled
    · subst here
      rw [Stacks.pop_self, stack]
      exact ⟨v.parent p, lower, rfl, by simp [release, parentNumber]⟩
    · rw [Stacks.pop_of_ne here]
      rcases forest.newest t busy with ⟨q, others, stackT, apnT⟩
      exact ⟨q, others, stackT, by simpa [release, here] using apnT⟩
  · exact forest.member_release stack
  · exact forest.nodup_pop
  · exact forest.linked_pop

/-- A halted root leaves its terminal without processes. -/
theorem release_root (forest : v.Forest owned) (active : v.active v.scheduled = true)
    (apn : v.apn v.scheduled = some p) (root : v.number p = v.parent p) :
    ProcTable.Forest
      { v.release p with active := Function.update v.active v.scheduled false }
      (owned.pop v.scheduled) := by
  rcases forest.stack_of_apn active apn with ⟨rest, stack⟩
  cases forest.root_alone stack root
  constructor
  · intro t idle
    by_cases here : t = v.scheduled
    · subst here
      rw [Stacks.pop_self, stack]
      rfl
    · rw [Stacks.pop_of_ne here]
      exact forest.inactive t (by simpa [here] using idle)
  · intro t busy
    have here : t ≠ v.scheduled := by
      rintro rfl
      simp at busy
    rw [Stacks.pop_of_ne here]
    rcases forest.newest t (by simpa [here] using busy) with ⟨q, others, stackT, apnT⟩
    exact ⟨q, others, stackT, by simpa [release, here] using apnT⟩
  · exact forest.member_release stack
  · exact forest.nodup_pop
  · exact forest.linked_pop

end Release

end Forest

end ProcTable

/-! ## Actions -/

/-- The action frees the active process of the scheduled terminal. -/
def ProcAction.Halts : ProcAction → Prop
  | .finish _ | .restart _ => True
  | _ => False

namespace ProcTable

variable {v : ProcTable} {owned : Stacks}

/-- The stacks after an action. -/
def stacksAfter (v : ProcTable) (owned : Stacks) : ProcAction → Stacks
  | .start p => owned.push v.shown p
  | .finish _ => owned.pop v.scheduled
  | .restart p => (owned.pop v.scheduled).push v.shown p
  | _ => owned

theorem act_restart {q : ProcId} (apn : v.apn v.scheduled = some q) (p : ProcId) :
    v.act (.restart p) =
      { v.release q with active := Function.update v.active v.scheduled false }.start p := by
  simp [act, apn, release]

/-- Every action keeps the stacks in order, as long as halts are made while the scheduled
terminal is active. -/
theorem Forest.act (forest : v.Forest owned) {action : ProcAction} (enabled : v.Enabled action)
    (halts : action.Halts → v.active v.scheduled = true) :
    (v.act action).Forest (v.stacksAfter owned action) := by
  rcases forest with ⟨inactive, newest, member, nodup, linked⟩
  have forest : v.Forest owned := ⟨inactive, newest, member, nodup, linked⟩
  cases action with
  | stay => exact forest
  | vidmap => exact ⟨inactive, newest, member, nodup, linked⟩
  | start p => exact forest.start enabled
  | finish esp0 =>
      rcases enabled with ⟨p, apn, child⟩
      rcases forest.release_child (halts trivial) apn child with
        ⟨inactive, newest, member, nodup, linked⟩
      unfold ProcTable.act
      rw [apn]
      exact ⟨inactive, newest, member, nodup, linked⟩
  | restart p =>
      rcases enabled with ⟨q, apn, root, free⟩
      rw [act_restart apn]
      exact (forest.release_root (halts trivial) apn root).start free
  | select t =>
      unfold ProcTable.act
      dsimp only
      split
      · exact forest
      · exact ⟨inactive, newest, member, nodup, linked⟩
  | display t => exact ⟨inactive, newest, member, nodup, linked⟩
  | displayIdle t => exact ⟨inactive, newest, member, nodup, linked⟩

namespace Covers

theorem start (covers : v.Covers owned) (p : ProcId) :
    (v.start p).Covers (owned.push v.shown p) := by
  intro q live
  by_cases new : q = p
  · exact ⟨v.shown, Stacks.mem_push.mpr (.inl ⟨rfl, new⟩)⟩
  · rcases covers q (by simpa [ProcTable.start, new] using live) with ⟨t, member⟩
    exact ⟨t, Stacks.mem_push.mpr (.inr member)⟩

theorem release (covers : v.Covers owned) (forest : v.Forest owned) {p : ProcId}
    (active : v.active v.scheduled = true) (apn : v.apn v.scheduled = some p) :
    (v.release p).Covers (owned.pop v.scheduled) := by
  rcases forest.stack_of_apn active apn with ⟨rest, stack⟩
  have number : v.number p = p := (forest.member v.scheduled p (by simp [stack])).2.2
  intro q live
  have differs : q ≠ p := by
    rintro rfl
    simp [ProcTable.release, number] at live
  rcases covers q (by simpa [ProcTable.release, number, differs] using live) with ⟨t, member⟩
  exact ⟨t, (forest.mem_pop stack t q).mpr ⟨differs, member⟩⟩

/-- Every action keeps the live processes on the stacks. -/
theorem act (covers : v.Covers owned) (forest : v.Forest owned) {action : ProcAction}
    (enabled : v.Enabled action) (halts : action.Halts → v.active v.scheduled = true) :
    (v.act action).Covers (v.stacksAfter owned action) := by
  cases action with
  | stay => exact covers
  | vidmap => exact covers
  | start p => exact covers.start p
  | finish esp0 =>
      rcases enabled with ⟨p, apn, _⟩
      have released := covers.release forest (halts trivial) apn
      unfold ProcTable.act
      rw [apn]
      exact released
  | restart p =>
      rcases enabled with ⟨q, apn, _, _⟩
      have released := covers.release forest (halts trivial) apn
      rw [act_restart apn]
      exact Covers.start (v := { v.release q with
        active := Function.update v.active v.scheduled false }) released p
  | select t =>
      unfold ProcTable.act
      dsimp only
      split <;> exact covers
  | display t => exact covers
  | displayIdle t => exact covers

end Covers

/-- No process is live before the first shell. -/
theorem forest_beforeBoot (v : ProcTable) : v.beforeBoot.Forest fun _ => [] := by
  constructor
  · intro t _
    rfl
  · intro t busy
    cases busy
  · intro t p member
    cases member
  · intro t
    exact List.nodup_nil
  · intro t
    trivial

theorem covers_beforeBoot (v : ProcTable) : v.beforeBoot.Covers fun _ => [] := by
  intro p live
  cases live

end ProcTable

/-! ## Runs -/

/-- A call of `halt`, by a program or by the command `exit`. -/
def Event.Halts : Event → Prop
  | .halt _ => True
  | .execute command => command.Exits
  | _ => False

namespace Kernel

theorem Performs.halts {env : Env} {k : Kernel} {event : Event} {action : ProcAction}
    (performs : Performs env k event action) (halts : action.Halts) : event.Halts := by
  cases performs with
  | halt => trivial
  | exit _ _ exits _ => exact exits
  | switch _ _ _ _ switched => cases switched <;> exact halts.elim
  | _ => exact halts.elim

/-- A process halts while the scheduled terminal is active. -/
def HaltsOnActive (k : Kernel) (event : Event) : Prop :=
  event.Halts → (k.terminal k.curActiveTerminal).active = true

/-- The stacks of the terminals, which hold the live processes. -/
def Owns (k : Kernel) (owned : Stacks) : Prop :=
  k.procs.Forest owned ∧ k.procs.Covers owned

theorem owns_of_boot {env : Env} {k start : Kernel} (booted : boot env k = some start) :
    ∃ p, start.procs = k.procs.beforeBoot.start p ∧
      start.Owns (Stacks.push (fun _ => []) 0 p) := by
  rcases boot_procs booted with ⟨p, table⟩
  refine ⟨p, table, ?_, ?_⟩
  · rw [table]
    exact k.procs.forest_beforeBoot.start rfl
  · rw [table]
    exact k.procs.covers_beforeBoot.start p

theorem owns_step {env : Env} {k k' : Kernel} {event : Event} {owned : Stacks}
    (owns : k.Owns owned) (halts : k.HaltsOnActive event) (step : k.step env event = some k') :
    ∃ action, Performs env k event action ∧ k'.procs = k.procs.act action ∧
      k'.Owns (k.procs.stacksAfter owned action) := by
  rcases step_act step with ⟨action, performs, table⟩
  have active : action.Halts → k.procs.active k.procs.scheduled = true :=
    fun frees => halts (performs.halts frees)
  refine ⟨action, performs, table, ?_, ?_⟩
  · rw [table]
    exact owns.1.act performs.enabled active
  · rw [table]
    exact owns.2.act owns.1 performs.enabled active

/-- In a run from the first shell whose halts are made while the scheduled terminal is
active, the terminals own the live processes. -/
theorem owns_of_run {env : Env} {k start final : Kernel} {events : List Event}
    (booted : boot env k = some start)
    (halts : EachStep (Kernel.step env) HaltsOnActive start events)
    (reached : run (Kernel.step env) start events = some final) :
    ∃ owned, final.Owns owned := by
  apply run_invariant (fun k => ∃ owned, k.Owns owned) _ _ halts reached
  · rintro state event target ⟨owned, owns⟩ halts step
    rcases owns_step owns halts step with ⟨action, _, _, after⟩
    exact ⟨_, after⟩
  · rcases owns_of_boot booted with ⟨p, _, owns⟩
    exact ⟨_, owns⟩

end Kernel

end Ece391Os
