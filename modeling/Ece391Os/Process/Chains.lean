import Ece391Os.Process.Forest

/-!
# The chains of the process log

The processes of a terminal that were started and have not finished are its stack, as long
as a process that halts is the one that its terminal names.  The scheduler then resumes the
newest of them.
-/

namespace Ece391Os

namespace ProcTable

/-! ## The invariant -/

/-- Every terminal owns its chain of processes. -/
structure Chains (v : ProcTable) : Prop where
  inactive : ∀ t, v.active t = false → v.stack t = []
  newest : ∀ t, v.active t = true → ∃ p rest, v.stack t = p :: rest ∧ v.apn t = some p
  member : ∀ t p, p ∈ v.stack t → v.live p = true ∧ v.term p = t ∧ v.number p = p
  nodup : ∀ t, (v.stack t).Nodup
  linked : ∀ t, Linked v.parent (v.stack t)

/-- The chains, with enough active terminals for the scheduler to find one. -/
structure Schedulable (v : ProcTable) : Prop extends v.Chains where
  scheduledActive : v.active v.scheduled = true
  selectable : (∀ t, v.active t = true → t = 0) ∨
    ∃ t u, t ≠ u ∧ v.active t = true ∧ v.active u = true

/-- The running process is also the newest of the scheduled terminal. -/
structure Coherent (v : ProcTable) : Prop extends v.Schedulable where
  mapped : v.mapped = v.apn v.scheduled

variable {v : ProcTable}

/-- The chains of the log are stacks of the terminals. -/
theorem chains_iff_forest : v.Chains ↔ v.Forest v.stack := by
  constructor
  · rintro ⟨inactive, newest, member, nodup, linked⟩
    exact ⟨inactive, newest, member, nodup, linked⟩
  · rintro ⟨inactive, newest, member, nodup, linked⟩
    exact ⟨inactive, newest, member, nodup, linked⟩

theorem stack_start (v : ProcTable) (p : ProcId) :
    (v.start p).stack = Stacks.push v.stack v.shown p := by
  funext t
  have logged : (v.start p).stack t = if v.shown = t then p :: v.stack t else v.stack t := rfl
  rw [logged]
  split
  · rename_i here
    subst here
    exact Stacks.push_self.symm
  · rename_i elsewhere
    exact (Stacks.push_of_ne (Ne.symm elsewhere)).symm

namespace Chains

theorem forest (chains : v.Chains) : v.Forest v.stack :=
  chains_iff_forest.mp chains

/-- A new process with a free number becomes the newest of the displayed terminal. -/
theorem start (chains : v.Chains) {p : ProcId} (free : v.live p = false) :
    (v.start p).Chains := by
  rw [chains_iff_forest, stack_start]
  exact chains.forest.start free

/-- A process started on the terminal that ends up scheduled is the one that runs. -/
theorem coherent_start (chains : v.Chains) {p : ProcId} (free : v.live p = false)
    (here : (v.start p).scheduled = v.shown)
    (selectable : (∀ t, (v.start p).active t = true → t = 0) ∨
      ∃ t u, t ≠ u ∧ (v.start p).active t = true ∧ (v.start p).active u = true) :
    (v.start p).Coherent where
  toChains := chains.start free
  scheduledActive := by rw [here]; simp [ProcTable.start]
  selectable := selectable
  mapped := by rw [here]; simp [ProcTable.start]

end Chains

theorem active_start (v : ProcTable) (p : ProcId) (t : TermId) :
    (v.start p).active t = (decide (t = v.shown) || v.active t) := by
  by_cases here : t = v.shown
  · subst t
    simp [ProcTable.start]
  · simp [ProcTable.start, here]

/-- A start on another terminal leaves terminal 0 alone active, or two active. -/
theorem selectable_start {p : ProcId} (scheduledActive : v.active v.scheduled = true)
    (selectable : (∀ t, v.active t = true → t = 0) ∨
      ∃ t u, t ≠ u ∧ v.active t = true ∧ v.active u = true) :
    (∀ t, (v.start p).active t = true → t = 0) ∨
      ∃ t u, t ≠ u ∧ (v.start p).active t = true ∧ (v.start p).active u = true := by
  simp only [active_start, Bool.or_eq_true, decide_eq_true_eq]
  rcases selectable with alone | ⟨t, u, differ, activeT, activeU⟩
  · by_cases first : v.shown = 0
    · apply Or.inl
      intro t active
      rcases active with rfl | active
      · exact first
      · exact alone t active
    · have zero : v.scheduled = 0 := alone _ scheduledActive
      exact .inr ⟨v.shown, 0, first, .inl rfl, .inr (zero ▸ scheduledActive)⟩
  · exact .inr ⟨t, u, differ, .inr activeT, .inr activeU⟩

namespace Schedulable

theorem start (schedulable : v.Schedulable) {p : ProcId} (free : v.live p = false) :
    (v.start p).Schedulable where
  toChains := schedulable.toChains.start free
  scheduledActive := by
    rw [active_start]
    cases busy : v.active v.shown with
    | true => simp [ProcTable.start, busy, schedulable.scheduledActive]
    | false => simp [ProcTable.start, busy]
  selectable := selectable_start schedulable.scheduledActive schedulable.selectable

/-- The terminal that the scheduler looks for is active. -/
theorem active_of_next (schedulable : v.Schedulable) {t : TermId}
    (others : v.active 1 = true ∨ v.active 2 = true)
    (selected : t = if v.active (v.scheduled + 1) then v.scheduled + 1
      else v.scheduled + 1 + 1) : v.active t = true := by
  by_cases next : v.active (v.scheduled + 1) = true
  · rw [selected, if_pos next]
    exact next
  · rw [selected, if_neg next]
    -- an active terminal other than the scheduled one is the second after it
    have second : ∀ s u : TermId, u ≠ s → u ≠ s + 1 → u = s + 1 + 1 := by decide
    obtain ⟨u, differs, busy⟩ : ∃ u, u ≠ v.scheduled ∧ v.active u = true := by
      rcases schedulable.selectable with alone | ⟨t, u, differ, activeT, activeU⟩
      · rcases others with one | two
        · exact absurd (alone 1 one) (by decide)
        · exact absurd (alone 2 two) (by decide)
      · by_cases same : t = v.scheduled
        · exact ⟨u, fun equal => differ (same.trans equal.symm), activeU⟩
        · exact ⟨t, same, activeT⟩
    rw [← second v.scheduled u differs fun equal => next (equal ▸ busy)]
    exact busy

theorem select (schedulable : v.Schedulable) {t : TermId} (enabled : v.Enabled (.select t)) :
    (v.act (.select t)).Coherent := by
  have busy := schedulable.active_of_next enabled.1 enabled.2.2
  obtain ⟨p, rest, stack, apn⟩ := schedulable.newest t busy
  obtain ⟨⟨inactive, newest, member, nodup, linked⟩, _, selectable⟩ := schedulable
  rw [act_select apn]
  exact ⟨⟨⟨inactive, newest, member, nodup, linked⟩, busy, selectable⟩, apn.symm⟩

/-- Changing the displayed terminal or the video page does not matter. -/
theorem display (schedulable : v.Schedulable) (t : TermId) (video : Option Nat) :
    ProcTable.Schedulable { v with shown := t, video := video } := by
  obtain ⟨⟨inactive, newest, member, nodup, linked⟩, scheduledActive, selectable⟩ := schedulable
  exact ⟨⟨inactive, newest, member, nodup, linked⟩, scheduledActive, selectable⟩

end Schedulable

/-- The terminal of a halted root is left without processes, and so is the displayed one. -/
theorem RestartSafe.idle (safe : v.RestartSafe) :
    Function.update v.active v.scheduled false v.shown = false := by
  rcases safe with same | ⟨idle, _⟩
  · rw [same]
    simp
  · by_cases same : v.shown = v.scheduled <;> simp [same, idle]

/-- The first process of a terminal is its own parent. -/
theorem parent_start_of_idle (idle : v.active v.shown = false) (p : ProcId) :
    (v.start p).parent p = p := by
  simp [start, idle]

namespace Coherent

/-- The process that runs is the newest of the scheduled terminal. -/
theorem running (coherent : v.Coherent) :
    ∃ p rest, v.stack v.scheduled = p :: rest ∧ v.apn v.scheduled = some p ∧
      v.mapped = some p ∧ v.number p = p := by
  obtain ⟨p, rest, stack, apn⟩ := coherent.newest v.scheduled coherent.scheduledActive
  have member : p ∈ v.stack v.scheduled := by simp [stack]
  exact ⟨p, rest, stack, apn, coherent.mapped.trans apn, (coherent.member _ p member).2.2⟩

theorem start (coherent : v.Coherent) {p : ProcId} (free : v.live p = false)
    (safe : v.LaunchSafe) : (v.start p).Coherent := by
  refine coherent.toSchedulable.toChains.coherent_start free ?_
    (selectable_start coherent.scheduledActive coherent.selectable)
  cases busy : v.active v.shown with
  | true =>
      have same : v.shown = v.scheduled := safe.resolve_right (by simp [busy])
      simp [ProcTable.start, same]
  | false => simp [ProcTable.start, busy]

/-- A new process is its own parent, or its parent is the process that runs. -/
theorem parent_start (coherent : v.Coherent) (safe : v.LaunchSafe) (p : ProcId) :
    (v.start p).parent p = p ∨ v.mapped = some ((v.start p).parent p) := by
  cases busy : v.active v.shown with
  | false => exact .inl (v.parent_start_of_idle busy p)
  | true =>
      have same : v.shown = v.scheduled := safe.resolve_right (by simp [busy])
      rcases coherent.running with ⟨q, _, _, apn, mapped, number⟩
      rw [same] at busy
      by_cases new : q = p
      · simp [ProcTable.start, same, busy, apn, new]
      · simp [ProcTable.start, same, busy, apn, mapped, new, number]

/-- A release removes the newest process of the scheduled terminal. -/
theorem stack_release (coherent : v.Coherent) {p : ProcId} (apn : v.apn v.scheduled = some p) :
    (v.release p).stack = Stacks.pop v.stack v.scheduled := by
  rcases coherent.running with ⟨q, rest, stack, apn', mapped, _⟩
  cases apn'.symm.trans apn
  funext t
  have erased : (v.release p).stack t = (v.stack t).erase p := by
    simp [ProcTable.stack, release, mapped, unfinished]
  rw [erased]
  by_cases here : t = v.scheduled
  · subst here
    rw [Stacks.pop_self, stack, List.erase_cons_head, List.tail_cons]
  · rw [Stacks.pop_of_ne here]
    exact List.erase_of_not_mem (coherent.forest.notMem_of_ne (by simp [stack]) here)

/-- A halted process that is not its own parent is followed by its parent. -/
theorem finish (coherent : v.Coherent) (esp0 : Nat)
    (enabled : v.Enabled (.finish esp0)) : (v.act (.finish esp0)).Coherent := by
  have enabled' := enabled
  rcases enabled' with ⟨p, apn, child⟩
  have result : v.act (.finish esp0) =
      { v.release p with mapped := some (v.number (v.parent p)), esp0 := esp0 } := by
    simp [act, apn]
  have kept : (v.act (.finish esp0)).Chains := by
    rw [chains_iff_forest]
    have chainAt : (v.act (.finish esp0)).stack = Stacks.pop v.stack v.scheduled := by
      rw [result]
      exact coherent.stack_release apn
    rw [chainAt]
    exact coherent.forest.act enabled fun _ => coherent.scheduledActive
  refine ⟨⟨kept, ?_, ?_⟩, ?_⟩
  · rw [result]
    exact coherent.scheduledActive
  · rw [result]
    exact coherent.selectable
  · rw [result]
    simp [release]

/-- A halted root leaves its terminal without processes. -/
theorem chains_release_root (coherent : v.Coherent) {p : ProcId}
    (apn : v.apn v.scheduled = some p) (root : v.number p = v.parent p) :
    ProcTable.Chains
      { v.release p with active := Function.update v.active v.scheduled false } := by
  have chainAt : ProcTable.stack
      { v.release p with active := Function.update v.active v.scheduled false } =
      Stacks.pop v.stack v.scheduled := coherent.stack_release apn
  rw [chains_iff_forest, chainAt]
  exact coherent.forest.release_root coherent.scheduledActive apn root

/-- The shell that replaces a halted root. -/
theorem restart (coherent : v.Coherent) {p : ProcId} (enabled : v.Enabled (.restart p))
    (safe : v.RestartSafe) : (v.act (.restart p)).Coherent := by
  obtain ⟨q, apn, root, free⟩ := enabled
  have chains := coherent.chains_release_root apn root
  rw [act_restart apn]
  have idle := safe.idle
  refine chains.coherent_start free ?_ ?_
  · simp [ProcTable.start, release, idle]
  simp only [active_start, Bool.or_eq_true, decide_eq_true_eq]
  change (∀ t, t = v.shown ∨ Function.update v.active v.scheduled false t = true → t = 0) ∨
    ∃ t u, t ≠ u ∧ (t = v.shown ∨ Function.update v.active v.scheduled false t = true) ∧
      (u = v.shown ∨ Function.update v.active v.scheduled false u = true)
  rcases safe with same | ⟨idleShown, t, other, busy⟩
  · -- the same terminals are active as before
    have unchanged : ∀ t, (t = v.shown ∨ Function.update v.active v.scheduled false t = true) ↔
        v.active t = true := by
      intro t
      rw [same]
      by_cases here : t = v.scheduled
      · simp [here, coherent.scheduledActive]
      · simp [here]
    simpa only [unchanged] using coherent.selectable
  · refine .inr ⟨t, v.shown, ?_, .inr (by simpa [other] using busy), .inl rfl⟩
    rintro rfl
    rw [idleShown] at busy
    cases busy

/-- Changing the displayed terminal or the video page does not matter. -/
theorem display (coherent : v.Coherent) (t : TermId) (video : Option Nat) :
    ProcTable.Coherent { v with shown := t, video := video } :=
  ⟨coherent.toSchedulable.display t video, coherent.mapped⟩

end Coherent

/-- Every orderly action keeps the scheduler able to find a process. -/
theorem Schedulable.act (schedulable : v.Schedulable) {action : ProcAction}
    (enabled : v.Enabled action) (orderly : v.Orderly action) : (v.act action).Schedulable := by
  cases action with
  | stay => exact schedulable
  | vidmap => exact schedulable.display v.shown _
  | start p => exact schedulable.start enabled
  | finish esp0 => exact (Coherent.finish ⟨schedulable, orderly⟩ esp0 enabled).toSchedulable
  | restart p =>
      obtain ⟨mapped, safe⟩ := orderly
      exact (Coherent.restart ⟨schedulable, mapped⟩ enabled safe).toSchedulable
  | select t => exact (schedulable.select enabled).toSchedulable
  | display t => exact schedulable.display t _
  | displayIdle t => exact schedulable.display t v.video

/-- Every safe action keeps the process table coherent. -/
theorem Coherent.act (coherent : v.Coherent) {action : ProcAction} (enabled : v.Enabled action)
    (safe : v.Safe action) : (v.act action).Coherent := by
  cases action with
  | stay => exact coherent
  | vidmap => exact coherent.display v.shown _
  | start p => exact coherent.start enabled safe
  | finish esp0 => exact coherent.finish esp0 enabled
  | restart p => exact coherent.restart enabled safe
  | select t => exact coherent.toSchedulable.select enabled
  | display t => exact coherent.display t _
  | displayIdle t => exact coherent.display t v.video

end ProcTable

end Ece391Os
