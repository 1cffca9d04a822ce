import Ece391Os.Kernel.Paging

/-!
# The process table

An abstract view of the kernel: which processes each terminal has started, which of
them runs, and what the page tables show it.  Every kernel event is one action on
this view.
-/

namespace Ece391Os

/-- The processes of a terminal that were started and have not finished, the newest
first, from a log with the newest event first. -/
def unfinished (t : TermId) : List ProcEvent → List ProcId
  | [] => []
  | .started u p :: log => if u = t then p :: unfinished t log else unfinished t log
  | .finished p :: log => (unfinished t log).erase p

/-- A list of processes in which each is followed by its parent, up to one that is
its own parent. -/
def Linked (parent : ProcId → ProcId) : List ProcId → Prop
  | [] => True
  | [p] => parent p = p
  | p :: q :: rest => parent p = q ∧ Linked parent (q :: rest)

theorem Linked.congr {left right : ProcId → ProcId} {processes : List ProcId}
    (linked : Linked left processes) (agree : ∀ p ∈ processes, right p = left p) :
    Linked right processes := by
  induction processes with
  | nil => trivial
  | cons p rest ih =>
      cases rest with
      | nil => exact (agree p List.mem_cons_self).trans linked
      | cons q rest =>
          refine ⟨(agree p List.mem_cons_self).trans linked.1, ih linked.2 fun r member => ?_⟩
          exact agree r (List.mem_cons_of_mem p member)

/-- What the kernel state says about processes, terminals and page mappings. -/
@[ext]
structure ProcTable where
  shown : TermId
  scheduled : TermId
  active : TermId → Bool
  apn : TermId → Option ProcId
  live : ProcId → Bool
  number : ProcId → ProcId
  parent : ProcId → ProcId
  term : ProcId → TermId
  mapped : Option ProcId
  video : Option Nat
  esp0 : Nat
  log : List ProcEvent

/-- The actions of the kernel on the process table. -/
inductive ProcAction where
  /-- No change. -/
  | stay
  /-- `vidmap` called by a program. -/
  | vidmap
  /-- `execute` starts process `p`. -/
  | start (p : ProcId)
  /-- `halt` returns to the parent, with the kernel stack given. -/
  | finish (esp0 : Nat)
  /-- `halt` of the first process of a terminal starts the shell `p`. -/
  | restart (p : ProcId)
  /-- The scheduler resumes the process of a terminal. -/
  | select (t : TermId)
  /-- A switch to an active terminal. -/
  | display (t : TermId)
  /-- A switch to a terminal that is not active, before its shell is started. -/
  | displayIdle (t : TermId)

namespace ProcTable

/-- The processes of a terminal, the newest first. -/
def stack (v : ProcTable) (t : TermId) : List ProcId :=
  unfinished t v.log

/-- The frame that shows the screen of a terminal: video memory for the displayed
one, the saved screen for the others. -/
def screenOf (v : ProcTable) (t : TermId) : Nat :=
  if t = v.shown then videoAddr else savedVideoAddr t

/-! ## Actions -/

/-- Start a process on the displayed terminal. -/
def start (v : ProcTable) (p : ProcId) : ProcTable :=
  let number := Function.update v.number p p
  let parent := if v.active v.shown then ((v.apn v.shown).map number).getD p else p
  { v with
    scheduled := if v.active v.shown then v.scheduled else v.shown
    active := Function.update v.active v.shown true
    apn := Function.update v.apn v.shown (some p)
    live := Function.update v.live p true
    number := number
    parent := Function.update v.parent p parent
    term := Function.update v.term p v.shown
    mapped := some p
    esp0 := Kernel.kernelStackTop p
    log := .started v.shown p :: v.log }

/-- Free the active process of the scheduled terminal. -/
def release (v : ProcTable) (p : ProcId) : ProcTable :=
  { v with
    live := Function.update v.live (v.number p) false
    apn := Function.update v.apn v.scheduled (some (v.number (v.parent p)))
    log := v.mapped.toList.map .finished ++ v.log }

/-- The effect of an action. -/
def act (v : ProcTable) : ProcAction → ProcTable
  | .stay => v
  | .vidmap => { v with video := some videoAddr }
  | .start p => v.start p
  | .finish esp0 =>
      match v.apn v.scheduled with
      | none => v
      | some p =>
          { v.release p with mapped := some (v.number (v.parent p)), esp0 := esp0 }
  | .restart p =>
      match v.apn v.scheduled with
      | none => v
      | some q =>
          let released := v.release q
          { released with active := Function.update released.active v.scheduled false }.start p
  | .select t =>
      match v.apn t with
      | none => v
      | some p =>
          { v with
            scheduled := t
            mapped := some p
            video := some (v.screenOf (v.term p))
            esp0 := Kernel.kernelStackTop p }
  | .display t =>
      { v with
        shown := t
        video := some (if v.scheduled = t then videoAddr else savedVideoAddr v.scheduled) }
  | .displayIdle t => { v with shown := t }

theorem act_select {v : ProcTable} {t : TermId} {p : ProcId} (apn : v.apn t = some p) :
    v.act (.select t) =
      { v with
        scheduled := t
        mapped := some p
        video := some (v.screenOf (v.term p))
        esp0 := Kernel.kernelStackTop p } := by
  simp [act, apn]

/-- What the kernel has checked when it performs an action. -/
def Enabled (v : ProcTable) : ProcAction → Prop
  | .start p => v.live p = false
  | .finish _ => ∃ p, v.apn v.scheduled = some p ∧ v.number p ≠ v.parent p
  | .restart p => ∃ q, v.apn v.scheduled = some q ∧ v.number q = v.parent q ∧
      Function.update v.live (v.number q) false p = false
  | .select t => (v.active 1 = true ∨ v.active 2 = true) ∧ (v.apn t).isSome ∧
      t = if v.active (v.scheduled + 1) then v.scheduled + 1 else v.scheduled + 1 + 1
  | .display t => t ≠ v.shown ∧ v.active t = true
  | .displayIdle t => t ≠ v.shown ∧ v.active t = false
  | .stay | .vidmap => True

/-- The caller's terminal is displayed, or the displayed terminal is not active: then
a new process becomes a process of the terminal that `execute` schedules. -/
def LaunchSafe (v : ProcTable) : Prop :=
  v.shown = v.scheduled ∨ v.active v.shown = false

/-- The new shell of a halted root keeps two terminals active, or replaces it on its
own terminal. -/
def RestartSafe (v : ProcTable) : Prop :=
  v.shown = v.scheduled ∨
    (v.active v.shown = false ∧ ∃ t, t ≠ v.scheduled ∧ v.active t = true)

/-- The condition on an action that keeps the processes of the terminals in order: a
process that halts is the active one of the scheduled terminal. -/
def Orderly (v : ProcTable) : ProcAction → Prop
  | .finish _ => v.mapped = v.apn v.scheduled
  | .restart _ => v.mapped = v.apn v.scheduled ∧ v.RestartSafe
  | _ => True

/-- The condition on an action that keeps the running process the active one of the
scheduled terminal. -/
def Safe (v : ProcTable) : ProcAction → Prop
  | .start _ => v.LaunchSafe
  | .restart _ => v.RestartSafe
  | _ => True

end ProcTable

end Ece391Os
