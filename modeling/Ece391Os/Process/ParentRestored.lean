import Ece391Os.Process.Nested

/-!
# A child leaves its parent as it found it

Whatever a child does, and whatever the processes that it executes do, its `halt` returns
to a parent that finds its PCB, the process numbers, its terminal and its program page as
they were at its `execute`.
-/

namespace Ece391Os

open Transition

namespace Kernel

variable {env : Env} {k start final : Kernel}

theorem nested_of_boot (booted : boot env k = some start) : ∃ p, start.Nested [p] := by
  rcases onChain_of_boot booted with ⟨p, table, on⟩
  have mapped : start.mappedProcess = some p := congrArg ProcTable.mapped table
  have esp0 : start.tssEsp0 = kernelStackTop p := congrArg ProcTable.esp0 table
  refine ⟨p, on, ?_, mapped, ?_, trivial⟩
  · exact launching_of_inUserMode (inUserMode_boot booted)
  · rw [esp0]
    exact procOfAddr_kernelStackTop p

/-- In a run on one terminal with room on the kernel stacks, processes are nested. -/
theorem nested_of_run {events : List Event} (booted : boot env k = some start)
    (alone : EachStep (Kernel.step env) NoSwitch start events)
    (room : EachStep (Kernel.step env) (fun k _ => k.StackRoom env) start events)
    (reached : run (Kernel.step env) start events = some final) :
    ∃ chain, final.Nested chain := by
  apply run_invariant (fun k => ∃ chain, k.Nested chain) _ _ (alone.and room) reached
  · rintro state event target ⟨chain, nested⟩ ⟨noSwitch, room⟩ step
    rcases nested.newest with ⟨p, rest, rfl, _⟩
    rcases nested.step noSwitch room step with ⟨chain, after, _⟩
    exact ⟨chain, after⟩
  · rcases nested_of_boot booted with ⟨p, nested⟩
    exact ⟨[p], nested⟩

/-- A call of `halt`, if the event is one, is not made by this process. -/
def KeepsRunning (child : ProcId) (k : Kernel) (event : Event) : Prop :=
  event.Halts → (k.terminal k.curActiveTerminal).apn ≠ some child

/-- The child runs, or a process that it waits for does, above a chain of processes whose
PCBs are as they were. -/
def RunsAbove (before : Kernel) (chain : List ProcId) (child : ProcId) (k : Kernel) : Prop :=
  ∃ upper, k.Nested (upper ++ child :: chain) ∧ ∀ q ∈ chain, k.pcb q = before.pcb q

theorem RunsAbove.step {before k' : Kernel} {chain : List ProcId} {child : ProcId}
    {event : Event} (above : RunsAbove before chain child k) (noSwitch : k.NoSwitch event)
    (room : k.StackRoom env) (keeps : KeepsRunning child k event)
    (step : k.step env event = some k') : RunsAbove before chain child k' := by
  rcases above with ⟨upper, nested, same⟩
  cases upper with
  | nil =>
      rcases nested.step noSwitch room step with ⟨after, nested', kept, shape⟩
      have same' : ∀ q ∈ chain, k'.pcb q = before.pcb q :=
        fun q member => (kept q member).trans (same q member)
      rcases shape with rfl | ⟨q, rfl⟩ | ⟨frees, _⟩
      · exact ⟨[], nested', same'⟩
      · exact ⟨[q], nested', same'⟩
      · exact absurd nested.active (keeps frees)
  | cons p upper =>
      rcases nested.step noSwitch room step with ⟨after, nested', kept, shape⟩
      have same' : ∀ q ∈ chain, k'.pcb q = before.pcb q :=
        fun q member => (kept q (by simp [member])).trans (same q member)
      rcases shape with rfl | ⟨q, rfl⟩ | ⟨_, none | rfl⟩
      · exact ⟨p :: upper, nested', same'⟩
      · exact ⟨q :: p :: upper, nested', same'⟩
      · simp at none
      · exact ⟨upper, nested', same'⟩

/-- The child itself runs. -/
theorem RunsAbove.on_top {before : Kernel} {chain : List ProcId} {child : ProcId}
    (above : RunsAbove before chain child k)
    (apn : (k.terminal k.curActiveTerminal).apn = some child) :
    k.Nested (child :: chain) ∧ ∀ q ∈ chain, k.pcb q = before.pcb q := by
  rcases above with ⟨upper, nested, same⟩
  cases upper with
  | nil => exact ⟨nested, same⟩
  | cons p upper =>
      cases nested.active.symm.trans apn
      have distinct := (List.nodup_cons.mp nested.nodup).1
      exact absurd (by simp) distinct

/-- A child that is started runs above the chain of its parent. -/
theorem runsAbove_of_execute {chain : List ProcId} {child : ProcId} {command : Command}
    {k' : Kernel} (nested : k.Nested chain) (room : k.StackRoom env)
    (new : k.newProcess env command = some child)
    (step : k.step env (.execute command) = some k') :
    k.inUserMode = true ∧ RunsAbove k chain child k' := by
  rcases nested.newest with ⟨p, rest, rfl, _⟩
  rcases Option.ite_none_right_eq_some.mp step with ⟨userMode, called⟩
  cases executeCall_cases called with
  | exited _ exits _ =>
      rcases exits with ⟨parsed, parses, isExit⟩
      simp [newProcess, parses, isExit] at new
  | failed _ fails => cases fails.symm.trans new
  | started program q console _ new' starts =>
      cases new'.symm.trans new
      rcases nested.start userMode room (newProcess_free new) starts with ⟨after, kept⟩
      exact ⟨userMode, [], after, kept⟩

/-- `pid_array` marks exactly the processes on the chain of parents from the active process
of the first terminal to a process that is its own parent. -/
def MarksChain (k : Kernel) : Prop :=
  ∃ p rest, (k.terminal 0).apn = some p ∧ (p :: rest).Nodup ∧
    Linked (fun q => (k.pcb q).parentProcessNumber) (p :: rest) ∧
    ∀ q, k.pidArray q = true ↔ q ∈ p :: rest

theorem OnChain.marksChain {chain : List ProcId} (on : k.OnChain chain) : k.MarksChain := by
  rcases on.newest with ⟨p, rest, rfl, apn⟩
  exact ⟨p, rest, apn, on.nodup, on.linked, on.live_iff⟩

/-- The parent runs again after its `execute` has returned the status, with its PCB, the
process numbers, its terminal and the program page as before the call. -/
structure Restored (parent : ProcId) (before after : Kernel) (status : UInt8) : Prop where
  returns : after.cpu.activity = .user status.toNat
  running : after.getPcbPtr = some parent
  fds : (after.pcb parent).fds = (before.pcb parent).fds
  argbuf : (after.pcb parent).argbuf = (before.pcb parent).argbuf
  parentProcessNumber :
    (after.pcb parent).parentProcessNumber = (before.pcb parent).parentProcessNumber
  term : (after.pcb parent).term = (before.pcb parent).term
  pidArray : after.pidArray = before.pidArray
  apn : (after.terminal 0).apn = (before.terminal 0).apn
  active : (after.terminal 0).active = (before.terminal 0).active
  programPage : after.paging.pageDirectory (Paging.dirIndex programAddr) =
    before.paging.pageDirectory (Paging.dirIndex programAddr)

theorem restored_of_nested {before after : Kernel} {p : ProcId} {rest : List ProcId}
    {status : UInt8} (nested : before.Nested (p :: rest)) (nested' : after.Nested (p :: rest))
    (same : after.pcb p = before.pcb p) (returns : after.cpu.activity = .user status.toNat) :
    Restored p before after status := by
  have userMode : after.inUserMode = true := by
    rw [inUserMode, returns]
  have firstActive : ∀ k : Kernel, k.OnChain (p :: rest) → (k.terminal 0).apn = some p := by
    intro k on
    rcases on.newest with ⟨q, _, head, apn⟩
    cases head
    exact apn
  constructor
  · exact returns
  · exact nested'.current userMode
  · rw [same]
  · rw [same]
  · rw [same]
  · rw [same]
  · funext q
    rw [Bool.eq_iff_iff, nested'.live_iff, nested.live_iff]
  · rw [firstActive before nested.toOnChain, firstActive after nested'.toOnChain]
  · have active : (before.terminal 0).active = true := (nested.one.active 0).mpr rfl
    have active' : (after.terminal 0).active = true := (nested'.one.active 0).mpr rfl
    rw [active, active']
  · have mapped := (mappedProcess_eq_some_iff before p).mp nested.mapped
    have mapped' := (mappedProcess_eq_some_iff after p).mp nested'.mapped
    rw [mapped, mapped']

/-- In every run on one terminal with room on the kernel stacks, `pid_array` marks the chain
of the active process, and the halt of a child restores the process that has executed it. -/
theorem child_leaves_parent {events : List Event} (ran : RoomyRun env k start events)
    (alone : EachStep (Kernel.step env) NoSwitch start events)
    (reached : run (Kernel.step env) start events = some final) :
    final.MarksChain ∧
      ∀ first command during before child status,
        events = first ++ .execute command :: during →
        run (Kernel.step env) start first = some before →
        before.newProcess env command = some child →
        EachStep (Kernel.step env) (KeepsRunning child) before (.execute command :: during) →
        final.inUserMode = true → final.StackRoom env →
        (final.terminal final.curActiveTerminal).apn = some child →
        ∃ parent after, before.getPcbPtr = some parent ∧
          final.step env (.halt status) = some after ∧ Restored parent before after status := by
  constructor
  · rcases onChain_of_run ran.booted alone reached with ⟨chain, on⟩
    exact on.marksChain
  rintro first command during before child status rfl start' new keeps userMode _ apn
  rcases nested_of_run ran.booted alone.left ran.room.left start' with ⟨chain, nested⟩
  rw [run_append, start'] at reached
  rcases (run_cons_eq_some_iff _ _ _ _ _).mp reached with ⟨started, step, rest⟩
  have alone' := alone.right start'
  have room' := ran.room.right start'
  rcases runsAbove_of_execute nested room'.1 new step with ⟨calls, above⟩
  have atEnd : RunsAbove before chain child final :=
    run_invariant (RunsAbove before chain child)
      (fun _ _ _ above conditions step =>
        above.step conditions.1 conditions.2.1 conditions.2.2 step)
      above ((alone'.2 started step).and ((room'.2 started step).and (keeps.2 started step))) rest
  rcases atEnd.on_top apn with ⟨nested', same⟩
  rcases nested.newest with ⟨parent, chain, rfl, _⟩
  rcases nested'.halt_child env userMode status with
    ⟨after, halts, returns, nested'', kept⟩
  refine ⟨parent, after, nested.current calls, ?_, ?_⟩
  · simp only [Kernel.step, userMode, if_true]
    exact halts
  · apply restored_of_nested nested nested'' _ returns
    exact (kept parent List.mem_cons_self).trans (same parent List.mem_cons_self)

/-- The first shell executes a program, which opens the directory. -/
def oneChild : List Event :=
  [.execute Env.sample.shell, .openFile [0x2E]]

def oneChildRun : BootRun Env.sample []
    (fun k =>
      (decide (EachStep (step Env.sample) (fun k _ => k.StackRoom Env.sample) k oneChild),
        k.newProcess Env.sample Env.sample.shell,
        (run (Kernel.step Env.sample) k oneChild).map fun k =>
          (k.inUserMode, decide (k.StackRoom Env.sample),
            (k.terminal k.curActiveTerminal).apn)))
    (true, some 1, some (true, true, some 1)) :=
  .of (by decide +kernel)

theorem child_leaves_parent_sample :
    ∃ start final, boot Env.sample default = some start ∧
      run (Kernel.step Env.sample) start oneChild = some final ∧ final.MarksChain ∧
      ∃ parent after, start.getPcbPtr = some parent ∧
        final.step Env.sample (.halt 3) = some after ∧ Restored parent start after 3 := by
  rcases oneChildRun with ⟨start, same, booted, reached, saw⟩
  cases reached
  simp only [Prod.mk.injEq, decide_eq_true_eq, Option.map_eq_some_iff] at saw
  rcases saw with ⟨room, new, final, reached, userMode, roomLast, apn⟩
  have ran : RoomyRun Env.sample default start oneChild := ⟨⟨booted, by decide⟩, room⟩
  have alone : EachStep (Kernel.step Env.sample) NoSwitch start oneChild :=
    ⟨nofun, fun _ _ => ⟨nofun, fun _ _ => trivial⟩⟩
  have keeps : EachStep (Kernel.step Env.sample) (KeepsRunning 1) start oneChild :=
    ⟨fun exits => absurd exits Env.sample.not_exits_shell,
      fun _ _ => ⟨False.elim, fun _ _ => trivial⟩⟩
  rcases child_leaves_parent ran alone reached with ⟨chain, restores⟩
  exact ⟨start, final, booted, reached, chain,
    restores [] Env.sample.shell [.openFile [0x2E]] start 1 3 rfl rfl new keeps userMode roomLast
      apn⟩

/-- The first shell executes a program and waits for its end, fifteen times. -/
def fifteenChildren : List Event :=
  (List.replicate 15 [.execute Env.sample.shell, .halt 0]).flatten

def fifteenChildrenRun : BootRun Env.sample fifteenChildren
    (fun k =>
      (k.getPcbPtr, k.newProcess Env.sample Env.sample.shell,
        (k.step Env.sample (.execute Env.sample.shell)).bind fun started =>
          (started.step Env.sample (.halt 0)).map fun after =>
            (started.inUserMode,
              [(started.terminal started.curActiveTerminal).apn, after.getPcbPtr])))
    (some 0, some 1, some (true, [some 1, some 1])) :=
  .of (by decide +kernel)

/-- At the end of the sixteenth child, the kernel stack of the shell lies below its PCB, in
the block of process 1. -/
theorem sixteenth_child_keeps_stack :
    ∃ start before started after parent, boot Env.sample default = some start ∧
      run (Kernel.step Env.sample) start fifteenChildren = some before ∧
      before.getPcbPtr = some parent ∧ before.newProcess Env.sample Env.sample.shell = some 1 ∧
      before.step Env.sample (.execute Env.sample.shell) = some started ∧
      started.inUserMode = true ∧
      (started.terminal started.curActiveTerminal).apn = some 1 ∧
      started.step Env.sample (.halt 0) = some after ∧ ¬ Restored parent before after 0 := by
  rcases fifteenChildrenRun with ⟨start, before, booted, reached, saw⟩
  simp only [Prod.mk.injEq, Option.bind_eq_some_iff, Option.map_eq_some_iff,
    List.cons.injEq] at saw
  rcases saw with ⟨current, new, started, starts, after, halts, userMode, apn, below, _⟩
  refine ⟨start, before, started, after, 0, booted, reached, current, new, starts, userMode, apn,
    halts, fun restored => ?_⟩
  cases below.symm.trans restored.running

end Kernel

end Ece391Os
