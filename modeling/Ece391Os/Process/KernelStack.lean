import Ece391Os.Process.Coherence

/-!
# The kernel stack of the running process

`execute` and the scheduler set `tss.esp0` to the top of the kernel stack.  `halt` of
a process that is not the first of its terminal sets it to the stack pointer saved in
the middle of the parent's `execute`.
-/

namespace Ece391Os

open Transition

namespace ProcTable

/-- The kernel stack of the running process starts at its top. -/
def StackAtTop (v : ProcTable) : Prop :=
  ∀ p, v.mapped = some p → v.esp0 = Kernel.kernelStackTop p

theorem stackAtTop_start (v : ProcTable) (p : ProcId) : (v.start p).StackAtTop := by
  intro q mapped
  obtain rfl : p = q := Option.some.inj mapped
  rfl

/-- Only the end of a process returns to an old kernel stack pointer. -/
theorem StackAtTop.act {v : ProcTable} (top : v.StackAtTop) {action : ProcAction}
    (enabled : v.Enabled action) (noReturn : ∀ esp0, action ≠ .finish esp0) :
    (v.act action).StackAtTop := by
  cases action with
  | stay => exact top
  | vidmap => exact top
  | start p => exact stackAtTop_start v p
  | finish esp0 => exact absurd rfl (noReturn esp0)
  | restart p =>
      obtain ⟨q, apn, _⟩ := enabled
      simp only [ProcTable.act, apn]
      exact stackAtTop_start _ p
  | select t =>
      obtain ⟨_, named, _⟩ := enabled
      obtain ⟨p, apn⟩ := Option.isSome_iff_exists.mp named
      simp only [ProcTable.act, apn]
      intro q mapped
      obtain rfl : p = q := Option.some.inj mapped
      rfl
  | display t => exact top
  | displayIdle t => exact top

end ProcTable

namespace Kernel

/-- A process in user mode finds its whole kernel stack at its next system call. -/
def StackReset (k : Kernel) : Prop :=
  k.inUserMode = true → ∀ p, k.mappedProcess = some p →
    k.tssEsp0 = kernelStackTop p ∧ k.getPcbPtr = some p

theorem kernelEsp_of_inUserMode {k : Kernel} (userMode : k.inUserMode = true) :
    k.kernelEsp = k.tssEsp0 := by
  cases activity : k.cpu.activity with
  | user eax => rw [kernelEsp, activity]
  | _ =>
      rw [inUserMode, activity] at userMode
      cases userMode

/-- With room on the kernel stack, all that a call pushes lies in the block of its caller. -/
theorem StackRoom.below {env : Env} {k : Kernel} {p : ProcId} {depth : Nat}
    (room : k.StackRoom env) (mapped : k.mappedProcess = some p) (own : k.getPcbPtr = some p)
    (pushed : depth ≤ env.stackDepth) : procOfAddr (k.kernelEsp - depth) = some p := by
  have most := room p mapped
  exact procOfAddr_sub own (by omega)

/-- The caller of `halt` is the first process of its terminal. -/
def RootHalts (k : Kernel) : Prop :=
  ∀ p, (k.terminal k.curActiveTerminal).apn = some p → k.isRoot p = true

/-- Only the first processes of terminals halt. -/
def OnlyRootsHalt (k : Kernel) : Event → Prop
  | .execute command => command.Exits → k.RootHalts
  | .halt _ => k.RootHalts
  | _ => True

theorem Halted.noReturn {k : Kernel} {action : ProcAction} (halted : Halted k action)
    (roots : k.RootHalts) (esp0 : Nat) : action ≠ .finish esp0 := by
  cases halted with
  | finish esp0 enabled =>
      obtain ⟨p, apn, child⟩ := enabled
      exact absurd (of_decide_eq_true (roots p apn)) child
  | restart p enabled => exact ProcAction.noConfusion

theorem Performs.noReturn {env : Env} {k : Kernel} {event : Event} {action : ProcAction}
    (performs : Performs env k event action) (roots : OnlyRootsHalt k event) (esp0 : Nat) :
    action ≠ .finish esp0 := by
  cases performs with
  | stay => exact ProcAction.noConfusion
  | vidmap => exact ProcAction.noConfusion
  | start => exact ProcAction.noConfusion
  | halt status _ halted => exact halted.noReturn roots esp0
  | exit command _ exits halted => exact halted.noReturn (roots exits) esp0
  | select => exact ProcAction.noConfusion
  | switch scancode termNum _ decoded switched =>
      cases switched <;> exact ProcAction.noConfusion
  | launch => exact ProcAction.noConfusion

theorem stackAtTop_step {env : Env} {k k' : Kernel} {event : Event} (top : k.procs.StackAtTop)
    (roots : OnlyRootsHalt k event) (step : k.step env event = some k') :
    k'.procs.StackAtTop := by
  obtain ⟨action, performs, table⟩ := step_act step
  rw [table]
  exact top.act performs.enabled (performs.noReturn roots)

/-- In every run from the first shell in which only the first processes of terminals
halt, `tss.esp0` of a process in user mode is the top of its kernel stack. -/
theorem stack_reset {env : Env} {k start final : Kernel} {events : List Event}
    (booted : boot env k = some start)
    (roots : EachStep (Kernel.step env) OnlyRootsHalt start events)
    (reached : run (Kernel.step env) start events = some final) : final.StackReset := by
  have atBoot : start.procs.StackAtTop := by
    obtain ⟨p, table⟩ := boot_procs booted
    rw [table]
    exact ProcTable.stackAtTop_start _ p
  have top : final.procs.StackAtTop :=
    run_invariant (fun k => k.procs.StackAtTop)
      (fun _ _ _ top roots step => stackAtTop_step top roots step) atBoot roots reached
  intro userMode p mapped
  have esp0 : final.tssEsp0 = kernelStackTop p := top p mapped
  have esp : final.kernelEsp = final.tssEsp0 := kernelEsp_of_inUserMode userMode
  refine ⟨esp0, ?_⟩
  rw [getPcbPtr, esp, esp0]
  exact procOfAddr_kernelStackTop p

/-- The first shell, which is the first process of its terminal, halts. -/
def rootHaltRun : BootRun Env.sample []
    (fun start => ((start.terminal start.curActiveTerminal).apn.map start.isRoot,
      (start.step Env.sample (.halt 0)).map fun k => (k.mappedProcess, k.procLog)))
    (some true, some (some 0, [.started 0 0, .finished 0, .started 0 0])) :=
  .of (by decide +kernel)

theorem stack_reset_sample :
    ∃ start final, boot Env.sample default = some start ∧
      run (Kernel.step Env.sample) start [.halt 0] = some final ∧
      final.procLog = [.started 0 0, .finished 0, .started 0 0] ∧ final.StackReset := by
  obtain ⟨start, _, booted, ends, saw⟩ := rootHaltRun
  cases ends
  simp only [Prod.mk.injEq] at saw
  obtain ⟨root, halts⟩ := saw
  obtain ⟨final, step, seen⟩ := Option.map_eq_some_iff.mp halts
  have reached : run (Kernel.step Env.sample) start [.halt 0] = some final := by
    rw [run_cons, step]
    rfl
  have roots : start.RootHalts := by
    intro p apn
    rw [apn] at root
    exact Option.some.inj root
  have onlyRoots : EachStep (Kernel.step Env.sample) OnlyRootsHalt start [.halt 0] :=
    ⟨roots, fun _ _ => trivial⟩
  exact ⟨start, final, booted, reached, (Prod.mk.inj seen).2,
    stack_reset booted onlyRoots reached⟩

/-- A shell that has executed a program and waited for its end has a shorter kernel
stack. -/
def shrunkRun : BootRun Env.sample [.execute Env.sample.shell, .halt 0]
    (fun k => (k.inUserMode, k.mappedProcess, k.tssEsp0))
    (true, some 0, kernelStackTop 0 - 512) :=
  .of (by decide +kernel)

theorem stack_shrinks :
    ∃ start final, boot Env.sample default = some start ∧
      run (Kernel.step Env.sample) start [.execute Env.sample.shell, .halt 0] = some final ∧
      ¬ final.StackReset := by
  obtain ⟨start, final, booted, reached, saw⟩ := shrunkRun
  refine ⟨start, final, booted, reached, fun resets => ?_⟩
  simp only [Prod.mk.injEq] at saw
  obtain ⟨userMode, mapped, esp0⟩ := saw
  have top := (resets userMode 0 mapped).1
  rw [esp0] at top
  exact absurd top (by decide)

end Kernel

end Ece391Os
