import Ece391Os.Machine.OwnDescriptors
import Ece391Os.Process.KernelStack
import Ece391Os.Process.OneTerminal
import Ece391Os.Process.UserMode
import Ece391Os.Process.VideoPage

/-!
# Nested processes

On one terminal, the newest process of the chain runs and each other process waits inside
its call of `execute`.  A start puts a process on top of the chain and a halt returns to the
next one, as long as the calls of `execute` find room on the callers' kernel stacks.
-/

namespace Ece391Os

open Transition

/-- In a chain of processes, each has saved a stack pointer of its parent's system call. -/
def Suspended (pcb : ProcId → Pcb) : List ProcId → Prop
  | p :: q :: rest =>
      ((pcb p).parentCaller = .systemCall ∧ Kernel.procOfAddr (pcb p).parentKsp = some q) ∧
        Suspended pcb (q :: rest)
  | _ => True

theorem Suspended.congr {left right : ProcId → Pcb} {chain : List ProcId}
    (suspended : Suspended left chain)
    (agree : ∀ p ∈ chain, (right p).parentCaller = (left p).parentCaller ∧
      (right p).parentKsp = (left p).parentKsp) : Suspended right chain := by
  induction chain with
  | nil => trivial
  | cons p rest ih =>
      cases rest with
      | nil => trivial
      | cons q rest =>
          rcases suspended with ⟨⟨caller, ksp⟩, below⟩
          rcases agree p List.mem_cons_self with ⟨sameCaller, sameKsp⟩
          refine ⟨⟨sameCaller.trans caller, sameKsp ▸ ksp⟩, ih below fun r member => ?_⟩
          exact agree r (List.mem_cons_of_mem p member)

namespace Kernel

/-- The newest process of the chain runs on its own kernel stack, and the others wait for
it. -/
structure Nested (k : Kernel) (chain : List ProcId) : Prop extends k.OnChain chain where
  notLaunching : k.launching = false
  mapped : k.mappedProcess = chain.head?
  stack : procOfAddr k.tssEsp0 = chain.head?
  suspended : Suspended k.pcb chain

theorem Nested.current {k : Kernel} {p : ProcId} {rest : List ProcId}
    (nested : k.Nested (p :: rest)) (userMode : k.inUserMode = true) : k.getPcbPtr = some p := by
  rw [getPcbPtr, kernelEsp_of_inUserMode userMode]
  exact nested.stack

/-! ## One step -/

/-- What a step on one terminal does: at most the descriptors of the running process and
the page at 136MB change, or a process is started, or one halts. -/
inductive OneStep (env : Env) (k : Kernel) (p : ProcId) : Event → Kernel → Prop where
  | calm (event : Event) (k' : Kernel)
      (table : k'.procs = { k.procs with video := k'.procs.video })
      (notLaunching : k'.launching = false) (changes : ChangesFds p k k') :
      OneStep env k p event k'
  | started (command : Command) (program : Command.Program) (q : ProcId) (console : Console)
      (k' : Kernel) (new : k.newProcess env command = some q)
      (starts : (k.claimed console q).startProcess env .systemCall q program = some k') :
      OneStep env k p (.execute command) k'
  | halted (event : Event) (status : UInt8) (k' : Kernel) (frees : event.Halts)
      (userMode : k.inUserMode = true) (halts : k.halt env status = some k') :
      OneStep env k p event k'

theorem launching_terminalReadStep {k k' : Kernel} {buf : Nat} {numBytes : Int}
    {point : ReadPoint} (stepped : k.terminalReadStep buf numBytes point = some k') :
    k'.launching = false := by
  rcases terminalReadStep_continues stepped with ⟨next, continues⟩ | ⟨_, _, userMode⟩
  · rw [launching, continues]
    rfl
  · exact launching_of_inUserMode userMode

/-- A step that leaves the process table as it is. -/
theorem OneStep.quiet {env : Env} {k k' : Kernel} {p : ProcId} (event : Event)
    (table : k'.procs = k.procs) (notLaunching : k'.launching = false)
    (changes : ChangesFds p k k') : OneStep env k p event k' := by
  apply OneStep.calm event k' _ notLaunching changes
  rw [table]

theorem oneStep_of_step {env : Env} {k k' : Kernel} {event : Event} {p : ProcId}
    {rest : List ProcId} (nested : k.Nested (p :: rest)) (noSwitch : k.NoSwitch event)
    (step : k.step env event = some k') : OneStep env k p event k' := by
  cases step_cases step with
  | scheduled _ schedules =>
      have same := nested.pitScheduling_eq schedules
      subst same
      exact .quiet _ rfl nested.notLaunching (.of_eq rfl)
  | ignored => exact .quiet _ rfl nested.notLaunching (.of_eq rfl)
  | pressed scancode keycode _ _ handled =>
      apply OneStep.quiet
      · have kept := procs_handleKeyPress handled
        exact kept
      · have cpu := cpu_untouchedByTyping.handleKeyPress handled
        exact (launching_of_cpu cpu).trans nested.notLaunching
      · have kept := pcb_untouchedByKeys.handleKeyPress handled
        exact .of_eq kept
  | switched scancode termNum _ key switches =>
      cases switchTerminal_cases switches with
      | kept => exact .quiet _ rfl nested.notLaunching (.of_eq rfl)
      | displayed t target differs _ =>
          exact absurd (noSwitch scancode termNum rfl key t target) differs
      | awaits t target differs _ _ _ =>
          exact absurd (noSwitch scancode termNum rfl key t target) differs
  | ticked => exact .quiet _ rfl nested.notLaunching (.of_eq rfl)
  | halted status _ userMode halts => exact .halted _ status k' trivial userMode halts
  | executed command _ userMode executes =>
      cases executeCall_cases executes with
      | exited _ exits halts => exact .halted _ 0 _ exits userMode halts
      | failed => exact .quiet _ rfl rfl (.of_eq rfl)
      | started program q console _ new starts =>
          exact .started command program q console _ new starts
  | begun fd buf nbytes _ userMode begins =>
      apply OneStep.quiet
      · exact procs_untouched.beginRead begins
      · rcases beginRead_cases begins with userMode | rfl | rfl
        · exact launching_of_inUserMode userMode
        · rfl
        · rfl
      · exact changesFds_beginRead (nested.current userMode) begins
  | returned _ n _ userMode returns =>
      apply OneStep.quiet
      · exact procs_untouched.returns returns
      · rfl
      · exact changesFds_returns (nested.current userMode) returns
  | mapped screenStart =>
      unfold Kernel.vidmap
      split
      · exact .quiet _ rfl rfl (.of_eq rfl)
      · apply OneStep.calm
        · rw [procs_untouched.returnToUser, procs_untouched.storeUser, procs_mapUserVideo]
        · rfl
        · apply ChangesFds.of_eq
          rw [pcb_untouchedByKeys.returnToUser, pcb_untouchedByKeys.storeUser]
          rfl
  | readOn buf nbytes point _ _ stepped =>
      apply OneStep.quiet
      · exact procs_terminalReadStep stepped
      · exact launching_terminalReadStep stepped
      · exact .of_eq (pcb_untouchedByKeys.terminalReadStep stepped)
  | rtcReadOn seen =>
      apply OneStep.quiet
      · exact procs_untouched.rtcReadStep seen
      · unfold rtcReadStep
        split <;> rfl
      · exact .of_eq (pcb_untouchedByKeys.rtcReadStep seen)
  | launched old interrupted _ activity =>
      have launching := nested.notLaunching
      rw [Kernel.launching, activity] at launching
      cases launching

/-! ## The invariant -/

section Nested

variable {env : Env} {k k' : Kernel} {p : ProcId} {rest : List ProcId}

theorem Nested.calm (nested : k.Nested (p :: rest))
    (table : k'.procs = { k.procs with video := k'.procs.video })
    (notLaunching : k'.launching = false) (changes : ChangesFds p k k') :
    k'.Nested (p :: rest) ∧ ∀ q ∈ rest, k'.pcb q = k.pcb q := by
  have notHead : ∀ q ∈ rest, q ≠ p := by
    intro q member same
    exact (List.nodup_cons.mp nested.nodup).1 (same ▸ member)
  have kept : ∀ q ∈ rest, k'.pcb q = k.pcb q :=
    fun q member => changes.pcb_of_ne (notHead q member)
  refine ⟨⟨⟨?_, ?_⟩, notLaunching, ?_, ?_, ?_⟩, kept⟩
  · rw [table]
    exact ⟨nested.one.shown, nested.one.scheduled, nested.one.active⟩
  · rcases nested.owns with ⟨owned, ⟨⟨inactive, newest, member, nodup, linked⟩, covers⟩, chain⟩
    refine ⟨owned, ⟨?_, ?_⟩, chain⟩
    · rw [table]
      exact ⟨inactive, newest, member, nodup, linked⟩
    · rw [table]
      exact covers
  · have mapped : k'.mappedProcess = k.mappedProcess := congrArg ProcTable.mapped table
    exact mapped.trans nested.mapped
  · have esp0 : k'.tssEsp0 = k.tssEsp0 := congrArg ProcTable.esp0 table
    rw [esp0]
    exact nested.stack
  · apply nested.suspended.congr
    intro q member
    rcases List.mem_cons.mp member with head | below
    · subst head
      rcases changes.pcb_self with ⟨fds, changed⟩
      rw [changed]
      exact ⟨rfl, rfl⟩
    · rw [kept q below]
      exact ⟨rfl, rfl⟩

theorem Nested.start {q : ProcId} {console : Console} {program : Command.Program}
    (nested : k.Nested (p :: rest)) (userMode : k.inUserMode = true) (room : k.StackRoom env)
    (free : k.pidArray q = false)
    (starts : (k.claimed console q).startProcess env .systemCall q program = some k') :
    k'.Nested (q :: p :: rest) ∧ ∀ r ∈ p :: rest, k'.pcb r = k.pcb r := by
  have table := procs_startProcess starts
  have enabled : k.procs.Enabled (.start q) := free
  have on := nested.toOnChain.act enabled (fun _ => ⟨nofun, nofun⟩) table
  have mapped : k'.mappedProcess = some q := congrArg ProcTable.mapped table
  have esp0 : k'.tssEsp0 = kernelStackTop q := congrArg ProcTable.esp0 table
  have notNew : ∀ r ∈ p :: rest, r ≠ q := by
    intro r member same
    have live := (nested.live_iff r).mpr member
    rw [same, free] at live
    cases live
  rcases pcb_startProcess starts with ⟨parent, pcb⟩
  have kept : ∀ r ∈ p :: rest, k'.pcb r = k.pcb r := by
    intro r member
    rw [pcb]
    exact Function.update_of_ne (notNew r member) _ _
  refine ⟨⟨on, ?_, mapped, ?_, ?_, ?_⟩, kept⟩
  · exact launching_of_inUserMode (inUserMode_startProcess starts)
  · rw [esp0]
    exact procOfAddr_kernelStackTop q
  · rw [pcb, Function.update_self]
    refine ⟨rfl, ?_⟩
    exact room.below nested.mapped (nested.current userMode) (env.executeDepth_le .systemCall)
  · apply nested.suspended.congr
    intro r member
    rw [kept r member]
    exact ⟨rfl, rfl⟩

theorem Nested.active (nested : k.Nested (p :: rest)) :
    (k.terminal k.curActiveTerminal).apn = some p := by
  have scheduled : k.curActiveTerminal = 0 := nested.one.scheduled
  rcases nested.newest with ⟨q, _, same, apn⟩
  cases same
  rw [scheduled]
  exact apn

/-- A process other than the first of the chain has the next one as its parent. -/
theorem Nested.child {q : ProcId} (nested : k.Nested (p :: q :: rest)) :
    (k.pcb p).processNumber ≠ (k.pcb p).parentProcessNumber := by
  have parent : (k.pcb p).parentProcessNumber = q := nested.linked.1
  have distinct := (List.nodup_cons.mp nested.nodup).1
  rw [nested.number List.mem_cons_self, parent]
  rintro rfl
  exact distinct List.mem_cons_self

/-- The release of a process returns, and changes at most its descriptors in the PCBs. -/
theorem releaseProcess_own (current : k.getPcbPtr = some p) :
    ∃ released, k.releaseProcess p = some released ∧ ChangesFds p k released := by
  have freed : Kernel.getPcbPtr
      { k with pidArray := Function.update k.pidArray (k.pcb p).processNumber false } = some p :=
    current
  rcases releaseFds_own freed (List.finRange 8) with ⟨closed, loop, changes, _⟩
  unfold releaseProcess
  dsimp only
  rw [loop]
  exact ⟨_, rfl, changes⟩

/-- The end of a child: its parent runs again, with its PCB and those below untouched. -/
theorem Nested.halt_child (env : Env) {q : ProcId} (nested : k.Nested (p :: q :: rest))
    (userMode : k.inUserMode = true) (status : UInt8) :
    ∃ k', k.halt env status = some k' ∧ k'.cpu.activity = .user status.toNat ∧
      k'.Nested (q :: rest) ∧ ∀ r ∈ q :: rest, k'.pcb r = k.pcb r := by
  rcases releaseProcess_own (nested.current userMode) with ⟨released, release, changes⟩
  rcases nested.suspended with ⟨⟨caller, ksp⟩, below⟩
  rcases changes.pcb_self with ⟨fds, own⟩
  have ends : ∃ k', released.resumeParent p status = some k' ∧
      k'.cpu.activity = .user status.toNat ∧ k'.pcb = released.pcb ∧
      k'.tssEsp0 = (released.pcb p).parentKsp := by
    unfold resumeParent
    dsimp only
    split
    · exact ⟨_, rfl, rfl, rfl, rfl⟩
    · rename_i other
      have same : (released.pcb p).parentCaller = .systemCall := by
        rw [own]
        exact caller
      exact absurd same other
  rcases ends with ⟨k', resumes, returns, pcbs, esp0⟩
  have halts : k.halt env status = some k' := by
    have notRoot : k.isRoot p = false := decide_eq_false nested.child
    unfold halt
    rw [nested.active, Option.bind_eq_bind, Option.bind_some, release, Option.bind_eq_bind,
      Option.bind_some, notRoot]
    exact resumes
  have kept : ∀ r ∈ q :: rest, k'.pcb r = k.pcb r := by
    intro r member
    rw [pcbs]
    apply changes.pcb_of_ne
    rintro rfl
    exact (List.nodup_cons.mp nested.nodup).1 member
  refine ⟨k', halts, returns, ?_, kept⟩
  rcases halt_act halts with ⟨action, halted, table⟩
  cases halted with
  | restart other enabled =>
      rcases enabled with ⟨r, apn, root, _⟩
      cases nested.active.symm.trans apn
      exact absurd root nested.child
  | finish esp enabled =>
      refine ⟨nested.toOnChain.act enabled (fun _ => ⟨nofun, nofun⟩) table, ?_, ?_, ?_, ?_⟩
      · rw [launching, returns]
        rfl
      · have mapped : k'.mappedProcess = (k.procs.act (.finish esp)).mapped :=
          congrArg ProcTable.mapped table
        have parent : k.procs.parent p = q := nested.linked.1
        have number : k.procs.number q = q := nested.number (by simp)
        have apn : k.procs.apn k.procs.scheduled = some p := nested.active
        simp only [mapped, ProcTable.act, apn, parent, number]
        rfl
      · rw [esp0, own]
        exact ksp
      · apply below.congr
        intro r member
        rw [kept r member]
        exact ⟨rfl, rfl⟩

/-- The end of the first process, which a new shell replaces. -/
theorem Nested.halt_root (nested : k.Nested [p]) {status : UInt8}
    (halts : k.halt env status = some k') : ∃ q, k'.Nested [q] := by
  have parent : (k.pcb p).parentProcessNumber = p := nested.linked
  have root : (k.pcb p).processNumber = (k.pcb p).parentProcessNumber := by
    rw [parent]
    exact nested.number List.mem_cons_self
  rcases halt_act halts with ⟨action, halted, table⟩
  cases halted with
  | finish esp enabled =>
      rcases enabled with ⟨r, apn, child⟩
      cases nested.active.symm.trans apn
      exact absurd root child
  | restart q enabled =>
      have on := nested.toOnChain.act enabled (fun _ => ⟨nofun, nofun⟩) table
      have apn : k.procs.apn k.procs.scheduled = some p := nested.active
      rw [ProcTable.act_restart apn] at table
      have mapped : k'.mappedProcess = some q := congrArg ProcTable.mapped table
      have esp0 : k'.tssEsp0 = kernelStackTop q := congrArg ProcTable.esp0 table
      refine ⟨q, on, ?_, mapped, ?_, trivial⟩
      · exact launching_of_inUserMode (inUserMode_halt halts)
      · rw [esp0]
        exact procOfAddr_kernelStackTop q

/-- One step of a run on one terminal.  The processes that wait keep their PCBs. -/
theorem Nested.step {event : Event} (nested : k.Nested (p :: rest)) (noSwitch : k.NoSwitch event)
    (room : k.StackRoom env) (step : k.step env event = some k') :
    ∃ chain, k'.Nested chain ∧ (∀ r ∈ rest, k'.pcb r = k.pcb r) ∧
      (chain = p :: rest ∨ (∃ q, chain = q :: p :: rest) ∨
        (event.Halts ∧ (rest = [] ∨ chain = rest))) := by
  cases oneStep_of_step nested noSwitch step with
  | calm _ _ table notLaunching changes =>
      rcases nested.calm table notLaunching changes with ⟨after, kept⟩
      exact ⟨_, after, kept, .inl rfl⟩
  | started command program q console _ new starts =>
      have userMode : k.inUserMode = true := (Option.ite_none_right_eq_some.mp step).1
      rcases nested.start userMode room (newProcess_free new) starts with ⟨after, kept⟩
      exact ⟨_, after, fun r member => kept r (List.mem_cons_of_mem p member),
        .inr (.inl ⟨q, rfl⟩)⟩
  | halted _ status _ frees userMode halts =>
      cases rest with
      | nil =>
          rcases nested.halt_root halts with ⟨q, after⟩
          refine ⟨[q], after, ?_, .inr (.inr ⟨frees, .inl rfl⟩)⟩
          intro r member
          cases member
      | cons q rest =>
          rcases nested.halt_child env userMode status with ⟨_, same, _, after, kept⟩
          cases halts.symm.trans same
          exact ⟨_, after, kept, .inr (.inr ⟨frees, .inr rfl⟩)⟩

end Nested

end Kernel

end Ece391Os
