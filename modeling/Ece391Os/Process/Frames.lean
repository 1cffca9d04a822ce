import Ece391Os.Process.Refines

/-!
# What processes leave unchanged

A view of the kernel state that depends neither on processes nor on the mapping of pages is
the same before and after `execute`, `halt` and the scheduler.
-/

namespace Ece391Os

/-- An assignment to the status and the active process of a terminal only. -/
def Term.OwnerOnly (change : Term → Term) : Prop :=
  ∀ term, ∃ active apn, change term = { term with active := active, apn := apn }

namespace Kernel

/-- A view that does not depend on what `execute`, `halt` and the scheduler assign to. -/
structure UntouchedByProcesses {α : Type} (view : Kernel → α) : Prop
    extends UntouchedByCalls view where
  owner : ∀ k t change, Term.OwnerOnly change → view (k.modifyTerm t change) = view k
  pcb : ∀ k pcb, view { k with pcb := pcb } = view k
  pidArray : ∀ k pidArray, view { k with pidArray := pidArray } = view k
  procLog : ∀ k log, view { k with procLog := log } = view k
  paging : ∀ k paging, view { k with paging := paging } = view k
  tssEsp0 : ∀ k esp0, view { k with tssEsp0 := esp0 } = view k
  curActiveTerminal : ∀ k t, view { k with curActiveTerminal := t } = view k
  nextSchedTerminal : ∀ k t, view { k with nextSchedTerminal := t } = view k

namespace UntouchedByProcesses

variable {α : Type} {view : Kernel → α} (untouched : UntouchedByProcesses view) {k k' : Kernel}
include untouched

theorem attachProcess (p parent : ProcId) (arg : List UInt8) :
    view (k.attachProcess p parent arg) = view k := by
  let attached := k.attachProcess p parent arg
  let owned := k.modifyTerm k.curTerm fun term => { term with active := true, apn := some p }
  let scheduled : Kernel := { owned with curActiveTerminal := attached.curActiveTerminal }
  let stored : Kernel := { scheduled with pcb := attached.pcb }
  let mapped : Kernel := { stored with tssEsp0 := kernelStackTop p }
  let running : Kernel := { mapped with cpu := attached.cpu }
  calc view attached = view running := untouched.procLog running attached.procLog
    _ = view mapped := untouched.cpu mapped attached.cpu
    _ = view stored := untouched.tssEsp0 stored (kernelStackTop p)
    _ = view scheduled := untouched.pcb scheduled attached.pcb
    _ = view owned := untouched.curActiveTerminal owned attached.curActiveTerminal
    _ = view k := untouched.owner k k.curTerm _ fun _ => ⟨_, _, rfl⟩

theorem enterProcess (env : Env) (caller : ExecCaller) (p : ProcId) (inode : Nat) :
    view (k.enterProcess env caller p inode) = view k := by
  let entered := k.enterProcess env caller p inode
  let saved : Kernel := { k with pcb := entered.pcb }
  calc view entered = view (saved.mapProgram p) := untouched.memory _ entered.memory
    _ = view saved := untouched.paging saved entered.paging
    _ = view k := untouched.pcb k entered.pcb

theorem claimed (console : Console) (p : ProcId) : view (k.claimed console p) = view k :=
  (untouched.pidArray { k with console := console } _).trans (untouched.console k console)

theorem startProcess {env : Env} {caller : ExecCaller} {p : ProcId} {program : Command.Program}
    (starts : k.startProcess env caller p program = some k') : view k' = view k := by
  rcases Option.map_eq_some_iff.mp starts with ⟨parent, _, rfl⟩
  rw [untouched.attachProcess, untouched.enterProcess]

theorem releaseProcess {current : ProcId} (released : k.releaseProcess current = some k') :
    view k' = view k := by
  rcases Option.map_eq_some_iff.mp released with ⟨closed, close, rfl⟩
  dsimp only
  rw [untouched.procLog, setApn, untouched.owner _ _ _ fun _ => ⟨_, _, rfl⟩,
    untouched.releaseFds close, untouched.pidArray]

theorem halt {env : Env} {status : UInt8} (halts : k.halt env status = some k') :
    view k' = view k := by
  cases halt_cases halts with
  | relaunched _ _ _ _ _ _ _ _ release _ starts =>
      rw [untouched.startProcess starts, untouched.claimed, setActive,
        untouched.owner _ _ _ fun _ => ⟨_, _, rfl⟩, untouched.releaseProcess release]
  | resumed _ _ _ _ _ release resumes =>
      rw [resumeParent_eq resumes, untouched.returnToUser, untouched.tssEsp0, mapProgram,
        untouched.paging, untouched.releaseProcess release]

theorem pitScheduling (scheduled : k.pitScheduling = some k') : view k' = view k := by
  unfold Kernel.pitScheduling at scheduled
  split at scheduled
  · rcases Option.bind_eq_some_iff.mp scheduled with ⟨next, _, switches⟩
    rcases Option.bind_eq_some_iff.mp switches with ⟨old, _, rest⟩
    dsimp only at rest
    rcases Option.bind_eq_some_iff.mp rest with ⟨loaded, _, done⟩
    cases done
    rw [untouched.cpu]
    unfold modifyPcb
    rw [untouched.pcb, untouched.pcb, untouched.tssEsp0]
    unfold mapProgram mapUserVideo mapSavedVideo
    split
    · rw [untouched.curActiveTerminal, untouched.paging, untouched.paging,
        untouched.nextSchedTerminal]
    · rw [untouched.paging, untouched.curActiveTerminal, untouched.paging, untouched.paging,
        untouched.nextSchedTerminal]
  · cases scheduled
    rfl

theorem executeCall {env : Env} {command : Command}
    (called : k.executeCall env command = some k') : view k' = view k := by
  cases executeCall_cases called with
  | exited _ _ halts => exact untouched.halt halts
  | failed console _ => rw [untouched.returnToUser, untouched.console]
  | started _ _ _ _ _ starts => rw [untouched.startProcess starts, untouched.claimed]

theorem launchStep {env : Env} {old : ProcId} {interrupted : Activity}
    (launches : k.launchStep env old interrupted = some k') : view k' = view k := by
  rcases launchStep_cases launches with ⟨_, _, _, _, starts⟩ | ⟨_, _, rfl⟩
  · rw [untouched.startProcess starts, untouched.claimed]
  · rw [untouched.cpu, modifyPcb, untouched.pcb, untouched.console]

theorem boot {env : Env} {start : Kernel} (booted : Kernel.boot env k = some start) :
    view start = view k.startup.initTerminals := by
  rcases boot_cases booted with ⟨_, _, _, _, starts⟩
  rw [untouched.startProcess starts, untouched.claimed]

theorem vidmap (screenStart : Nat) : view (k.vidmap screenStart).2 = view k := by
  unfold Kernel.vidmap
  split
  · rfl
  · rw [untouched.storeUser, mapUserVideo, untouched.paging]

end UntouchedByProcesses

end Kernel

end Ece391Os
