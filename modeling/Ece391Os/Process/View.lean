import Ece391Os.Machine.Frames
import Ece391Os.Process.Table

/-!
# The kernel's process table

The view of the kernel state as a process table, and the kernel operations that
leave the view as it is.
-/

namespace Ece391Os

namespace Kernel

/-- The process table of a kernel state. -/
def procs (k : Kernel) : ProcTable where
  shown := k.curTerm
  scheduled := k.curActiveTerminal
  active := fun t => (k.terminal t).active
  apn := fun t => (k.terminal t).apn
  live := k.pidArray
  number := fun p => (k.pcb p).processNumber
  parent := fun p => (k.pcb p).parentProcessNumber
  term := fun p => (k.pcb p).term
  mapped := k.mappedProcess
  video := k.userVideoPage
  esp0 := k.tssEsp0
  log := k.procLog

section Frames

variable (k : Kernel)

/-- An assignment to terminal fields other than `active` and `apn`. -/
theorem procs_modifyTerm (t : TermId) {change : Term → Term}
    (active : ∀ term, (change term).active = term.active)
    (apn : ∀ term, (change term).apn = term.apn) :
    (k.modifyTerm t change).procs = k.procs := by
  have activeEq := field_modifyTerm_of_eq Term.active k t active
  have apnEq := field_modifyTerm_of_eq Term.apn k t apn
  unfold procs
  rw [activeEq, apnEq]
  rfl

/-- An assignment to PCB fields other than the numbers and the terminal. -/
theorem procs_modifyPcb (p : ProcId) {change : Pcb → Pcb}
    (number : ∀ pcb, (change pcb).processNumber = pcb.processNumber)
    (parent : ∀ pcb, (change pcb).parentProcessNumber = pcb.parentProcessNumber)
    (term : ∀ pcb, (change pcb).term = pcb.term) :
    (k.modifyPcb p change).procs = k.procs := by
  have fields : ∀ q, ((k.modifyPcb p change).pcb q).processNumber = (k.pcb q).processNumber ∧
      ((k.modifyPcb p change).pcb q).parentProcessNumber = (k.pcb q).parentProcessNumber ∧
      ((k.modifyPcb p change).pcb q).term = (k.pcb q).term := by
    intro q
    by_cases same : q = p
    · subst q
      simp [modifyPcb, number, parent, term]
    · simp [modifyPcb, same]
  have numberEq : (fun q => ((k.modifyPcb p change).pcb q).processNumber) =
      fun q => (k.pcb q).processNumber := funext fun q => (fields q).1
  have parentEq : (fun q => ((k.modifyPcb p change).pcb q).parentProcessNumber) =
      fun q => (k.pcb q).parentProcessNumber := funext fun q => (fields q).2.1
  have termEq : (fun q => ((k.modifyPcb p change).pcb q).term) =
      fun q => (k.pcb q).term := funext fun q => (fields q).2.2
  unfold procs
  rw [numberEq, parentEq, termEq]
  rfl

@[simp]
theorem procs_mapProgram (p : ProcId) :
    (k.mapProgram p).procs = { k.procs with mapped := some p } := by
  ext1
  case mapped => exact mappedProcess_mapProgram k p
  case video => exact userVideoPage_mapProgram k p
  all_goals rfl

@[simp]
theorem procs_mapUserVideo : k.mapUserVideo.procs = { k.procs with video := some videoAddr } := by
  ext1
  case mapped => exact mappedProcess_mapUserVideo k
  case video => exact userVideoPage_mapUserVideo k
  all_goals rfl

@[simp]
theorem procs_mapSavedVideo (t : TermId) :
    (k.mapSavedVideo t).procs = { k.procs with video := some (savedVideoAddr t) } := by
  ext1
  case mapped => exact mappedProcess_mapSavedVideo k t
  case video => exact userVideoPage_mapSavedVideo k t
  all_goals rfl

/-- Output, the descriptor calls and the keyboard do not touch the process table. -/
theorem procs_untouchedByKeys : UntouchedByKeys procs where
  console := fun _ _ => rfl
  screen := fun k t change outputOnly => by
    apply k.procs_modifyTerm t
    · intro term
      rcases outputOnly term with ⟨x, y, screen, changed⟩
      rw [changed]
    · intro term
      rcases outputOnly term with ⟨x, y, screen, changed⟩
      rw [changed]
  rtcInterruptOccurred := fun _ _ => rfl
  cmos := fun _ _ => rfl
  memory := fun _ _ => rfl
  cpu := fun _ _ => rfl
  keyboard := fun _ _ => rfl
  keyLog := fun _ _ => rfl
  input := fun k t change inputOnly => by
    apply k.procs_modifyTerm t
    · intro term
      rcases inputOnly term with ⟨buffer, index, flag, changed⟩
      rw [changed]
    · intro term
      rcases inputOnly term with ⟨buffer, index, flag, changed⟩
      rw [changed]

theorem procs_untouched : Untouched procs where
  toUntouchedByOutput := procs_untouchedByKeys.toUntouchedByOutput
  fds := fun k p _ => k.procs_modifyPcb p (fun _ => rfl) (fun _ => rfl) fun _ => rfl
  directoryLoc := fun _ _ => rfl

variable {k} {k' : Kernel}

theorem procs_handleKeyPress {keycode : UInt8} (handled : k.handleKeyPress keycode = some k') :
    k'.procs = k.procs :=
  procs_untouchedByKeys.handleKeyPress handled

theorem procs_terminalReadStep {buf : Nat} {nbytes : Int} {point : ReadPoint}
    (stepped : k.terminalReadStep buf nbytes point = some k') : k'.procs = k.procs :=
  procs_untouchedByKeys.terminalReadStep stepped

theorem procs_showTerminal (t : TermId) :
    (k.showTerminal t).procs = { k.procs with shown := t } := by
  have saved : (k.saveRestore k.curTerm 0).procs = k.procs := by
    unfold saveRestore
    rw [if_pos rfl]
    exact k.procs_modifyTerm _ (fun _ => rfl) fun _ => rfl
  have shown : (k.showTerminal t).procs =
      { (k.saveRestore k.curTerm 0).procs with shown := t } := rfl
  rw [shown, saved]

end Frames

end Kernel

end Ece391Os
