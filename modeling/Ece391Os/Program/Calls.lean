import Ece391Os.Machine.Frames
import Ece391Os.Terminal.Write

/-!
# Programs over the system calls

What the user programs share: the memory around a program that it does not decide itself, and the
writes to the terminal from a process that runs.
-/

namespace Ece391Os

namespace Program

/-- What the program does not decide: the address of its buffer and of its string constants, and at
each write what is in memory behind the buffer and on the kernel's stack. -/
structure Surroundings where
  buf : Nat
  constants : Nat
  junk : UInt8
  behind : Nat → List UInt8
  args : Nat → PrintfArgs

/-- `ece391_fdputs(1, s)` of a string constant. -/
def fdputs (s : Surroundings) (n : Nat) (text : List UInt8) (k : Kernel) : Option Kernel :=
  (k.sysWrite s.junk 1 s.constants ⟨text ++ [0], s.args n⟩ text.length).map Prod.snd

/-! ## Output -/

/-- The descriptors of the processes, and the next entry that a read of a directory returns. -/
def withFiles (k : Kernel) (pcb : ProcId → Pcb) (loc : UInt32) : Kernel :=
  { k with pcb := pcb, directoryLoc := loc }

theorem apn_putcTerminalActive (k : Kernel) (char : UInt8) :
    ∃ console terminal, (∀ t, (terminal t).apn = (k.terminal t).apn) ∧
      k.putcTerminalActive char = { k with console := console, terminal := terminal } := by
  have same (change : Term → Term) (only : Term.OutputOnly change) (k : Kernel) (t : TermId) :
      ((k.modifyTerm k.curActiveTerminal change).terminal t).apn = (k.terminal t).apn := by
    refine congrFun (k.field_modifyTerm_of_eq Term.apn k.curActiveTerminal fun term => ?_) t
    rcases only term with ⟨x, y, screen, changed⟩
    rw [changed]
  unfold Kernel.putcTerminalActive
  split
  · exact ⟨_, _, same _ Kernel.outputOnly_enterTermExec k, rfl⟩
  · have only := Kernel.outputOnly_setScreenPosTermExec (x := fun t => t.posX + 1)
      (y := fun t => t.posY) (fun t => t.videoMem.setChar t.posY t.posX char) fun t => t.posY.isLt
    refine ⟨_, _, ?_, rfl⟩
    exact same _ only { k with console := _ }

theorem apn_putsTerminalActive (k : Kernel) (text : List UInt8) :
    ∃ console terminal, (∀ t, (terminal t).apn = (k.terminal t).apn) ∧
      k.putsTerminalActive text = { k with console := console, terminal := terminal } := by
  induction text generalizing k with
  | nil => exact ⟨k.console, k.terminal, fun _ => rfl, rfl⟩
  | cons char text ih =>
      rcases apn_putcTerminalActive k char with ⟨console, terminal, apn, one⟩
      rcases ih (k.putcTerminalActive char) with ⟨console', terminal', apn', rest⟩
      rw [one] at apn' rest
      refine ⟨console', terminal', fun t => (apn' t).trans (apn t), ?_⟩
      rw [Kernel.putsTerminalActive, List.foldl_cons, one]
      exact rest

/-- Output changes the cursors and the screens only. -/
theorem sendToConsole_eq (k : Kernel) (text : List UInt8) :
    ∃ console terminal, (∀ t, (terminal t).apn = (k.terminal t).apn) ∧
      k.sendToConsole text = { k with console := console, terminal := terminal } := by
  unfold Kernel.sendToConsole
  split
  · rcases k.puts_eq text with ⟨console, printed⟩
    exact ⟨console, k.terminal, fun _ => rfl, printed⟩
  · exact apn_putsTerminalActive k text

theorem sendToConsole_nil (k : Kernel) : k.sendToConsole [] = k := by
  unfold Kernel.sendToConsole
  split <;> rfl

theorem sendToConsole_append (k : Kernel) (first second : List UInt8) :
    (k.sendToConsole first).sendToConsole second = k.sendToConsole (first ++ second) := by
  rcases sendToConsole_eq k first with ⟨console, terminal, _, sent⟩
  have shown : (k.sendToConsole first).curTerm = k.curTerm := by rw [sent]
  have scheduled : (k.sendToConsole first).curActiveTerminal = k.curActiveTerminal := by rw [sent]
  rw [Kernel.sendToConsole, shown, scheduled]
  unfold Kernel.sendToConsole
  by_cases displayed : k.curTerm = k.curActiveTerminal
  · simp only [if_pos displayed]
    exact List.foldl_append.symm
  · simp only [if_neg displayed]
    exact List.foldl_append.symm

theorem putsTerminalActive_withFiles (k : Kernel) (pcb : ProcId → Pcb) (loc : UInt32)
    (text : List UInt8) :
    (withFiles k pcb loc).putsTerminalActive text =
      withFiles (k.putsTerminalActive text) pcb loc := by
  induction text generalizing k with
  | nil => rfl
  | cons char text ih =>
      have one : (withFiles k pcb loc).putcTerminalActive char =
          withFiles (k.putcTerminalActive char) pcb loc := by
        unfold Kernel.putcTerminalActive
        split <;> rfl
      rw [Kernel.putsTerminalActive, List.foldl_cons, one]
      exact ih (k.putcTerminalActive char)

theorem puts_withFiles (k : Kernel) (pcb : ProcId → Pcb) (loc : UInt32) (text : List UInt8) :
    (withFiles k pcb loc).puts text = withFiles (k.puts text) pcb loc := by
  induction text generalizing k with
  | nil => rfl
  | cons char text ih => exact ih (k.putc char)

/-- Output and what reads assign to do not meet. -/
theorem sendToConsole_withFiles (k : Kernel) (pcb : ProcId → Pcb) (loc : UInt32)
    (text : List UInt8) :
    (withFiles k pcb loc).sendToConsole text = withFiles (k.sendToConsole text) pcb loc := by
  unfold Kernel.sendToConsole
  rw [puts_withFiles, putsTerminalActive_withFiles]
  exact (apply_ite (fun k => withFiles k pcb loc) _ _ _).symm

theorem plain_of_noPercent {text : List UInt8} (noNul : 0 ∉ text) (noPercent : 0x25 ∉ text) :
    Printf.Plain text :=
  fun _ member => ⟨fun zero => noNul (zero ▸ member), fun percent => noPercent (percent ▸ member)⟩

/-- Process `p` runs on the scheduled terminal and descriptor 1 is the terminal. -/
structure Runs (k : Kernel) (p : ProcId) : Prop where
  running : k.getPcbPtr = some p
  scheduled : (k.terminal k.curActiveTerminal).apn = some p
  stdoutOpen : ((k.pcb p).fds 1).flags = .fdAvail
  stdout : ((k.pcb p).fds 1).fopsPtr = .stdout

variable {k : Kernel} {p : ProcId}

theorem Runs.sendToConsole (runs : Runs k p) (text : List UInt8) :
    Runs (k.sendToConsole text) p := by
  rcases sendToConsole_eq k text with ⟨console, terminal, apn, sent⟩
  rw [sent]
  exact ⟨runs.running, (apn _).trans runs.scheduled, runs.stdoutOpen, runs.stdout⟩

theorem sendToConsole_pcb (text : List UInt8) : (k.sendToConsole text).pcb = k.pcb := by
  rcases sendToConsole_eq k text with ⟨console, terminal, _, sent⟩
  rw [sent]

/-- A write of a text in front of a NUL. -/
theorem Runs.sysWrite (runs : Runs k p) {buf : Nat} (notNull : buf ≠ 0) (junk : UInt8)
    (args : PrintfArgs) {text : List UInt8} (plain : Printf.Plain text) (after : List UInt8)
    (nbytes : Int) :
    k.sysWrite junk 1 buf ⟨text ++ 0 :: after, args⟩ nbytes =
      some ((text.length : Int), k.sendToConsole text) := by
  have opened : (k.pcb p).fds.opened 1 buf = some 1 :=
    FileTable.opened_coe (i := 1) runs.stdoutOpen notNull
  have sends : Kernel.terminalWriteSends args (text ++ 0 :: after) =
      some (text, (text.length : Int)) := by
    rw [Kernel.terminalWriteSends, Printf.interpret_plain args 0 plain after]
    rfl
  simp only [Kernel.sysWrite, runs.scheduled, opened, runs.stdout, Option.bind_eq_bind,
    Option.bind_some]
  rw [Kernel.terminalWrite_eq, sends]
  rfl

/-- A process that `execute` has started opens a file or a directory on descriptor 2. -/
theorem sysOpen_fresh {img : Image} {filename : List UInt8} {d : Dentry}
    (found : img.readDentryByName filename = some d) (noClock : d.filetype ≠ 0)
    (running : k.getPcbPtr = some p) (scheduled : (k.terminal k.curActiveTerminal).apn = some p)
    (fresh : (k.pcb p).fds = FileTable.initial) :
    ∃ opened, k.sysOpen img filename = some (2, opened) ∧ Runs opened p ∧
      opened.directoryLoc = k.directoryLoc ∧
      (opened.pcb p).fds = (FileTable.initial.modify 2 fun d =>
        { d with flags := .fdAvail, filePosition := 0 }).bind 2 d := by
  have claims : FileTable.initial.claim 2 =
      some (2, FileTable.initial.modify 2 fun d =>
        { d with flags := .fdAvail, filePosition := 0 }) := by
    have free : (FileTable.initial 2).flags = .fdOccup := rfl
    rw [FileTable.claim, if_pos free]
  have terminal : ((FileTable.initial.modify 2 fun d =>
      { d with flags := .fdAvail, filePosition := 0 }).bind 2 d) 1 = FileTable.initial 1 := by
    unfold FileTable.bind
    generalize d.filetype = filetype
    rcases filetype with _ | _ | _ | _ <;> rfl
  refine ⟨k.setFds p ((FileTable.initial.modify 2 fun d =>
    { d with flags := .fdAvail, filePosition := 0 }).bind 2 d), ?_,
    ⟨running, scheduled, ?_, ?_⟩, rfl, k.setFds_fds p _⟩
  · simp only [Kernel.sysOpen, found, running, fresh, claims, if_neg noClock,
      Option.bind_eq_bind, Option.bind_some]
    rfl
  · rw [Kernel.setFds_fds, terminal]
    rfl
  · rw [Kernel.setFds_fds, terminal]
    rfl

/-- Process 0 in user mode, as `execute` starts it. -/
def started : Kernel :=
  { (default : Kernel) with
    tssEsp0 := Kernel.kernelStackTop 0
    terminal := fun _ => { (default : Term) with apn := some 0 }
    pcb := fun _ => { (default : Pcb) with fds := FileTable.initial } }

/-- A buffer in the program's page, with a NUL behind it. -/
def surroundings : Surroundings where
  buf := 0x8300000
  constants := 0x8048000
  junk := 0
  behind _ := [0]
  args _ := Printf.zeroArgs

end Program

end Ece391Os
