import Ece391Os.Descriptor.Calls
import Ece391Os.Process.Command

/-!
# `execute` and `halt`

Starting a process, halting one, and the start of a new shell when the first
process of a terminal halts.  Both calls disable interrupts, and both enable them a few
instructions before they leave for user mode: `execute` in front of the `cli` and `iret`
into the program, `halt` in front of the jump into the `execute` of the parent.  An
interrupt there is not modelled.  A call is undefined when it does not return to a point
of the model: a parser loop without end, a pointer to no PCB, or a return into a kernel
stack that a new process has taken over.
-/

namespace Ece391Os

open Memory

/-- How a call of `execute` ends: it returns -1 to its caller, or a process runs in
user mode. -/
inductive ExecOutcome where
  | failed (k : Kernel)
  | running (k : Kernel)

namespace Kernel

/-- `printf` of a format literal. -/
def printLiteral (k : Kernel) (args : PrintfArgs) (format : List UInt8) : Kernel :=
  ((k.printf args (format ++ [0])).map Prod.snd).getD k

/-- The literal `"Too many processes active. "`. -/
def tooManyLiteral : List UInt8 :=
  [0x54, 0x6F, 0x6F, 0x20, 0x6D, 0x61, 0x6E, 0x79, 0x20, 0x70, 0x72, 0x6F, 0x63, 0x65, 0x73,
    0x73, 0x65, 0x73, 0x20, 0x61, 0x63, 0x74, 0x69, 0x76, 0x65, 0x2E, 0x20]

/-- The format `"TERM %d\n"`. -/
def termFormat : List UInt8 := [0x54, 0x45, 0x52, 0x4D, 0x20, 0x25, 0x64, 0x0A]

/-- The first free entry of `pid_array`. -/
def freeProcess (k : Kernel) : Option ProcId :=
  (List.finRange 6).find? fun p => !k.pidArray p

/-- `get_proc_num()`. -/
def getProcNum (k : Kernel) : Option ProcId × Kernel :=
  match k.freeProcess with
  | some p => (some p, { k with pidArray := Function.update k.pidArray p true })
  | none => (none, k.printLiteral ⟨fun _ => 0, fun _ => []⟩ tooManyLiteral)

/-- `read_data(inode, 0, LOAD_ADDRESS, LARGE_NUMBER)` into the frame of a process. -/
def loadProgram (k : Kernel) (img : Image) (p : ProcId) (inode : Nat) : Kernel :=
  let stores := (img.readData inode 0 100000).2.map fun store => (0x8048000 + store.1, store.2)
  { k with memory := Function.update k.memory p (applyStores (k.memory p) stores) }

/-- The parent of a new process: itself on a terminal that is not active, else the
active process of the displayed terminal. -/
def parentOf (k : Kernel) (p : ProcId) : Option ProcId :=
  if (k.terminal k.curTerm).active then
    (k.terminal k.curTerm).apn.map fun q => (k.pcb q).processNumber
  else
    some p

/-- `execute` from the new process number to the process number in the PCB: save the
stack pointer, map the program page and load the program. -/
def enterProcess (env : Env) (caller : ExecCaller) (k : Kernel) (p : ProcId) (inode : Nat) :
    Kernel :=
  let parentKsp := k.kernelEsp - env.executeDepth caller
  let k := k.modifyPcb p fun pcb =>
    { pcb with parentKsp := parentKsp, parentCaller := caller, processNumber := p }
  (k.mapProgram p).loadProgram env.image p inode

/-- `execute` from the parent's process number to the `iret` into the program. -/
def attachProcess (k : Kernel) (p parent : ProcId) (arg : List UInt8) : Kernel :=
  let t := k.curTerm
  let pcb :=
    { k.pcb p with
      parentProcessNumber := parent
      argbuf := arg
      fds := FileTable.initial
      term := t
      saved := none }
  { k with
    curActiveTerminal := if (k.terminal t).active then k.curActiveTerminal else t
    terminal := Function.update k.terminal t { k.terminal t with active := true, apn := some p }
    pcb := Function.update k.pcb p pcb
    tssEsp0 := kernelStackTop p
    cpu := { activity := .user 0, esp := 0 }
    procLog := .started t p :: k.procLog }

/-- `execute` from the new process number on. -/
def startProcess (env : Env) (caller : ExecCaller) (k : Kernel) (p : ProcId)
    (program : Command.Program) : Option Kernel :=
  let k := k.enterProcess env caller p program.inode
  (k.parentOf p).map fun parent => k.attachProcess p parent program.arg

/-- `execute` with the call of `halt` for the command `exit` as a parameter. -/
def executeWith (onExit : Kernel → Option Kernel) (env : Env) (caller : ExecCaller) (k : Kernel)
    (command : Command) : Option ExecOutcome := do
  let parsed ← command.parse
  if parsed.isExit then
    (onExit k).map .running
  else
    let k :=
      if parsed.isTermNum then
        k.printLiteral ⟨fun _ => UInt32.ofNat k.curTerm, fun _ => []⟩ termFormat
      else k
    match command.resolve env.image parsed with
    | none => some (.failed k)
    | some program =>
        match k.getProcNum with
        | (none, k) => some (.failed k)
        | (some p, k) => (k.startProcess env caller p program).map .running

/-- One round of the loop of `halt` over the descriptors of the halting process.
`sys_close` finds the descriptor through `get_pcb_ptr`. -/
def releaseFd (current : ProcId) (k : Kernel) (i : Fin 8) : Option Kernel :=
  let closed :=
    if ((k.pcb current).fds i).flags = .fdAvail then (k.sysClose i.val).map Prod.snd else some k
  closed.map fun k =>
    k.setFds current ((k.pcb current).fds.modify i fun d =>
      { d with fopsPtr := .error, flags := .fdOccup })

/-- Assign to `apn` of a terminal. -/
def setApn (k : Kernel) (t : TermId) (p : ProcId) : Kernel :=
  k.modifyTerm t fun term => { term with apn := some p }

/-- Assign to `active` of a terminal. -/
def setActive (k : Kernel) (t : TermId) (active : Bool) : Kernel :=
  k.modifyTerm t fun term => { term with active := active }

/-- `halt` up to the test for the last process of a terminal: the PCB of the halting
process is freed and its terminal goes back to the parent. -/
def releaseProcess (k : Kernel) (current : ProcId) : Option Kernel :=
  let parent := (k.pcb current).parentProcessNumber
  let freed :=
    { k with pidArray := Function.update k.pidArray (k.pcb current).processNumber false }
  ((List.finRange 8).foldlM (releaseFd current) freed).map fun k =>
    let k := k.setApn k.curActiveTerminal (k.pcb parent).processNumber
    { k with procLog := (k.mappedProcess.toList.map .finished) ++ k.procLog }

/-- The first process of its terminal, which `halt` replaces by a new shell. -/
def isRoot (k : Kernel) (p : ProcId) : Bool :=
  (k.pcb p).processNumber = (k.pcb p).parentProcessNumber

/-- The end of `halt` for the first process of a terminal.  The new shell does not
return to `halt`; the name of its command is not `exit`. -/
def relaunch (env : Env) (k : Kernel) : Option Kernel :=
  match (k.setActive k.curActiveTerminal false).executeWith (fun _ => none) env .halt env.shell with
  | some (.running k) => some k
  | _ => none

/-- The end of `halt` for any other process: return into the `execute` of the parent,
which was called from user mode. -/
def resumeParent (k : Kernel) (current : ProcId) (status : UInt8) : Option Kernel :=
  let parent := (k.pcb current).parentProcessNumber
  let k := k.mapProgram (k.pcb parent).processNumber
  let k := { k with tssEsp0 := (k.pcb current).parentKsp }
  match (k.pcb current).parentCaller with
  | .systemCall => some (k.returnToUser status.toNat)
  | _ => none

/-- `halt(status)`. -/
def halt (env : Env) (k : Kernel) (status : UInt8) : Option Kernel := do
  let current ← (k.terminal k.curActiveTerminal).apn
  let released ← k.releaseProcess current
  if k.isRoot current then released.relaunch env else released.resumeParent current status

/-- `execute(command)`.  The command `exit` halts the caller with the low byte of a
register that holds the result 0 of `strncmp`. -/
def execute (env : Env) (caller : ExecCaller) (k : Kernel) (command : Command) :
    Option ExecOutcome :=
  k.executeWith (fun k => k.halt env 0) env caller command

end Kernel

end Ece391Os
