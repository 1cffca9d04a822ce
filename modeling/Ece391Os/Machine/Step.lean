import Ece391Os.Process.Schedule
import Ece391Os.Terminal.Switch
import Ece391Os.Transition.Run

/-!
# The machine

The kernel as a transition system.  Events are the three interrupts and, for the
running program, its system calls and the steps of code that waits with interrupts
enabled: the reads of the terminal and the RTC, and `switch_terminal` before it starts a
shell.  Every other call is one step.  `execute`, `halt` and the writes to the terminal
disable interrupts.  The rest of the calls do not, and interrupts in the middle of them are
left out: in `sys_open`, `sys_close`, `getargs`, `vidmap`, the writes to the RTC and the
reads of files and directories.  Left out are also interrupts behind the `sti` near the end
of `halt`, which are taken on the stack of the halted process before the return into the
parent, and behind that of `execute`, a few instructions before its `cli` and `iret`.
-/

namespace Ece391Os

open Memory Transition

/-- An interrupt, a system call of the running program, or a step of kernel code that
runs with interrupts enabled. -/
inductive Event where
  | timer
  | keyboard (scancode : UInt8)
  | clock
  | halt (status : UInt8)
  | execute (command : Command)
  | read (fd : Int) (buf : Nat) (nbytes : Int)
  | write (junk : UInt8) (fd : Int) (buf : Nat) (buffer : Kernel.WriteBuffer) (nbytes : Int)
  | openFile (filename : List UInt8)
  | closeFile (fd : Int)
  | getargs (buf : Nat) (nbytes : Int)
  | vidmap (screenStart : Nat)
  | wait

/-- So many bytes from an address on lie in the page at `_128MB`, which shows a program its
own frame. -/
def InProgramPage (address size : Nat) : Prop :=
  0x8000000 ≤ address ∧ address + size ≤ 0x8400000

/-- The buffer that a program hands to a system call lies in its program page, with all that
the call may store there: the bytes asked for and the 33 bytes of `directory_read`, the
`argbuf`, or a pointer.  The kernel checks buffers for `NULL` only (and `vidmap` for
0x400000), and it would store through any other pointer wherever that leads. -/
def Event.UserPointers : Event → Prop
  | .read _ buf nbytes => buf = 0 ∨ InProgramPage buf (max (nbytes % 2 ^ 32).toNat 33)
  | .getargs buf _ => buf = 0 ∨ InProgramPage buf 100
  | .vidmap screenStart =>
      screenStart = 0 ∨ screenStart = 0x400000 ∨ InProgramPage screenStart 4
  | _ => True

instance (address size : Nat) : Decidable (InProgramPage address size) :=
  inferInstanceAs (Decidable (_ ∧ _))

instance : (event : Event) → Decidable event.UserPointers
  | .read _ buf nbytes =>
      inferInstanceAs (Decidable (buf = 0 ∨ InProgramPage buf (max (nbytes % 2 ^ 32).toNat 33)))
  | .getargs buf _ => inferInstanceAs (Decidable (buf = 0 ∨ InProgramPage buf 100))
  | .vidmap screenStart =>
      inferInstanceAs (Decidable (screenStart = 0 ∨ screenStart = 0x400000 ∨
        InProgramPage screenStart 4))
  | .timer | .keyboard _ | .clock | .halt _ | .execute _ | .write .. | .openFile _
  | .closeFile _ | .wait => .isTrue trivial

namespace Kernel

/-- `getargs(buf, num_bytes)`; the byte count is not used. -/
def getargs (k : Kernel) (buf : Nat) : Option (Int × Kernel) :=
  if buf = 0 then
    some (-1, k)
  else do
    let p ← k.getPcbPtr
    let argbuf := (k.pcb p).argbuf
    if argbuf = [] then
      some (-1, k)
    else
      let stores := storeRange 0 (argbuf.length + 1) fun i => argbuf.getD i 0
      some (0, k.storeUser buf stores)

/-- Enter a waiting read routine. -/
def beginWait (env : Env) (k : Kernel) (activity : Activity) : Kernel :=
  { k with cpu := { activity := activity, esp := k.kernelEsp - env.waitDepth } }

/-- A `read` system call: the routines of terminals and the RTC wait. -/
def beginRead (env : Env) (k : Kernel) (fd : Int) (buf : Nat) (nbytes : Int) : Option Kernel := do
  let p ← k.getPcbPtr
  match (k.pcb p).fds.opened fd buf with
  | none => some (k.returnToUser (-1))
  | some i =>
      match ((k.pcb p).fds i).fopsPtr with
      | .stdin => some (k.beginWait env (.terminalRead buf nbytes .spin))
      | .rtc => some (k.beginWait env (.rtcRead false))
      | _ => do
          let r ← k.fopsRead env.image p i nbytes
          some ((r.kernel.storeUser buf r.stores).returnToUser r.value)

/-- One step of a running `rtc_read`: the test of the flag, then its reset. -/
def rtcReadStep (k : Kernel) (seen : Bool) : Kernel :=
  if seen then
    let occurred := Function.update k.rtcInterruptOccurred k.curActiveTerminal false
    { k with rtcInterruptOccurred := occurred }.returnToUser 0
  else
    let seen := k.rtcInterruptOccurred k.curActiveTerminal
    { k with cpu := { k.cpu with activity := .rtcRead seen } }

/-- A system call that returns to the program. -/
def returning (call : Option (Int × Kernel)) : Option Kernel :=
  call.map fun outcome => outcome.2.returnToUser outcome.1

/-- `execute` called by the running program. -/
def executeCall (env : Env) (k : Kernel) (command : Command) : Option Kernel := do
  match ← k.execute env .systemCall command with
  | .running k => some k
  | .failed k => some (k.returnToUser (-1))

/-- An event that is a system call of the program in user mode. -/
def systemCall (env : Env) (k : Kernel) : Event → Option Kernel
  | .halt status => k.halt env status
  | .execute command => k.executeCall env command
  | .read fd buf nbytes => k.beginRead env fd buf nbytes
  | .write junk fd buf buffer nbytes => returning (k.sysWrite junk fd buf buffer nbytes)
  | .openFile filename => returning (k.sysOpen env.image filename)
  | .closeFile fd => returning (k.sysClose fd)
  | .getargs buf _ => returning (k.getargs buf)
  | .vidmap screenStart => returning (some (k.vidmap screenStart))
  | _ => none

/-- A step of kernel code that runs with interrupts enabled. -/
def waitStep (env : Env) (k : Kernel) : Option Kernel :=
  match k.cpu.activity with
  | .user _ => none
  | .terminalRead buf nbytes point => k.terminalReadStep buf nbytes point
  | .rtcRead seen => some (k.rtcReadStep seen)
  | .launch old interrupted => k.launchStep env old interrupted

/-- The program runs in user mode. -/
def inUserMode (k : Kernel) : Bool :=
  match k.cpu.activity with
  | .user _ => true
  | _ => false

/-- One step of the machine. -/
def step (env : Env) (k : Kernel) (event : Event) : Option Kernel :=
  match event with
  | .timer => k.pitScheduling
  | .keyboard scancode => k.keyboardInterruptHandler scancode
  | .clock => some k.rtcInterruptHandler
  | .wait => k.waitStep env
  | _ => if k.inUserMode then k.systemCall env event else none

/-- The globals at the call of `init_terminal`; memory that nothing has written yet
is as given. -/
def startup (k : Kernel) : Kernel :=
  { k with
    console := { k.console with screenX := 0, screenY := 0 }
    keyboard :=
      { keyBufferIdx := 0
        keyBuffer := 0
        keyboardEnabled := true
        ctrlStat := false
        shiftStat := false
        altStat := false
        capsStat := false }
    keyLog := []
    curTerm := 0
    curActiveTerminal := 0
    nextSchedTerminal := 0
    pidArray := fun _ => false
    procLog := []
    directoryLoc := 0
    rtcInterruptOccurred := fun _ => false
    paging := Paging.pagingInit
    tssEsp0 := 0x800000
    cpu := { activity := .user 0, esp := 0 } }

/-- `init_terminal()`, which starts the first shell. -/
def boot (env : Env) (k : Kernel) : Option Kernel := do
  match ← k.startup.initTerminals.execute env .initTerminal env.shell with
  | .running k => some k
  | .failed _ => none

/-- The first shell runs, and in the events that follow programs hand buffers of their own to
the system calls. -/
structure UserRun (env : Env) (k start : Kernel) (events : List Event) : Prop where
  booted : boot env k = some start
  pointers : ∀ event ∈ events, event.UserPointers

/-- Between the PCB of the running process and its kernel stack pointer, which share a block,
there is room for all that a system call or an interrupt may push.  The kernel does not
check for it. -/
def StackRoom (env : Env) (k : Kernel) : Prop :=
  ∀ p, k.mappedProcess = some p → pcbEnd p + env.stackDepth ≤ k.kernelEsp

instance (env : Env) (k : Kernel) : Decidable (k.StackRoom env) :=
  inferInstanceAs (Decidable (∀ _ : Fin 6, _ → _))

/-- A run whose system calls and interrupts find room on the kernel stacks, too. -/
structure RoomyRun (env : Env) (k start : Kernel) (events : List Event) : Prop extends
    UserRun env k start events where
  room : EachStep (step env) (fun k _ => k.StackRoom env) start events

/-- A run from the first shell, with what is seen of the state that it reaches. -/
structure BootRun {α : Type} (env : Env) (events : List Event) (observe : Kernel → α)
    (seen : α) where
  start : Kernel
  final : Kernel
  booted : boot env default = some start
  reached : run (step env) start events = some final
  saw : observe final = seen

/-- The run of a list of events, from the computation of what is seen. -/
def BootRun.of {α : Type} {env : Env} {events : List Event} {observe : Kernel → α} {seen : α}
    (computed : ((boot env default).bind fun start => run (step env) start events).map observe =
      some seen) : BootRun env events observe seen :=
  match booted : boot env default with
  | none => absurd computed (by simp [booted])
  | some start =>
      match reached : run (step env) start events with
      | none => absurd computed (by simp [booted, reached])
      | some final =>
          { start := start
            final := final
            booted := booted
            reached := reached
            saw := by simpa [booted, reached] using computed }

end Kernel

end Ece391Os
