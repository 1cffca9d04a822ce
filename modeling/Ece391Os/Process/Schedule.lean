import Ece391Os.Kernel.Paging

/-!
# The scheduler

`scheduler.c`: on a timer interrupt the process of the next terminal is resumed.
-/

namespace Ece391Os.Kernel

/-- The loop of `get_next_scheduled` with `rounds` rounds to go: the terminal it
stops at, or the last one it looks at. -/
def nextScheduledFrom (k : Kernel) : (rounds : Nat) → TermId → TermId
  | 0, t => t
  | rounds + 1, t =>
      if (k.terminal (t + 1)).active then t + 1 else k.nextScheduledFrom rounds (t + 1)

/-- The terminal that `get_next_scheduled` leaves in `next_sched_terminal`. -/
def getNextScheduled (k : Kernel) : TermId :=
  k.nextScheduledFrom 2 k.curActiveTerminal

/-- `process_contextswitch(next_process)`.  The context loaded is the one saved
last, which is undefined when control has already returned through it. -/
def processContextswitch (k : Kernel) (nextProcess : ProcId) : Option Kernel := do
  let k := (k.mapProgram nextProcess).mapUserVideo
  let old ← (k.terminal k.curActiveTerminal).apn
  let k := { k with curActiveTerminal := k.nextSchedTerminal }
  let t := (k.pcb nextProcess).term
  let k := if t = k.curTerm then k else k.mapSavedVideo t
  let context := { activity := k.cpu.activity, esp := k.kernelEsp }
  let k := { k with tssEsp0 := kernelStackTop nextProcess }
  let k := k.modifyPcb old fun pcb => { pcb with saved := some context }
  let loaded ← (k.pcb nextProcess).saved
  let k := k.modifyPcb nextProcess fun pcb => { pcb with saved := none }
  some { k with cpu := { activity := loaded.activity, esp := loaded.esp } }

/-- `PIT_scheduling()`.  A process number -1 has no PCB. -/
def pitScheduling (k : Kernel) : Option Kernel :=
  if (k.terminal 1).active ∨ (k.terminal 2).active then do
    let k := { k with nextSchedTerminal := k.getNextScheduled }
    let nextProcess ← (k.terminal k.nextSchedTerminal).apn
    k.processContextswitch nextProcess
  else
    some k

end Ece391Os.Kernel
