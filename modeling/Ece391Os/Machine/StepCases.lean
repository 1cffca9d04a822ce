import Ece391Os.Machine.Step

/-!
# Everything that a step does

A step of the machine is an interrupt, a system call of the running program, or a step of
a call that waits.
-/

namespace Ece391Os.Kernel

/-- A system call that returns to its caller without a wait, what it returns and the kernel
that it leaves. -/
inductive Returns (env : Env) (k : Kernel) : Event → Int → Kernel → Prop where
  | write (junk : UInt8) (fd : Int) (buf : Nat) (buffer : WriteBuffer) (nbytes n : Int)
      (k' : Kernel) (called : k.sysWrite junk fd buf buffer nbytes = some (n, k')) :
      Returns env k (.write junk fd buf buffer nbytes) n k'
  | openFile (filename : List UInt8) (n : Int) (k' : Kernel)
      (called : k.sysOpen env.image filename = some (n, k')) :
      Returns env k (.openFile filename) n k'
  | closeFile (fd n : Int) (k' : Kernel) (called : k.sysClose fd = some (n, k')) :
      Returns env k (.closeFile fd) n k'
  | getargs (buf : Nat) (nbytes n : Int) (k' : Kernel)
      (called : k.getargs buf = some (n, k')) : Returns env k (.getargs buf nbytes) n k'

/-- Everything that a step can do. -/
inductive Stepped (env : Env) (k : Kernel) : Event → Kernel → Prop where
  | scheduled (k' : Kernel) (schedules : k.pitScheduling = some k') : Stepped env k .timer k'
  | ignored (scancode : UInt8) (key : (k.keyboard.decode scancode).2 = .nothing) :
      Stepped env k (.keyboard scancode) { k with keyboard := (k.keyboard.decode scancode).1 }
  | pressed (scancode keycode : UInt8) (k' : Kernel)
      (key : (k.keyboard.decode scancode).2 = .press keycode)
      (handled : { k with keyboard := (k.keyboard.decode scancode).1 }.handleKeyPress keycode =
        some k') : Stepped env k (.keyboard scancode) k'
  | switched (scancode : UInt8) (termNum : Nat) (k' : Kernel)
      (key : (k.keyboard.decode scancode).2 = .switchTerminal termNum)
      (switches : { k with keyboard := (k.keyboard.decode scancode).1 }.switchTerminal termNum =
        some k') : Stepped env k (.keyboard scancode) k'
  | ticked : Stepped env k .clock k.rtcInterruptHandler
  | halted (status : UInt8) (k' : Kernel) (userMode : k.inUserMode = true)
      (halts : k.halt env status = some k') : Stepped env k (.halt status) k'
  | executed (command : Command) (k' : Kernel) (userMode : k.inUserMode = true)
      (executes : k.executeCall env command = some k') : Stepped env k (.execute command) k'
  | begun (fd : Int) (buf : Nat) (nbytes : Int) (k' : Kernel) (userMode : k.inUserMode = true)
      (begins : k.beginRead env fd buf nbytes = some k') :
      Stepped env k (.read fd buf nbytes) k'
  | returned (event : Event) (n : Int) (k' : Kernel) (userMode : k.inUserMode = true)
      (returns : Returns env k event n k') : Stepped env k event (k'.returnToUser n)
  | mapped (screenStart : Nat) (userMode : k.inUserMode = true) :
      Stepped env k (.vidmap screenStart)
        ((k.vidmap screenStart).2.returnToUser (k.vidmap screenStart).1)
  | readOn (buf : Nat) (nbytes : Int) (point : ReadPoint) (k' : Kernel)
      (activity : k.cpu.activity = .terminalRead buf nbytes point)
      (stepped : k.terminalReadStep buf nbytes point = some k') : Stepped env k .wait k'
  | rtcReadOn (seen : Bool) (activity : k.cpu.activity = .rtcRead seen) :
      Stepped env k .wait (k.rtcReadStep seen)
  | launched (old : ProcId) (interrupted : Activity) (k' : Kernel)
      (activity : k.cpu.activity = .launch old interrupted)
      (launches : k.launchStep env old interrupted = some k') : Stepped env k .wait k'

variable {env : Env} {k k' : Kernel} {event : Event}

theorem returning_cases {call : Option (Int × Kernel)} (called : returning call = some k') :
    ∃ n next, call = some (n, next) ∧ k' = next.returnToUser n := by
  rcases Option.map_eq_some_iff.mp called with ⟨⟨n, next⟩, ends, rfl⟩
  exact ⟨n, next, ends, rfl⟩

theorem systemCall_cases (userMode : k.inUserMode = true)
    (called : k.systemCall env event = some k') : Stepped env k event k' := by
  cases event with
  | halt status => exact .halted status k' userMode called
  | execute command => exact .executed command k' userMode called
  | read fd buf nbytes => exact .begun fd buf nbytes k' userMode called
  | write junk fd buf buffer nbytes =>
      rcases returning_cases called with ⟨n, next, ends, rfl⟩
      exact .returned _ n next userMode (.write junk fd buf buffer nbytes n next ends)
  | openFile filename =>
      rcases returning_cases called with ⟨n, next, ends, rfl⟩
      exact .returned _ n next userMode (.openFile filename n next ends)
  | closeFile fd =>
      rcases returning_cases called with ⟨n, next, ends, rfl⟩
      exact .returned _ n next userMode (.closeFile fd n next ends)
  | getargs buf nbytes =>
      rcases returning_cases called with ⟨n, next, ends, rfl⟩
      exact .returned _ n next userMode (.getargs buf nbytes n next ends)
  | vidmap screenStart =>
      cases called
      exact .mapped screenStart userMode
  | _ => cases called

theorem waitStep_cases (stepped : k.waitStep env = some k') : Stepped env k .wait k' := by
  cases activity : k.cpu.activity with
  | user eax =>
      rw [waitStep, activity] at stepped
      cases stepped
  | terminalRead buf nbytes point =>
      rw [waitStep, activity] at stepped
      exact .readOn buf nbytes point k' activity stepped
  | rtcRead seen =>
      rw [waitStep, activity] at stepped
      cases stepped
      exact .rtcReadOn seen activity
  | launch old interrupted =>
      rw [waitStep, activity] at stepped
      exact .launched old interrupted k' activity stepped

theorem keyboardInterruptHandler_cases {scancode : UInt8}
    (handled : k.keyboardInterruptHandler scancode = some k') :
    Stepped env k (.keyboard scancode) k' := by
  simp only [keyboardInterruptHandler] at handled
  cases key : (k.keyboard.decode scancode).2 with
  | nothing =>
      rw [key] at handled
      cases handled
      exact .ignored scancode key
  | press keycode =>
      rw [key] at handled
      exact .pressed scancode keycode k' key handled
  | switchTerminal termNum =>
      rw [key] at handled
      exact .switched scancode termNum k' key handled

theorem step_cases (step : k.step env event = some k') : Stepped env k event k' := by
  cases event with
  | timer => exact .scheduled k' step
  | keyboard scancode => exact keyboardInterruptHandler_cases step
  | clock =>
      cases step
      exact .ticked
  | wait => exact waitStep_cases step
  | _ =>
      rcases Option.ite_none_right_eq_some.mp step with ⟨userMode, called⟩
      exact systemCall_cases userMode called

end Ece391Os.Kernel
