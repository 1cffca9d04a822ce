import Ece391Os.Device.Pic
import Ece391Os.Machine.DeviceInterrupts
import Ece391Os.Transition.Run
import Ece391Os.X86.Controllers

/-!
# Interrupt lines

The routines of `i8259.c` on the two controllers, and the handlers of the three devices as far
as they use the controllers and the interrupt flag.  Handlers interrupt each other wherever the
flag allows it, and processes leave the processor in the middle of them.
-/

namespace Ece391Os

open Transition X86

namespace InterruptLines

local instance firstLine : NeZero 8 := ⟨by decide⟩

local instance firstRequest : NeZero 16 := ⟨by decide⟩

def MASTER_8259_PORT : UInt16 := 0x20
def SLAVE_8259_PORT : UInt16 := 0xA0
def MASTER_8259_DATA_PORT : UInt16 := 0x21
def SLAVE_8259_DATA_PORT : UInt16 := 0xA1

/-- `outb(data, port)` for the ports of the controllers. -/
def outb (data : UInt8) (port : UInt16) (p : Controllers) : Controllers :=
  if port = MASTER_8259_PORT then { p with master := p.master.command data }
  else if port = SLAVE_8259_PORT then { p with slave := p.slave.command data }
  else if port = MASTER_8259_DATA_PORT then { p with master := p.master.data data }
  else if port = SLAVE_8259_DATA_PORT then { p with slave := p.slave.data data }
  else p

/-- `i8259_init`. -/
def i8259Init (p : Controllers) : Controllers :=
  let p := outb 0xFF MASTER_8259_DATA_PORT p
  let p := outb 0xFF SLAVE_8259_DATA_PORT p
  let p := outb 0x11 MASTER_8259_PORT p
  let p := outb 0x20 MASTER_8259_DATA_PORT p
  let p := outb 0x04 MASTER_8259_DATA_PORT p
  let p := outb 0x01 MASTER_8259_DATA_PORT p
  let p := outb 0x11 SLAVE_8259_PORT p
  let p := outb 0x28 SLAVE_8259_DATA_PORT p
  let p := outb 0x02 SLAVE_8259_DATA_PORT p
  outb 0x01 SLAVE_8259_DATA_PORT p

/-- `send_eoi`. -/
def sendEoi (irqNum : UInt32) (p : Controllers) : Controllers :=
  if irqNum > 15 then
    p
  else if irqNum > 7 then
    let irqNum := irqNum - 8
    let p := outb (0x60 ||| irqNum).toUInt8 SLAVE_8259_PORT p
    outb (0x60 ||| 2) MASTER_8259_PORT p
  else
    outb (0x60 ||| irqNum).toUInt8 MASTER_8259_PORT p

/-- `enable_irq` with its masks, and its writes to the controllers. -/
def enableIrq (irqNum : UInt32) (masks : Pic) (p : Controllers) : Pic × Controllers :=
  let masks := masks.enableIrq irqNum
  if irqNum > 15 then
    (masks, p)
  else if irqNum > 7 then
    let p := outb masks.slaveMask SLAVE_8259_DATA_PORT p
    (masks, outb masks.masterMask MASTER_8259_DATA_PORT p)
  else
    (masks, outb masks.masterMask MASTER_8259_DATA_PORT p)

/-- The controllers when `entry` has initialized them, the keyboard, the RTC and the timer, with
some contents before. -/
def entry (p : Controllers) : Controllers :=
  let p := i8259Init p
  let (masks, p) := enableIrq 1 { masterMask := 0xFF, slaveMask := 0xFF } p
  let (masks, p) := enableIrq 8 masks p
  (enableIrq 0 masks p).2

/-! ## Handlers -/

/-- What a handler does to the controllers and to the interrupt flag; `leave` is a switch to
another process. -/
inductive Action where
  | sendEoi (irqNum : UInt32)
  | cli
  | sti
  | leave
  deriving DecidableEq

/-- The ways through a handler: `PIT_scheduling` switches or not; the keyboard handler passes a
key on, or calls `switch_terminal`, which returns early or calls `execute`, which fails or leaves
for a shell. -/
def paths : SystemCalls.DeviceFunction → List (List Action)
  | .PIT_scheduling => [[.sendEoi 0, .cli, .sti], [.sendEoi 0, .cli, .leave, .sti]]
  | .rtc_interrupt_handler => [[.sendEoi 8, .cli, .sti]]
  | .keyboard_interrupt_handler =>
      [[.cli, .sendEoi 1, .sti], [.cli, .sendEoi 1, .cli, .sendEoi 1, .sti],
        [.cli, .sendEoi 1, .cli, .sti, .cli, .sendEoi 1, .sti],
        [.cli, .sendEoi 1, .cli, .sti, .cli, .sti, .cli, .leave, .sendEoi 1, .sti]]

/-- The processor, and the controllers.  A process has a stack of handlers that interrupted each
other, the innermost first, each with what it has left to do. -/
structure Lines where
  chips : Controllers
  enabled : Bool
  running : List (List Action)
  waiting : List (List (List Action))

/-- Events: a device requests an interrupt; the processor acknowledges one, and takes a path
through its handler; the innermost handler goes on, or returns; a process sets the interrupt
flag outside of handlers; or, there or where a handler leaves, another process runs, one that
waits or a new one, with the flag set or not. -/
inductive Event where
  | raise (line : Fin 16)
  | accept (path : List Action)
  | act
  | ret
  | flag (enabled : Bool)
  | resume (i : Nat) (enabled : Bool)
  | start (enabled : Bool)

/-- The handler of a vector. -/
def functionOf (vector : UInt8) : Option SystemCalls.DeviceFunction :=
  (Idt.handlerOf vector.toNat).bind SystemCalls.sendToFn

/-- The running process leaves the processor. -/
def left (running : List (List Action)) : Option (List (List Action)) :=
  match running with
  | (.leave :: rest) :: outer => some (rest :: outer)
  | [] => some []
  | _ => none

/-- One step. -/
def step (s : Lines) : Event → Option Lines
  | .raise line => some { s with chips := s.chips.raise line }
  | .accept path =>
      if s.enabled then
        s.chips.acknowledge.bind fun (vector, chips) =>
          (functionOf vector).bind fun function =>
            if path ∈ paths function then
              some { s with chips := chips, enabled := false, running := path :: s.running }
            else
              none
      else
        none
  | .act =>
      match s.running with
      | (.sendEoi irqNum :: rest) :: outer =>
          some { s with chips := sendEoi irqNum s.chips, running := rest :: outer }
      | (.cli :: rest) :: outer => some { s with enabled := false, running := rest :: outer }
      | (.sti :: rest) :: outer => some { s with enabled := true, running := rest :: outer }
      | _ => none
  | .ret =>
      match s.running with
      | [] :: outer => some { s with enabled := true, running := outer }
      | _ => none
  | .flag enabled => if s.running = [] then some { s with enabled := enabled } else none
  | .resume i enabled =>
      (left s.running).bind fun running =>
        s.waiting[i]?.map fun resumed =>
          { s with
            enabled := enabled
            running := resumed
            waiting := running :: s.waiting.eraseIdx i }
  | .start enabled =>
      (left s.running).map fun running =>
        { s with enabled := enabled, running := [], waiting := running :: s.waiting }

/-- The system when `entry` has initialized the devices. -/
def start (bios : Controllers) : Lines where
  chips := entry bios
  enabled := true
  running := []
  waiting := []

/-! ## The controllers -/

/-- A controller with all but its requests and what is in service. -/
structure Setup where
  masks : Fin 8 → Bool
  vectors : UInt8
  cascade : UInt8
  stage : Stage

def setup (c : Controller) : Setup where
  masks := c.masks
  vectors := c.vectors
  cascade := c.cascade
  stage := c.stage

/-- The master after `entry`: lines 0, 1 and that of the slave are not masked. -/
def masterSetup : Setup where
  masks := Controller.bits 0xF8
  vectors := 0x20
  cascade := 0x04
  stage := .mask

/-- The slave after `entry`: its line 0 is not masked. -/
def slaveSetup : Setup where
  masks := Controller.bits 0xFE
  vectors := 0x28
  cascade := 0x02
  stage := .mask

/-- The controllers are as `entry` leaves them, but for requests and interrupts in service. -/
def Ready (p : Controllers) : Prop :=
  setup p.master = masterSetup ∧ setup p.slave = slaveSetup

/-- Whatever was in the controllers before, nothing is masked between `i8259_init` and the first
call of `enable_irq`, though both mask variables are `0xFF`. -/
theorem masks_i8259Init (bios : Controllers) (line : Fin 8) :
    (i8259Init bios).master.masks line = false ∧ (i8259Init bios).slave.masks line = false :=
  ⟨rfl, rfl⟩

theorem ready_entry (bios : Controllers) : Ready (entry bios) :=
  ⟨rfl, rfl⟩

theorem idle_entry (bios : Controllers) : (entry bios).Idle :=
  ⟨fun _ => rfl, fun _ => rfl⟩

/-- The interrupt of a line is in service, and no other. -/
def Serves (p : Controllers) (line : Fin 16) : Prop :=
  if low : line.val < 8 then
    p.master.Serves ⟨line, low⟩ ∧ p.slave.Idle
  else
    p.master.Serves 2 ∧ p.slave.Serves ⟨line - 8, Controllers.slave_line low⟩

/-- The line that the controllers offer when none is in service: that of the timer before that of
the keyboard before that of the RTC. -/
def offered (p : Controllers) : Option (Fin 16) :=
  if p.master.requests 0 then some 0
  else if p.master.requests 1 then some 1
  else if p.slave.requests 0 then some 8
  else none

/-- The interrupt of a line is taken into service. -/
def taken (p : Controllers) (line : Fin 16) : Controllers :=
  if low : line.val < 8 then
    { p with master := p.master.take ⟨line, low⟩ }
  else
    { master := p.master.take 2, slave := p.slave.take ⟨line - 8, Controllers.slave_line low⟩ }

theorem serves_taken {p : Controllers} (idle : p.Idle) (line : Fin 16) :
    Serves (taken p line) line := by
  by_cases low : line.val < 8
  · rw [Serves, dif_pos low, taken, dif_pos low]
    exact ⟨idle.1.take _, idle.2⟩
  · rw [Serves, dif_neg low, taken, dif_neg low]
    exact ⟨idle.1.take _, idle.2.take _⟩

theorem ready_taken {p : Controllers} (ready : Ready p) (line : Fin 16) :
    Ready (taken p line) := by
  rw [taken]
  split <;> exact ready

section Ready

variable {p : Controllers} (ready : Ready p) (idle : p.Idle)
include ready

theorem feeds_ready (line : Fin 8) : p.feeds line = decide (line = 2) := by
  have master : p.master.cascade = 0x04 := congrArg Setup.cascade ready.1
  have slave : p.slave.cascade = 0x02 := congrArg Setup.cascade ready.2
  rw [Controllers.feeds, master, slave]
  revert line
  decide

include idle

theorem offer_ready : p.slave.offer = if p.slave.requests 0 then some 0 else none := by
  have masks : p.slave.masks = Controller.bits 0xFE := congrArg Setup.masks ready.2
  have masked : ∀ line : Fin 8, Controller.bits 0xFE line = decide (line ≠ 0) := by decide
  rw [Controller.offer, Controller.first_idle idle.2, masks]
  cases request : p.slave.requests 0 <;> simp [masked, request]

/-- The processor is given the vector of the line that is offered, and the line is in service. -/
theorem acknowledge_ready :
    p.acknowledge = (offered p).map fun line => (0x20 + UInt8.ofNat line.val, taken p line) := by
  have masks : p.master.masks = Controller.bits 0xF8 := congrArg Setup.masks ready.1
  have masked : ∀ line : Fin 8, Controller.bits 0xF8 line = decide (2 < line) := by decide
  have master : p.master.vectors &&& 0xF8 = 0x20 :=
    congrArg (fun setup => setup.vectors &&& 0xF8) ready.1
  have slave : p.slave.vectors &&& 0xF8 = 0x28 :=
    congrArg (fun setup => setup.vectors &&& 0xF8) ready.2
  have offer := offer_ready ready idle
  have feeds := feeds_ready ready
  rw [Controllers.acknowledge, Controller.first_idle idle.1, masks]
  cases timer : p.master.requests 0 <;> cases keyboard : p.master.requests 1 <;>
    cases clock : p.slave.requests 0 <;>
      simp [Controllers.pending, Controller.vector, offered, taken, masked, feeds, offer, master,
        slave, timer, keyboard, clock]

end Ready

theorem sendEoi_master (p : Controllers) (n : Fin 8) :
    sendEoi (UInt32.ofNat n.val) p = { p with master := p.master.finish n } := by
  have valid : ∀ n : Fin 8, ¬ UInt32.ofNat n.val > 15 ∧ ¬ UInt32.ofNat n.val > 7 ∧
      (0x60 ||| UInt32.ofNat n.val).toUInt8 &&& 0xF8 = 0x60 ∧
      Controller.lineOf (0x60 ||| UInt32.ofNat n.val).toUInt8 = n := by
    decide
  rcases valid n with ⟨inside, low, isEnd, line⟩
  rw [sendEoi, if_neg inside, if_neg low, outb, if_pos rfl, Controller.command_end isEnd, line]

theorem sendEoi_slave (p : Controllers) (n : Fin 8) :
    sendEoi (UInt32.ofNat (n.val + 8)) p =
      { master := p.master.finish 2, slave := p.slave.finish n } := by
  have valid : ∀ n : Fin 8, ¬ UInt32.ofNat (n.val + 8) > 15 ∧ UInt32.ofNat (n.val + 8) > 7 ∧
      (0x60 ||| (UInt32.ofNat (n.val + 8) - 8)).toUInt8 &&& 0xF8 = 0x60 ∧
      Controller.lineOf (0x60 ||| (UInt32.ofNat (n.val + 8) - 8)).toUInt8 = n := by
    decide
  rcases valid n with ⟨inside, high, isEnd, line⟩
  have behind : (0x60 ||| 2 : UInt8) &&& 0xF8 = 0x60 := by decide
  have two : Controller.lineOf (0x60 ||| 2) = 2 := by decide
  rw [sendEoi, if_neg inside, if_pos high]
  simp only [outb, Controller.command_end isEnd, Controller.command_end behind, line, two]
  rfl

/-- The end of any interrupt leaves an idle controller idle. -/
theorem sendEoi_idle {p : Controllers} (idle : p.Idle) (irqNum : UInt32) :
    (sendEoi irqNum p).Idle := by
  rcases Pic.irqNum_cases irqNum with ⟨n, rfl⟩ | ⟨n, rfl⟩ | invalid
  · rw [sendEoi_master]
    exact ⟨idle.1.finish n, idle.2⟩
  · rw [sendEoi_slave]
    exact ⟨idle.1.finish 2, idle.2.finish n⟩
  · rw [sendEoi, if_pos invalid]
    exact idle

theorem sendEoi_ready {p : Controllers} (ready : Ready p) (irqNum : UInt32) :
    Ready (sendEoi irqNum p) := by
  rcases Pic.irqNum_cases irqNum with ⟨n, rfl⟩ | ⟨n, rfl⟩ | invalid
  · rw [sendEoi_master]
    exact ready
  · rw [sendEoi_slave]
    exact ready
  · rw [sendEoi, if_pos invalid]
    exact ready

/-- The end of the interrupt in service leaves none in service. -/
theorem sendEoi_serves {p : Controllers} {line : Fin 16} (serves : Serves p line) :
    (sendEoi (UInt32.ofNat line.val) p).Idle := by
  by_cases low : line.val < 8
  · rw [Serves, dif_pos low] at serves
    have master := sendEoi_master p ⟨line, low⟩
    rw [master]
    exact ⟨serves.1.finish, serves.2⟩
  · rw [Serves, dif_neg low] at serves
    have behind : line.val - 8 < 8 := by omega
    have slave := sendEoi_slave p ⟨line - 8, behind⟩
    rw [Nat.sub_add_cancel (Nat.le_of_not_lt low)] at slave
    rw [slave]
    exact ⟨serves.1.finish, serves.2.finish⟩

theorem raise_idle {p : Controllers} (idle : p.Idle) (line : Fin 16) : (p.raise line).Idle := by
  rw [Controllers.raise]
  split <;> exact idle

theorem raise_ready {p : Controllers} (ready : Ready p) (line : Fin 16) :
    Ready (p.raise line) := by
  rw [Controllers.raise]
  split <;> exact ready

theorem raise_serves {p : Controllers} {line : Fin 16} (serves : Serves p line)
    (other : Fin 16) : Serves (p.raise other) line := by
  rw [Controllers.raise]
  split <;> exact serves

/-! ## Runs -/

/-- A handler that has yet to end the interrupt of its line. -/
def Acknowledges (line : Fin 16) (path : List Action) : Prop :=
  ∃ rest, path = .sendEoi (UInt32.ofNat line.val) :: rest ∨
    path = .cli :: .sendEoi (UInt32.ofNat line.val) :: rest

theorem functionOf_line (line : Fin 16) :
    functionOf (0x20 + UInt8.ofNat line.val) =
      if line = 0 then some .PIT_scheduling
      else if line = 1 then some .keyboard_interrupt_handler
      else if line = 8 then some .rtc_interrupt_handler
      else none := by
  revert line
  decide

/-- Every way through the handler of a line begins with the end of its interrupt. -/
theorem acknowledges_of_path {line : Fin 16} {function : SystemCalls.DeviceFunction}
    {path : List Action}
    (handler : functionOf (0x20 + UInt8.ofNat line.val) = some function)
    (taken : path ∈ paths function) : Acknowledges line path := by
  rw [functionOf_line] at handler
  split_ifs at handler with timer keyboard clock
  · cases timer
    cases handler
    simp only [paths, List.mem_cons, List.not_mem_nil, or_false] at taken
    rcases taken with rfl | rfl <;> exact ⟨_, .inl rfl⟩
  · cases keyboard
    cases handler
    simp only [paths, List.mem_cons, List.not_mem_nil, or_false] at taken
    rcases taken with rfl | rfl | rfl | rfl <;> exact ⟨_, .inr rfl⟩
  · cases clock
    cases handler
    simp only [paths, List.mem_cons, List.not_mem_nil, or_false] at taken
    rcases taken with rfl
    exact ⟨_, .inl rfl⟩

/-- Either no interrupt is in service, or one whose handler is the innermost one, which runs
with the flag clear and ends the interrupt before it does anything else. -/
def Disciplined (s : Lines) : Prop :=
  Ready s.chips ∧ (s.chips.Idle ∨ s.enabled = false ∧ ∃ line path outer,
    s.running = path :: outer ∧ Acknowledges line path ∧ Serves s.chips line)

/-- With the flag set, no interrupt is in service. -/
theorem Disciplined.idle {s : Lines} (disciplined : Disciplined s) (enabled : s.enabled = true) :
    s.chips.Idle := by
  rcases disciplined.2 with idle | ⟨disabled, _⟩
  · exact idle
  · rw [enabled] at disabled
    cases disabled

/-- No interrupt is in service where the innermost handler does not begin with its end. -/
theorem Disciplined.idle_of {s : Lines} (disciplined : Disciplined s)
    (free : ∀ line path outer, s.running = path :: outer → ¬ Acknowledges line path) :
    s.chips.Idle := by
  rcases disciplined.2 with idle | ⟨_, line, path, outer, running, acknowledges, _⟩
  · exact idle
  · exact absurd acknowledges (free line path outer running)

theorem not_acknowledges_nil (line : Fin 16) : ¬ Acknowledges line [] := by
  rintro ⟨rest, same | same⟩ <;> cases same

/-- A process leaves the processor with no interrupt in service. -/
theorem Disciplined.idle_of_left {s : Lines} (disciplined : Disciplined s)
    {running : List (List Action)} (leaves : left s.running = some running) : s.chips.Idle := by
  apply disciplined.idle_of
  intro line path outer same acknowledges
  rw [same] at leaves
  rcases acknowledges with ⟨rest, rfl | rfl⟩ <;> cases leaves

/-- The next action of the innermost handler. -/
theorem disciplined_act {s target : Lines} (disciplined : Disciplined s)
    (stepped : step s .act = some target) : Disciplined target := by
  rcases disciplined with
    ⟨ready, idle | ⟨disabled, line, path, outer, running, acknowledges, serves⟩⟩
  · simp only [step] at stepped
    split at stepped <;> cases stepped
    · exact ⟨sendEoi_ready ready _, .inl (sendEoi_idle idle _)⟩
    · exact ⟨ready, .inl idle⟩
    · exact ⟨ready, .inl idle⟩
  · rcases acknowledges with ⟨rest, rfl | rfl⟩
    · simp only [step, running] at stepped
      cases stepped
      exact ⟨sendEoi_ready ready _, .inl (sendEoi_serves serves)⟩
    · simp only [step, running] at stepped
      cases stepped
      exact ⟨ready, .inr ⟨rfl, line, _, outer, rfl, ⟨rest, .inl rfl⟩, serves⟩⟩

/-- An interrupt is acknowledged. -/
theorem disciplined_accept {s target : Lines} {path : List Action} (disciplined : Disciplined s)
    (stepped : step s (.accept path) = some target) : Disciplined target := by
  simp only [step] at stepped
  split_ifs at stepped with enabled
  have idle := disciplined.idle enabled
  rw [acknowledge_ready disciplined.1 idle] at stepped
  rcases Option.bind_eq_some_iff.mp stepped with ⟨⟨vector, chips⟩, given, later⟩
  rcases Option.map_eq_some_iff.mp given with ⟨line, _, same⟩
  cases same
  rcases Option.bind_eq_some_iff.mp later with ⟨function, handler, entered⟩
  split_ifs at entered with through
  cases entered
  exact ⟨ready_taken disciplined.1 line, .inr ⟨rfl, line, path, s.running, rfl,
    acknowledges_of_path handler through, serves_taken idle line⟩⟩

theorem disciplined_step {s target : Lines} {event : Event} (disciplined : Disciplined s)
    (stepped : step s event = some target) : Disciplined target := by
  cases event with
  | raise line =>
      cases stepped
      refine ⟨raise_ready disciplined.1 line, ?_⟩
      rcases disciplined.2 with idle | ⟨disabled, served, path, outer, running, begins, serves⟩
      · exact .inl (raise_idle idle line)
      · exact .inr ⟨disabled, served, path, outer, running, begins, raise_serves serves line⟩
  | accept path => exact disciplined_accept disciplined stepped
  | act => exact disciplined_act disciplined stepped
  | ret =>
      simp only [step] at stepped
      split at stepped <;> cases stepped
      rename_i outer running
      refine ⟨disciplined.1, .inl (disciplined.idle_of ?_)⟩
      intro line path others same
      rw [running] at same
      cases same
      exact not_acknowledges_nil line
  | flag enabled =>
      simp only [step] at stepped
      split_ifs at stepped with outside
      cases stepped
      refine ⟨disciplined.1, .inl (disciplined.idle_of ?_)⟩
      intro line path others same
      rw [outside] at same
      cases same
  | resume i enabled =>
      rcases Option.bind_eq_some_iff.mp stepped with ⟨running, leaves, resumes⟩
      rcases Option.map_eq_some_iff.mp resumes with ⟨resumed, _, same⟩
      cases same
      exact ⟨disciplined.1, .inl (disciplined.idle_of_left leaves)⟩
  | start enabled =>
      rcases Option.map_eq_some_iff.mp stepped with ⟨running, leaves, same⟩
      cases same
      exact ⟨disciplined.1, .inl (disciplined.idle_of_left leaves)⟩

theorem disciplined_start (bios : Controllers) : Disciplined (start bios) :=
  ⟨ready_entry bios, .inl (idle_entry bios)⟩

/-- In every state that interrupts of the three devices, their handlers and switches between
processes lead to, with the interrupt flag set: no interrupt is in service, so that none is held
back; the processor is given the request of the timer, of the keyboard or of the RTC, in this
order; and the vector that it is given has a handler. -/
theorem lines_served (bios : Controllers) {events : List Event} {s : Lines}
    (reached : run step (start bios) events = some s) (enabled : s.enabled = true) :
    s.chips.Idle ∧
      s.chips.acknowledge.map Prod.fst =
        (if s.chips.master.requests 0 then some 0x20
        else if s.chips.master.requests 1 then some 0x21
        else if s.chips.slave.requests 0 then some 0x28
        else none) ∧
      ∀ vector chips, s.chips.acknowledge = some (vector, chips) →
        ∃ function, functionOf vector = some function ∧ ∀ path ∈ paths function,
          ∃ target, step s (.accept path) = some target := by
  have disciplined := run_invariant_always Disciplined
    (fun _ _ _ holds stepped => disciplined_step holds stepped) (disciplined_start bios) reached
  have idle := disciplined.idle enabled
  have given := acknowledge_ready disciplined.1 idle
  refine ⟨idle, ?_, ?_⟩
  · rw [given, offered]
    split_ifs <;> rfl
  · intro vector chips acknowledged
    have served : ∃ function, functionOf vector = some function := by
      rw [given, Option.map_eq_some_iff] at acknowledged
      rcases acknowledged with ⟨line, offers, same⟩
      cases same
      rw [offered] at offers
      split_ifs at offers <;> cases offers
      · exact ⟨.PIT_scheduling, by decide⟩
      · exact ⟨.keyboard_interrupt_handler, by decide⟩
      · exact ⟨.rtc_interrupt_handler, by decide⟩
    rcases served with ⟨function, handler⟩
    refine ⟨function, handler, fun path through => ?_⟩
    refine ⟨{ s with chips := chips, enabled := false, running := path :: s.running }, ?_⟩
    rw [step, if_pos enabled, acknowledged, Option.bind_some]
    simp only [handler, Option.bind_some, if_pos through]

/-- Controllers with nothing in them. -/
def sampleBios : Controllers :=
  let empty : Controller :=
    { requests := fun _ => false
      service := fun _ => false
      masks := fun _ => false
      vectors := 0
      cascade := 0
      stage := .mask }
  { master := empty, slave := empty }

/-- The RTC requests, then the keyboard, whose handler runs first. -/
def sampleEvents : List Event :=
  [.raise 8, .raise 1, .accept [.cli, .sendEoi 1, .sti], .act, .act, .act]

theorem lines_served_sample :
    ∃ s, run step (start sampleBios) sampleEvents = some s ∧
      s.chips.acknowledge.map Prod.fst = some 0x28 := by
  have made : (run step (start sampleBios) sampleEvents).isSome = true := by decide
  have reached := (Option.some_get made).symm
  refine ⟨_, reached, ?_⟩
  rw [(lines_served sampleBios reached rfl).2.1]
  rfl

end InterruptLines

end Ece391Os
