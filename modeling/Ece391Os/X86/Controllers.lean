import Mathlib.Algebra.Order.Ring.Int
import Mathlib.Data.Fintype.Basic
import Mathlib.Logic.Function.Basic

/-!
# The interrupt controllers of a PC

Two controllers 8259A, the second behind a line of the first, in fully nested mode: the
initialization words, the masks, the end of an interrupt by its line, and the acknowledgement
by the processor.  Line 0 of a controller has the highest priority.
-/

namespace Ece391Os.X86

/-- A controller has a first line. -/
local instance firstLine : NeZero 8 := ⟨by decide⟩

/-- What a controller takes a byte at its data port for. -/
inductive Stage where
  | mask
  | vectors
  | cascade
  | mode
  deriving DecidableEq

/-- A controller: the lines that request, that are in service and that are masked. -/
structure Controller where
  requests : Fin 8 → Bool
  service : Fin 8 → Bool
  masks : Fin 8 → Bool
  vectors : UInt8
  cascade : UInt8
  stage : Stage

namespace Controller

/-- A bit of a byte for each line. -/
def bits (byte : UInt8) (line : Fin 8) : Bool :=
  byte.toNat.testBit line.val

/-- The line in the low bits of a command. -/
def lineOf (byte : UInt8) : Fin 8 :=
  ⟨byte.toNat % 8, Nat.mod_lt _ (by decide)⟩

/-- A byte at the command port: the first initialization word, which clears the masks, or the
end of the interrupt of a line.  No other command is in the fragment. -/
def command (c : Controller) (byte : UInt8) : Controller :=
  if byte.toNat.testBit 4 then
    { c with
      requests := fun _ => false
      service := fun _ => false
      masks := fun _ => false
      stage := .vectors }
  else if byte &&& 0xF8 = 0x60 then
    { c with service := Function.update c.service (lineOf byte) false }
  else
    c

/-- A byte at the data port. -/
def data (c : Controller) (byte : UInt8) : Controller :=
  match c.stage with
  | .vectors => { c with vectors := byte, stage := .cascade }
  | .cascade => { c with cascade := byte, stage := .mode }
  | .mode => { c with stage := .mask }
  | .mask => { c with masks := bits byte }

/-- No line is in service. -/
def Idle (c : Controller) : Prop :=
  ∀ line, c.service line = false

/-- Some line is in service, and no other. -/
def Serves (c : Controller) (line : Fin 8) : Prop :=
  ∀ other, c.service other = decide (other = line)

/-- The line of highest priority among some that are not masked, unless one of the same or a
higher priority is in service. -/
def first (c : Controller) (pending : Fin 8 → Bool) : Option (Fin 8) :=
  (List.finRange 8).find? fun line =>
    pending line && !c.masks line && decide (∀ other ≤ line, c.service other = false)

/-- The line that a controller offers. -/
def offer (c : Controller) : Option (Fin 8) :=
  c.first c.requests

/-- The vector of a line. -/
def vector (c : Controller) (line : Fin 8) : UInt8 :=
  (c.vectors &&& 0xF8) + UInt8.ofNat line.val

/-- Take the request of a line into service. -/
def take (c : Controller) (line : Fin 8) : Controller :=
  { c with
    requests := Function.update c.requests line false
    service := Function.update c.service line true }

section Service

variable {c : Controller}

/-- Priority decides alone when no line is in service. -/
theorem first_idle (idle : c.Idle) (pending : Fin 8 → Bool) :
    c.first pending =
      [0, 1, 2, 3, 4, 5, 6, 7].find? fun line => pending line && !c.masks line := by
  have lines : List.finRange 8 = [0, 1, 2, 3, 4, 5, 6, 7] := by decide
  have free : ∀ line : Fin 8, decide (∀ other ≤ line, c.service other = false) = true :=
    fun line => decide_eq_true fun other _ => idle other
  simp only [first, lines, free, Bool.and_true]

theorem Idle.take (idle : c.Idle) (line : Fin 8) : (c.take line).Serves line := by
  intro other
  by_cases same : other = line
  · exact same ▸ (Function.update_self _ _ _).trans (decide_eq_true rfl).symm
  · exact (Function.update_of_ne same _ _).trans ((idle other).trans (decide_eq_false same).symm)

/-- The end of the interrupt of a line. -/
def finish (c : Controller) (line : Fin 8) : Controller :=
  { c with service := Function.update c.service line false }

theorem command_end {byte : UInt8} (isEnd : byte &&& 0xF8 = 0x60) :
    c.command byte = c.finish (lineOf byte) := by
  have notInit : ¬ byte.toNat.testBit 4 = true := by
    intro init
    have masked : (byte &&& 0xF8).toNat.testBit 4 = true := by
      rw [UInt8.toNat_and, Nat.testBit_and, init]
      rfl
    rw [isEnd] at masked
    exact absurd masked (by decide)
  rw [command, if_neg notInit, if_pos isEnd, finish]

theorem Idle.finish (idle : c.Idle) (line : Fin 8) : (c.finish line).Idle := by
  intro other
  by_cases same : other = line
  · exact same ▸ Function.update_self _ _ _
  · exact (Function.update_of_ne same _ _).trans (idle other)

theorem Serves.finish {line : Fin 8} (serves : c.Serves line) : (c.finish line).Idle := by
  intro other
  by_cases same : other = line
  · exact same ▸ Function.update_self _ _ _
  · exact (Function.update_of_ne same _ _).trans
      ((serves other).trans (decide_eq_false same))

end Service

end Controller

/-- Both controllers. -/
structure Controllers where
  master : Controller
  slave : Controller

namespace Controllers

/-- The slave is behind a line of the master. -/
def feeds (p : Controllers) (line : Fin 8) : Bool :=
  Controller.bits p.master.cascade line && decide (p.slave.cascade.toNat = line.val)

/-- The requests at the master, that of the slave included. -/
def pending (p : Controllers) (line : Fin 8) : Bool :=
  if p.feeds line then p.slave.offer.isSome else p.master.requests line

/-- The processor acknowledges an interrupt, and is given its vector. -/
def acknowledge (p : Controllers) : Option (UInt8 × Controllers) :=
  (p.master.first p.pending).bind fun line =>
    if p.feeds line then
      p.slave.offer.map fun behind =>
        (p.slave.vector behind, { master := p.master.take line, slave := p.slave.take behind })
    else
      some (p.master.vector line, { p with master := p.master.take line })

/-- A line from the eighth on is one of the slave. -/
theorem slave_line {line : Fin 16} (high : ¬ line.val < 8) : line.val - 8 < 8 := by
  omega

/-- A device requests an interrupt. -/
def raise (p : Controllers) (line : Fin 16) : Controllers :=
  if low : line.val < 8 then
    { p with
      master := { p.master with requests := Function.update p.master.requests ⟨line, low⟩ true } }
  else
    { p with
      slave :=
        { p.slave with
          requests := Function.update p.slave.requests ⟨line - 8, slave_line low⟩ true } }

/-- No line is in service. -/
def Idle (p : Controllers) : Prop :=
  p.master.Idle ∧ p.slave.Idle

end Controllers

end Ece391Os.X86
