import Ece391Os.Keyboard.Buffer
import Ece391Os.Kernel.Paging
import Ece391Os.Memory.Stores

/-!
# `terminal_read`

`terminal_read` runs with interrupts enabled, so it is given twice: as the C
function, for a call that is not interrupted, and as a sequence of steps between
which interrupts can be taken.
-/

namespace Ece391Os

open Memory

/-- The outcome of a read routine: its return value, its stores at offsets from the
buffer, and the kernel. -/
structure ReadResult where
  value : Int
  stores : Stores Nat
  kernel : Kernel

namespace Kernel

/-- Stores through a buffer of the running program that lies in its program page.  The kernel
does not check the pointer: `Event.UserPointers` is the condition under which it does lie
there. -/
def storeUser (k : Kernel) (buf : Nat) (stores : Stores Nat) : Kernel :=
  match k.mappedProcess with
  | none => k
  | some p =>
      let absolute := stores.map fun store => (buf + store.1, store.2)
      { k with memory := Function.update k.memory p (applyStores (k.memory p) absolute) }

/-- The number of rounds of the copy loop: `i < num_bytes - 1` and
`i < KEY_BUFFER_SIZE`. -/
def copyCount (numBytes : Int) : Nat :=
  min (numBytes - 1).toNat 127

/-- `key_buffer[i]`. -/
def keyByte (k : Kernel) (i : Nat) : UInt8 :=
  k.keyArray ⟨i % 128, Nat.mod_lt _ (by decide)⟩

/-- `terminal_read(fd, buf, num_bytes)` without an interrupt, undefined while it
would spin on `eflag`. -/
def terminalRead (k : Kernel) (numBytes : Int) : Option ReadResult := do
  let p ← k.getPcbPtr
  let t := (k.pcb p).term
  if (k.terminal t).eflag then
    let k := k.setEflag t false
    let count := copyCount numBytes
    some ⟨count, storeRange 0 count k.keyByte, k.clearBuf⟩
  else
    none

theorem terminalRead_eq_some {k : Kernel} {numBytes : Int} {r : ReadResult}
    (returns : k.terminalRead numBytes = some r) :
    ∃ t, r =
      { value := copyCount numBytes
        stores := storeRange 0 (copyCount numBytes) (k.setEflag t false).keyByte
        kernel := (k.setEflag t false).clearBuf } := by
  obtain ⟨p, _, awake⟩ := Option.bind_eq_some_iff.mp returns
  dsimp only at awake
  split at awake
  · cases awake
    exact ⟨_, rfl⟩
  · cases awake

/-- Continue a running `terminal_read` at another point. -/
def setReadPoint (k : Kernel) (buf : Nat) (numBytes : Int) (point : ReadPoint) : Kernel :=
  { k with cpu := { k.cpu with activity := .terminalRead buf numBytes point } }

/-- Return from a system call to user mode. -/
def returnToUser (k : Kernel) (eax : Int) : Kernel :=
  { k with cpu := { k.cpu with activity := .user eax } }

/-- One step of a running `terminal_read`. -/
def terminalReadStep (k : Kernel) (buf : Nat) (numBytes : Int) (point : ReadPoint) :
    Option Kernel :=
  match point with
  | .spin => do
      let p ← k.getPcbPtr
      let awake := (k.terminal (k.pcb p).term).eflag
      some (k.setReadPoint buf numBytes (if awake then .take else .spin))
  | .take => do
      let p ← k.getPcbPtr
      some ((k.setEflag (k.pcb p).term false).setReadPoint buf numBytes (.copy 0))
  | .copy i =>
      if i < numBytes - 1 ∧ i < 127 then
        some ((k.storeUser buf [(i, k.keyByte i)]).setReadPoint buf numBytes (.copy (i + 1)))
      else
        some (k.setReadPoint buf numBytes (.clear 0 i))
  | .clear i count =>
      if h : i < 127 then
        some ((k.setKey ⟨i, by omega⟩ 0).setReadPoint buf numBytes (.clear (i + 1) count))
      else
        some (k.setReadPoint buf numBytes (.finish count))
  | .finish count => some ((k.setKeyIdx 0).returnToUser count)

end Kernel

end Ece391Os
