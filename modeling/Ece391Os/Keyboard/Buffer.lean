import Ece391Os.Kernel.State

/-!
# The keyboard buffer

Stores through the global pointer `key_buffer`, which designates the array of the
displayed terminal.  Every store is logged, the newest first.
-/

namespace Ece391Os.Kernel

/-- The array that `key_buffer` points to. -/
def keyArray (k : Kernel) : Fin 128 → UInt8 :=
  (k.terminal k.keyboard.keyBuffer).keyBuffer

/-- `key_buffer[index] = byte` for an index of the array. -/
def setKey (k : Kernel) (index : Fin 128) (byte : UInt8) : Kernel :=
  { k with keyLog := ⟨k.keyboard.keyBuffer, index, byte, k.curTerm⟩ :: k.keyLog }.modifyTerm
    k.keyboard.keyBuffer fun t => { t with keyBuffer := Function.update t.keyBuffer index byte }

/-- `key_buffer[index] = byte`.  Behind the array lie `key_buffer_idx`, `eflag` and
the pointer `video_mem`; a store into the pointer is undefined here. -/
def storeKey (k : Kernel) (index : UInt8) (byte : UInt8) : Option Kernel :=
  if inside : index.toNat < 128 then
    some (k.setKey ⟨index.toNat, inside⟩ byte)
  else
    let logged :=
      { k with keyLog := ⟨k.keyboard.keyBuffer, index.toNat, byte, k.curTerm⟩ :: k.keyLog }
    if index = 128 then
      some (logged.modifyTerm k.keyboard.keyBuffer fun t => { t with keyBufferIdx := byte })
    else if index = 129 then
      some (logged.modifyTerm k.keyboard.keyBuffer fun t => { t with eflag := byte ≠ 0 })
    else
      none

/-- Assign to `eflag` of a terminal. -/
def setEflag (k : Kernel) (t : TermId) (flag : Bool) : Kernel :=
  k.modifyTerm t fun term => { term with eflag := flag }

/-- Assign to `key_buffer_idx`. -/
def setKeyIdx (k : Kernel) (index : UInt8) : Kernel :=
  { k with keyboard := { k.keyboard with keyBufferIdx := index } }

/-- `add_key_buff(key)`. -/
def addKeyBuff (k : Kernel) (key : UInt8) : Option Kernel :=
  let idx := k.keyboard.keyBufferIdx
  if idx < 127 then
    (k.storeKey idx key).map fun k => k.setKeyIdx (idx + 1)
  else
    some k

/-- `clear_buf()`. -/
def clearBuf (k : Kernel) : Kernel :=
  ((List.finRange 127).foldl (fun k i => k.setKey i.castSucc 0) k).setKeyIdx 0

/-- What no store through `key_buffer` changes, `clear_buf` changes only by the index. -/
theorem clearBuf_eq_of_setKey {α : Type} {view : Kernel → α}
    (setKey : ∀ k index byte, view (setKey k index byte) = view k)
    (setKeyIdx : ∀ k index, view (setKeyIdx k index) = view k) (k : Kernel) :
    view k.clearBuf = view k := by
  have loop : ∀ indices : List (Fin 127),
      view (indices.foldl (fun k i => k.setKey i.castSucc 0) k) = view k := by
    intro indices
    induction indices generalizing k with
    | nil => rfl
    | cons i indices ih => exact (ih _).trans (setKey k i.castSucc 0)
  rw [clearBuf, setKeyIdx, loop]

@[simp]
theorem clearBuf_pcb (k : Kernel) : k.clearBuf.pcb = k.pcb :=
  clearBuf_eq_of_setKey (fun _ _ _ => rfl) (fun _ _ => rfl) k

end Ece391Os.Kernel
