import Ece391Os.Machine.Step

/-!
# `terminal_read` in one step and in many

A call of `terminal_read` that finds the flag of its terminal set and is not
interrupted does in its steps what the function `terminalRead` does at once.
-/

namespace Ece391Os

open Memory Transition

namespace Kernel

variable (env : Env) (k : Kernel) (buf : Nat) (numBytes : Int)

/-! ## Stores through the buffer of the program -/

theorem storeUser_append (first second : Stores Nat) :
    k.storeUser buf (first ++ second) = (k.storeUser buf first).storeUser buf second := by
  unfold storeUser
  split
  · rename_i unmapped
    simp only [unmapped]
  · rename_i p mapped
    have same : ∀ memory, Kernel.mappedProcess { k with memory := memory } = some p :=
      fun _ => mapped
    simp only [same, List.map_append, applyStores_append, Function.update_self,
      Function.update_idem]

theorem storeUser_nil : k.storeUser buf [] = k := by
  unfold storeUser
  split
  · rfl
  · simp

@[simp]
theorem keyByte_storeUser (stores : Stores Nat) : (k.storeUser buf stores).keyByte = k.keyByte := by
  unfold storeUser
  split <;> rfl

theorem setKey_storeUser (stores : Stores Nat) (i : Fin 128) (byte : UInt8) :
    (k.storeUser buf stores).setKey i byte = (k.setKey i byte).storeUser buf stores := by
  have same : (k.setKey i byte).mappedProcess = k.mappedProcess := rfl
  unfold storeUser
  rw [same]
  split <;> rfl

theorem clearLoop_storeUser (stores : Stores Nat) (indices : List (Fin 127)) :
    indices.foldl (fun k i => k.setKey i.castSucc 0) (k.storeUser buf stores) =
      (indices.foldl (fun k i => k.setKey i.castSucc 0) k).storeUser buf stores := by
  induction indices generalizing k with
  | nil => rfl
  | cons i indices ih =>
      rw [List.foldl_cons, List.foldl_cons, setKey_storeUser]
      exact ih _

theorem storeUser_setReadPoint (stores : Stores Nat) (point next : ReadPoint) :
    ((k.setReadPoint buf numBytes point).storeUser buf stores).setReadPoint buf numBytes next =
      (k.storeUser buf stores).setReadPoint buf numBytes next := by
  have same : (k.setReadPoint buf numBytes point).mappedProcess = k.mappedProcess := rfl
  unfold storeUser
  rw [same]
  split <;> rfl

/-! ## The loops -/

/-- The running program gets from one state to another without an interrupt. -/
def Waits (k k' : Kernel) : Prop :=
  ∃ n : Nat, run (Kernel.step env) k (List.replicate n .wait) = some k'

variable {env k}

theorem Waits.refl : Waits env k k :=
  ⟨0, rfl⟩

theorem Waits.trans {k' k'' : Kernel} (first : Waits env k k') (second : Waits env k' k'') :
    Waits env k k'' := by
  obtain ⟨m, first⟩ := first
  obtain ⟨n, second⟩ := second
  refine ⟨m + n, ?_⟩
  rw [List.replicate_add, run_append, first]
  exact second

theorem Waits.step {point : ReadPoint} {k' : Kernel}
    (step : (k.setReadPoint buf numBytes point).terminalReadStep buf numBytes point = some k') :
    Waits env (k.setReadPoint buf numBytes point) k' := by
  refine ⟨1, ?_⟩
  have once : Kernel.step env (k.setReadPoint buf numBytes point) .wait = some k' := step
  rw [List.replicate_one, run_cons, once]
  rfl

theorem waits_copy {count : Nat} (inside : count ≤ copyCount numBytes) :
    Waits env (k.setReadPoint buf numBytes (.copy 0))
      ((k.storeUser buf (storeRange 0 count k.keyByte)).setReadPoint buf numBytes
        (.copy count)) := by
  induction count with
  | zero =>
      rw [storeRange_zero, storeUser_nil]
      exact .refl
  | succ count ih =>
      refine (ih (by omega)).trans (.step buf numBytes ?_)
      have room : (count : Int) < numBytes - 1 ∧ count < 127 := by
        unfold copyCount at inside
        omega
      simp only [terminalReadStep, if_pos room]
      rw [storeUser_setReadPoint, storeRange_succ, storeUser_append, Nat.zero_add]
      have byte : ((k.storeUser buf (storeRange 0 count k.keyByte)).setReadPoint buf numBytes
          (.copy count)).keyByte count = k.keyByte count :=
        congrFun (k.keyByte_storeUser buf _) count
      rw [byte]

/-- The first `rounds` rounds of `clear_buf`. -/
def clearRounds (k : Kernel) (rounds : Nat) : Kernel :=
  ((List.finRange 127).take rounds).foldl (fun k i => k.setKey i.castSucc 0) k

theorem waits_clear {rounds : Nat} (inside : rounds ≤ 127) (count : Nat) :
    Waits env (k.setReadPoint buf numBytes (.clear 0 count))
      ((k.clearRounds rounds).setReadPoint buf numBytes (.clear rounds count)) := by
  induction rounds with
  | zero => exact .refl
  | succ rounds ih =>
      refine (ih (by omega)).trans (.step buf numBytes ?_)
      have room : rounds < 127 := by omega
      simp only [terminalReadStep, dif_pos room]
      have next : k.clearRounds (rounds + 1) =
          (k.clearRounds rounds).setKey ⟨rounds, by omega⟩ 0 := by
        have here : rounds < (List.finRange 127).length := by simpa using room
        rw [clearRounds, List.take_succ_eq_append_getElem here, List.foldl_append]
        simp [clearRounds]
      rw [next]
      rfl

/-- `clear_buf` and stores through the buffer of the program do not interfere. -/
theorem clearBuf_storeUser (k : Kernel) (stores : Stores Nat) :
    k.clearBuf.storeUser buf stores =
      ((k.storeUser buf stores).clearRounds 127).setKeyIdx 0 := by
  have all : (List.finRange 127).take 127 = List.finRange 127 := by
    rw [List.take_of_length_le]
    simp
  have same : ∀ k : Kernel, (k.setKeyIdx 0).storeUser buf stores =
      (k.storeUser buf stores).setKeyIdx 0 := by
    intro k
    have mapped : (k.setKeyIdx 0).mappedProcess = k.mappedProcess := rfl
    unfold storeUser
    rw [mapped]
    split <;> rfl
  rw [clearRounds, all, clearLoop_storeUser, clearBuf, same]

/-- A `terminal_read` that finds its flag set and is not interrupted ends as
`terminalRead` says. -/
theorem waits_terminalRead {r : ReadResult}
    (activity : k.cpu.activity = .terminalRead buf numBytes .spin)
    (returns : k.terminalRead numBytes = some r) :
    Waits env k ((r.kernel.storeUser buf r.stores).returnToUser r.value) := by
  obtain ⟨p, current, rest⟩ := Option.bind_eq_some_iff.mp returns
  dsimp only at rest
  split at rest
  case isFalse => cases rest
  rename_i awake
  cases rest
  have here : ∀ point, (k.setReadPoint buf numBytes point).getPcbPtr = some p := by
    intro point
    rw [← current, getPcbPtr, getPcbPtr, kernelEsp, kernelEsp, activity]
    rfl
  have spinning : k = k.setReadPoint buf numBytes .spin := by
    rw [setReadPoint, ← activity]
  have woken : Waits env k ((k.setEflag (k.pcb p).term false).setReadPoint buf numBytes
      (.copy 0)) := by
    have first : Waits env (k.setReadPoint buf numBytes .spin)
        (k.setReadPoint buf numBytes .take) :=
      .step buf numBytes (by
        rw [terminalReadStep, here]
        simp only [Option.bind_eq_bind, Option.bind_some]
        rw [if_pos (show ((k.setReadPoint buf numBytes .spin).terminal
          ((k.setReadPoint buf numBytes .spin).pcb p).term).eflag = true from awake)]
        rfl)
    rw [← spinning] at first
    exact first.trans (.step buf numBytes (by rw [terminalReadStep, here]; rfl))
  generalize k.setEflag (k.pcb p).term false = k' at woken
  have copied : Waits env (k'.setReadPoint buf numBytes (.copy 0))
      ((k'.storeUser buf (storeRange 0 (copyCount numBytes) k'.keyByte)).setReadPoint buf numBytes
        (.copy (copyCount numBytes))) :=
    waits_copy buf numBytes (le_refl (copyCount numBytes))
  refine (woken.trans copied).trans ?_
  have full : ¬ ((copyCount numBytes : Int) < numBytes - 1 ∧ copyCount numBytes < 127) := by
    unfold copyCount
    omega
  generalize k'.keyByte = bytes
  generalize copyCount numBytes = count at full
  have cleared : Waits env
      ((k'.storeUser buf (storeRange 0 count bytes)).setReadPoint buf numBytes (.copy count))
      ((k'.storeUser buf (storeRange 0 count bytes)).setReadPoint buf numBytes
        (.clear 0 count)) :=
    .step buf numBytes (by rw [terminalReadStep, if_neg full]; rfl)
  apply cleared.trans
  rw [clearBuf_storeUser]
  generalize k'.storeUser buf (storeRange 0 count bytes) = stored
  refine (waits_clear buf numBytes (le_refl 127) count).trans ?_
  generalize stored.clearRounds 127 = done
  have ended : Waits env (done.setReadPoint buf numBytes (.clear 127 count))
      (done.setReadPoint buf numBytes (.finish count)) :=
    .step buf numBytes (by rw [terminalReadStep, dif_neg (by decide)]; rfl)
  exact ended.trans (.step buf numBytes rfl)

end Kernel

end Ece391Os
