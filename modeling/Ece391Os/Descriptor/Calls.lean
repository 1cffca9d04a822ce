import Ece391Os.Device.Rtc
import Ece391Os.FileSys.ReadData
import Ece391Os.Terminal.Read
import Ece391Os.Terminal.Screen

/-!
# Descriptor system calls

`sys_open`, `sys_close`, `sys_read` and `sys_write`, with the read routines of
directories, files and the RTC.  A call is undefined where the source spins or
dereferences a pointer to no PCB.
-/

namespace Ece391Os

open Memory

theorem FdFlag.ne_fdOccup_iff (flag : FdFlag) : flag ≠ .fdOccup ↔ flag = .fdAvail := by
  cases flag <;> decide

namespace FileTable

/-- The table that `execute` gives to a process: the standard descriptors are open
and the other slots are free. -/
def initial : FileTable := fun i =>
  { fopsPtr := if i = 0 then .stdin else if i = 1 then .stdout else .error
    inode := -1
    filePosition := 0
    flags := if i = 0 ∨ i = 1 then .fdAvail else .fdOccup }

/-- Assign to fields of one descriptor. -/
def modify (fds : FileTable) (i : Fin 8) (change : FileDesc → FileDesc) : FileTable :=
  Function.update fds i (change (fds i))

/-- The search loop of `sys_open` from `index` on: the first free slot, claimed. -/
def claim (fds : FileTable) (index : Fin 8) : Option (Fin 8 × FileTable) :=
  if (fds index).flags = .fdOccup then
    some (index, fds.modify index fun d => { d with flags := .fdAvail, filePosition := 0 })
  else if last : index.val = 7 then
    none
  else
    fds.claim ⟨index.val + 1, by omega⟩
  termination_by 8 - index.val

/-- The assignments of `sys_open` by the type of the directory entry; an unknown
type assigns nothing. -/
def bind (fds : FileTable) (index : Fin 8) (d : Dentry) : FileTable :=
  match d.filetype with
  | 0 => fds.modify index fun desc => { desc with inode := 0, fopsPtr := .rtc }
  | 1 => fds.modify index fun desc => { desc with inode := 0, fopsPtr := .dir }
  | 2 => fds.modify index fun desc =>
      { desc with inode := UInt32.ofNat d.inodeNumber, fopsPtr := .file }
  | _ => fds

/-- The checks of `sys_read` and `sys_write`: the descriptor's bounds, a `NULL`
buffer, and the flag.  `none` makes the call return -1. -/
def opened (fds : FileTable) (fd : Int) (buf : Nat) : Option (Fin 8) :=
  if bounds : fd < 0 ∨ fd > 7 then
    none
  else if buf = 0 then
    none
  else
    let i : Fin 8 := ⟨fd.toNat, by omega⟩
    if (fds i).flags = .fdOccup then none else some i

/-- The checks of `sys_close`. -/
def closable (fds : FileTable) (fd : Int) : Option (Fin 8) :=
  if bounds : fd < 2 ∨ fd > 7 then
    none
  else
    let i : Fin 8 := ⟨fd.toNat, by omega⟩
    if (fds i).flags = .fdOccup then none else some i

/-- A descriptor in use passes the checks of `sys_read` and `sys_write`. -/
theorem opened_coe {fds : FileTable} {i : Fin 8} {buf : Nat} (inUse : (fds i).flags = .fdAvail)
    (notNull : buf ≠ 0) : fds.opened (i.val : Int) buf = some i := by
  have inRange : ¬ ((i.val : Int) < 0 ∨ (i.val : Int) > 7) := by omega
  have index : (⟨(i.val : Int).toNat, by omega⟩ : Fin 8) = i := Fin.ext (Int.toNat_natCast i.val)
  rw [opened, dif_neg inRange, if_neg notNull]
  dsimp only
  rw [index, inUse]
  exact if_neg (by decide)

/-- A descriptor in use, other than the standard ones, passes the checks of `sys_close`. -/
theorem closable_coe {fds : FileTable} {i : Fin 8} (inUse : (fds i).flags = .fdAvail)
    (from_ : 2 ≤ i) : fds.closable (i.val : Int) = some i := by
  have atLeast : 2 ≤ i.val := Fin.le_def.mp from_
  have inRange : ¬ ((i.val : Int) < 2 ∨ (i.val : Int) > 7) := by omega
  have index : (⟨(i.val : Int).toNat, by omega⟩ : Fin 8) = i := Fin.ext (Int.toNat_natCast i.val)
  rw [closable, dif_neg inRange]
  dsimp only
  rw [index, inUse]
  exact if_neg (by decide)

/-- The slot claimed is the first free one. -/
theorem claim_eq_some {fds claimed : FileTable} {first index : Fin 8}
    (found : fds.claim first = some (index, claimed)) :
    first ≤ index ∧ (fds index).flags = .fdOccup ∧
      (∀ i, first ≤ i → i < index → (fds i).flags = .fdAvail) ∧
      claimed = fds.modify index fun d => { d with flags := .fdAvail, filePosition := 0 } := by
  induction first using claim.induct fds with
  | case1 first free =>
      rw [claim, if_pos free] at found
      cases found
      refine ⟨le_refl _, free, ?_, rfl⟩
      intro i from_ below
      exact absurd (lt_of_le_of_lt from_ below) (lt_irrefl _)
  | case2 first taken last =>
      rw [claim, if_neg taken, dif_pos last] at found
      cases found
  | case3 first taken last ih =>
      rw [claim, if_neg taken, dif_neg last] at found
      obtain ⟨behind, free, between, claimedEq⟩ := ih found
      refine ⟨le_trans (Fin.le_def.mpr (by simp)) behind, free, fun i from_ below => ?_, claimedEq⟩
      by_cases same : i = first
      · subst i
        exact (FdFlag.ne_fdOccup_iff _).mp taken
      · have apart : i.val ≠ first.val := fun equal => same (Fin.ext equal)
        exact between i (Fin.le_def.mpr (by have := Fin.le_def.mp from_; simp only; omega)) below

theorem claim_eq_none {fds : FileTable} {first : Fin 8} (full : fds.claim first = none) (i : Fin 8)
    (from_ : first ≤ i) : (fds i).flags = .fdAvail := by
  induction first using claim.induct fds with
  | case1 first free =>
      rw [claim, if_pos free] at full
      cases full
  | case2 first taken last =>
      have same : i = first := by
        have := Fin.le_def.mp from_
        exact Fin.ext (by omega)
      rw [same]
      exact (FdFlag.ne_fdOccup_iff _).mp taken
  | case3 first taken last ih =>
      rw [claim, if_neg taken, dif_neg last] at full
      by_cases same : i = first
      · subst i
        exact (FdFlag.ne_fdOccup_iff _).mp taken
      · have apart : i.val ≠ first.val := fun equal => same (Fin.ext equal)
        exact ih full (Fin.le_def.mpr (by have := Fin.le_def.mp from_; simp only; omega))

end FileTable

namespace Kernel

variable (img : Image)

/-- Replace the descriptor table of a process. -/
def setFds (k : Kernel) (p : ProcId) (fds : FileTable) : Kernel :=
  k.modifyPcb p fun pcb => { pcb with fds := fds }

@[simp]
theorem setFds_fds (k : Kernel) (p : ProcId) (fds : FileTable) :
    ((k.setFds p fds).pcb p).fds = fds := by
  simp [setFds, modifyPcb]

/-- `sys_open(filename)`. -/
def sysOpen (k : Kernel) (filename : List UInt8) : Option (Int × Kernel) :=
  match img.readDentryByName filename with
  | none => some (-1, k)
  | some d => do
      let p ← k.getPcbPtr
      match (k.pcb p).fds.claim 2 with
      | none => some (-1, k)
      | some (index, fds) =>
          let k := k.setFds p (fds.bind index d)
          some (index, if d.filetype = 0 then k.rtcReset else k)

/-- `fops_ptr.close(fd)`. -/
def fopsClose (k : Kernel) : Fops → Int × Kernel
  | .rtc => (0, k.rtcReset)
  | .error => (-1, k)
  | .stdin | .stdout | .dir | .file => (0, k)

/-- `sys_close(fd)`. -/
def sysClose (k : Kernel) (fd : Int) : Option (Int × Kernel) := do
  let p ← k.getPcbPtr
  match (k.pcb p).fds.closable fd with
  | none => some (-1, k)
  | some i =>
      let fds := (k.pcb p).fds.modify i fun d => { d with flags := .fdOccup }
      let closed := (k.setFds p fds).fopsClose (fds i).fopsPtr
      some (if closed.1 ≠ 0 then -1 else 0, closed.2)

/-- `directory_read(fd, buf, nbytes)`; the byte count is not used. -/
def directoryRead (k : Kernel) : ReadResult :=
  match img.readDentryByIndex k.directoryLoc.toNat with
  | some d =>
      let name := cString d.fileName
      { value := name.length
        stores := storeRange 0 33 (fun _ => 0) ++ storeRange 0 name.length fun i => name.getD i 0
        kernel := { k with directoryLoc := k.directoryLoc + 1 } }
  | none => { value := 0, stores := [], kernel := { k with directoryLoc := 0 } }

/-- `file_read(fd, buf, nbytes)` on descriptor `i` of process `p`. -/
def fileRead (k : Kernel) (p : ProcId) (i : Fin 8) (nbytes : Int) : ReadResult :=
  let d := (k.pcb p).fds i
  let data := img.readData d.inode.toNat d.filePosition.toNat (nbytes % 2 ^ 32).toNat
  let fds := (k.pcb p).fds.modify i fun d =>
    { d with filePosition := d.filePosition + UInt32.ofInt data.1 }
  { value := data.1, stores := data.2, kernel := k.setFds p fds }

/-- `rtc_read(fd, buf, nbytes)` without an interrupt. -/
def rtcRead (k : Kernel) : Option ReadResult :=
  if k.rtcInterruptOccurred k.curActiveTerminal then
    let occurred := Function.update k.rtcInterruptOccurred k.curActiveTerminal false
    some { value := 0, stores := [], kernel := { k with rtcInterruptOccurred := occurred } }
  else
    none

/-- `fops_ptr.read(fd, buf, nbytes)` on descriptor `i` of process `p`. -/
def fopsRead (k : Kernel) (p : ProcId) (i : Fin 8) (nbytes : Int) : Option ReadResult :=
  match ((k.pcb p).fds i).fopsPtr with
  | .stdin => k.terminalRead nbytes
  | .rtc => k.rtcRead
  | .dir => some (k.directoryRead img)
  | .file => some (k.fileRead img p i nbytes)
  | .stdout | .error => some { value := -1, stores := [], kernel := k }

/-- `sys_read(fd, buf, nbytes)` without an interrupt. -/
def sysRead (k : Kernel) (fd : Int) (buf : Nat) (nbytes : Int) : Option ReadResult := do
  let p ← k.getPcbPtr
  match (k.pcb p).fds.opened fd buf with
  | none => some { value := -1, stores := [], kernel := k }
  | some i => k.fopsRead img p i nbytes

/-- What a write routine finds at its buffer: the bytes from the pointer on and the
values behind `printf`'s format pointer. -/
structure WriteBuffer where
  bytes : List UInt8
  args : PrintfArgs

/-- The first four bytes of a buffer as an `int32_t`. -/
def WriteBuffer.word (buffer : WriteBuffer) : Int :=
  toInt32 ((List.range 4).foldr (fun i rest => (buffer.bytes.getD i 0).toNat + 2 ^ 8 * rest) 0)

/-- `sys_write(fd, buf, nbytes)`.  The descriptor table is that of the active
process of the scheduled terminal; `junk` is the uninitialized rate. -/
def sysWrite (k : Kernel) (junk : UInt8) (fd : Int) (buf : Nat) (buffer : WriteBuffer)
    (nbytes : Int) : Option (Int × Kernel) := do
  let p ← (k.terminal k.curActiveTerminal).apn
  match (k.pcb p).fds.opened fd buf with
  | none => some (-1, k)
  | some i =>
      match ((k.pcb p).fds i).fopsPtr with
      | .stdout => k.terminalWrite buffer.args buffer.bytes nbytes
      | .rtc => some (k.rtcWrite junk buf buffer.word nbytes)
      | .stdin | .dir | .file | .error => some (-1, k)

end Kernel

end Ece391Os
