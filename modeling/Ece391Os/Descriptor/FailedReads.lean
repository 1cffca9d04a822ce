import Ece391Os.Descriptor.FileReads
import Ece391Os.Descriptor.Table
import Ece391Os.Machine.Step

/-!
# Failed reads of files

`file_read` adds the result of `read_data` to the position without looking at it, so a
read that fails moves the descriptor back by one byte.
-/

namespace Ece391Os

open Memory Transition

namespace Image

variable (img : Image)

/-! ## The returns for an invalid number -/

/-- The loop of `readBlocks` with any value returned for an invalid data-block number. -/
def readBlocksFailing (failure : Int) (inode block byteCount length : Nat) : Int × Stores Nat :=
  if _h : length = 0 then
    (0, [])
  else
    let index := img.dataBlockIndex inode block
    if index ≥ img.totalDataBlocks then
      (failure, [])
    else
      let dataPtr := img.dataAddr index
      if length ≤ 4096 then
        (toInt32 (byteCount + length), storeRange byteCount length fun i => img.byte (dataPtr + i))
      else
        let rest := readBlocksFailing failure inode (block + 1) (byteCount + 4096) (length - 4096)
        (rest.1, storeRange byteCount 4096 (fun i => img.byte (dataPtr + i)) ++ rest.2)
  termination_by (length, 0)
  decreasing_by exact Prod.Lex.left _ _ (by omega)

/-- `read_data` with any value returned for an invalid inode or data-block number. -/
def readDataFailing (failure : Int) (inode offset length : Nat) : Int × Stores Nat :=
  if inode ≥ img.totalInodes then
    (failure, [])
  else
    let fileSize := img.fileSize inode
    if offset ≥ fileSize then
      (0, [])
    else
      let length := if (length + offset) % 2 ^ 32 > fileSize then fileSize - offset else length
      let index := img.dataBlockIndex inode (offset / 4096)
      if index ≥ img.totalDataBlocks then
        (failure, [])
      else
        let dataPtr := img.dataAddr index + offset % 4096
        if (offset % 4096 + length) % 2 ^ 32 ≤ 4096 then
          (toInt32 length, storeRange 0 length fun i => img.byte (dataPtr + i))
        else
          let first := 4096 - offset % 4096
          let rest := img.readBlocksFailing failure inode (offset / 4096 + 1) first (length - first)
          (rest.1, storeRange 0 first (fun i => img.byte (dataPtr + i)) ++ rest.2)

theorem readBlocksFailing_neg_one (inode block byteCount length : Nat) :
    img.readBlocksFailing (-1) inode block byteCount length =
      img.readBlocks inode block byteCount length := by
  induction length using Nat.strongRecOn generalizing block byteCount with
  | ind length ih =>
      rw [readBlocksFailing, readBlocks]
      by_cases none : length = 0
      · rw [dif_pos none, dif_pos none]
      · rw [dif_neg none, dif_neg none]
        dsimp only
        rw [ih (length - 4096) (by omega)]

/-- The source returns -1. -/
theorem readDataFailing_neg_one (inode offset length : Nat) :
    img.readDataFailing (-1) inode offset length = img.readData inode offset length := by
  unfold readDataFailing readData
  simp only [readBlocksFailing_neg_one]

/-- `read_data` comes to the return for an invalid inode or data-block number: it returns
the value of that return, whatever this is. -/
def FailsOnNumber (inode offset length : Nat) : Prop :=
  ∀ failure, (img.readDataFailing failure inode offset length).1 = failure

variable {img}

theorem FailsOnNumber.returns {inode offset length : Nat}
    (fails : img.FailsOnNumber inode offset length) :
    (img.readData inode offset length).1 = -1 := by
  rw [← readDataFailing_neg_one]
  exact fails (-1)

theorem failsOnNumber_of_inode {inode : Nat} (invalid : img.totalInodes ≤ inode)
    (offset length : Nat) : img.FailsOnNumber inode offset length := by
  intro failure
  rw [readDataFailing, if_pos invalid]

/-- The first block read has an invalid number. -/
theorem failsOnNumber_of_block {inode offset : Nat} (inFile : offset < img.fileSize inode)
    (invalid : img.totalDataBlocks ≤ img.dataBlockIndex inode (offset / 4096)) (length : Nat) :
    img.FailsOnNumber inode offset length := by
  intro failure
  unfold readDataFailing
  split
  · rfl
  · dsimp only
    rw [if_neg (Nat.not_le.mpr inFile), if_pos invalid]

/-- The position behind all files is not inside one. -/
theorem readData_behind {inode : Nat} (valid : inode < img.totalInodes) (length : Nat) :
    img.readData inode (0xFFFFFFFF : UInt32).toNat length = (0, []) := by
  have size : img.fileSize inode ≤ (0xFFFFFFFF : UInt32).toNat :=
    Nat.le_of_lt_succ (img.word_lt _)
  rw [readData, if_neg (Nat.not_le.mpr valid)]
  exact if_pos size

end Image

namespace Kernel

/-- Descriptor `i` of process `p`, named by the arguments of a read, is an open regular
file. -/
structure ReadsFile (k : Kernel) (p : ProcId) (i : Fin 8) (fd : Int) (buf : Nat) : Prop where
  running : k.getPcbPtr = some p
  isOpen : (k.pcb p).fds.opened fd buf = some i
  regular : ((k.pcb p).fds i).fopsPtr = .file

/-- The read ends at an invalid inode or data-block number. -/
def ReadFails (img : Image) (k : Kernel) (p : ProcId) (i : Fin 8) (nbytes : Int) : Prop :=
  img.FailsOnNumber ((k.pcb p).fds i).inode.toNat ((k.pcb p).fds i).filePosition.toNat
    (nbytes % 2 ^ 32).toNat

/-- A read that returns -1 leaves the position of its descriptor as it was, and the same
read returns -1 once more. -/
def KeepsFailing (img : Image) (k : Kernel) (p : ProcId) (i : Fin 8) (fd : Int) (buf : Nat)
    (nbytes : Int) : Prop :=
  ∀ r, k.sysRead img fd buf nbytes = some r → r.value = -1 →
    ((r.kernel.pcb p).fds i).filePosition = ((k.pcb p).fds i).filePosition ∧
      ∃ again, r.kernel.sysRead img fd buf nbytes = some again ∧ again.value = -1

theorem ReadsFile.sysRead {k : Kernel} {p : ProcId} {i : Fin 8} {fd : Int} {buf : Nat}
    (reads : k.ReadsFile p i fd buf) (img : Image) (nbytes : Int) :
    k.sysRead img fd buf nbytes = some (k.fileRead img p i nbytes) := by
  simp only [Kernel.sysRead, fopsRead, reads.running, reads.isOpen, reads.regular,
    Option.bind_eq_bind, Option.bind_some]

/-- What a read leaves of its descriptor. -/
theorem fds_fileRead (img : Image) (k : Kernel) (p : ProcId) (i : Fin 8) (nbytes : Int) :
    (((k.fileRead img p i nbytes).kernel.pcb p).fds i) =
      { (k.pcb p).fds i with
        filePosition := ((k.pcb p).fds i).filePosition +
          UInt32.ofInt (k.fileRead img p i nbytes).value } := by
  simp [fileRead]

/-- The checks of a read look at the flags only. -/
theorem opened_congr {fds fds' : FileTable} (flags : ∀ j, (fds' j).flags = (fds j).flags)
    (fd : Int) (buf : Nat) : fds'.opened fd buf = fds.opened fd buf := by
  unfold FileTable.opened
  simp only [flags]

/-- The same descriptor can be read again. -/
theorem ReadsFile.again {k : Kernel} {p : ProcId} {i : Fin 8} {fd : Int} {buf : Nat}
    (reads : k.ReadsFile p i fd buf) (img : Image) (nbytes : Int) :
    (k.fileRead img p i nbytes).kernel.ReadsFile p i fd buf := by
  constructor
  · exact reads.running
  · rw [← reads.isOpen]
    apply opened_congr
    intro j
    rw [fileRead, setFds_fds]
    by_cases same : j = i
    · subst same
      rw [FileTable.modify_self]
    · rw [FileTable.modify_of_ne _ same]
  · rw [fds_fileRead]
    exact reads.regular

theorem value_fileRead {img : Image} {k : Kernel} {p : ProcId} {i : Fin 8} {nbytes : Int}
    (fails : k.ReadFails img p i nbytes) : (k.fileRead img p i nbytes).value = -1 :=
  fails.returns

theorem filePosition_of_fails {img : Image} {k : Kernel} {p : ProcId} {i : Fin 8} {nbytes : Int}
    (fails : k.ReadFails img p i nbytes) :
    (((k.fileRead img p i nbytes).kernel.pcb p).fds i).filePosition =
      ((k.pcb p).fds i).filePosition - 1 := by
  have back : UInt32.ofInt (-1) = -1 := by decide
  rw [fds_fileRead, value_fileRead fails, back, UInt32.sub_eq_add_neg]

theorem sub_one_ne (position : UInt32) : position - 1 ≠ position := by
  intro same
  have numbers := congrArg UInt32.toNat same
  have small := position.toNat_lt
  rw [UInt32.toNat_sub, UInt32.toNat_one] at numbers
  omega

/-- Every read of a regular file that ends at an invalid inode or data-block number moves
the descriptor back by one byte, and from position 0 of a file whose inode is valid the
same read returns 0 then. -/
theorem failed_read_moves {img : Image} {k : Kernel} {p : ProcId} {i : Fin 8} {fd : Int}
    {buf : Nat} {nbytes : Int} (reads : k.ReadsFile p i fd buf)
    (fails : k.ReadFails img p i nbytes) :
    ¬ k.KeepsFailing img p i fd buf nbytes ∧
      ∃ r, k.sysRead img fd buf nbytes = some r ∧ r.value = -1 ∧
        ((r.kernel.pcb p).fds i).filePosition = ((k.pcb p).fds i).filePosition - 1 ∧
        (((k.pcb p).fds i).filePosition = 0 →
          ((k.pcb p).fds i).inode.toNat < img.totalInodes →
          ∃ again, r.kernel.sysRead img fd buf nbytes = some again ∧ again.value = 0) := by
  have moved := filePosition_of_fails fails
  constructor
  · intro keeps
    have kept := (keeps _ (reads.sysRead img nbytes) (value_fileRead fails)).1
    rw [moved] at kept
    exact sub_one_ne _ kept
  · refine ⟨_, reads.sysRead img nbytes, value_fileRead fails, moved, ?_⟩
    intro start valid
    refine ⟨_, (reads.again img nbytes).sysRead img nbytes, ?_⟩
    have inode : (((k.fileRead img p i nbytes).kernel.pcb p).fds i).inode =
        ((k.pcb p).fds i).inode := by
      rw [fds_fileRead]
    rw [start] at moved
    have behind : (0 : UInt32) - 1 = 0xFFFFFFFF := by decide
    rw [fileRead, inode, moved, behind, Image.readData_behind valid]

/-- A kernel whose image has, besides the file `shell`, a file `x` with an invalid
data-block number. -/
def badBlockEnv : Env :=
  { Env.sample with
    image := Image.ofBytes
      [(0, [2, 0, 0, 0, 2, 0, 0, 0, 1]),
        (64, [0x73, 0x68, 0x65, 0x6C, 0x6C]), (96, [2]),
        (128, [0x78]), (160, [2, 0, 0, 0, 1]),
        (4096, [28]),
        (8192, [28, 0, 0, 0, 9]),
        (12288, [0x7F, 0x45, 0x4C, 0x46])] }

/-- The shell opens `x` and reads it twice: first -1, then end of file. -/
def badBlockRun : BootRun badBlockEnv [.openFile [0x78]]
    (fun k => (k.getPcbPtr, (k.pcb 0).fds 2,
      (k.sysRead badBlockEnv.image 2 0x8048000 4).map ReadResult.value,
      (k.sysRead badBlockEnv.image 2 0x8048000 4).bind fun r =>
        (r.kernel.sysRead badBlockEnv.image 2 0x8048000 4).map ReadResult.value))
    (some 0, { fopsPtr := .file, inode := 1, filePosition := 0, flags := .fdAvail }, some (-1),
      some 0) :=
  .of (by decide +kernel)

theorem badBlock_fails {k : Kernel}
    (slot : (k.pcb 0).fds 2 =
      { fopsPtr := .file, inode := 1, filePosition := 0, flags := .fdAvail }) :
    k.ReadFails badBlockEnv.image 0 2 4 := by
  unfold ReadFails
  rw [slot]
  exact Image.failsOnNumber_of_block (by decide) (by decide) _

theorem badBlock_reads {k : Kernel} (running : k.getPcbPtr = some 0)
    (slot : (k.pcb 0).fds 2 =
      { fopsPtr := .file, inode := 1, filePosition := 0, flags := .fdAvail }) :
    k.ReadsFile 0 2 2 0x8048000 where
  running := running
  isOpen := FileTable.opened_coe (i := 2) (by rw [slot]) (by decide)
  regular := by rw [slot]

theorem failed_read_moves_sample :
    badBlockRun.final.ReadsFile 0 2 2 0x8048000 ∧
      badBlockRun.final.ReadFails badBlockEnv.image 0 2 4 ∧
      ¬ badBlockRun.final.KeepsFailing badBlockEnv.image 0 2 2 0x8048000 4 := by
  rcases badBlockRun with ⟨start, final, booted, reached, saw⟩
  simp only [Prod.mk.injEq] at saw
  rcases saw with ⟨running, slot, _, _⟩
  have reads := badBlock_reads running slot
  have fails := badBlock_fails slot
  exact ⟨reads, fails, (failed_read_moves reads fails).1⟩

/-- The second read of `x` returns 0. -/
theorem second_read_ends_file :
    ∃ start k r again, boot badBlockEnv default = some start ∧
      run (Kernel.step badBlockEnv) start [.openFile [0x78]] = some k ∧
      k.ReadFails badBlockEnv.image 0 2 4 ∧
      k.sysRead badBlockEnv.image 2 0x8048000 4 = some r ∧ r.value = -1 ∧
      r.kernel.sysRead badBlockEnv.image 2 0x8048000 4 = some again ∧ again.value = 0 ∧
      ¬ k.KeepsFailing badBlockEnv.image 0 2 2 0x8048000 4 := by
  rcases badBlockRun with ⟨start, final, booted, reached, saw⟩
  simp only [Prod.mk.injEq, Option.map_eq_some_iff, Option.bind_eq_some_iff] at saw
  rcases saw with ⟨running, slot, ⟨r, reads, fails⟩, ⟨r', reads', again, more, zero⟩⟩
  cases reads.symm.trans reads'
  refine ⟨start, final, r, again, booted, reached, badBlock_fails slot, reads, fails, more, zero,
    fun keeps => ?_⟩
  rcases keeps r reads fails with ⟨_, last, repeated, failed⟩
  cases more.symm.trans repeated
  rw [zero] at failed
  cases failed

end Kernel

end Ece391Os
