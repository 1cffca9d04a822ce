import Ece391Os.Descriptor.Calls

/-!
# Sequential reads of a file

Successive reads of one descriptor deliver consecutive slices of the file, however
the requests divide it.
-/

namespace Ece391Os

open Memory

/-- The arguments of one `sys_read` of a known descriptor. -/
structure ReadCall where
  buf : Nat
  nbytes : Int

namespace ReadCall

/-- A non-null buffer and a non-negative `int32_t` count. -/
structure Valid (call : ReadCall) : Prop where
  buffer : call.buf ≠ 0
  nonneg : 0 ≤ call.nbytes
  small : call.nbytes < 2 ^ 31

end ReadCall

namespace ReadResult

/-- The bytes stored, in order. -/
def bytes (r : ReadResult) : List UInt8 :=
  r.stores.map Prod.snd

/-- The value returned is the number of bytes stored, which are at consecutive
addresses from the buffer on. -/
structure Delivers (r : ReadResult) : Prop where
  value : r.value = r.bytes.length
  addresses : r.stores.map Prod.fst = List.range r.bytes.length

end ReadResult

namespace Kernel

variable (img : Image)

/-- Read a descriptor once for each call of a list. -/
def readAll (fd : Int) : Kernel → List ReadCall → Option (List (ReadCall × ReadResult))
  | _, [] => some []
  | k, call :: calls => do
      let r ← k.sysRead img fd call.buf call.nbytes
      let later ← readAll fd r.kernel calls
      some ((call, r) :: later)

/-- Descriptor `i` of process `p`, which is executing, is an open regular file with
the given inode and position. -/
structure FileOpen (k : Kernel) (p : ProcId) (i : Fin 8) (inode position : Nat) : Prop where
  running : k.getPcbPtr = some p
  flags : ((k.pcb p).fds i).flags = .fdAvail
  fopsPtr : ((k.pcb p).fds i).fopsPtr = .file
  inode : ((k.pcb p).fds i).inode.toNat = inode
  position : ((k.pcb p).fds i).filePosition.toNat = position

variable {img}

/-- The slice that one read delivers. -/
theorem map_fileByte_eq (inode position length : Nat) :
    (List.range (min length (img.fileSize inode - position))).map
        (fun i => img.fileByte inode (position + i)) =
      ((img.content inode).drop position).take length := by
  apply List.ext_getElem (by simp [Image.content])
  intro i left right
  simp [Image.content]

/-- A read of an open file is a read of `file_read`. -/
theorem FileOpen.sysRead_eq {k : Kernel} {p : ProcId} {i : Fin 8} {inode position : Nat}
    (opened : k.FileOpen p i inode position) {buf : Nat} (notNull : buf ≠ 0) (nbytes : Int) :
    k.sysRead img i buf nbytes = some (k.fileRead img p i nbytes) := by
  have slot : (k.pcb p).fds.opened (i : Int) buf = some i :=
    FileTable.opened_coe opened.flags notNull
  simp [Kernel.sysRead, opened.running, slot, fopsRead, opened.fopsPtr]

/-- One read of an open file delivers the next slice and moves the position behind it. -/
theorem FileOpen.sysRead {k : Kernel} {p : ProcId} {i : Fin 8} {inode position : Nat}
    (opened : k.FileOpen p i inode position) (wellFormed : img.WellFormedFile inode)
    (inFile : position ≤ img.fileSize inode) {call : ReadCall} (valid : call.Valid) :
    ∃ r, k.sysRead img i call.buf call.nbytes = some r ∧ r.Delivers ∧
      r.bytes = ((img.content inode).drop position).take call.nbytes.toNat ∧
      r.kernel.FileOpen p i inode (position + r.bytes.length) := by
  obtain ⟨n, count⟩ := Int.eq_ofNat_of_zero_le valid.nonneg
  have small : n < 2 ^ 31 := by have := valid.small; omega
  have sizeLe := wellFormed.sizeLe
  have result : k.sysRead img i call.buf call.nbytes =
      some (k.fileRead img p i call.nbytes) :=
    opened.sysRead_eq valid.buffer call.nbytes
  have length : (call.nbytes % 2 ^ 32).toNat = n := by omega
  have data := Image.readData_eq wellFormed position n small
  refine ⟨_, result, ?_⟩
  have stores : (k.fileRead img p i call.nbytes).stores =
      storeRange 0 (min n (img.fileSize inode - position))
        fun j => img.fileByte inode (position + j) := by
    simp only [fileRead, opened.inode, opened.position, length, data]
  have bytes : (k.fileRead img p i call.nbytes).bytes =
      ((img.content inode).drop position).take n := by
    rw [ReadResult.bytes, stores, map_snd_storeRange, map_fileByte_eq]
  have size : (k.fileRead img p i call.nbytes).bytes.length =
      min n (img.fileSize inode - position) := by
    simp [bytes, Image.content]
  refine ⟨⟨?_, ?_⟩, ?_, ?_⟩
  · rw [size]
    simp only [fileRead, opened.inode, opened.position, length, data]
  · rw [size, stores, map_fst_storeRange_zero]
  · rw [bytes, count]
    rfl
  · rw [size]
    refine ⟨opened.running, ?_, ?_, ?_, ?_⟩
    · simpa [fileRead, FileTable.modify] using opened.flags
    · simpa [fileRead, FileTable.modify] using opened.fopsPtr
    · simpa [fileRead, FileTable.modify] using opened.inode
    · have advanced : (UInt32.ofInt (min n (img.fileSize inode - position) : Nat)).toNat =
          min n (img.fileSize inode - position) := by
        rw [UInt32.ofInt]
        simp
        omega
      simp only [fileRead, FileTable.modify, setFds_fds, Function.update_self, opened.inode,
        opened.position, length, data, UInt32.toNat_add, advanced]
      omega

/-- A regular file opened by `sys_open` is an open file at position 0. -/
theorem sysOpen_fileOpen {k opened : Kernel} {filename : List UInt8} {d : Dentry} {fd : Int}
    (found : img.readDentryByName filename = some d) (regular : d.filetype = 2)
    (inodeLt : d.inodeNumber < img.totalInodes)
    (opens : k.sysOpen img filename = some (fd, opened)) (success : 0 ≤ fd) :
    ∃ p i, fd = (i.val : Int) ∧ opened.FileOpen p i d.inodeNumber 0 := by
  simp only [sysOpen, found] at opens
  obtain ⟨p, running, rest⟩ := Option.bind_eq_some_iff.mp opens
  cases claims : (k.pcb p).fds.claim 2 with
  | none =>
      simp only [claims] at rest
      cases rest
      omega
  | some slot =>
      obtain ⟨i, fds⟩ := slot
      obtain ⟨_, _, _, rfl⟩ := FileTable.claim_eq_some claims
      simp only [claims, regular, if_neg (show ¬ (2 = 0) by decide)] at rest
      cases rest
      have inodeSmall : d.inodeNumber < 2 ^ 32 := lt_trans inodeLt (img.word_lt _)
      refine ⟨p, i, rfl, running, ?_, ?_, ?_, ?_⟩
      · simp [FileTable.bind, regular, FileTable.modify]
      · simp [FileTable.bind, regular, FileTable.modify]
      · simpa [FileTable.bind, regular, FileTable.modify] using inodeSmall
      · simp [FileTable.bind, regular, FileTable.modify]

/-- What a list of reads of one descriptor delivered, given the bytes left when the
first of them was made. -/
structure Reassembles (remaining : List UInt8) (reads : List (ReadCall × ReadResult)) : Prop where
  delivers : ∀ read ∈ reads, read.2.Delivers
  bytes : reads.flatMap (fun read => read.2.bytes) =
    remaining.take (reads.map fun read => read.1.nbytes.toNat).sum
  complete : ∀ before read after, reads = before ++ read :: after → 0 < read.1.nbytes →
    read.2.value = 0 → before.flatMap (fun read => read.2.bytes) = remaining

/-- Reads of an open file return and reassemble what is left of it. -/
theorem FileOpen.readAll {p : ProcId} {i : Fin 8} {inode : Nat}
    (wellFormed : img.WellFormedFile inode) (calls : List ReadCall) (k : Kernel) (position : Nat)
    (opened : k.FileOpen p i inode position) (inFile : position ≤ img.fileSize inode)
    (valid : ∀ call ∈ calls, call.Valid) :
    ∃ reads, k.readAll img i calls = some reads ∧ reads.map Prod.fst = calls ∧
      Reassembles ((img.content inode).drop position) reads := by
  induction calls generalizing k position with
  | nil =>
      refine ⟨[], rfl, rfl, ⟨by simp, by simp, ?_⟩⟩
      intro before read after split
      cases before <;> cases split
  | cons call calls ih =>
      obtain ⟨r, returns, delivers, bytes, next⟩ :=
        opened.sysRead wellFormed inFile (valid call List.mem_cons_self)
      have nonneg := (valid call List.mem_cons_self).nonneg
      generalize remainingEq : (img.content inode).drop position = remaining at bytes ⊢
      have size : remaining.length = img.fileSize inode - position := by
        simp [← remainingEq, Image.content]
      have amount : r.bytes.length = min call.nbytes.toNat remaining.length := by simp [bytes]
      have rest : (img.content inode).drop (position + r.bytes.length) =
          remaining.drop call.nbytes.toNat := by
        rw [← List.drop_drop, remainingEq, amount]
        by_cases all : call.nbytes.toNat ≤ remaining.length
        · rw [Nat.min_eq_left all]
        · rw [Nat.min_eq_right (by omega), List.drop_length, List.drop_eq_nil_of_le (by omega)]
      obtain ⟨reads, later, calls_eq, ⟨laterDelivers, laterBytes, laterComplete⟩⟩ :=
        ih r.kernel _ next (by omega) fun c member => valid c (List.mem_cons_of_mem call member)
      rw [rest] at laterBytes laterComplete
      refine ⟨(call, r) :: reads, ?_, by simp [calls_eq], ⟨?_, ?_, ?_⟩⟩
      · simp [Kernel.readAll, returns, later]
      · simpa using ⟨delivers, fun c s member => laterDelivers (c, s) member⟩
      · simp only [List.flatMap_cons, laterBytes, bytes, List.map_cons, List.sum_cons,
          List.take_add]
      · intro before read after split positive zero
        cases before with
        | nil =>
            cases split
            dsimp only at positive zero
            -- nothing was delivered, so nothing was left
            have none : r.bytes.length = 0 := by have := delivers.value; omega
            have empty : remaining.length = 0 := by omega
            exact (List.length_eq_zero_iff.mp empty).symm
        | cons first before =>
            cases split
            have tail := laterComplete before read after rfl positive zero
            simp only [List.flatMap_cons, tail, bytes, List.take_append_drop]

/-- Sequential reads reassemble the file: after `sys_open` of a regular file, every
list of reads of its descriptor returns, each read delivers as many bytes as it
returns, together they deliver the file's first bytes, as many as were asked for,
and a read of a positive count returns 0 only when the whole file was delivered. -/
theorem sequential_reads {k opened : Kernel} {filename : List UInt8} {d : Dentry} {fd : Int}
    (found : img.readDentryByName filename = some d) (regular : d.filetype = 2)
    (wellFormed : img.WellFormedFile d.inodeNumber)
    (opens : k.sysOpen img filename = some (fd, opened)) (success : 0 ≤ fd)
    (calls : List ReadCall) (valid : ∀ call ∈ calls, call.Valid) :
    ∃ reads, opened.readAll img fd calls = some reads ∧ reads.map Prod.fst = calls ∧
      Reassembles (img.content d.inodeNumber) reads := by
  obtain ⟨p, i, rfl, isOpen⟩ := sysOpen_fileOpen found regular wellFormed.inodeLt opens success
  exact isOpen.readAll wellFormed calls opened 0 (Nat.zero_le _) valid

/-- Process 0 in user mode, with a descriptor table of free slots. -/
def openingFile : Kernel :=
  { (default : Kernel) with tssEsp0 := kernelStackTop 0 }

theorem sequential_reads_shell :
    ∃ opened, openingFile.sysOpen Image.sample [0x73, 0x68, 0x65, 0x6C, 0x6C] = some (2, opened) ∧
      ∃ reads, opened.readAll Image.sample 2 [⟨0x8048000, 20⟩, ⟨0x8048000, 20⟩] = some reads ∧
        reads.map Prod.fst = [⟨0x8048000, 20⟩, ⟨0x8048000, 20⟩] ∧
        Reassembles (Image.sample.content 0) reads := by
  have found : Image.sample.readDentryByName [0x73, 0x68, 0x65, 0x6C, 0x6C] =
      some (Image.sample.dentry 1) := rfl
  have inode : (Image.sample.dentry 1).inodeNumber = 0 := rfl
  have wellFormed : Image.sample.WellFormedFile (Image.sample.dentry 1).inodeNumber := by
    rw [inode]
    exact Image.sample_wellFormed
  have claims : (openingFile.pcb 0).fds.claim 2 =
      some (2, (openingFile.pcb 0).fds.modify 2 fun d =>
        { d with flags := .fdAvail, filePosition := 0 }) := by
    have free : ((openingFile.pcb 0).fds 2).flags = .fdOccup := rfl
    rw [FileTable.claim, if_pos free]
  have running : openingFile.getPcbPtr = some 0 := by decide
  have opens : ∃ opened, openingFile.sysOpen Image.sample [0x73, 0x68, 0x65, 0x6C, 0x6C] =
      some (2, opened) := by
    simp [sysOpen, found, running, claims]
  obtain ⟨opened, opens⟩ := opens
  refine ⟨opened, opens, ?_⟩
  have reads := sequential_reads found rfl wellFormed opens (by decide)
    [⟨0x8048000, 20⟩, ⟨0x8048000, 20⟩] (by
      rintro call member
      simp only [List.mem_cons, List.not_mem_nil, or_false, or_self] at member
      subst call
      exact ⟨by decide, by decide, by decide⟩)
  rwa [inode] at reads

end Kernel

end Ece391Os
