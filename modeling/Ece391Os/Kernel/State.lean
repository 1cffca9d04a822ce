import Mathlib.Algebra.Order.Ring.Int
import Mathlib.Logic.Function.Basic
import Mathlib.Data.Fin.Basic

/-!
# Kernel state

The global variables, per-terminal records and process control blocks of the
kernel in `student-distrib`, as one state record.  Values that the source keeps
in range are typed by their range: terminal indices, process numbers, cursor
positions and buffer offsets.  The stored `apn = -1` of a terminal that never
ran a process is `none`.

Three fields are history variables that no function of the kernel reads:
`keyLog` lists the stores made through `key_buffer`, `procLog` the processes
started and finished, and a `saved` context is forgotten once control has passed
through it, because the kernel stack above it is then reused.
-/

namespace Ece391Os

/-- Index into `terminal[MAX_TERM]`.  It also stands for a `term_t` pointer and
for the `id` field, which `init_terminal` sets to the index once and for all. -/
abbrev TermId := Fin 3

/-- A process number below `NUM_MAX_PROCESSES`. -/
abbrev ProcId := Fin 6

/-- The index types of the kernel have a first index. -/
instance neZeroTerms : NeZero 3 := ⟨by decide⟩

instance neZeroProcs : NeZero 6 := ⟨by decide⟩

instance neZeroSlots : NeZero 8 := ⟨by decide⟩

instance neZeroRows : NeZero 25 := ⟨by decide⟩

instance neZeroCols : NeZero 80 := ⟨by decide⟩

instance neZeroPages : NeZero 1024 := ⟨by decide⟩

/-! ## Text screens -/

/-- A character cell: the character byte and the attribute byte after it. -/
structure Cell where
  char : UInt8
  attr : UInt8
  deriving DecidableEq, Inhabited

/-- The 4000 bytes of a text buffer.  The cell in row `y` and column `x` is the
two bytes at offset `(NUM_COLS * y + x) << 1`. -/
abbrev Screen := Fin 25 → Fin 80 → Cell

/-- The output state of `lib.c`: the cursor `screen_x`, `screen_y` and the video
memory at `VIDEO`. -/
structure Console where
  screenX : Fin 80
  screenY : Fin 25
  video : Screen
  deriving Inhabited

/-- `term_t`.  `videoMem` is the content of the page that `video_mem` points to. -/
structure Term where
  posX : Fin 80
  posY : Fin 25
  active : Bool
  apn : Option ProcId
  keyBuffer : Fin 128 → UInt8
  keyBufferIdx : UInt8
  eflag : Bool
  videoMem : Screen
  deriving Inhabited

/-! ## Keyboard -/

/-- The globals of `keyboard.c`.  `keyBuffer` names the terminal whose array the
pointer `key_buffer` designates. -/
structure Keyboard where
  keyBufferIdx : UInt8
  keyBuffer : TermId
  keyboardEnabled : Bool
  ctrlStat : Bool
  shiftStat : Bool
  altStat : Bool
  capsStat : Bool
  deriving Inhabited

/-- One store through `key_buffer`: the array designated by the pointer, the
index, the byte, and the terminal displayed when it was made. -/
structure KeyStore where
  buffer : TermId
  index : Nat
  byte : UInt8
  shown : TermId
  deriving DecidableEq

/-! ## Descriptors and processes -/

/-- The six operation tables of `syscalls.c`. -/
inductive Fops where
  | stdin
  | stdout
  | rtc
  | dir
  | file
  | error
  deriving DecidableEq, Inhabited

/-- The two values of a descriptor's `flags`: `FD_OCCUP = 0` marks a free slot
and `FD_AVAIL = 1` a slot in use. -/
inductive FdFlag where
  | fdOccup
  | fdAvail
  deriving DecidableEq, Inhabited

/-- `file_desc_t`; the `int32_t` fields are kept as their 32 bits. -/
structure FileDesc where
  fopsPtr : Fops
  inode : UInt32
  filePosition : UInt32
  flags : FdFlag
  deriving DecidableEq, Inhabited

/-- The `fds` array of a process, `NUM_MAX_OPEN_FILES` long. -/
abbrev FileTable := Fin 8 → FileDesc

/-- Where a running `terminal_read` is: spinning on `eflag`, about to clear it,
copying byte `i`, clearing `key_buffer[i]`, or about to reset the index. -/
inductive ReadPoint where
  | spin
  | take
  | copy (i : Nat)
  | clear (i count : Nat)
  | finish (count : Nat)
  deriving DecidableEq

/-- What a process is doing at a point where interrupts are enabled: running in
user mode with the result of its last system call, inside one of the system calls
that wait with interrupts enabled, or interrupted by a `switch_terminal` that saved
its context in the PCB of `old` and is about to call `execute`. -/
inductive Activity where
  | user (eax : Int)
  | terminalRead (buf : Nat) (numBytes : Int) (point : ReadPoint)
  | rtcRead (seen : Bool)
  | launch (old : ProcId) (interrupted : Activity)
  deriving DecidableEq, Inhabited

/-- A kernel context that `esp` and `ebp` of a PCB designate. -/
structure Context where
  activity : Activity
  esp : Nat
  deriving DecidableEq

/-- The code that called `execute`, to which a saved `parent_ksp` returns. -/
inductive ExecCaller where
  | initTerminal
  | systemCall
  | halt
  | switchTerminal
  deriving DecidableEq, Inhabited

/-- `pcb_t`. -/
structure Pcb where
  fds : FileTable
  parentKsp : Nat
  parentCaller : ExecCaller
  processNumber : ProcId
  parentProcessNumber : ProcId
  argbuf : List UInt8
  term : TermId
  saved : Option Context
  deriving Inhabited

/-- A process of a terminal started, or a process finished. -/
inductive ProcEvent where
  | started (term : TermId) (process : ProcId)
  | finished (process : ProcId)
  deriving DecidableEq

/-! ## Paging -/

/-- The attribute bits of a page-directory or page-table entry. -/
structure PageFlags where
  present : Bool
  writable : Bool
  user : Bool
  deriving DecidableEq, Inhabited

/-- The page tables declared in `paging.c`. -/
inductive PageTable where
  | pageTable
  | userPageTable
  | videoPageTable
  deriving DecidableEq, Inhabited

/-- A page-directory entry: a 4MB page, a page table, or neither. -/
inductive Pde where
  | page4MB (base : Nat) (flags : PageFlags)
  | table (table : PageTable) (flags : PageFlags)
  | empty (flags : PageFlags)
  deriving DecidableEq, Inhabited

/-- A page-table entry. -/
structure Pte where
  base : Nat
  flags : PageFlags
  deriving DecidableEq, Inhabited

/-- The page directory and the three page tables. -/
structure Paging where
  pageDirectory : Fin 1024 → Pde
  pageTable : Fin 1024 → Pte
  userPageTable : Fin 1024 → Pte
  videoPageTable : Fin 1024 → Pte
  deriving Inhabited

/-! ## The kernel -/

/-- The CMOS ports: the register index latched through `RTC_PORT` and the
registers behind `CMOS_PORT`. -/
structure Cmos where
  index : UInt8
  reg : UInt8 → UInt8
  deriving Inhabited

/-- The processor between two events: what it runs, and its kernel stack pointer
while it is inside a system call. -/
structure Cpu where
  activity : Activity
  esp : Nat
  deriving Inhabited

/-- The state of the machine. -/
structure Kernel where
  console : Console
  keyboard : Keyboard
  keyLog : List KeyStore
  curTerm : TermId
  terminal : TermId → Term
  curActiveTerminal : TermId
  nextSchedTerminal : TermId
  pidArray : ProcId → Bool
  pcb : ProcId → Pcb
  procLog : List ProcEvent
  directoryLoc : UInt32
  rtcInterruptOccurred : TermId → Bool
  cmos : Cmos
  paging : Paging
  tssEsp0 : Nat
  cpu : Cpu
  /-- The 4MB program frame of each process, by virtual address. -/
  memory : ProcId → Nat → UInt8
  deriving Inhabited

namespace Kernel

/-- Assign to fields of `terminal[t]`. -/
def modifyTerm (k : Kernel) (t : TermId) (change : Term → Term) : Kernel :=
  { k with terminal := Function.update k.terminal t (change (k.terminal t)) }

/-- A field of the terminals after an assignment to one of them. -/
theorem field_modifyTerm {α : Type} (field : Term → α) (k : Kernel) (t : TermId)
    (change : Term → Term) :
    (fun u => field ((k.modifyTerm t change).terminal u)) =
      Function.update (fun u => field (k.terminal u)) t (field (change (k.terminal t))) := by
  funext u
  exact Function.apply_update (fun _ => field) k.terminal t (change (k.terminal t)) u

/-- A field that the assignment leaves as it is. -/
theorem field_modifyTerm_of_eq {α : Type} (field : Term → α) (k : Kernel) (t : TermId)
    {change : Term → Term} (same : ∀ term, field (change term) = field term) :
    (fun u => field ((k.modifyTerm t change).terminal u)) = fun u => field (k.terminal u) := by
  rw [field_modifyTerm, same]
  exact Function.update_eq_self _ _

/-- Assign to fields of the PCB of `p`. -/
def modifyPcb (k : Kernel) (p : ProcId) (change : Pcb → Pcb) : Kernel :=
  { k with pcb := Function.update k.pcb p (change (k.pcb p)) }

/-- A field of the PCBs after one of them is replaced. -/
theorem field_update {α : Type} (field : Pcb → α) (pcbs : ProcId → Pcb) (p : ProcId) (pcb : Pcb) :
    (fun q => field (Function.update pcbs p pcb q)) =
      Function.update (fun q => field (pcbs q)) p (field pcb) := by
  funext q
  exact Function.apply_update (fun _ => field) pcbs p pcb q

/-- A field that the new PCB has from the old one. -/
theorem field_update_of_eq {α : Type} (field : Pcb → α) {pcbs : ProcId → Pcb} {p : ProcId}
    {pcb : Pcb} (same : field pcb = field (pcbs p)) :
    (fun q => field (Function.update pcbs p pcb q)) = fun q => field (pcbs q) := by
  rw [field_update, same]
  exact Function.update_eq_self _ _

/-- The process in whose 8KB kernel block an address lies: the blocks go down
from 8MB, and masking with `PCB_PTR_MASK` gives the block's PCB. -/
def procOfAddr (address : Nat) : Option ProcId :=
  let block := 1023 - address / 0x2000
  if h : 1018 ≤ address / 0x2000 ∧ address / 0x2000 ≤ 1023 then
    some ⟨block, by omega⟩
  else
    none

/-- The kernel stack pointer of the next kernel frame: a system call or an
interrupt in user mode starts at `tss.esp0`. -/
def kernelEsp (k : Kernel) : Nat :=
  match k.cpu.activity with
  | .user _ => k.tssEsp0
  | _ => k.cpu.esp

/-- `get_pcb_ptr`: the process whose PCB lies below the current kernel stack. -/
def getPcbPtr (k : Kernel) : Option ProcId :=
  procOfAddr k.kernelEsp

/-- The top of the kernel stack of a process: `_8MB - _8KB * process - 4`. -/
def kernelStackTop (p : ProcId) : Nat :=
  0x800000 - 0x2000 * p.val - 4

/-- The kernel stack top of a process lies in its own block. -/
theorem procOfAddr_kernelStackTop (p : ProcId) : procOfAddr (kernelStackTop p) = some p := by
  revert p
  decide

/-- `sizeof(pcb_t)`: eight descriptors of 28 bytes and eight file names of 32, `parent_ksp`
and `parent_kbp`, the two process numbers, `argbuf` with two bytes behind it, `term`, `esp`
and `ebp`. -/
def pcbSize : Nat :=
  8 * 28 + 8 * 32 + 2 * 4 + 2 + 102 + 3 * 4

/-- The address behind the PCB of a process, which lies at the bottom of its block. -/
def pcbEnd (p : ProcId) : Nat :=
  0x800000 - 0x2000 * (p.val + 1) + pcbSize

/-- So far above the PCB of its block, an address is that far above an address of the same
block. -/
theorem procOfAddr_sub {address depth : Nat} {p : ProcId} (within : procOfAddr address = some p)
    (room : pcbEnd p + depth ≤ address) : procOfAddr (address - depth) = some p := by
  unfold procOfAddr at within
  dsimp only at within
  split at within
  · rename_i blocks
    cases within
    simp only [pcbEnd, pcbSize] at room
    have upper : (address - depth) / 0x2000 ≤ address / 0x2000 :=
      Nat.div_le_div_right (Nat.sub_le address depth)
    have lower : address / 0x2000 ≤ (address - depth) / 0x2000 := by omega
    have same : (address - depth) / 0x2000 = address / 0x2000 := Nat.le_antisymm upper lower
    unfold procOfAddr
    dsimp only
    rw [dif_pos (by rw [same]; exact blocks)]
    simp only [same]
  · cases within

end Kernel

end Ece391Os
