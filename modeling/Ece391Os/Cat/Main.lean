import Ece391Os.Descriptor.FileReads
import Ece391Os.Program.Calls
import Ece391Os.Transition.Bounded

/-!
# The program `cat`

`main` of `cat` over the system calls of the kernel: it reads the file into a buffer of 1024 bytes
again and again, and writes what it has read.  The kernel writes up to the next NUL instead.
-/

namespace Ece391Os

open Memory Program Transition

namespace Cat

def bufSize : Nat := 1024

/-- `"could not read arguments\n"`. -/
def noArguments : List UInt8 :=
  [0x63, 0x6F, 0x75, 0x6C, 0x64, 0x20, 0x6E, 0x6F, 0x74, 0x20, 0x72, 0x65, 0x61, 0x64, 0x20, 0x61,
    0x72, 0x67, 0x75, 0x6D, 0x65, 0x6E, 0x74, 0x73, 0x0A]

/-- `"file not found\n"`. -/
def notFound : List UInt8 :=
  [0x66, 0x69, 0x6C, 0x65, 0x20, 0x6E, 0x6F, 0x74, 0x20, 0x66, 0x6F, 0x75, 0x6E, 0x64, 0x0A]

/-- `"file read failed\n"`. -/
def readFailed : List UInt8 :=
  [0x66, 0x69, 0x6C, 0x65, 0x20, 0x72, 0x65, 0x61, 0x64, 0x20, 0x66, 0x61, 0x69, 0x6C, 0x65, 0x64,
    0x0A]

variable (s : Surroundings)

/-- The loop of `main`, which has written `n` times. -/
def print (img : Image) (fd : Int) : Nat → Nat → Kernel → (Nat → UInt8) → Option (Int × Kernel)
  | 0, _, _, _ => none
  | bound + 1, n, k, data =>
      (k.sysRead img fd s.buf bufSize).bind fun r =>
        let data := applyStores data r.stores
        if r.value = 0 then
          some (0, r.kernel)
        else if r.value = -1 then
          (fdputs s n readFailed r.kernel).map fun k => (3, k)
        else
          (r.kernel.sysWrite s.junk 1 s.buf
              ⟨Kernel.firstBytes data bufSize ++ s.behind n, s.args n⟩ r.value).bind
            fun (written, k) =>
              if written = -1 then some (3, k) else print img fd bound (n + 1) k data

/-- `main`, with what `ece391_getargs` leaves in the buffer where it succeeds. -/
def main (img : Image) (args : Option (Nat → UInt8)) (k : Kernel) (bound : Nat) :
    Option (Int × Kernel) :=
  match args with
  | none => (fdputs s 0 noArguments k).map fun k => (3, k)
  | some data =>
      (k.sysOpen img (cString (Kernel.firstBytes data bufSize))).bind fun (fd, k) =>
        if fd = -1 then
          (fdputs s 0 notFound k).map fun k => (2, k)
        else
          print s img fd bound 0 k data

/-! ## What is shown -/

/-- What is sent for the rest of a file: each read overwrites the front of the buffer, and the
buffer is sent up to the first NUL, which may be behind it. -/
def shown (n : Nat) (old rest : List UInt8) : List UInt8 :=
  if rest = [] then []
  else
    let buffer := rest.take bufSize ++ old.drop (rest.take bufSize).length
    cString (buffer ++ s.behind n) ++ shown (n + 1) buffer (rest.drop bufSize)
  termination_by rest.length
  decreasing_by
    have positive := List.length_pos_iff.mpr ‹_›
    rw [List.length_drop, bufSize]
    omega

variable {s} {old rest : List UInt8} {n : Nat}

theorem shown_nil : shown s n old [] = [] := by
  rw [shown, if_pos rfl]

/-- A part of the file, and what is sent behind it. -/
theorem shown_part (filled : rest ≠ []) (noNul : 0 ∉ rest) :
    shown s n old rest =
      rest.take bufSize ++ (cString (old.drop (rest.take bufSize).length ++ s.behind n) ++
        shown s (n + 1) (rest.take bufSize ++ old.drop (rest.take bufSize).length)
          (rest.drop bufSize)) := by
  have part : 0 ∉ rest.take bufSize := fun inside => noNul (List.mem_of_mem_take inside)
  rw [shown, if_neg filled]
  dsimp only
  rw [List.append_assoc, cString_append part, List.append_assoc]

theorem length_le_shown (n : Nat) (old : List UInt8) (noNul : 0 ∉ rest) :
    rest.length ≤ (shown s n old rest).length := by
  induction size : rest.length using Nat.strongRecOn generalizing n old rest with
  | ind m ih =>
      by_cases none : rest = []
      · rw [← size, none]
        exact Nat.zero_le _
      · have positive := List.length_pos_iff.mpr none
        have fewer : (rest.drop bufSize).length < m := by
          rw [List.length_drop, bufSize]
          omega
        have noNul' : 0 ∉ rest.drop bufSize := fun inside => noNul (List.mem_of_mem_drop inside)
        have later := ih _ fewer (n + 1)
          (rest.take bufSize ++ old.drop (rest.take bufSize).length) noNul' rfl
        have whole := congrArg List.length (List.take_append_drop bufSize rest)
        rw [List.length_append] at whole
        rw [shown_part none noNul, List.length_append, List.length_append]
        omega

/-- What is shown is the file if nothing is sent behind the next part, and the rest of the file is
shown as it is. -/
theorem shown_eq_iff (filled : rest ≠ []) (noNul : 0 ∉ rest) :
    shown s n old rest = rest ↔
      cString (old.drop (rest.take bufSize).length ++ s.behind n) = [] ∧
        shown s (n + 1) (rest.take bufSize ++ old.drop (rest.take bufSize).length)
          (rest.drop bufSize) = rest.drop bufSize := by
  have noNul' : 0 ∉ rest.drop bufSize := fun inside => noNul (List.mem_of_mem_drop inside)
  have longer := length_le_shown (s := s) (n + 1)
    (rest.take bufSize ++ old.drop (rest.take bufSize).length) noNul'
  rw [shown_part filled noNul]
  constructor
  · intro same
    have tails := List.append_cancel_left (same.trans (List.take_append_drop bufSize rest).symm)
    have lengths := congrArg List.length tails
    rw [List.length_append] at lengths
    have none := List.length_eq_zero_iff.mp (by omega : (cString
      (old.drop (rest.take bufSize).length ++ s.behind n)).length = 0)
    rw [none] at tails
    exact ⟨none, tails⟩
  · rintro ⟨none, same⟩
    rw [none, same, List.nil_append, List.take_append_drop]

theorem cString_eq_nil_iff {text : List UInt8} (filled : text ≠ []) :
    cString text = [] ↔ text.head? = some 0 := by
  cases text with
  | nil => exact absurd rfl filled
  | cons c text => by_cases zero : c = 0 <;> simp [cString, zero]

theorem shown_full_iff (long : bufSize ≤ rest.length) (noNul : 0 ∉ rest)
    (whole : old.length = bufSize) (filled : s.behind n ≠ []) :
    shown s n old rest = rest ↔
      (s.behind n).head? = some 0 ∧
        shown s (n + 1) (rest.take bufSize) (rest.drop bufSize) = rest.drop bufSize := by
  have some : rest ≠ [] := by
    rintro rfl
    exact absurd long (by decide)
  have count : (rest.take bufSize).length = bufSize := by
    rw [List.length_take]
    omega
  have none : old.drop bufSize = [] := List.drop_eq_nil_of_le (Nat.le_of_eq whole)
  rw [shown_eq_iff some noNul, count, none, List.nil_append, List.append_nil,
    cString_eq_nil_iff filled]

/-- The buffers that follow each other. -/
theorem each_part {length n : Nat} (long : bufSize ≤ length) (holds : Nat → Prop) :
    (bufSize ∣ length ∧ ∀ j < length / bufSize, holds (n + j)) ↔
      holds n ∧ bufSize ∣ length - bufSize ∧
        ∀ j < (length - bufSize) / bufSize, holds (n + 1 + j) := by
  unfold bufSize at *
  constructor
  · rintro ⟨divides, each⟩
    refine ⟨each 0 (by omega), by omega, fun j below => ?_⟩
    rw [Nat.add_assoc, Nat.add_comm 1 j]
    exact each (j + 1) (by omega)
  · rintro ⟨first, divides, each⟩
    refine ⟨by omega, fun j below => ?_⟩
    cases j with
    | zero => exact first
    | succ j =>
        rw [Nat.add_comm j 1, ← Nat.add_assoc]
        exact each j (by omega)

/-- Over a buffer without a NUL, the parts must fill the buffer, and a NUL must follow it. -/
theorem shown_over_iff (n : Nat) (old rest : List UInt8) (noNul : 0 ∉ rest) (oldNoNul : 0 ∉ old)
    (whole : old.length = bufSize) (nul : ∀ n, 0 ∈ s.behind n) :
    shown s n old rest = rest ↔
      bufSize ∣ rest.length ∧ ∀ j < rest.length / bufSize, (s.behind (n + j)).head? = some 0 := by
  induction size : rest.length using Nat.strongRecOn generalizing n old rest with
  | ind m ih =>
      have filled : s.behind n ≠ [] := List.ne_nil_of_mem (nul n)
      by_cases long : bufSize ≤ rest.length
      · have count : (rest.drop bufSize).length = m - bufSize := by rw [List.length_drop, size]
        have fewer : m - bufSize < m := by
          unfold bufSize at *
          omega
        have later := ih _ fewer (n + 1) (rest.take bufSize) (rest.drop bufSize)
          (fun inside => noNul (List.mem_of_mem_drop inside))
          (fun inside => noNul (List.mem_of_mem_take inside))
          (by rw [List.length_take]; omega) count
        rw [shown_full_iff long noNul whole filled, later, ← size,
          each_part long fun j => (s.behind j).head? = some 0]
      · by_cases none : rest = []
        · subst none
          simp only [List.length_nil] at size
          subst size
          simp [shown_nil]
        · have positive := List.length_pos_iff.mpr none
          have part : rest.take bufSize = rest := List.take_of_length_le (by omega)
          have inside : rest.length < old.length := by omega
          have head : (old.drop rest.length ++ s.behind n).head? = some old[rest.length] := by
            rw [List.head?_append, List.head?_drop, List.getElem?_eq_getElem inside]
            rfl
          have tail : old.drop rest.length ++ s.behind n ≠ [] :=
            List.append_ne_nil_of_right_ne_nil _ filled
          have nonzero : old[rest.length] ≠ 0 :=
            fun zero => oldNoNul (zero ▸ List.getElem_mem inside)
          rw [shown_eq_iff none noNul, part, cString_eq_nil_iff tail, head, ← size]
          constructor
          · rintro ⟨zero, _⟩
            exact absurd (Option.some.inj zero) nonzero
          · rintro ⟨divides, _⟩
            unfold bufSize at *
            omega

/-- The file fits into the buffer in front of a NUL, or it fills the buffer each time in front of a
NUL. -/
def Exact (s : Surroundings) (old content : List UInt8) : Prop :=
  content.length < bufSize ∧ old[content.length]? = some 0 ∨
    bufSize ∣ content.length ∧ ∀ j < content.length / bufSize, (s.behind j).head? = some 0

theorem shown_eq_content_iff {content : List UInt8} (noNul : 0 ∉ content)
    (whole : old.length = bufSize) (nul : ∀ n, 0 ∈ s.behind n) :
    shown s 0 old content = content ↔ Exact s old content := by
  have filled : s.behind 0 ≠ [] := List.ne_nil_of_mem (nul 0)
  unfold Exact
  by_cases long : bufSize ≤ content.length
  · have later := shown_over_iff 1 (content.take bufSize) (content.drop bufSize)
      (fun inside => noNul (List.mem_of_mem_drop inside))
      (fun inside => noNul (List.mem_of_mem_take inside)) (by rw [List.length_take]; omega) nul
    have parts := each_part (n := 0) long fun j => (s.behind j).head? = some 0
    simp only [Nat.zero_add] at parts
    rw [shown_full_iff long noNul whole filled, Nat.zero_add, later, List.length_drop, parts]
    simp [Nat.not_lt.mpr long]
  · by_cases none : content = []
    · subst none
      simp [shown_nil]
    · have positive := List.length_pos_iff.mpr none
      have part : content.take bufSize = content := List.take_of_length_le (by omega)
      have last : content.drop bufSize = [] := List.drop_eq_nil_of_le (by omega)
      have inside : content.length < old.length := by omega
      have head : (old.drop content.length ++ s.behind 0).head? = old[content.length]? := by
        rw [List.head?_append, List.head?_drop, List.getElem?_eq_getElem inside]
        rfl
      have tail : old.drop content.length ++ s.behind 0 ≠ [] :=
        List.append_ne_nil_of_right_ne_nil _ filled
      have apart : ¬ bufSize ∣ content.length := by
        unfold bufSize at *
        omega
      rw [shown_eq_iff none noNul, part, cString_eq_nil_iff tail, head, last, shown_nil]
      simp [apart, Nat.lt_of_not_le long]

/-! ## The loop -/

variable {k : Kernel} {p : ProcId} {i : Fin 8} {img : Image} {inode position : Nat}

/-- The process runs, and descriptor `i` is the file at a position. -/
structure Prints (k : Kernel) (p : ProcId) (i : Fin 8) (inode position : Nat) : Prop
    extends Runs k p where
  file : k.FileOpen p i inode position

theorem Prints.sendToConsole (prints : Prints k p i inode position) (text : List UInt8) :
    Prints (k.sendToConsole text) p i inode position where
  toRuns := prints.toRuns.sendToConsole text
  file := by
    have file := prints.file
    refine ⟨(prints.toRuns.sendToConsole text).running, ?_, ?_, ?_, ?_⟩
    all_goals rw [sendToConsole_pcb]
    exacts [file.flags, file.fopsPtr, file.inode, file.position]

theorem sendToConsole_directoryLoc (text : List UInt8) :
    (k.sendToConsole text).directoryLoc = k.directoryLoc := by
  rcases sendToConsole_eq k text with ⟨console, terminal, _, sent⟩
  rw [sent]

/-- One read returns and stores the next part of the file. -/
theorem Prints.sysRead (prints : Prints k p i inode position)
    (wellFormed : img.WellFormedFile inode) (inFile : position ≤ img.fileSize inode) {buf : Nat}
    (notNull : buf ≠ 0) :
    ∃ pcb, k.sysRead img i buf bufSize =
        some { value := (((img.content inode).drop position).take bufSize).length
               stores := storeRange 0 (((img.content inode).drop position).take bufSize).length
                 fun j => img.fileByte inode (position + j)
               kernel := withFiles k pcb k.directoryLoc } ∧
      Prints (withFiles k pcb k.directoryLoc) p i inode
        (position + (((img.content inode).drop position).take bufSize).length) := by
  have file := prints.file
  have apart : (1 : Fin 8) ≠ i := by
    rintro rfl
    have both := prints.stdout.symm.trans file.fopsPtr
    cases both
  have result : k.sysRead img i buf bufSize = some (k.fileRead img p i bufSize) :=
    file.sysRead_eq notNull bufSize
  have valid : ReadCall.Valid ⟨buf, bufSize⟩ :=
    ⟨notNull, Int.natCast_nonneg _, by simp only [bufSize]; decide⟩
  rcases file.sysRead wellFormed inFile valid with ⟨r, returns, _, bytes, next⟩
  have same : k.fileRead img p i bufSize = r := Option.some.inj (result.symm.trans returns)
  have part : r.bytes = ((img.content inode).drop position).take bufSize := bytes
  have small : (((bufSize : Nat) : Int) % 2 ^ 32).toNat = bufSize := by decide
  have data := Image.readData_eq wellFormed position bufSize (by decide)
  have count : min bufSize (img.fileSize inode - position) =
      (((img.content inode).drop position).take bufSize).length := by
    simp [Image.content]
  rw [part] at next
  refine ⟨(r.kernel).pcb, ?_, ?_⟩
  · rw [result, ← same, ← count]
    simp only [Kernel.fileRead, file.inode, file.position, small, data]
    rfl
  · have kernel : withFiles k r.kernel.pcb k.directoryLoc = r.kernel := by
      rw [← same]
      rfl
    have others : (r.kernel.pcb p).fds 1 = (k.pcb p).fds 1 := by
      rw [← same]
      simp [Kernel.fileRead, FileTable.modify, Function.update_of_ne apart]
    rw [kernel]
    refine ⟨⟨next.running, ?_, ?_, ?_⟩, next⟩
    · rw [← same]
      exact prints.scheduled
    · rw [others]
      exact prints.stdoutOpen
    · rw [others]
      exact prints.stdout

/-- The buffer behind a read. -/
theorem firstBytes_read (img : Image) (data : Nat → UInt8) (inode position : Nat) :
    Kernel.firstBytes (applyStores data (storeRange 0
        (((img.content inode).drop position).take bufSize).length
          fun j => img.fileByte inode (position + j))) bufSize =
      ((img.content inode).drop position).take bufSize ++
        (Kernel.firstBytes data bufSize).drop
          (((img.content inode).drop position).take bufSize).length := by
  apply List.ext_getElem
  · simp [Kernel.firstBytes]
  · intro j inside _
    have below : j < bufSize := by simpa [Kernel.firstBytes] using inside
    simp only [Kernel.firstBytes, List.getElem_map, List.getElem_range]
    rw [applyStores_storeRange]
    by_cases part : j < (((img.content inode).drop position).take bufSize).length
    · rw [List.getElem_append_left part, if_pos (by omega)]
      simp [Image.content]
    · rw [List.getElem_append_right (Nat.le_of_not_lt part), if_neg (by omega)]
      simp only [List.getElem_drop, List.getElem_map, List.getElem_range]
      congr 1
      omega

/-- The characters up to the first NUL. -/
theorem mem_cString_append {first second : List UInt8} {c : UInt8}
    (member : c ∈ cString (first ++ second)) : c ∈ first ∨ c ∈ cString second := by
  induction first with
  | nil => exact .inr member
  | cons b first ih =>
      by_cases zero : b = 0
      · simp [cString, zero] at member
      · have rest : c = b ∨ c ∈ cString (first ++ second) := by
          simpa [cString, zero] using member
        rcases rest with rfl | rest
        · exact .inl List.mem_cons_self
        · exact (ih rest).imp_left (List.mem_cons_of_mem _)

/-- What can be sent literally. -/
structure Sendable (s : Surroundings) (old rest : List UInt8) : Prop where
  old : 0x25 ∉ old
  rest : 0x25 ∉ rest
  nul : ∀ n, 0 ∈ s.behind n
  behind : ∀ n, 0x25 ∉ cString (s.behind n)

/-- So can be what follows the next read. -/
theorem Sendable.next (sendable : Sendable s old rest) :
    Sendable s (rest.take bufSize ++ old.drop (rest.take bufSize).length) (rest.drop bufSize) where
  old := by
    rw [List.mem_append, not_or]
    exact ⟨fun inside => sendable.rest (List.mem_of_mem_take inside),
      fun inside => sendable.old (List.mem_of_mem_drop inside)⟩
  rest := fun inside => sendable.rest (List.mem_of_mem_drop inside)
  nul := sendable.nul
  behind := sendable.behind

/-- A write sends the buffer and what is behind it up to the first NUL. -/
theorem Sendable.split {buffer : List UInt8} (sendable : Sendable s old rest)
    (noPercent : 0x25 ∉ buffer) (n : Nat) :
    ∃ after, buffer ++ s.behind n = cString (buffer ++ s.behind n) ++ 0 :: after ∧
      Printf.Plain (cString (buffer ++ s.behind n)) := by
  rcases cString_split (List.mem_append_right buffer (sendable.nul n)) with ⟨after, split⟩
  refine ⟨after, split, plain_of_noPercent (zero_notMem_cString _) fun inside => ?_⟩
  exact (mem_cString_append inside).elim noPercent (sendable.behind n)

/-- The loop shows the rest of the file. -/
theorem print_returns (prints : Prints k p i inode position)
    (wellFormed : img.WellFormedFile inode) (inFile : position ≤ img.fileSize inode)
    (notNull : s.buf ≠ 0) (data : Nat → UInt8)
    (sendable : Sendable s (Kernel.firstBytes data bufSize) ((img.content inode).drop position)) :
    ∃ pcb, Returns (fun bound => print s img i bound n k data)
      (0, withFiles (k.sendToConsole
        (shown s n (Kernel.firstBytes data bufSize) ((img.content inode).drop position)))
          pcb k.directoryLoc) := by
  induction size : ((img.content inode).drop position).length using Nat.strongRecOn
      generalizing k n position data with
  | ind m ih =>
      rcases prints.sysRead wellFormed inFile notNull with ⟨pcb, reads, moved⟩
      have buffer := firstBytes_read img data inode position
      have next := sendable.next
      have whole : (((img.content inode).drop position).take bufSize).length +
          ((img.content inode).drop (position +
            (((img.content inode).drop position).take bufSize).length)).length = m := by
        simp only [List.length_take, List.length_drop] at size ⊢
        omega
      have onward : (img.content inode).drop
          (position + (((img.content inode).drop position).take bufSize).length) =
            ((img.content inode).drop position).drop bufSize := by
        rw [List.drop_drop, List.drop_eq_drop_iff]
        simp only [List.length_take, List.length_drop]
        omega
      generalize partEq : ((img.content inode).drop position).take bufSize = part at *
      by_cases none : (img.content inode).drop position = []
      · have empty : part.length = 0 := by rw [← partEq, none]; rfl
        refine ⟨pcb, Returns.round ?_⟩
        simp only [print, reads, Option.bind_some, empty, Nat.cast_zero, if_true]
        rw [none, shown_nil, sendToConsole_nil]
        exact Returns.pure _
      · have some : part ≠ [] := by
          rw [← partEq]
          exact fun zero => none ((List.take_eq_nil_iff.mp zero).resolve_left (by decide))
        have positive := List.length_pos_iff.mpr some
        have nonzero : ((part.length : Nat) : Int) ≠ 0 := by omega
        have succeeds : ((part.length : Nat) : Int) ≠ -1 := by omega
        rcases sendable.split next.old n with ⟨after, split, plain⟩
        generalize textEq : cString (part ++ (Kernel.firstBytes data bufSize).drop part.length ++
          s.behind n) = text at split plain
        have writes : ((text.length : Nat) : Int) ≠ -1 := by omega
        have inside : position + part.length ≤ img.fileSize inode := by
          simp only [← partEq, List.length_take, List.length_drop, Image.content, List.length_map,
            List.length_range]
          omega
        rw [← buffer, ← onward] at next
        rcases ih _ (by omega) (moved.sendToConsole text) inside _ (n := n + 1) next rfl with
          ⟨final, later⟩
        refine ⟨final, Returns.round ?_⟩
        have shows :
            shown s n (Kernel.firstBytes data bufSize) ((img.content inode).drop position) =
              text ++ shown s (n + 1) (part ++ (Kernel.firstBytes data bufSize).drop part.length)
                (((img.content inode).drop position).drop bufSize) := by
          rw [shown, if_neg none, partEq]
          dsimp only
          rw [textEq]
        have whole : withFiles (((withFiles k pcb k.directoryLoc).sendToConsole text).sendToConsole
            (shown s (n + 1) (part ++ (Kernel.firstBytes data bufSize).drop part.length)
              (((img.content inode).drop position).drop bufSize))) final
                ((withFiles k pcb k.directoryLoc).sendToConsole text).directoryLoc =
            withFiles (k.sendToConsole (shown s n (Kernel.firstBytes data bufSize)
              ((img.content inode).drop position))) final k.directoryLoc := by
          rw [sendToConsole_append, ← shows, sendToConsole_withFiles, sendToConsole_directoryLoc]
          rfl
        rw [buffer, onward, whole] at later
        simp only [print, reads, Option.bind_some, if_neg nonzero, if_neg succeeds, buffer, split,
          moved.sysWrite notNull s.junk (s.args n) plain after, if_neg writes]
        exact later

/-- Where nothing else runs, a process that `execute` has started with the program `cat` shows a
file as it is if and only if a NUL follows what it has read each time. -/
theorem shows_file_iff {d : Dentry} {data : Nat → UInt8}
    (found : img.readDentryByName (cString (Kernel.firstBytes data bufSize)) = some d)
    (regular : d.filetype = 2) (wellFormed : img.WellFormedFile d.inodeNumber)
    (running : k.getPcbPtr = some p) (scheduled : (k.terminal k.curActiveTerminal).apn = some p)
    (fresh : (k.pcb p).fds = FileTable.initial) (notNull : s.buf ≠ 0)
    (sendable : Sendable s (Kernel.firstBytes data bufSize) (img.content d.inodeNumber))
    (noNul : 0 ∉ img.content d.inodeNumber) :
    ∃ opened pcb,
      k.sysOpen img (cString (Kernel.firstBytes data bufSize)) = some (2, opened) ∧
      Returns (main s img (some data) k)
        (0, withFiles (opened.sendToConsole
          (shown s 0 (Kernel.firstBytes data bufSize) (img.content d.inodeNumber)))
            pcb opened.directoryLoc) ∧
      (shown s 0 (Kernel.firstBytes data bufSize) (img.content d.inodeNumber) =
          img.content d.inodeNumber ↔
        Exact s (Kernel.firstBytes data bufSize) (img.content d.inodeNumber)) := by
  have noClock : d.filetype ≠ 0 := by
    rw [regular]
    decide
  rcases sysOpen_fresh found noClock running scheduled fresh with
    ⟨opened, opens, runs, same, fds⟩
  have inodeSmall : d.inodeNumber < 2 ^ 32 := lt_trans wellFormed.inodeLt (img.word_lt _)
  have prints : Prints opened p 2 d.inodeNumber 0 :=
    { runs with
      file :=
        { running := runs.running
          flags := by simp [fds, FileTable.bind, regular, FileTable.modify]
          fopsPtr := by simp [fds, FileTable.bind, regular, FileTable.modify]
          inode := by simpa [fds, FileTable.bind, regular, FileTable.modify] using inodeSmall
          position := by simp [fds, FileTable.bind, regular, FileTable.modify] } }
  rcases print_returns (n := 0) prints wellFormed (Nat.zero_le _) notNull data sendable with
    ⟨pcb, returns⟩
  rw [List.drop_zero] at returns
  refine ⟨opened, pcb, opens, ?_, shown_eq_content_iff noNul (by simp [Kernel.firstBytes])
    sendable.nul⟩
  unfold main
  simp only [opens, Option.bind_some, if_neg (show ¬ (2 : Int) = -1 by decide)]
  exact returns

/-- The file `f`, which holds `hi`. -/
def sampleFile : Image :=
  Image.ofBytes
    [(0, [1, 0, 0, 0, 1, 0, 0, 0, 1]), (64, [0x66]), (96, [2]), (4096, [2]),
      (8192, [0x68, 0x69])]

theorem sampleFile_wellFormed : sampleFile.WellFormedFile 0 where
  inodeLt := by decide
  sizeLe := by decide
  blockLt := by
    intro block needed
    have size : sampleFile.fileSize 0 = 2 := by decide
    have first : block = 0 := by omega
    subst first
    decide

/-- The argument `f` in a buffer of NULs. -/
def sampleArgument (i : Nat) : UInt8 :=
  if i = 0 then 0x66 else 0

theorem shows_file_iff_sample :
    ∃ opened pcb, started.sysOpen sampleFile [0x66] = some (2, opened) ∧
      Returns (main surroundings sampleFile (some sampleArgument) started)
        (0, withFiles (opened.sendToConsole [0x68, 0x69]) pcb opened.directoryLoc) := by
  have filename : cString (Kernel.firstBytes sampleArgument bufSize) = [0x66] := by
    decide +kernel
  have found : sampleFile.readDentryByName [0x66] = some (sampleFile.dentry 0) := rfl
  have content : sampleFile.content 0 = [0x68, 0x69] := by decide
  have sendable : Sendable surroundings (Kernel.firstBytes sampleArgument bufSize)
      (sampleFile.content 0) :=
    { old := by decide +kernel
      rest := by decide
      nul := fun _ => List.mem_cons_self
      behind := fun _ => List.not_mem_nil }
  have fits : Exact surroundings (Kernel.firstBytes sampleArgument bufSize)
      (sampleFile.content 0) := by
    rw [content]
    exact .inl ⟨by decide, by decide +kernel⟩
  rw [← filename] at found
  rcases shows_file_iff found rfl sampleFile_wellFormed
    (by decide : started.getPcbPtr = some 0) rfl rfl (by decide) sendable (by decide) with
    ⟨opened, pcb, opens, returns, exactly⟩
  rw [exactly.mpr fits, show (sampleFile.dentry 0).inodeNumber = 0 from rfl, content] at returns
  rw [filename] at opens
  exact ⟨opened, pcb, opens, returns⟩

end Cat

end Ece391Os
