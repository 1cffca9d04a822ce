import Ece391Os.Machine.DirectoryListing
import Ece391Os.Descriptor.Opening
import Ece391Os.Program.Calls
import Ece391Os.Transition.Bounded

/-!
# The program `ls`

`main` of `ls` over the system calls of the kernel: it opens the directory, reads one name after
the other into a buffer of 33 bytes, and writes each with a newline behind it.
-/

namespace Ece391Os

open Memory Program Transition

namespace Ls

def SBUFSIZE : Nat := 33

/-- `"directory open failed\n"`. -/
def openFailed : List UInt8 :=
  [0x64, 0x69, 0x72, 0x65, 0x63, 0x74, 0x6F, 0x72, 0x79, 0x20, 0x6F, 0x70, 0x65, 0x6E, 0x20, 0x66,
    0x61, 0x69, 0x6C, 0x65, 0x64, 0x0A]

/-- `"directory entry read failed\n"`. -/
def readFailed : List UInt8 :=
  [0x64, 0x69, 0x72, 0x65, 0x63, 0x74, 0x6F, 0x72, 0x79, 0x20, 0x65, 0x6E, 0x74, 0x72, 0x79, 0x20,
    0x72, 0x65, 0x61, 0x64, 0x20, 0x66, 0x61, 0x69, 0x6C, 0x65, 0x64, 0x0A]

variable (s : Surroundings)

/-- The loop of `main`, which has written `n` names. -/
def list (img : Image) (fd : Int) : Nat → Nat → Kernel → (Nat → UInt8) → Option (Int × Kernel)
  | 0, _, _, _ => none
  | bound + 1, n, k, data =>
      (k.sysRead img fd s.buf ((SBUFSIZE : Int) - 1)).bind fun r =>
        let data := applyStores data r.stores
        if r.value = 0 then
          some (0, r.kernel)
        else if r.value = -1 then
          (fdputs s n readFailed r.kernel).map fun k => (3, k)
        else
          let data := Function.update data r.value.toNat 0x0A
          (r.kernel.sysWrite s.junk 1 s.buf
              ⟨Kernel.firstBytes data SBUFSIZE ++ s.behind n, s.args n⟩ (r.value + 1)).bind
            fun (written, k) =>
              if written = -1 then some (3, k) else list img fd bound (n + 1) k data

/-- `main`. -/
def main (img : Image) (data : Nat → UInt8) (k : Kernel) (bound : Nat) : Option (Int × Kernel) :=
  (k.sysOpen img [0x2E]).bind fun (fd, k) =>
    if fd = -1 then
      (fdputs s 0 openFailed k).map fun k => (2, k)
    else
      list s img fd bound 0 k data

/-! ## The buffer -/

/-- What the write of a name sends: the name, a newline, and behind a name of 32 characters, whose
newline stands where its NUL was, what is behind the buffer. -/
def entryText (behind name : List UInt8) : List UInt8 :=
  name ++ 0x0A :: if name.length = 32 then cString behind else []

/-- What can be sent literally. -/
structure Sendable (behind name : List UInt8) : Prop where
  nonempty : name ≠ []
  noPercent : 0x25 ∉ name
  behind : name.length = 32 → 0 ∈ behind ∧ 0x25 ∉ cString behind

/-- The buffer that is written, for a name that a read has left there. -/
theorem firstBytes_buffer (data : Nat → UInt8) {name : List UInt8} (short : name.length ≤ 32) :
    Kernel.firstBytes (Function.update (applyStores data (storeRange 0 33 (fun _ => 0) ++
        storeRange 0 name.length fun i => name.getD i 0)) name.length 0x0A) SBUFSIZE =
      name ++ 0x0A :: List.replicate (32 - name.length) 0 := by
  apply List.ext_getElem
  · simp [Kernel.firstBytes, SBUFSIZE]
    omega
  · intro i inside _
    have below : i < 33 := by simpa [Kernel.firstBytes, SBUFSIZE] using inside
    simp only [Kernel.firstBytes, List.getElem_map, List.getElem_range]
    by_cases char : i < name.length
    · have apart : i ≠ name.length := Nat.ne_of_lt char
      rw [Function.update_of_ne apart, applyStores_append, applyStores_storeRange,
        List.getElem_append_left char]
      simp [char]
    · rw [List.getElem_append_right (Nat.le_of_not_lt char)]
      by_cases newline : i = name.length
      · subst newline
        simp
      · rw [Function.update_of_ne newline, applyStores_append, applyStores_storeRange,
          applyStores_storeRange]
        have behind : i - name.length = (i - name.length - 1) + 1 := by omega
        simp [char, below, List.getElem_cons, show i - name.length ≠ 0 by omega]

/-- The bytes of a write up to the first NUL. -/
theorem buffer_split {behind name : List UInt8} (short : name.length ≤ 32) (noNul : 0 ∉ name)
    (sendable : Sendable behind name) :
    ∃ after, name ++ 0x0A :: List.replicate (32 - name.length) 0 ++ behind =
        entryText behind name ++ 0 :: after ∧ Printf.Plain (entryText behind name) := by
  by_cases whole : name.length = 32
  · rcases sendable.behind whole with ⟨nul, noPercent⟩
    rcases cString_split nul with ⟨after, split⟩
    refine ⟨after, ?_, plain_of_noPercent ?_ ?_⟩
    · rw [entryText, if_pos whole, whole, Nat.sub_self, List.replicate_zero, List.append_assoc,
        List.append_assoc, List.cons_append, List.cons_append, List.nil_append, ← split]
    · simp [entryText, whole, noNul, zero_notMem_cString]
    · simp [entryText, whole, sendable.noPercent, noPercent]
  · have fewer : 32 - name.length = (31 - name.length) + 1 := by omega
    refine ⟨List.replicate (31 - name.length) 0 ++ behind, ?_, plain_of_noPercent ?_ ?_⟩
    · rw [entryText, if_neg whole, fewer, List.replicate_succ]
      simp
    · simp [entryText, whole, noNul]
    · simp [entryText, whole, sendable.noPercent]

/-! ## The listing -/

/-- The process runs and descriptor `i` is a directory. -/
structure Lists (k : Kernel) (p : ProcId) (i : Fin 8) : Prop extends Runs k p where
  isOpen : ((k.pcb p).fds i).flags = .fdAvail
  directory : ((k.pcb p).fds i).fopsPtr = .dir

variable {s} {k : Kernel} {p : ProcId} {i : Fin 8} {img : Image}

/-- The next entry that a read of the directory returns. -/
def atEntry (k : Kernel) (loc : UInt32) : Kernel :=
  withFiles k k.pcb loc

theorem sendToConsole_atEntry (loc : UInt32) (text : List UInt8) :
    (atEntry k loc).sendToConsole text = atEntry (k.sendToConsole text) loc := by
  rw [atEntry, sendToConsole_withFiles, atEntry, sendToConsole_pcb]

theorem Lists.sendToConsole (lists : Lists k p i) (text : List UInt8) :
    Lists (k.sendToConsole text) p i where
  toRuns := lists.toRuns.sendToConsole text
  isOpen := by
    rw [sendToConsole_pcb]
    exact lists.isOpen
  directory := by
    rw [sendToConsole_pcb]
    exact lists.directory

theorem Lists.atEntry (lists : Lists k p i) (loc : UInt32) : Lists (atEntry k loc) p i :=
  ⟨⟨lists.running, lists.scheduled, lists.stdoutOpen, lists.stdout⟩, lists.isOpen,
    lists.directory⟩

theorem Lists.sysRead (lists : Lists k p i) {buf : Nat} (notNull : buf ≠ 0) (nbytes : Int) :
    k.sysRead img i buf nbytes = some (k.directoryRead img) :=
  Kernel.sysRead_directory lists.running (FileTable.opened_coe lists.isOpen notNull)
    lists.directory nbytes

/-- What the entries of an image from one on send. -/
def listingText (s : Surroundings) (img : Image) (j count : Nat) : List UInt8 :=
  (List.range' j count).flatMap fun j => entryText (s.behind j) (img.name j)

theorem directoryRead_end (last : img.numDirectories ≤ k.directoryLoc.toNat) :
    k.directoryRead img = { value := 0, stores := [], kernel := atEntry k 0 } := by
  rw [Kernel.directoryRead_eq, if_neg (Nat.not_lt.mpr last), Image.entryRead_of_le img last]
  rfl

theorem directoryRead_name {j : Nat} (position : k.directoryLoc.toNat = j)
    (inside : j < img.numDirectories) :
    k.directoryRead img =
      { value := (img.name j).length
        stores := storeRange 0 33 (fun _ => 0) ++
          storeRange 0 (img.name j).length fun i => (img.name j).getD i 0
        kernel := atEntry k (k.directoryLoc + 1) } := by
  rw [← position] at inside ⊢
  rw [Kernel.directoryRead_eq, if_pos inside, Image.entryRead, if_pos inside]
  rfl

/-- The loop lists the entries that are left, and starts the directory again. -/
theorem list_returns (notNull : s.buf ≠ 0) (lists : Lists k p i) (data : Nat → UInt8)
    {j count : Nat} (position : k.directoryLoc.toNat = j) (left : j + count = img.numDirectories)
    (sendable : ∀ j < img.numDirectories, Sendable (s.behind j) (img.name j)) :
    Returns (fun bound => list s img i bound j k data)
      (0, atEntry (k.sendToConsole (listingText s img j count)) 0) := by
  induction count generalizing j k data with
  | zero =>
      have last : img.numDirectories ≤ k.directoryLoc.toNat := by omega
      refine Returns.round ?_
      simp only [list, lists.sysRead notNull, directoryRead_end last, Option.bind_some, if_true]
      rw [listingText, List.range'_zero, List.flatMap_nil, sendToConsole_nil]
      exact Returns.pure _
  | succ count ih =>
      have inside : j < img.numDirectories := by omega
      have entry := sendable j inside
      have short := img.length_name_le j
      rcases buffer_split short (img.zero_notMem_name j) entry with ⟨after, split, plain⟩
      have next : (k.directoryLoc + 1).toNat = j + 1 := by
        have small : img.numDirectories < 2 ^ 32 := img.word_lt 0
        rw [UInt32.toNat_add, UInt32.toNat_one]
        omega
      have sends : listingText s img j (count + 1) =
          entryText (s.behind j) (img.name j) ++ listingText s img (j + 1) count := by
        rw [listingText, List.range'_succ, List.flatMap_cons, listingText]
      have moved := lists.atEntry (k.directoryLoc + 1)
      have position' : ((atEntry k (k.directoryLoc + 1)).sendToConsole
          (entryText (s.behind j) (img.name j))).directoryLoc.toNat = j + 1 := by
        rw [sendToConsole_atEntry]
        exact next
      have later := ih (moved.sendToConsole (entryText (s.behind j) (img.name j)))
        (Function.update (applyStores data (storeRange 0 33 (fun _ => 0) ++
            storeRange 0 (img.name j).length fun i => (img.name j).getD i 0))
          (img.name j).length 0x0A)
        position' (by omega)
      have whole : atEntry (((atEntry k (k.directoryLoc + 1)).sendToConsole
          (entryText (s.behind j) (img.name j))).sendToConsole
            (listingText s img (j + 1) count)) 0 =
          atEntry (k.sendToConsole (listingText s img j (count + 1))) 0 := by
        rw [sendToConsole_append, ← sends, sendToConsole_atEntry]
        rfl
      rw [whole] at later
      have nonzero : ((img.name j).length : Int) ≠ 0 := by
        have positive := List.length_pos_iff.mpr entry.nonempty
        omega
      have reads : ((img.name j).length : Int) ≠ -1 := by omega
      have writes : ((entryText (s.behind j) (img.name j)).length : Int) ≠ -1 := by omega
      refine Returns.round ?_
      simp only [list, lists.sysRead notNull, directoryRead_name position inside, Option.bind_some,
        if_neg nonzero, if_neg reads, Int.toNat_natCast, firstBytes_buffer data short, split,
        moved.sysWrite notNull s.junk (s.args j) plain after, if_neg writes]
      exact later

/-- Where nothing else runs, a process that `execute` has started with the program `ls` lists the
directory: every name once, in the order of the entries. -/
theorem lists_directory {d : Dentry} (found : img.readDentryByName [0x2E] = some d)
    (directory : d.filetype = 1) (running : k.getPcbPtr = some p)
    (scheduled : (k.terminal k.curActiveTerminal).apn = some p)
    (fresh : (k.pcb p).fds = FileTable.initial) (start : k.directoryLoc = 0)
    (notNull : s.buf ≠ 0)
    (sendable : ∀ j < img.numDirectories, Sendable (s.behind j) (img.name j))
    (data : Nat → UInt8) :
    ∃ opened, k.sysOpen img [0x2E] = some (2, opened) ∧
      Returns (main s img data k)
        (0, opened.sendToConsole ((List.range img.numDirectories).flatMap fun j =>
          entryText (s.behind j) (img.name j))) := by
  have noClock : d.filetype ≠ 0 := by
    rw [directory]
    decide
  rcases sysOpen_fresh found noClock running scheduled fresh with
    ⟨opened, opens, runs, same, fds⟩
  have lists : Lists opened p 2 :=
    { runs with
      isOpen := by simp [fds, FileTable.bind, directory, FileTable.modify]
      directory := by simp [fds, FileTable.bind, directory, FileTable.modify] }
  refine ⟨opened, opens, ?_⟩
  have position : opened.directoryLoc.toNat = 0 := by rw [same, start, UInt32.toNat_zero]
  have listed := list_returns notNull lists data position (Nat.zero_add _) sendable
  have kept : atEntry opened 0 = opened := by
    rw [← start, ← same]
    rfl
  rw [listingText, ← List.range_eq_range', ← sendToConsole_atEntry, kept] at listed
  unfold main
  simp only [opens, Option.bind_some, if_neg (show ¬ (2 : Int) = -1 by decide)]
  exact listed

theorem lists_directory_sample :
    ∃ opened, started.sysOpen Image.sample [0x2E] = some (2, opened) ∧
      Returns (main surroundings Image.sample (fun _ => 0xFF) started)
        (0, opened.sendToConsole [0x2E, 0x0A, 0x73, 0x68, 0x65, 0x6C, 0x6C, 0x0A]) := by
  have found : Image.sample.readDentryByName [0x2E] = some (Image.sample.dentry 0) := rfl
  have count : Image.sample.numDirectories = 2 := by decide
  have first : Image.sample.name 0 = [0x2E] := by decide
  have second : Image.sample.name 1 = [0x73, 0x68, 0x65, 0x6C, 0x6C] := by decide
  have sendable : ∀ j < Image.sample.numDirectories,
      Sendable (surroundings.behind j) (Image.sample.name j) := by
    intro j inside
    rw [count] at inside
    interval_cases j
    · rw [first]
      exact ⟨by decide, by decide, by decide⟩
    · rw [second]
      exact ⟨by decide, by decide, by decide⟩
  have text : ((List.range Image.sample.numDirectories).flatMap fun j =>
      entryText (surroundings.behind j) (Image.sample.name j)) =
        [0x2E, 0x0A, 0x73, 0x68, 0x65, 0x6C, 0x6C, 0x0A] := by
    rw [count]
    simp [List.range_succ, entryText, first, second]
  have lists := lists_directory found rfl (by decide : started.getPcbPtr = some 0) rfl rfl rfl
    (by decide) sendable fun _ => 0xFF
  rwa [text] at lists

end Ls

end Ece391Os
