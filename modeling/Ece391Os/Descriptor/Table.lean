import Ece391Os.Descriptor.Calls
import Ece391Os.Transition.Run

/-!
# The descriptor table as a table of open files

The specification of `sys_open`, `sys_close` and `sys_read` on the descriptor table
of the calling process, over every history of calls.  Between two calls everything
but that table may change.
-/

namespace Ece391Os

open Transition

namespace FileTable

/-- Descriptor `i` is open. -/
def Open (fds : FileTable) (i : Fin 8) : Prop := (fds i).flags = .fdAvail

/-- Descriptor `i` is closed. -/
def Closed (fds : FileTable) (i : Fin 8) : Prop := (fds i).flags = .fdOccup

instance (fds : FileTable) (i : Fin 8) : Decidable (fds.Open i) :=
  inferInstanceAs (Decidable (_ = _))

instance (fds : FileTable) (i : Fin 8) : Decidable (fds.Closed i) :=
  inferInstanceAs (Decidable (_ = _))

variable {fds : FileTable} {i j : Fin 8}

theorem not_closed_iff : ¬ fds.Closed i ↔ fds.Open i :=
  FdFlag.ne_fdOccup_iff _

theorem Open.not_closed (isOpen : fds.Open i) : ¬ fds.Closed i :=
  not_closed_iff.mpr isOpen

@[simp]
theorem modify_self (change : FileDesc → FileDesc) : fds.modify i change i = change (fds i) :=
  Function.update_self ..

theorem modify_of_ne (change : FileDesc → FileDesc) (differs : j ≠ i) :
    fds.modify i change j = fds j :=
  Function.update_of_ne differs ..

/-- The checks of `sys_read` and `sys_write` let only open descriptors through. -/
theorem opened_eq_some {fd : Int} {buf : Nat} (slot : fds.opened fd buf = some i) :
    fd = i.val ∧ fds.Open i := by
  unfold opened at slot
  split at slot
  · cases slot
  split at slot
  · cases slot
  dsimp only at slot
  split at slot
  · cases slot
  rename_i inRange _ taken
  cases slot
  exact ⟨by simp only; omega, (FdFlag.ne_fdOccup_iff _).mp taken⟩

end FileTable

/-- The descriptor that an open of a directory entry leaves: position 0, the
operations of its type and, for a regular file, its inode. -/
def Dentry.descriptor (d : Dentry) : FileDesc where
  fopsPtr := if d.filetype = 0 then .rtc else if d.filetype = 1 then .dir else .file
  inode := if d.filetype = 2 then UInt32.ofNat d.inodeNumber else 0
  filePosition := 0
  flags := .fdAvail

namespace Image

variable (img : Image)

/-- The entries of the image have distinct names. -/
def DistinctNames : Prop :=
  ∀ m < img.numDirectories, ∀ n < img.numDirectories, img.name m = img.name n → m = n

/-- The types of the entries are RTC, directory and regular file. -/
def KnownTypes : Prop :=
  ∀ n < img.numDirectories, (img.dentry n).filetype ≤ 2

instance : Decidable img.DistinctNames :=
  inferInstanceAs (Decidable (∀ m < img.numDirectories, ∀ n < img.numDirectories, _))

instance : Decidable img.KnownTypes :=
  inferInstanceAs (Decidable (∀ n < img.numDirectories, _))

/-- The image has an entry of this name. -/
def Exists (filename : List UInt8) : Prop :=
  ∃ n < img.numDirectories, img.name n = filename

end Image

/-! ## The specification of one call -/

/-- `sys_open` returned `result` and turned the table `fds` into `fds'`. -/
structure OpenMeets (img : Image) (fds fds' : FileTable) (filename : List UInt8) (result : Int) :
    Prop where
  success_iff : 0 ≤ result ↔ img.Exists filename ∧ ∃ i, 2 ≤ i ∧ fds.Closed i
  lowest : ∀ i : Fin 8, result = i.val →
    2 ≤ i ∧ fds.Closed i ∧ ∀ j, 2 ≤ j → fds.Closed j → i ≤ j
  bound : ∀ i : Fin 8, result = i.val → ∀ n < img.numDirectories, img.name n = filename →
    fds' i = (img.dentry n).descriptor
  failure : result < 0 → result = -1 ∧ fds' = fds
  inTable : result < 8
  others : ∀ j : Fin 8, result ≠ j.val → fds' j = fds j

/-- `sys_close` of `fd` returned `result` and turned the table `fds` into `fds'`. -/
structure CloseMeets (fds fds' : FileTable) (fd result : Int) : Prop where
  success_iff : result = 0 ↔ ∃ i : Fin 8, fd = i.val ∧ 2 ≤ i ∧ fds.Open i
  closed : result = 0 → ∀ i : Fin 8, fd = i.val → fds'.Closed i
  failure : result ≠ 0 → result = -1 ∧ fds' = fds
  others : ∀ j : Fin 8, fd ≠ j.val → fds' j = fds j

/-- `sys_read` of `fd` returned `result` and turned the table `fds` into `fds'`. -/
structure ReadMeets (fds fds' : FileTable) (fd result : Int) : Prop where
  closed : (∀ i : Fin 8, fd = i.val → fds.Closed i) → result = -1
  positionOnly : ∀ j : Fin 8, ∃ position, fds' j = { fds j with filePosition := position }
  others : ∀ j : Fin 8, fd ≠ j.val → fds' j = fds j

/-- The slots from 2 on that are open have operations that a close accepts. -/
def FileTable.Bound (fds : FileTable) : Prop :=
  ∀ i, 2 ≤ i → fds.Open i → (fds i).fopsPtr ≠ .error

/-- A call on the descriptor table. -/
inductive TableCall where
  | openFile (filename : List UInt8)
  | closeFile (fd : Int)
  | readFile (fd : Int) (buf : Nat) (nbytes : Int)

namespace TableCall

/-- The system call made by a call on the table. -/
def perform (img : Image) (k : Kernel) : TableCall → Option (Int × Kernel)
  | .openFile filename => k.sysOpen img filename
  | .closeFile fd => k.sysClose fd
  | .readFile fd buf nbytes => (k.sysRead img fd buf nbytes).map fun r => (r.value, r.kernel)

/-- A call that does not wait, whatever it meets: it is no read of an open terminal or of an
open RTC. -/
def Immediate (fds : FileTable) (call : TableCall) : Prop :=
  ∀ (i : Fin 8) buf nbytes, call = .readFile i.val buf nbytes → fds.Open i →
    (fds i).fopsPtr ≠ .stdin ∧ (fds i).fopsPtr ≠ .rtc

/-- A read of a closed descriptor does not wait. -/
theorem immediate_of_closed {fds : FileTable} {fd : Int} {buf : Nat} {nbytes : Int}
    (closed : ∀ i : Fin 8, fd = i.val → fds.Closed i) :
    Immediate fds (.readFile fd buf nbytes) := by
  intro i buf' nbytes' same isOpen
  cases same
  exact absurd (closed i rfl) isOpen.not_closed

/-- The specification of a call. -/
def Meets (img : Image) (fds fds' : FileTable) (result : Int) : TableCall → Prop
  | .openFile filename => OpenMeets img fds fds' filename result
  | .closeFile fd => CloseMeets fds fds' fd result
  | .readFile fd _ _ => ReadMeets fds fds' fd result

end TableCall

namespace Kernel

variable (img : Image)

@[simp]
theorem rtcReset_pcb (k : Kernel) : k.rtcReset.pcb = k.pcb :=
  rfl

/-! ## Each call meets its specification -/

/-- An entry of a known type binds the claimed slot to its descriptor. -/
theorem bind_claimed (fds : FileTable) (i : Fin 8) (d : Dentry) (known : d.filetype ≤ 2) :
    (fds.modify i fun desc => { desc with flags := .fdAvail, filePosition := 0 }).bind i d =
      fds.modify i fun _ => d.descriptor := by
  have types : d.filetype = 0 ∨ d.filetype = 1 ∨ d.filetype = 2 := by omega
  rcases types with type | type | type <;>
    simp [FileTable.bind, FileTable.modify, Dentry.descriptor, type]

theorem openMeets_of_failure {fds : FileTable} {filename : List UInt8}
    (fails : ¬ (img.Exists filename ∧ ∃ i, 2 ≤ i ∧ fds.Closed i)) :
    OpenMeets img fds fds filename (-1) where
  success_iff := by simpa using fails
  lowest := by intro i equal; omega
  bound := by intro i equal; omega
  failure := fun _ => ⟨rfl, rfl⟩
  inTable := by decide
  others := fun _ _ => rfl

theorem sysOpen_meets {k : Kernel} {p : ProcId} (running : k.getPcbPtr = some p)
    (distinct : img.DistinctNames) (known : img.KnownTypes) (filename : List UInt8) :
    ∃ result k', k.sysOpen img filename = some (result, k') ∧
      OpenMeets img (k.pcb p).fds (k'.pcb p).fds filename result := by
  unfold sysOpen
  cases found : img.readDentryByName filename with
  | none =>
      refine ⟨-1, k, rfl, openMeets_of_failure img ?_⟩
      rintro ⟨⟨n, below, named⟩, _⟩
      exact (img.readDentryByName_eq_none_iff filename).mp found n below named
  | some d =>
      obtain ⟨n, below, named, rfl, _⟩ := img.readDentryByName_eq_some found
      simp only [running, Option.bind_eq_bind, Option.bind_some]
      cases claims : (k.pcb p).fds.claim 2 with
      | none =>
          refine ⟨-1, k, rfl, openMeets_of_failure img ?_⟩
          rintro ⟨_, i, from_, closed⟩
          exact FileTable.Open.not_closed (FileTable.claim_eq_none claims i from_) closed
      | some slot =>
          obtain ⟨i, fds⟩ := slot
          obtain ⟨from_, free, between, rfl⟩ := FileTable.claim_eq_some claims
          dsimp only
          rw [bind_claimed _ _ _ (known n below)]
          refine ⟨i.val, _, rfl, ?_⟩
          have table : ((if (img.dentry n).filetype = 0 then
              (k.setFds p ((k.pcb p).fds.modify i fun _ => (img.dentry n).descriptor)).rtcReset
              else k.setFds p ((k.pcb p).fds.modify i fun _ => (img.dentry n).descriptor)).pcb
              p).fds = (k.pcb p).fds.modify i fun _ => (img.dentry n).descriptor := by
            split <;> simp
          rw [table]
          refine ⟨?_, ?_, ?_, ?_, ?_, ?_⟩
          · exact iff_of_true (by omega) ⟨⟨n, below, named⟩, i, from_, free⟩
          · intro j equal
            obtain rfl : i = j := Fin.ext (by omega)
            refine ⟨from_, free, fun j fromJ closed => Fin.not_lt.mp fun before => ?_⟩
            exact FileTable.Open.not_closed (between j fromJ before) closed
          · intro j equal m belowM namedM
            obtain rfl : i = j := Fin.ext (by omega)
            rw [distinct m belowM n below (namedM.trans named.symm)]
            simp
          · intro negative
            omega
          · omega
          · intro j differs
            exact FileTable.modify_of_ne _ fun same => differs (by rw [same])

theorem sysClose_meets {k : Kernel} {p : ProcId} (running : k.getPcbPtr = some p)
    (bound : (k.pcb p).fds.Bound) (fd : Int) :
    ∃ result k', k.sysClose fd = some (result, k') ∧
      CloseMeets (k.pcb p).fds (k'.pcb p).fds fd result := by
  simp only [sysClose, running, Option.bind_eq_bind, Option.bind_some]
  cases slot : (k.pcb p).fds.closable fd with
  | none =>
      refine ⟨-1, k, rfl, ⟨?_, by omega, fun _ => ⟨rfl, rfl⟩, fun _ _ => rfl⟩⟩
      apply iff_of_false (by decide)
      rintro ⟨i, rfl, from_, isOpen⟩
      rw [FileTable.closable_coe isOpen from_] at slot
      cases slot
  | some i =>
      have accepted : fd = i.val ∧ 2 ≤ i ∧ (k.pcb p).fds.Open i := by
        unfold FileTable.closable at slot
        split at slot
        · cases slot
        · dsimp only at slot
          split at slot
          · cases slot
          · rename_i inRange taken
            cases slot
            refine ⟨by simp only; omega, Fin.le_def.mpr ?_, (FdFlag.ne_fdOccup_iff _).mp taken⟩
            simp only
            omega
      obtain ⟨rfl, from_, isOpen⟩ := accepted
      have noError := bound i from_ isOpen
      refine ⟨0, ((k.setFds p ((k.pcb p).fds.modify i fun d =>
        { d with flags := .fdOccup })).fopsClose ((k.pcb p).fds i).fopsPtr).2, ?_, ?_⟩
      · cases ops : ((k.pcb p).fds i).fopsPtr <;> simp_all [fopsClose]
      · have table : (((k.setFds p ((k.pcb p).fds.modify i fun d =>
            { d with flags := .fdOccup })).fopsClose ((k.pcb p).fds i).fopsPtr).2.pcb p).fds =
            (k.pcb p).fds.modify i fun d => { d with flags := .fdOccup } := by
          cases ((k.pcb p).fds i).fopsPtr <;> simp [fopsClose]
        rw [table]
        refine ⟨iff_of_true rfl ⟨i, rfl, from_, isOpen⟩, fun _ j equal => ?_, by simp, ?_⟩
        · obtain rfl : i = j := Fin.ext (by omega)
          simp [FileTable.Closed]
        · intro j differs
          exact FileTable.modify_of_ne _ fun same => differs (by rw [same])

/-- A read of one open descriptor changes at most its position. -/
theorem fopsRead_fds {k : Kernel} {p : ProcId} {i : Fin 8} {nbytes : Int} {r : ReadResult}
    (returns : k.fopsRead img p i nbytes = some r) :
    ∃ position, (r.kernel.pcb p).fds =
      (k.pcb p).fds.modify i fun d => { d with filePosition := position } := by
  have same : (k.pcb p).fds = (k.pcb p).fds.modify i fun d =>
      { d with filePosition := ((k.pcb p).fds i).filePosition } := by
    simp [FileTable.modify]
  unfold fopsRead at returns
  cases ops : ((k.pcb p).fds i).fopsPtr with
  | stdin =>
      simp only [ops] at returns
      obtain ⟨t, rfl⟩ := terminalRead_eq_some returns
      exact ⟨_, by simpa [setEflag, modifyTerm] using same⟩
  | rtc =>
      simp only [ops, rtcRead] at returns
      split at returns
      · cases returns
        exact ⟨_, same⟩
      · cases returns
  | dir =>
      simp only [ops] at returns
      cases returns
      refine ⟨((k.pcb p).fds i).filePosition, ?_⟩
      unfold directoryRead
      split <;> exact same
  | file =>
      simp only [ops] at returns
      cases returns
      exact ⟨_, by simp [fileRead, FileTable.modify]; rfl⟩
  | stdout =>
      simp only [ops] at returns
      cases returns
      exact ⟨_, same⟩
  | error =>
      simp only [ops] at returns
      cases returns
      exact ⟨_, same⟩

/-- A read that does not wait returns. -/
theorem sysRead_returns {k : Kernel} {p : ProcId} (running : k.getPcbPtr = some p) {fd : Int}
    {buf : Nat} {nbytes : Int}
    (immediate : (TableCall.readFile fd buf nbytes).Immediate (k.pcb p).fds) :
    ∃ r, k.sysRead img fd buf nbytes = some r := by
  simp only [sysRead, running, Option.bind_eq_bind, Option.bind_some]
  cases slot : (k.pcb p).fds.opened fd buf with
  | none => exact ⟨_, rfl⟩
  | some i =>
      obtain ⟨rfl, isOpen⟩ := FileTable.opened_eq_some slot
      obtain ⟨notStdin, notRtc⟩ := immediate i buf nbytes rfl isOpen
      simp only [fopsRead]
      cases ops : ((k.pcb p).fds i).fopsPtr with
      | stdin => exact absurd ops notStdin
      | rtc => exact absurd ops notRtc
      | _ => exact ⟨_, rfl⟩

theorem sysRead_meets {k : Kernel} {p : ProcId} (running : k.getPcbPtr = some p) {fd : Int}
    {buf : Nat} {nbytes : Int} {r : ReadResult} (returns : k.sysRead img fd buf nbytes = some r) :
    ReadMeets (k.pcb p).fds (r.kernel.pcb p).fds fd r.value := by
  simp only [sysRead, running, Option.bind_eq_bind, Option.bind_some] at returns
  cases slot : (k.pcb p).fds.opened fd buf with
  | none =>
      simp only [slot] at returns
      cases returns
      exact ⟨fun _ => rfl, fun j => ⟨((k.pcb p).fds j).filePosition, rfl⟩, fun _ _ => rfl⟩
  | some i =>
      simp only [slot] at returns
      obtain ⟨rfl, isOpen⟩ := FileTable.opened_eq_some slot
      obtain ⟨position, table⟩ := fopsRead_fds img returns
      rw [table]
      refine ⟨?_, fun j => ?_, fun j differs => ?_⟩
      · intro closed
        exact absurd (closed i rfl) isOpen.not_closed
      · by_cases same : j = i
        · subst j
          exact ⟨position, FileTable.modify_self _⟩
        · exact ⟨((k.pcb p).fds j).filePosition, FileTable.modify_of_ne _ same⟩
      · exact FileTable.modify_of_ne _ fun same => differs (by rw [same])

end Kernel

/-! ## Histories -/

namespace FileTable

/-- The standard descriptors are open and every slot that is open can be closed. -/
structure Sound (fds : FileTable) : Prop where
  stdin : fds.Open 0
  stdout : fds.Open 1
  bound : fds.Bound

theorem initial_sound : initial.Sound where
  stdin := rfl
  stdout := rfl
  bound := by
    unfold Bound
    decide

end FileTable

theorem Dentry.descriptor_fopsPtr_ne_error (d : Dentry) : d.descriptor.fopsPtr ≠ .error := by
  unfold descriptor
  dsimp only
  split
  · decide
  · split <;> decide

/-- Every call that meets its specification keeps the table sound. -/
theorem FileTable.Sound.meets {img : Image} {fds fds' : FileTable} {call : TableCall}
    {result : Int} (sound : fds.Sound) (meets : call.Meets img fds fds' result) : fds'.Sound := by
  -- a descriptor below 2 is neither returned by an open nor closed
  cases call with
  | openFile filename =>
      change OpenMeets img fds fds' filename result at meets
      have standard : ∀ j : Fin 8, j.val < 2 → fds' j = fds j := fun j below =>
        meets.others j fun equal => by
          have atLeast : 2 ≤ j.val := Fin.le_def.mp (meets.lowest j equal).1
          omega
      refine ⟨?_, ?_, fun i from_ isOpen => ?_⟩
      · exact (congrArg FileDesc.flags (standard 0 (by decide))).trans sound.stdin
      · exact (congrArg FileDesc.flags (standard 1 (by decide))).trans sound.stdout
      · by_cases returned : result = i.val
        · obtain ⟨⟨n, below, named⟩, _⟩ := meets.success_iff.mp (by omega)
          rw [meets.bound i returned n below named]
          exact Dentry.descriptor_fopsPtr_ne_error _
        · have same := meets.others i returned
          rw [same]
          exact sound.bound i from_ (by rwa [FileTable.Open, same] at isOpen)
  | closeFile fd =>
      change CloseMeets fds fds' fd result at meets
      by_cases success : result = 0
      · obtain ⟨i, rfl, from_, _⟩ := meets.success_iff.mp success
        have atLeast : 2 ≤ i.val := Fin.le_def.mp from_
        refine ⟨?_, ?_, fun j fromJ isOpen => ?_⟩
        · have same := meets.others 0 (by simp; omega)
          exact (congrArg FileDesc.flags same).trans sound.stdin
        · have same := meets.others 1 (by simp; omega)
          exact (congrArg FileDesc.flags same).trans sound.stdout
        · by_cases closed : i = j
          · subst j
            exact absurd (meets.closed success i rfl) isOpen.not_closed
          · have same := meets.others j fun equal => closed (Fin.ext (by omega))
            rw [same]
            exact sound.bound j fromJ (by rwa [FileTable.Open, same] at isOpen)
      · rw [(meets.failure success).2]
        exact sound
  | readFile fd buf nbytes =>
      change ReadMeets fds fds' fd result at meets
      refine ⟨?_, ?_, fun i from_ isOpen => ?_⟩
      · obtain ⟨_, same⟩ := meets.positionOnly 0
        rw [FileTable.Open, same]
        exact sound.stdin
      · obtain ⟨_, same⟩ := meets.positionOnly 1
        rw [FileTable.Open, same]
        exact sound.stdout
      · obtain ⟨_, same⟩ := meets.positionOnly i
        rw [FileTable.Open, same] at isOpen
        rw [same]
        exact sound.bound i from_ isOpen

/-- A call made by process `p` in a kernel that differs from the given one in the
descriptor table of `p`. -/
def tableStep (img : Image) (p : ProcId) : EventStep FileTable (Kernel × TableCall) :=
  fun fds event =>
    if event.1.getPcbPtr = some p then
      (event.2.perform img (event.1.setFds p fds)).map fun outcome => (outcome.2.pcb p).fds
    else
      none

/-- A call made with the table `fds` can return `result`. -/
def CallReturns (img : Image) (p : ProcId) (fds : FileTable) (event : Kernel × TableCall)
    (result : Int) : Prop :=
  ∃ k', event.2.perform img (event.1.setFds p fds) = some (result, k')

/-- A call of the executing process meets its specification; a call that does not wait
returns. -/
structure CallMeets (img : Image) (p : ProcId) (fds : FileTable) (event : Kernel × TableCall) :
    Prop where
  meets : event.1.getPcbPtr = some p →
    ∀ result k', event.2.perform img (event.1.setFds p fds) = some (result, k') →
      event.2.Meets img fds (k'.pcb p).fds result
  returns : event.1.getPcbPtr = some p → event.2.Immediate fds →
    ∃ result, CallReturns img p fds event result

/-- The descriptor table of process `p` over all histories of its calls. -/
structure TableOfOpenFiles (img : Image) (p : ProcId) : Prop where
  each : ∀ events, EachStep (tableStep img p) (CallMeets img p) FileTable.initial events
  standard : ∀ events fds, run (tableStep img p) FileTable.initial events = some fds →
    fds.Open 0 ∧ fds.Open 1
  /-- After a successful close of `fd`, reads of it return -1 as long as no open
  returns it. -/
  closed : ∀ before closing fd middle atClose afterClose atRead,
    run (tableStep img p) FileTable.initial before = some atClose →
    CallReturns img p atClose (closing, .closeFile fd) 0 →
    tableStep img p atClose (closing, .closeFile fd) = some afterClose →
    EachStep (tableStep img p) (fun fds event => ∀ filename, event.2 = .openFile filename →
      ¬ CallReturns img p fds event fd) afterClose middle →
    run (tableStep img p) afterClose middle = some atRead →
    ∀ (reading : Kernel) buf nbytes, reading.getPcbPtr = some p → ∀ result,
      CallReturns img p atRead (reading, .readFile fd buf nbytes) result ↔ result = -1

section History

variable {img : Image} {p : ProcId}

theorem callMeets_of_sound (distinct : img.DistinctNames) (known : img.KnownTypes)
    {fds : FileTable} (sound : fds.Sound) (event : Kernel × TableCall) :
    CallMeets img p fds event := by
  obtain ⟨k, call⟩ := event
  have table : ((k.setFds p fds).pcb p).fds = fds := Kernel.setFds_fds k p fds
  refine ⟨fun running result k' returned => ?_, fun running immediate => ?_⟩
  · cases call with
    | openFile filename =>
        obtain ⟨_, _, opens, meets⟩ :=
          Kernel.sysOpen_meets img (k := k.setFds p fds) running distinct known filename
        rw [table] at meets
        cases opens.symm.trans returned
        exact meets
    | closeFile fd =>
        obtain ⟨_, _, closes, meets⟩ := Kernel.sysClose_meets (k := k.setFds p fds) running
          (by rw [table]; exact sound.bound) fd
        rw [table] at meets
        cases closes.symm.trans returned
        exact meets
    | readFile fd buf nbytes =>
        obtain ⟨r, reads, equal⟩ := Option.map_eq_some_iff.mp returned
        cases equal
        have meets := Kernel.sysRead_meets img (k := k.setFds p fds) running reads
        rwa [table] at meets
  · cases call with
    | openFile filename =>
        obtain ⟨result, k', opens, _⟩ :=
          Kernel.sysOpen_meets img (k := k.setFds p fds) running distinct known filename
        exact ⟨result, k', opens⟩
    | closeFile fd =>
        obtain ⟨result, k', closes, _⟩ := Kernel.sysClose_meets (k := k.setFds p fds) running
          (by rw [table]; exact sound.bound) fd
        exact ⟨result, k', closes⟩
    | readFile fd buf nbytes =>
        obtain ⟨r, reads⟩ := Kernel.sysRead_returns img (k := k.setFds p fds) running
          (by rw [table]; exact immediate)
        exact ⟨r.value, r.kernel, by simp only [TableCall.perform, reads, Option.map_some]⟩

theorem tableStep_eq_some {fds fds' : FileTable} {event : Kernel × TableCall}
    (step : tableStep img p fds event = some fds') :
    event.1.getPcbPtr = some p ∧ ∃ result k',
      event.2.perform img (event.1.setFds p fds) = some (result, k') ∧ (k'.pcb p).fds = fds' := by
  unfold tableStep at step
  split at step
  · rename_i running
    obtain ⟨⟨result, k'⟩, returned, rfl⟩ := Option.map_eq_some_iff.mp step
    exact ⟨running, result, k', returned, rfl⟩
  · cases step

/-- A step from a sound table meets the specification of its call. -/
theorem tableStep_meets (distinct : img.DistinctNames) (known : img.KnownTypes)
    {fds fds' : FileTable} (sound : fds.Sound) {event : Kernel × TableCall}
    (step : tableStep img p fds event = some fds') :
    ∃ result, CallReturns img p fds event result ∧ event.2.Meets img fds fds' result := by
  obtain ⟨running, result, k', returned, rfl⟩ := tableStep_eq_some step
  exact ⟨result, ⟨k', returned⟩,
    (callMeets_of_sound distinct known sound event).meets running result k' returned⟩

theorem tableStep_sound (distinct : img.DistinctNames) (known : img.KnownTypes)
    {fds fds' : FileTable} (sound : fds.Sound) {event : Kernel × TableCall}
    (step : tableStep img p fds event = some fds') : fds'.Sound := by
  obtain ⟨_, _, meets⟩ := tableStep_meets distinct known sound step
  exact sound.meets meets

/-- A closed descriptor stays closed in a step that is no open returning it. -/
theorem tableStep_closed (distinct : img.DistinctNames) (known : img.KnownTypes)
    {fds fds' : FileTable} (sound : fds.Sound) {i : Fin 8} (closed : fds.Closed i)
    {event : Kernel × TableCall} (step : tableStep img p fds event = some fds')
    (unopened : ∀ filename, event.2 = .openFile filename →
      ¬ CallReturns img p fds event (i.val : Int)) : fds'.Closed i := by
  obtain ⟨result, returned, meets⟩ := tableStep_meets distinct known sound step
  obtain ⟨k, call⟩ := event
  cases call with
  | openFile filename =>
      have same := meets.others i fun equal => unopened filename rfl (equal ▸ returned)
      rwa [FileTable.Closed, same]
  | closeFile fd =>
      by_cases named : fd = i.val
      · by_cases success : result = 0
        · exact meets.closed success i named
        · rwa [(meets.failure success).2]
      · rwa [FileTable.Closed, meets.others i named]
  | readFile fd buf nbytes =>
      obtain ⟨_, same⟩ := meets.positionOnly i
      rwa [FileTable.Closed, same]

/-- For every image whose entries have distinct names and known types, the table
that `execute` gives to a process behaves as a table of open files. -/
theorem tableOfOpenFiles (img : Image) (distinct : img.DistinctNames) (known : img.KnownTypes)
    (p : ProcId) : TableOfOpenFiles img p where
  each := fun _ =>
    eachStep_always FileTable.Sound
      (fun _ _ _ sound step => tableStep_sound distinct known sound step)
      (fun _ event sound => callMeets_of_sound distinct known sound event) FileTable.initial_sound
  standard := by
    intro events fds reached
    have sound := run_invariant_always FileTable.Sound
      (fun _ _ _ sound step => tableStep_sound distinct known sound step)
      FileTable.initial_sound reached
    exact ⟨sound.stdin, sound.stdout⟩
  closed := by
    intro before closing fd middle atClose afterClose atRead reached returned closes unopened
      continued reading buf nbytes running result
    have sound := run_invariant_always FileTable.Sound
      (fun _ _ _ sound step => tableStep_sound distinct known sound step)
      FileTable.initial_sound reached
    have soundAfter := tableStep_sound distinct known sound closes
    -- the close succeeded, so it named a descriptor and left it closed
    obtain ⟨i, rfl, closedAfter⟩ : ∃ i : Fin 8, fd = i.val ∧ afterClose.Closed i := by
      obtain ⟨runningClose, _, _, performed, rfl⟩ := tableStep_eq_some closes
      obtain ⟨_, zero⟩ := returned
      cases performed.symm.trans zero
      have meets : CloseMeets atClose _ fd 0 :=
        (callMeets_of_sound distinct known sound _).meets runningClose _ _ performed
      obtain ⟨i, named, _⟩ := meets.success_iff.mp rfl
      exact ⟨i, named, meets.closed rfl i named⟩
    have atReading : atRead.Sound ∧ atRead.Closed i := run_invariant
      (fun fds => fds.Sound ∧ fds.Closed i)
      (fun _ _ _ holds unopened step => ⟨tableStep_sound distinct known holds.1 step,
        tableStep_closed distinct known holds.1 holds.2 step unopened⟩)
      ⟨soundAfter, closedAfter⟩ unopened continued
    have isClosed : ∀ j : Fin 8, (i.val : Int) = j.val → atRead.Closed j := by
      intro j same
      rw [← Fin.ext (by omega : i.val = j.val)]
      exact atReading.2
    have call : CallMeets img p atRead (reading, .readFile i.val buf nbytes) :=
      callMeets_of_sound distinct known atReading.1 _
    -- whatever such a read returns is -1, and it returns something
    have value : ∀ result, CallReturns img p atRead (reading, .readFile i.val buf nbytes) result →
        result = -1 := by
      rintro result ⟨k', performed⟩
      have meets : ReadMeets atRead _ i.val result := call.meets running _ _ performed
      exact meets.closed isClosed
    refine ⟨value result, ?_⟩
    rintro rfl
    obtain ⟨returned, reads⟩ := call.returns running (TableCall.immediate_of_closed isClosed)
    rwa [value returned reads] at reads

theorem tableOfOpenFiles_sample : TableOfOpenFiles Image.sample 0 :=
  tableOfOpenFiles Image.sample (by decide) (by decide) 0

end History

end Ece391Os
