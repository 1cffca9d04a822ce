import Ece391Os.Descriptor.FileReads
import Ece391Os.Descriptor.Table
import Ece391Os.Machine.Step

/-!
# Opening by name

The two lookups of directory entries agree.  A name that a directory listing returns opens
the first entry of that name when that entry is of a known type: `sys_open` claims a slot
before it looks at the type, and an entry of an unknown type leaves in the slot what the last
file had there.
-/

namespace Ece391Os

open Memory Transition

namespace Image

variable (img : Image)

/-- Entry `i` has this name when it is read by its index. -/
def Indexed (filename : List UInt8) (i : Nat) : Prop :=
  ∃ d, img.readDentryByIndex i = some d ∧ cString d.fileName = filename

/-- `d` is entry `i`, the first one of this name. -/
def FirstIndexed (filename : List UInt8) (i : Nat) (d : Dentry) : Prop :=
  img.readDentryByIndex i = some d ∧ cString d.fileName = filename ∧
    ∀ j < i, ¬ img.Indexed filename j

theorem readDentryByIndex_eq_some {i : Nat} {d : Dentry} :
    img.readDentryByIndex i = some d ↔ i < img.numDirectories ∧ d = img.dentry i := by
  unfold readDentryByIndex
  split
  · rename_i beyond
    constructor
    · intro found
      cases found
    · rintro ⟨below, _⟩
      exact absurd below (Nat.not_lt.mpr beyond)
  · rename_i within
    constructor
    · intro found
      cases found
      exact ⟨Nat.lt_of_not_le within, rfl⟩
    · rintro ⟨_, rfl⟩
      rfl

theorem indexed_iff {filename : List UInt8} {i : Nat} :
    img.Indexed filename i ↔ i < img.numDirectories ∧ img.name i = filename := by
  constructor
  · rintro ⟨d, found, named⟩
    rcases (img.readDentryByIndex_eq_some).mp found with ⟨below, rfl⟩
    exact ⟨below, named⟩
  · rintro ⟨below, named⟩
    exact ⟨img.dentry i, (img.readDentryByIndex_eq_some).mpr ⟨below, rfl⟩, named⟩

/-- The search by name finds the first entry that has the name when read by its index. -/
theorem readDentryByName_eq_some_iff {filename : List UInt8} {d : Dentry} :
    img.readDentryByName filename = some d ↔ ∃ i, img.FirstIndexed filename i d := by
  rw [readDentryByName_eq, Option.map_eq_some_iff]
  constructor
  · rintro ⟨i, first, rfl⟩
    rw [List.find?_range_eq_some] at first
    rcases first with ⟨named, below, before⟩
    refine ⟨i, ?_, of_decide_eq_true named, ?_⟩
    · exact (img.readDentryByIndex_eq_some).mpr ⟨List.mem_range.mp below, rfl⟩
    · intro j earlier indexed
      simpa [((img.indexed_iff).mp indexed).2] using before j earlier
  · rintro ⟨i, found, named, before⟩
    rcases (img.readDentryByIndex_eq_some).mp found with ⟨below, rfl⟩
    refine ⟨i, List.find?_range_eq_some.mpr ⟨?_, List.mem_range.mpr below, ?_⟩, rfl⟩
    · exact decide_eq_true named
    · intro j earlier
      have unnamed : img.name j ≠ filename := fun same =>
        before j earlier ((img.indexed_iff).mpr ⟨Nat.lt_trans earlier below, same⟩)
      simpa using unnamed

theorem isSome_readDentryByName_iff {filename : List UInt8} :
    (img.readDentryByName filename).isSome = true ↔
      ∃ i < img.numDirectories, img.Indexed filename i := by
  rw [Option.isSome_iff_ne_none, ne_eq, readDentryByName_eq_none_iff]
  simp only [not_forall, not_not, indexed_iff]
  constructor
  · rintro ⟨i, below, named⟩
    exact ⟨i, below, below, named⟩
  · rintro ⟨i, below, _, named⟩
    exact ⟨i, below, named⟩

end Image

/-! ## Entries and the descriptors opened for them -/

/-- The operation table that belongs to the type of an entry. -/
def Dentry.operations (d : Dentry) : Option Fops :=
  match d.filetype with
  | 0 => some .rtc
  | 1 => some .dir
  | 2 => some .file
  | _ => none

theorem Dentry.operations_eq_none_iff {d : Dentry} : d.operations = none ↔ 2 < d.filetype := by
  unfold operations
  split <;> simp_all
  omega

theorem Dentry.operations_of_known {d : Dentry} (known : d.filetype ≤ 2) :
    d.operations = some d.descriptor.fopsPtr := by
  have types : d.filetype = 0 ∨ d.filetype = 1 ∨ d.filetype = 2 := by omega
  rcases types with type | type | type <;> simp [operations, descriptor, type]

/-- A descriptor that is open for an entry: at position 0, with the operations that belong to
the type of the entry and, for a regular file, its inode. -/
structure Dentry.DescribedBy (d : Dentry) (desc : FileDesc) : Prop where
  operations : d.operations = some desc.fopsPtr
  inode : d.filetype = 2 → desc.inode = UInt32.ofNat d.inodeNumber
  position : desc.filePosition = 0
  isOpen : desc.flags = .fdAvail

/-- No descriptor is open for an entry of an unknown type. -/
theorem Dentry.DescribedBy.known {d : Dentry} {desc : FileDesc} (described : d.DescribedBy desc) :
    d.filetype ≤ 2 := by
  by_contra unknown
  have without := Dentry.operations_eq_none_iff.mpr (Nat.lt_of_not_le unknown)
  rw [described.operations] at without
  cases without

theorem Dentry.describedBy_descriptor {d : Dentry} (known : d.filetype ≤ 2) :
    d.DescribedBy d.descriptor where
  operations := Dentry.operations_of_known known
  inode regular := if_pos regular
  position := rfl
  isOpen := rfl

namespace Kernel

/-- Resetting the clock does not touch the descriptor tables. -/
theorem fds_rtcReset_setFds (k : Kernel) (rtc : Prop) [Decidable rtc] (p : ProcId)
    (fds : FileTable) :
    ((if rtc then (k.setFds p fds).rtcReset else k.setFds p fds).pcb p).fds = fds := by
  split <;> simp

/-- `sys_open` of a name that is found claims the first free slot and binds it by the type of
the entry, or returns -1 when no slot is free. -/
theorem sysOpen_of_found {img : Image} {filename : List UInt8} {d : Dentry}
    (found : img.readDentryByName filename = some d) {k : Kernel} {p : ProcId}
    (running : k.getPcbPtr = some p) :
    match (k.pcb p).fds.claim 2 with
    | none => k.sysOpen img filename = some (-1, k)
    | some (index, fds) =>
        ∃ k', k.sysOpen img filename = some ((index.val : Int), k') ∧
          (k'.pcb p).fds = fds.bind index d := by
  simp only [sysOpen, found, running, Option.bind_eq_bind, Option.bind_some]
  cases (k.pcb p).fds.claim 2 with
  | none => rfl
  | some slot => exact ⟨_, rfl, fds_rtcReset_setFds k _ p _⟩

/-- `sys_open` gives process `p` a descriptor for the entry `d`. -/
def OpensEntry (img : Image) (k : Kernel) (p : ProcId) (filename : List UInt8) (d : Dentry) :
    Prop :=
  ∃ (i : Fin 8) (k' : Kernel), k.sysOpen img filename = some ((i.val : Int), k') ∧
    d.DescribedBy ((k'.pcb p).fds i)

/-- `sys_open` gives a descriptor for the entry found exactly when that is of a known type and
a slot is free. -/
theorem opensEntry_iff {img : Image} {filename : List UInt8} {d : Dentry}
    (found : img.readDentryByName filename = some d) {k : Kernel} {p : ProcId}
    (running : k.getPcbPtr = some p) :
    k.OpensEntry img p filename d ↔ d.filetype ≤ 2 ∧ ∃ i, 2 ≤ i ∧ (k.pcb p).fds.Closed i := by
  have opens := sysOpen_of_found found running
  cases claims : (k.pcb p).fds.claim 2 with
  | none =>
      rw [claims] at opens
      apply iff_of_false
      · rintro ⟨i, k', opens', _⟩
        cases opens.symm.trans opens'
      · rintro ⟨_, i, from_, closed⟩
        exact FileTable.Open.not_closed (FileTable.claim_eq_none claims i from_) closed
  | some slot =>
      rcases slot with ⟨i, fds⟩
      rw [claims] at opens
      rcases opens with ⟨k', opens, table⟩
      rcases FileTable.claim_eq_some claims with ⟨from_, free, _, rfl⟩
      constructor
      · rintro ⟨_, _, _, described⟩
        exact ⟨described.known, i, from_, free⟩
      · rintro ⟨known, _⟩
        refine ⟨i, k', opens, ?_⟩
        rw [table, bind_claimed _ _ _ known, FileTable.modify_self]
        exact Dentry.describedBy_descriptor known

/-- The name that a read of a directory leaves in a buffer. -/
def listedName (old : Nat → UInt8) (stores : Stores Nat) : List UInt8 :=
  cString ((List.range 33).map (applyStores old stores))

/-- A name stored over 33 NULs is read back, whatever the buffer held before. -/
theorem listedName_eq {filename : List UInt8} (noNul : 0 ∉ filename)
    (short : filename.length ≤ 32) (old : Nat → UInt8) :
    listedName old (storeRange 0 33 (fun _ => 0) ++
      storeRange 0 filename.length fun i => filename.getD i 0) = filename := by
  have bytes : (List.range 33).map (applyStores old (storeRange 0 33 (fun _ => 0) ++
      storeRange 0 filename.length fun i => filename.getD i 0)) =
      filename ++ 0 :: List.replicate (32 - filename.length) 0 := by
    apply List.ext_getElem
    · simp
      omega
    · intro i inside _
      have below : i < 33 := by simpa using inside
      rw [List.getElem_map, List.getElem_range, applyStores_append, applyStores_storeRange,
        applyStores_storeRange]
      by_cases char : i < filename.length
      · simp [char]
      · simp [char, below, List.getElem_append, ← List.replicate_succ]
  rw [listedName, bytes, cString_append_zero noNul]

/-- A read of an open directory returns the entry at the global position. -/
theorem sysRead_directory {img : Image} {k : Kernel} {p : ProcId} {fd : Int} {i : Fin 8}
    {buf : Nat} (running : k.getPcbPtr = some p) (isOpen : (k.pcb p).fds.opened fd buf = some i)
    (directory : ((k.pcb p).fds i).fopsPtr = .dir) (nbytes : Int) :
    k.sysRead img fd buf nbytes = some (k.directoryRead img) := by
  simp only [sysRead, fopsRead, running, isOpen, directory, Option.bind_eq_bind, Option.bind_some]

theorem listedName_directoryRead {img : Image} {k : Kernel} {d : Dentry}
    (entry : img.readDentryByIndex k.directoryLoc.toNat = some d) (old : Nat → UInt8) :
    listedName old (k.directoryRead img).stores = cString d.fileName ∧
      (k.directoryRead img).value = (cString d.fileName).length := by
  have read : k.directoryRead img =
      { value := (cString d.fileName).length
        stores := storeRange 0 33 (fun _ => 0) ++
          storeRange 0 (cString d.fileName).length fun i => (cString d.fileName).getD i 0
        kernel := { k with directoryLoc := k.directoryLoc + 1 } } := by
    rw [directoryRead, entry]
  rcases (img.readDentryByIndex_eq_some).mp entry with ⟨_, rfl⟩
  rw [read]
  exact ⟨listedName_eq (img.zero_notMem_name _) (img.length_name_le _) old, rfl⟩

/-- Names and indices lead to the same entries: the search by name finds the first entry
that has the name when read by its index, and it fails for every other name.  A name that a
directory listing leaves in a buffer opens the first entry of that name exactly when that
entry is of a known type and a slot is free. -/
theorem lookups_agree (img : Image) :
    (∀ filename, (img.readDentryByName filename).isSome = true ↔
        ∃ i < img.numDirectories, img.Indexed filename i) ∧
      (∀ filename d, img.readDentryByName filename = some d ↔
        ∃ i, img.FirstIndexed filename i d) ∧
      (∀ filename, 32 < filename.length → img.readDentryByName filename = none) ∧
      ∀ (k : Kernel) (p : ProcId) (fd : Int) (i : Fin 8) (buf : Nat) (nbytes : Int) (d : Dentry),
        k.getPcbPtr = some p → (k.pcb p).fds.opened fd buf = some i →
        ((k.pcb p).fds i).fopsPtr = .dir → img.readDentryByIndex k.directoryLoc.toNat = some d →
        ∃ r n first, k.sysRead img fd buf nbytes = some r ∧
          r.value = (cString d.fileName).length ∧
          img.FirstIndexed (cString d.fileName) n first ∧
          ∀ old, listedName old r.stores = cString d.fileName ∧
            ∀ (k' : Kernel) (p' : ProcId), k'.getPcbPtr = some p' →
              (k'.OpensEntry img p' (listedName old r.stores) first ↔
                first.filetype ≤ 2 ∧ ∃ j, 2 ≤ j ∧ (k'.pcb p').fds.Closed j) := by
  refine ⟨fun filename => img.isSome_readDentryByName_iff,
    fun filename d => img.readDentryByName_eq_some_iff, ?_, ?_⟩
  · intro filename long
    rw [Image.readDentryByName_eq_none_iff]
    rintro i _ rfl
    exact absurd (img.length_name_le i) (Nat.not_le.mpr long)
  · intro k p fd i buf nbytes d running isOpen directory entry
    have named : ∃ n < img.numDirectories, img.Indexed (cString d.fileName) n :=
      ⟨_, ((img.readDentryByIndex_eq_some).mp entry).1, d, entry, rfl⟩
    rcases Option.isSome_iff_exists.mp ((img.isSome_readDentryByName_iff).mpr named)
      with ⟨first, found⟩
    rcases (img.readDentryByName_eq_some_iff).mp found with ⟨n, isFirst⟩
    refine ⟨_, n, first, sysRead_directory running isOpen directory nbytes,
      (listedName_directoryRead entry fun _ => 0).2, isFirst, ?_⟩
    intro old
    have read := (listedName_directoryRead entry old).1
    rw [read]
    exact ⟨rfl, fun k' p' running' => opensEntry_iff found running'⟩

/-- The name `.`. -/
def dotName : List UInt8 := [0x2E]

/-- The first shell has the directory open as descriptor 2. -/
def dotRun : BootRun Env.sample [.openFile dotName]
    (fun k => (k.getPcbPtr, (k.pcb 0).fds.opened 2 0x8048000, ((k.pcb 0).fds 2).fopsPtr,
      k.directoryLoc, ((k.pcb 0).fds 3).flags))
    (some 0, some 2, .dir, 0, .fdOccup) :=
  .of (by decide +kernel)

/-- The name `shell` is found by both lookups, and `.` is listed first and can be opened. -/
theorem lookups_agree_sample :
    (∃ i d, Image.sample.FirstIndexed Env.shellName i d ∧
        Image.sample.readDentryByName Env.shellName = some d) ∧
      ∃ r first, dotRun.final.sysRead Image.sample 2 0x8048000 33 = some r ∧
        listedName (fun _ => 0) r.stores = dotName ∧
        dotRun.final.OpensEntry Image.sample 0 dotName first := by
  have agree := lookups_agree Image.sample
  constructor
  · have named : ∃ i < Image.sample.numDirectories, Image.sample.Indexed Env.shellName i :=
      ⟨1, by decide, (Image.sample.indexed_iff).mpr ⟨by decide, by decide⟩⟩
    rcases Option.isSome_iff_exists.mp ((agree.1 Env.shellName).mpr named) with ⟨d, found⟩
    rcases (agree.2.1 Env.shellName d).mp found with ⟨i, isFirst⟩
    exact ⟨i, d, isFirst, found⟩
  · rcases dotRun with ⟨start, final, booted, reached, saw⟩
    simp only [Prod.mk.injEq] at saw
    rcases saw with ⟨running, isOpen, directory, position, free⟩
    have entry : Image.sample.readDentryByIndex final.directoryLoc.toNat =
        some (Image.sample.dentry 0) := by
      rw [position]
      rfl
    have name : cString (Image.sample.dentry 0).fileName = dotName := by decide
    rcases agree.2.2.2 final 0 2 2 0x8048000 33 _ running isOpen directory entry
      with ⟨r, n, first, reads, _, isFirst, leaves⟩
    rcases leaves fun _ => 0 with ⟨listed, opens⟩
    have opens := (opens final 0 running).mpr
    rw [listed, name] at opens
    rw [name] at isFirst
    have found := (agree.2.1 dotName first).mpr ⟨n, isFirst⟩
    have same : Image.sample.readDentryByName dotName = some (Image.sample.dentry 0) := rfl
    cases found.symm.trans same
    exact ⟨r, _, reads, listed.trans name, opens ⟨by decide, 3, by decide, free⟩⟩

/-- A kernel whose image has, besides the file `shell`, the directory `.` and an entry `x` of
type 3. -/
def untypedListEnv : Env :=
  { Env.sample with
    image := Image.ofBytes
      [(0, [3, 0, 0, 0, 1, 0, 0, 0, 1]),
        (64, [0x73, 0x68, 0x65, 0x6C, 0x6C]), (96, [2]),
        (128, [0x2E]), (160, [1]),
        (192, [0x78]), (224, [3]),
        (4096, [28]),
        (8192, [0x7F, 0x45, 0x4C, 0x46])] }

/-- The shell opens `shell` and the directory, closes `shell` and lists two entries; the next
one is `x`, whose open returns the slot of `shell`. -/
def untypedListRun : BootRun untypedListEnv
    [.openFile Env.shellName, .openFile dotName, .closeFile 2, .read 3 0x8048000 33,
      .read 3 0x8048000 33]
    (fun k => (k.getPcbPtr, (k.pcb 0).fds 3, k.directoryLoc,
      (k.sysOpen untypedListEnv.image [0x78]).map fun opened =>
        (opened.1, ((opened.2.pcb 0).fds 2).fopsPtr)))
    (some 0, ⟨.dir, 0, 0, .fdAvail⟩, 2, some (2, .file)) :=
  .of (by decide +kernel)

/-- The listing returns `x`, and an open of `x` returns a descriptor with the operations of
the file `shell` that was closed. -/
theorem listed_opens_other :
    ∃ start final r opened, boot untypedListEnv default = some start ∧
      run (Kernel.step untypedListEnv) start
        [.openFile Env.shellName, .openFile dotName, .closeFile 2, .read 3 0x8048000 33,
          .read 3 0x8048000 33] = some final ∧
      final.sysRead untypedListEnv.image 3 0x8048000 33 = some r ∧
      (∀ old, listedName old r.stores = [0x78]) ∧
      untypedListEnv.image.FirstIndexed [0x78] 2 (untypedListEnv.image.dentry 2) ∧
      final.sysOpen untypedListEnv.image [0x78] = some (2, opened) ∧
      ((opened.pcb 0).fds 2).fopsPtr = .file ∧
      ¬ final.OpensEntry untypedListEnv.image 0 [0x78] (untypedListEnv.image.dentry 2) := by
  rcases untypedListRun with ⟨start, final, booted, reached, saw⟩
  simp only [Prod.mk.injEq, Option.map_eq_some_iff] at saw
  rcases saw with ⟨running, directory, position, ⟨result, opened⟩, opens, rfl, kept⟩
  have isOpen : (final.pcb 0).fds.opened ((3 : Fin 8).val : Int) 0x8048000 = some 3 := by
    apply FileTable.opened_coe _ (by decide)
    rw [directory]
  have entry : untypedListEnv.image.readDentryByIndex final.directoryLoc.toNat =
      some (untypedListEnv.image.dentry 2) := by
    rw [position]
    rfl
  have isFirst : untypedListEnv.image.FirstIndexed [0x78] 2 (untypedListEnv.image.dentry 2) := by
    refine ⟨rfl, by decide, fun j earlier indexed => ?_⟩
    have named := ((untypedListEnv.image.indexed_iff).mp indexed).2
    have which : j = 0 ∨ j = 1 := by omega
    rcases which with rfl | rfl
    · exact absurd named (by decide)
    · exact absurd named (by decide)
  have reads : final.sysRead untypedListEnv.image 3 0x8048000 33 =
      some (final.directoryRead untypedListEnv.image) :=
    sysRead_directory running isOpen (by rw [directory]) 33
  have name : cString (untypedListEnv.image.dentry 2).fileName = [0x78] := by decide
  refine ⟨start, final, _, opened, booted, reached, reads, fun old => ?_, isFirst, opens, kept, ?_⟩
  · exact (listedName_directoryRead entry old).1.trans name
  rintro ⟨_, _, _, described⟩
  exact absurd described.known (by decide)

end Kernel

/-! ## What an open binds -/

/-- `sys_open` returned `result` and turned the table `fds` into `fds'`: a slot returned
is bound to the entry found, and a call that cannot bind a slot fails. -/
structure OpenBinds (img : Image) (filename : List UInt8) (fds fds' : FileTable) (result : Int) :
    Prop where
  bound : 2 ≤ result → ∃ d, ∃ i : Fin 8, img.readDentryByName filename = some d ∧
    result = i.val ∧ d.operations = some (fds' i).fopsPtr ∧
    (d.filetype = 2 → (fds' i).inode = UInt32.ofNat d.inodeNumber)
  unnamed : img.readDentryByName filename = none → result = -1
  untyped : ∀ d, img.readDentryByName filename = some d → d.operations = none → result = -1
  full : (∀ i, 2 ≤ i → fds.Open i) → result = -1
  unchanged : result < 2 → result = -1 ∧ fds' = fds

namespace Kernel

/-- `sys_open` returns and does what `OpenBinds` says. -/
def OpensBound (img : Image) (k : Kernel) (p : ProcId) (filename : List UInt8) : Prop :=
  ∃ result k', k.sysOpen img filename = some (result, k') ∧
    OpenBinds img filename (k.pcb p).fds (k'.pcb p).fds result

theorem openBinds_failed {img : Image} {filename : List UInt8} (fds : FileTable) :
    OpenBinds img filename fds fds (-1) where
  bound := by
    intro positive
    cases positive
  unnamed _ := rfl
  untyped _ _ _ := rfl
  full _ := rfl
  unchanged _ := ⟨rfl, rfl⟩

/-- A slot claimed for an entry of a known type is bound to it. -/
theorem openBinds_claimed {img : Image} {filename : List UInt8} {d : Dentry} {fds : FileTable}
    {i : Fin 8} (found : img.readDentryByName filename = some d) (known : d.filetype ≤ 2)
    (from_ : 2 ≤ i) (free : fds.Closed i) :
    OpenBinds img filename fds (fds.modify i fun _ => d.descriptor) i.val where
  bound := by
    intro _
    refine ⟨d, i, found, rfl, ?_, ?_⟩
    · rw [FileTable.modify_self]
      exact Dentry.operations_of_known known
    · intro regular
      rw [FileTable.modify_self]
      exact if_pos regular
  unnamed missing := by
    rw [found] at missing
    cases missing
  untyped := by
    intro d' found' unknown
    cases found.symm.trans found'
    exact absurd (Dentry.operations_eq_none_iff.mp unknown) (Nat.not_lt.mpr known)
  full allOpen := absurd free (FileTable.Open.not_closed (allOpen i from_))
  unchanged below := by
    have atLeast := Fin.le_def.mp from_
    change 2 ≤ i.val at atLeast
    exact absurd below (by omega)

/-- `sys_open` returns a descriptor that it did not bind exactly when the entry found is of
an unknown type and a slot is free. -/
theorem opensBound_iff {img : Image} {k : Kernel} {p : ProcId} (running : k.getPcbPtr = some p)
    (filename : List UInt8) :
    k.OpensBound img p filename ↔
      ¬ ((∃ d, img.readDentryByName filename = some d ∧ d.operations = none) ∧
        ∃ i, 2 ≤ i ∧ (k.pcb p).fds.Closed i) := by
  cases found : img.readDentryByName filename with
  | none =>
      have fails : k.sysOpen img filename = some (-1, k) := by
        rw [sysOpen, found]
      refine iff_of_true ⟨-1, k, fails, openBinds_failed _⟩ ?_
      rintro ⟨⟨d, entry, _⟩, _⟩
      cases entry
  | some d =>
      have opens := sysOpen_of_found found running
      cases claims : (k.pcb p).fds.claim 2 with
      | none =>
          rw [claims] at opens
          refine iff_of_true ⟨-1, k, opens, openBinds_failed _⟩ ?_
          rintro ⟨_, i, from_, closed⟩
          exact FileTable.Open.not_closed (FileTable.claim_eq_none claims i from_) closed
      | some slot =>
          rcases slot with ⟨i, fds⟩
          rw [claims] at opens
          rcases opens with ⟨k', opens, table⟩
          rcases FileTable.claim_eq_some claims with ⟨from_, free, _, rfl⟩
          have atLeast := Fin.le_def.mp from_
          change 2 ≤ i.val at atLeast
          by_cases known : d.filetype ≤ 2
          · refine iff_of_true ⟨i.val, k', opens, ?_⟩ ?_
            · rw [table, bind_claimed _ _ _ known]
              exact openBinds_claimed found known from_ free
            · rintro ⟨⟨d', entry, unknown⟩, _⟩
              cases entry
              exact absurd known (Nat.not_le.mpr (Dentry.operations_eq_none_iff.mp unknown))
          · have unknown : d.operations = none :=
              Dentry.operations_eq_none_iff.mpr (Nat.lt_of_not_le known)
            refine iff_of_false ?_ fun never => never ⟨⟨d, rfl, unknown⟩, i, from_, free⟩
            rintro ⟨result, k'', opens', binds⟩
            cases opens.symm.trans opens'
            have failed := binds.untyped d found unknown
            omega

theorem opensBound_sample :
    openingFile.getPcbPtr = some 0 ∧ openingFile.OpensBound Image.sample 0 Env.shellName := by
  have running : openingFile.getPcbPtr = some 0 := by decide
  refine ⟨running, (opensBound_iff running Env.shellName).mpr ?_⟩
  rintro ⟨⟨d, found, unknown⟩, _⟩
  have entry : Image.sample.readDentryByName Env.shellName = some (Image.sample.dentry 1) := rfl
  cases entry.symm.trans found
  revert unknown
  decide

/-- A kernel whose image has, besides the file `shell`, an entry `x` of type 3. -/
def untypedEnv : Env :=
  { Env.sample with
    image := Image.ofBytes
      [(0, [2, 0, 0, 0, 1, 0, 0, 0, 1]),
        (64, [0x73, 0x68, 0x65, 0x6C, 0x6C]), (96, [2]),
        (128, [0x78]), (160, [3]),
        (4096, [28]),
        (8192, [0x7F, 0x45, 0x4C, 0x46])] }

/-- The shell opens and closes the file `shell`; then `x` gets its slot. -/
def reopenRun : BootRun untypedEnv [.openFile Env.shellName, .closeFile 2]
    (fun k => (k.getPcbPtr, ((k.pcb 0).fds 2).flags,
      (k.sysOpen untypedEnv.image [0x78]).map fun opened =>
        (opened.1, ((opened.2.pcb 0).fds 2).fopsPtr)))
    (some 0, .fdOccup, some (2, .file)) :=
  .of (by decide +kernel)

/-- The descriptor returned for `x` has the operations of the file that was closed. -/
theorem untyped_keeps_file :
    ∃ start final opened, boot untypedEnv default = some start ∧
      run (Kernel.step untypedEnv) start [.openFile Env.shellName, .closeFile 2] = some final ∧
      final.sysOpen untypedEnv.image [0x78] = some (2, opened) ∧
      ((opened.pcb 0).fds 2).fopsPtr = .file ∧ ¬ final.OpensBound untypedEnv.image 0 [0x78] := by
  rcases reopenRun with ⟨start, final, booted, reached, saw⟩
  simp only [Prod.mk.injEq, Option.map_eq_some_iff] at saw
  rcases saw with ⟨_, _, ⟨result, opened⟩, opens, rfl, kept⟩
  refine ⟨start, final, opened, booted, reached, opens, kept, ?_⟩
  rintro ⟨result, k', opens', binds⟩
  cases opens.symm.trans opens'
  have failed := binds.untyped (untypedEnv.image.dentry 1) rfl rfl
  cases failed

end Kernel

end Ece391Os
