import Ece391Os.Process.StartsExecutables
import Ece391Os.FileSys.Slice

/-!
# Loading a program

`execute` loads a program by one call of `read_data` with the length 100000, whose result it
does not look at.  Of a longer file the rest of the frame keeps what it held before.
-/

namespace Ece391Os

open Memory Transition

namespace Image

variable {img : Image}

/-- The bytes of a file at a place are those of its content. -/
theorem take_drop_content {inode start n : Nat} (inFile : start + n ≤ img.fileSize inode) :
    ((img.content inode).drop start).take n =
      (List.range n).map fun i => img.fileByte inode (start + i) := by
  apply List.ext_getElem
  · simp [content]
    omega
  · intro i _ _
    simp [content]

end Image

/-- The little-endian word of four bytes. -/
def littleEndian (bytes : List UInt8) : Nat :=
  bytes.foldr (fun byte rest => byte.toNat + 2 ^ 8 * rest) 0

namespace Command

/-- The entry point that `execute` finds in the bytes 24 to 27 of a file. -/
theorem entryLocation_eq {img : Image} {c : Command} {parsed : Parsed} {d : Dentry}
    {program : Program} (wellFormed : img.WellFormedFile d.inodeNumber)
    (found : img.readDentryByName parsed.name = some d)
    (long : 28 ≤ img.fileSize d.inodeNumber) (resolves : c.resolve img parsed = some program) :
    program.entryLocation = littleEndian (((img.content d.inodeNumber).drop 24).take 4) := by
  simp only [resolve, found] at resolves
  split at resolves
  · cases resolves
  · cases resolves
    have read : ∀ (old : Nat → UInt8) (i : Nat), i < 4 →
        readBuffer img old d.inodeNumber 24 i = img.fileByte d.inodeNumber (24 + i) := by
      intro old i below
      have count : min 4 (img.fileSize d.inodeNumber - 24) = 4 := by omega
      rw [readBuffer, Image.readData_eq wellFormed 24 4 (by decide), applyStores_storeRange]
      rw [count, if_pos (by omega), Nat.sub_zero]
    rw [Image.take_drop_content (by omega)]
    dsimp only
    rw [read _ 0 (by decide), read _ 1 (by decide), read _ 2 (by decide), read _ 3 (by decide)]
    simp only [littleEndian, List.range, List.range.loop, List.map_cons, List.map_nil,
      List.foldr_cons, List.foldr_nil]
    omega

/-- The program resolved is in the entry found. -/
theorem inode_resolve {img : Image} {c : Command} {parsed : Parsed} {d : Dentry}
    {program : Program} (found : img.readDentryByName parsed.name = some d)
    (resolves : c.resolve img parsed = some program) : program.inode = d.inodeNumber := by
  simp only [resolve, found] at resolves
  split at resolves
  · cases resolves
  · cases resolves
    rfl

/-- Its argument is the one parsed. -/
theorem arg_resolve {img : Image} {c : Command} {parsed : Parsed} {program : Program}
    (resolves : c.resolve img parsed = some program) : program.arg = parsed.arg := by
  unfold resolve at resolves
  split at resolves
  · cases resolves
  · dsimp only at resolves
    split at resolves
    · cases resolves
    · cases resolves
      rfl

end Command

namespace Kernel

/-- What the load leaves in the frame: the first 100000 bytes of the file. -/
theorem memory_loadProgram {img : Image} {inode : Nat} (wellFormed : img.WellFormedFile inode)
    (k : Kernel) (p : ProcId) (i : Nat) :
    (k.loadProgram img p inode).memory p (0x8048000 + i) =
      if i < min 100000 (img.fileSize inode) then img.fileByte inode i
      else k.memory p (0x8048000 + i) := by
  have shifted : (img.readData inode 0 100000).2.map (fun store => (0x8048000 + store.1, store.2)) =
      storeRange 0x8048000 (min 100000 (img.fileSize inode)) (img.fileByte inode) := by
    rw [Image.readData_eq wellFormed 0 100000 (by decide)]
    simp [storeRange]
  have inside : (0x8048000 ≤ 0x8048000 + i ∧
      0x8048000 + i < 0x8048000 + min 100000 (img.fileSize inode)) ↔
      i < min 100000 (img.fileSize inode) := by omega
  simp only [loadProgram, shifted, Function.update_self, applyStores_storeRange, inside,
    Nat.add_sub_cancel_left]

/-- A call of `execute` that starts process `p` starts the program that it looked up, on a
kernel that may have printed. -/
theorem execute_eq_start {env : Env} (caller : ExecCaller) {k : Kernel} {c : Command}
    {parsed : Command.Parsed} {p : ProcId} (parses : c.parse = some parsed)
    (new : k.newProcess env c = some p) :
    ∃ program console, c.resolve env.image parsed = some program ∧
      k.execute env caller c =
        ((k.claimed console p).startProcess env caller p program).map .running := by
  simp only [newProcess, parses, Option.bind_eq_bind, Option.bind_some] at new
  cases notExit : parsed.isExit with
  | true =>
      rw [notExit] at new
      cases new
  | false =>
      rw [notExit] at new
      rcases Option.bind_eq_some_iff.mp new with ⟨program, resolves, free⟩
      rcases executeWith_eq_named (Kernel.halt env · 0) env caller k parses notExit
        with ⟨console, named⟩
      refine ⟨program, console, resolves, ?_⟩
      rw [execute, named]
      simp only [executeNamed, resolves, getProcNum,
        show Kernel.freeProcess { k with console := console } = some p from free]
      rfl

/-- The frame and the page of a process that was started. -/
theorem startProcess_memory {env : Env} {caller : ExecCaller} {k k' : Kernel} {p : ProcId}
    {program : Command.Program} (starts : k.startProcess env caller p program = some k') :
    k'.memory p = (k.loadProgram env.image p program.inode).memory p ∧
      k'.mappedProcess = some p := by
  rcases Option.map_eq_some_iff.mp starts with ⟨parent, _, rfl⟩
  exact ⟨rfl, mappedProcess_mapProgram _ p⟩

/-- The whole file of entry `d` is in the frame of process `p`, which is mapped, and the entry
point is the word at its bytes 24 to 27. -/
structure LoadedWhole (env : Env) (c : Command) (parsed : Command.Parsed) (d : Dentry) (p : ProcId)
    (k : Kernel) : Prop where
  mapped : k.paging.pageDirectory (Paging.dirIndex programAddr) =
    .page4MB (0x800000 + p.val * 0x400000) .userRw
  loaded : ∀ i < env.image.fileSize d.inodeNumber,
    k.memory p (0x8048000 + i) = env.image.fileByte d.inodeNumber i
  entry : ∃ program bytes, c.resolve env.image parsed = some program ∧ bytes.length = 4 ∧
    bytes = ((env.image.content d.inodeNumber).drop 24).take 4 ∧
    program.entryLocation = littleEndian bytes

section Loaded

variable {env : Env} {caller : ExecCaller} {k k' : Kernel} {c : Command}
  {parsed : Command.Parsed} {d : Dentry} {p : ProcId}

/-- What a successful call leaves in the frame of the new process. -/
theorem memory_execute (wellFormed : env.image.WellFormedFile d.inodeNumber)
    (parses : c.parse = some parsed) (found : env.image.readDentryByName parsed.name = some d)
    (new : k.newProcess env c = some p)
    (executes : k.execute env caller c = some (.running k')) (i : Nat) :
    k'.memory p (0x8048000 + i) =
      if i < min 100000 (env.image.fileSize d.inodeNumber) then
        env.image.fileByte d.inodeNumber i
      else k.memory p (0x8048000 + i) := by
  rcases execute_eq_start caller parses new with ⟨program, console, resolves, starts⟩
  rw [executes] at starts
  rcases Option.map_eq_some_iff.mp starts.symm with ⟨started, starts, same⟩
  cases same
  rw [(startProcess_memory starts).1, Command.inode_resolve found resolves,
    memory_loadProgram wellFormed]
  rfl

/-- The frame holds the whole file exactly when the rest of it was there before. -/
theorem loaded_iff (wellFormed : env.image.WellFormedFile d.inodeNumber)
    (parses : c.parse = some parsed) (found : env.image.readDentryByName parsed.name = some d)
    (new : k.newProcess env c = some p)
    (executes : k.execute env caller c = some (.running k')) :
    (∀ i < env.image.fileSize d.inodeNumber,
        k'.memory p (0x8048000 + i) = env.image.fileByte d.inodeNumber i) ↔
      ∀ i, 100000 ≤ i → i < env.image.fileSize d.inodeNumber →
        k.memory p (0x8048000 + i) = env.image.fileByte d.inodeNumber i := by
  have memory := memory_execute wellFormed parses found new executes
  constructor
  · intro loaded i beyond inFile
    rw [← loaded i inFile, memory, if_neg (by omega)]
  · intro rest i inFile
    rw [memory]
    split
    · rfl
    · exact rest i (by omega) inFile

/-- A started program is loaded whole exactly when it has the 28 bytes up to its entry point
and at most 100000 bytes, or the bytes behind them are in the frame already. -/
theorem loaded_whole_iff (wellFormed : env.image.WellFormed) (parses : c.parse = some parsed)
    (executable : env.image.Executable parsed.name)
    (found : env.image.readDentryByName parsed.name = some d)
    (new : k.newProcess env c = some p)
    (executes : k.execute env caller c = some (.running k')) :
    LoadedWhole env c parsed d p k' ↔
      28 ≤ env.image.fileSize d.inodeNumber ∧
        (env.image.fileSize d.inodeNumber ≤ 100000 ∨
          ∀ i, 100000 ≤ i → i < env.image.fileSize d.inodeNumber →
            k.memory p (0x8048000 + i) = env.image.fileByte d.inodeNumber i) := by
  rcases executable with ⟨d', found', _, valid, _, _⟩
  cases found.symm.trans found'
  have file := wellFormed d.inodeNumber valid
  have loaded := loaded_iff file parses found new executes
  rcases execute_eq_start caller parses new with ⟨program, console, resolves, starts⟩
  constructor
  · intro whole
    rcases whole.entry with ⟨_, bytes, _, length, rfl, _⟩
    have long : 28 ≤ env.image.fileSize d.inodeNumber := by
      simp only [Image.content, List.length_take, List.length_drop, List.length_map,
        List.length_range] at length
      omega
    exact ⟨long, .inr (loaded.mp whole.loaded)⟩
  · rintro ⟨long, rest⟩
    rw [executes] at starts
    rcases Option.map_eq_some_iff.mp starts.symm with ⟨started, starts, same⟩
    cases same
    constructor
    · exact (mappedProcess_eq_some_iff _ _).mp (startProcess_memory starts).2
    · apply loaded.mpr
      intro i beyond inFile
      rcases rest with short | held
      · omega
      · exact held i beyond inFile
    · refine ⟨program, _, resolves, ?_, rfl, Command.entryLocation_eq file found long resolves⟩
      rw [Image.take_drop_content (by omega), List.length_map, List.length_range]

end Loaded

/-- The name of an executable is accepted, and a free process is taken for it. -/
theorem starts_executable {env : Env} (caller : ExecCaller) {k : Kernel} {c : Command}
    {parsed : Command.Parsed} {p : ProcId} (named : k.procs.Named)
    (parses : c.parse = some parsed) (notExit : parsed.isExit = false)
    (executable : env.image.Executable parsed.name) (free : k.freeProcess = some p) :
    k.newProcess env c = some p ∧ ∃ k', k.execute env caller c = some (.running k') := by
  rcases executable.header with ⟨d, entry, header⟩
  have accepted : Accepted env.image c parsed.name :=
    ⟨d, entry, Command.accepts_of_header header _⟩
  rcases Option.isSome_iff_exists.mp (isSome_resolve_iff.mpr accepted) with ⟨program, resolves⟩
  rcases execute_starts caller named parses notExit accepted free with ⟨k', executes, _⟩
  refine ⟨?_, k', executes⟩
  rw [newProcess_of_parse parses notExit, resolves, Option.bind_some, free]

/-- The second shell is loaded whole. -/
theorem loaded_whole_sample :
    ∃ start k', boot Env.sample default = some start ∧
      start.execute Env.sample .systemCall Env.sample.shell = some (.running k') ∧
      LoadedWhole Env.sample Env.sample.shell ⟨Env.shellName, []⟩ (Image.sample.dentry 1) 1 k' := by
  rcases firstShellRun with ⟨start, final, booted, reached, free⟩
  cases reached
  have parses : Env.sample.shell.parse = some ⟨Env.shellName, []⟩ := by decide +kernel
  have found : Env.sample.image.readDentryByName Env.shellName = some (Image.sample.dentry 1) := rfl
  have executable : Env.sample.image.Executable Env.shellName :=
    ⟨Image.sample.dentry 1, found, by decide, by decide, by decide, by decide⟩
  rcases starts_executable .systemCall (named_of_boot booted) parses (by decide) executable free
    with ⟨new, k', executes⟩
  have size : Env.sample.image.fileSize (Image.sample.dentry 1).inodeNumber = 28 := by
    have inode : (Image.sample.dentry 1).inodeNumber = 0 := by decide
    have bytes : Image.sample.fileSize 0 = 28 := by decide
    rw [inode]
    exact bytes
  have wellFormed : Env.sample.image.WellFormed := Image.wellFormed_sample
  refine ⟨start, k', booted, executes, ?_⟩
  apply (loaded_whole_iff wellFormed parses executable found new executes).mpr
  rw [size]
  exact ⟨le_refl _, .inl (by decide)⟩

/-- A kernel whose image has, besides the file `shell`, an executable `big` of 100001 bytes,
the last of which is 1. -/
def bigEnv : Env :=
  { Env.sample with
    image := Image.ofBytes
      [(0, [2, 0, 0, 0, 2, 0, 0, 0, 1]),
        (64, [0x73, 0x68, 0x65, 0x6C, 0x6C]), (96, [2]),
        (128, [0x62, 0x69, 0x67]), (160, [2, 0, 0, 0, 1]),
        (4096, [28]),
        (8192, [0xA1, 0x86, 0x01]),
        (12288, [0x7F, 0x45, 0x4C, 0x46]), (13984, [1])] }

/-- The name `big`. -/
def bigName : List UInt8 := [0x62, 0x69, 0x67]

theorem wellFormed_big : bigEnv.image.WellFormed := by
  intro inode valid
  have two : bigEnv.image.totalInodes = 2 := by decide
  have sizes : bigEnv.image.fileSize 0 = 28 ∧ bigEnv.image.fileSize 1 = 100001 := by decide
  have blocks : ∀ block < 25, bigEnv.image.dataBlockIndex 0 block < bigEnv.image.totalDataBlocks ∧
      bigEnv.image.dataBlockIndex 1 block < bigEnv.image.totalDataBlocks := by decide
  have which : inode = 0 ∨ inode = 1 := by omega
  rcases which with rfl | rfl
  · exact ⟨valid, by omega, fun block needed => (blocks block (by omega)).1⟩
  · exact ⟨valid, by omega, fun block needed => (blocks block (by omega)).2⟩

theorem executable_big : bigEnv.image.Executable bigName := by
  have found : bigEnv.image.readDentryByName bigName = some (bigEnv.image.dentry 1) := rfl
  have inode : (bigEnv.image.dentry 1).inodeNumber = 1 := by decide
  refine ⟨bigEnv.image.dentry 1, found, by decide, by decide, by decide, ?_⟩
  have size : bigEnv.image.fileSize 1 = 100001 := by decide
  rw [inode, ← List.drop_zero (l := bigEnv.image.content 1), Image.take_drop_content (by omega)]
  decide

/-- The frame of process 1 is empty when the first shell runs. -/
def bigRun : BootRun bigEnv [] (fun k => (k.freeProcess, k.memory 1 (0x8048000 + 100000)))
    (some 1, 0) :=
  .of (by decide +kernel)

/-- The last byte of `big` is not loaded. -/
theorem big_truncated :
    ∃ start k', boot bigEnv default = some start ∧
      start.execute bigEnv .systemCall (Command.plain bigName) = some (.running k') ∧
      k'.memory 1 (0x8048000 + 100000) = 0 ∧ bigEnv.image.fileByte 1 100000 = 1 ∧
      ¬ LoadedWhole bigEnv (Command.plain bigName) ⟨bigName, []⟩ (bigEnv.image.dentry 1) 1 k' := by
  rcases bigRun with ⟨start, final, booted, reached, saw⟩
  cases reached
  simp only [Prod.mk.injEq] at saw
  rcases saw with ⟨free, empty⟩
  have parses : (Command.plain bigName).parse = some ⟨bigName, []⟩ := by decide +kernel
  rcases starts_executable .systemCall (named_of_boot booted) parses (by decide) executable_big free
    with ⟨new, k', executes⟩
  have found : bigEnv.image.readDentryByName bigName = some (bigEnv.image.dentry 1) := rfl
  have inode : (bigEnv.image.dentry 1).inodeNumber = 1 := by decide
  have size : bigEnv.image.fileSize 1 = 100001 := by decide
  have last : bigEnv.image.fileByte 1 100000 = 1 := by decide
  have file : bigEnv.image.WellFormedFile (bigEnv.image.dentry 1).inodeNumber := by
    rw [inode]
    exact wellFormed_big 1 (by decide)
  have memory := memory_execute file parses found new executes 100000
  rw [inode, size, if_neg (by decide), empty] at memory
  refine ⟨start, k', booted, executes, memory, last, fun whole => ?_⟩
  have loaded := whole.loaded 100000
  rw [inode, size, memory, last] at loaded
  exact absurd (loaded (by decide)) (by decide)

end Kernel

end Ece391Os
