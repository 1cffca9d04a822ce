import Ece391Os.Process.Command

/-!
# Executables

What makes a name that of an executable, and what the lookup of `execute` makes of it.
The lookup does not look at the type of the entry or at the results of `read_data`, and
its buffer keeps stack contents where `read_data` stores nothing.
-/

namespace Ece391Os

open Memory

/-- The first four bytes of an ELF file. -/
def elfMagic : List UInt8 := [0x7F, 0x45, 0x4C, 0x46]

namespace Image

variable (img : Image)

/-- A name is that of a regular file with a valid inode that starts with the ELF magic
number. -/
def Executable (name : List UInt8) : Prop :=
  ∃ d, img.readDentryByName name = some d ∧ d.filetype = 2 ∧ d.inodeNumber < img.totalInodes ∧
    img.dataBlockIndex d.inodeNumber 0 < img.totalDataBlocks ∧
    (img.content d.inodeNumber).take 4 = elfMagic

/-- The bytes that `read_data(inode, 0, buffer, 4)` stores. -/
def header (inode : Nat) : List UInt8 :=
  (img.readData inode 0 4).2.map Prod.snd

/-- The number of these bytes. -/
def headerLength (inode : Nat) : Nat :=
  if inode < img.totalInodes ∧ img.dataBlockIndex inode 0 < img.totalDataBlocks then
    min 4 (img.fileSize inode)
  else
    0

theorem headerLength_le (inode : Nat) : img.headerLength inode ≤ 4 := by
  unfold headerLength
  split <;> omega

/-- The call stores the first bytes of the file, as many as there are. -/
theorem readData_header (inode : Nat) :
    (img.readData inode 0 4).2 = storeRange 0 (img.headerLength inode) (img.fileByte inode) := by
  unfold readData headerLength
  by_cases valid : inode < img.totalInodes
  · rw [if_neg (Nat.not_le.mpr valid)]
    dsimp only
    by_cases empty : img.fileSize inode = 0
    · simp [empty]
    rw [if_neg (by omega)]
    have wanted : (if (4 + 0) % 2 ^ 32 > img.fileSize inode then img.fileSize inode - 0 else 4) =
        min 4 (img.fileSize inode) := by
      split <;> omega
    rw [wanted]
    by_cases block : img.dataBlockIndex inode 0 < img.totalDataBlocks
    · rw [if_neg (Nat.not_le.mpr block), if_pos (by omega), if_pos ⟨valid, block⟩]
      apply storeRange_congr
      intro i below
      have first : i / 4096 = 0 := by omega
      have place : i % 4096 = i := by omega
      rw [fileByte, first, place]
      rfl
    · rw [if_pos (Nat.le_of_not_lt block), if_neg fun both => block both.2]
      rfl
  · rw [if_pos (Nat.le_of_not_lt valid), if_neg fun both => valid both.1]
    rfl

theorem header_eq (inode : Nat) :
    img.header inode = (List.range (img.headerLength inode)).map (img.fileByte inode) := by
  rw [header, readData_header, map_snd_storeRange]

/-- An executable starts with the magic number, and all of it is read. -/
theorem Executable.header {name : List UInt8} (executable : img.Executable name) :
    ∃ d, img.readDentryByName name = some d ∧ img.header d.inodeNumber = elfMagic := by
  rcases executable with ⟨d, found, _, valid, block, magic⟩
  refine ⟨d, found, ?_⟩
  rw [header_eq, headerLength, if_pos ⟨valid, block⟩, ← magic, content, ← List.map_take,
    List.take_range]

end Image

namespace Command

/-- The test of `execute` on its buffer. -/
def Accepts (magic : Nat → UInt8) : Prop :=
  magic 0 = 0x7F ∧ magic 1 = 0x45 ∧ magic 2 = 0x4C ∧ magic 3 = 0x46

theorem length_header_le (img : Image) (inode : Nat) : (img.header inode).length ≤ 4 := by
  rw [Image.header_eq, List.length_map, List.length_range]
  exact img.headerLength_le inode

/-- Nothing is read behind the fourth byte. -/
theorem rest_of_header {img : Image} {inode : Nat} {a b c d : UInt8} {rest : List UInt8}
    (read : img.header inode = a :: b :: c :: d :: rest) : rest = [] := by
  have short := length_header_le img inode
  rw [read] at short
  change rest.length + 4 ≤ 0 + 4 at short
  exact List.length_eq_zero_iff.mp (Nat.le_zero.mp (Nat.le_of_add_le_add_right short))

/-- The buffer holds the bytes read, and behind them what it held before. -/
theorem readBuffer_eq (img : Image) (old : Nat → UInt8) (inode i : Nat) :
    readBuffer img old inode 0 i = (img.header inode)[i]?.getD (old i) := by
  rw [readBuffer, Image.readData_header, applyStores_storeRange, Image.header_eq]
  by_cases read : i < img.headerLength inode <;> simp [read]

/-- The test on the bytes read. -/
theorem accepts_iff (img : Image) (old : Nat → UInt8) (inode : Nat) :
    Accepts (readBuffer img old inode 0) ↔
      (img.header inode)[0]?.getD (old 0) = 0x7F ∧ (img.header inode)[1]?.getD (old 1) = 0x45 ∧
        (img.header inode)[2]?.getD (old 2) = 0x4C ∧
        (img.header inode)[3]?.getD (old 3) = 0x46 := by
  simp only [Accepts, readBuffer_eq]

/-- Whatever the stack holds, the test is passed when the whole magic number is read. -/
theorem accepts_of_header {img : Image} {inode : Nat} (whole : img.header inode = elfMagic)
    (old : Nat → UInt8) : Accepts (readBuffer img old inode 0) := by
  rw [accepts_iff, whole]
  exact ⟨rfl, rfl, rfl, rfl⟩

/-- With zeros on the stack it is passed then only. -/
theorem header_of_accepts_zero {img : Image} {inode : Nat}
    (accepts : Accepts (readBuffer img (fun _ => 0) inode 0)) : img.header inode = elfMagic := by
  rw [accepts_iff] at accepts
  rcases read : img.header inode with _ | ⟨a, _ | ⟨b, _ | ⟨c, _ | ⟨d, rest⟩⟩⟩⟩
  case cons.cons.cons.cons =>
    have last := rest_of_header read
    simp_all [elfMagic]
  all_goals simp_all

/-- The test is not passed when what is read is no part of the magic number. -/
theorem header_of_accepts {img : Image} {inode : Nat} {old : Nat → UInt8}
    (accepts : Accepts (readBuffer img old inode 0)) : img.header inode <+: elfMagic := by
  rw [accepts_iff] at accepts
  rcases read : img.header inode with _ | ⟨a, _ | ⟨b, _ | ⟨c, _ | ⟨d, rest⟩⟩⟩⟩
  case cons.cons.cons.cons =>
    have last := rest_of_header read
    simp_all [elfMagic]
  all_goals simp_all [elfMagic]

/-- With the magic number on the stack it is passed otherwise. -/
theorem accepts_of_prefix {img : Image} {inode : Nat} (part : img.header inode <+: elfMagic) :
    Accepts (readBuffer img (fun i => elfMagic.getD i 0) inode 0) := by
  rw [accepts_iff]
  rcases read : img.header inode with _ | ⟨a, _ | ⟨b, _ | ⟨c, _ | ⟨d, rest⟩⟩⟩⟩ <;>
    simp_all [elfMagic]

/-! ## Names -/

/-- The first byte of the program name and the byte behind it, as the parser finds them. -/
def nameBounds (c : Command) : Option (Nat × Nat) := do
  let nameStart ← c.scan (· ≠ 0x20) 0
  let nameEnd ← c.scan isEnd nameStart
  some (nameStart, nameEnd)

/-- The parser comes to an end and copies an argument that fits into `arg`. -/
def InBounds (c : Command) : Prop :=
  ∃ nameStart nameEnd argEnd, c.nameBounds = some (nameStart, nameEnd) ∧
    c.scan isEnd ((nameEnd + 1) % 256) = some argEnd ∧ (nameEnd + 1) % 256 ≤ argEnd ∧
    argEnd < (nameEnd + 1) % 256 + 100

/-- The bytes that the parser copies into `parsed_cmd`. -/
def copiedName (c : Command) (nameStart nameEnd : Nat) : List UInt8 :=
  (List.range (nameEnd - nameStart)).map fun j => c.byte (nameStart + j)

/-- The parser can leave a name in `parsed_cmd`: the bytes copied, and as many stack bytes
as lie between them and the NUL, which is stored at the index of the byte behind the name. -/
def Leaves (c : Command) (name : List UInt8) : Prop :=
  ∃ nameStart nameEnd, c.nameBounds = some (nameStart, nameEnd) ∧
    ∃ stack, 0 ∉ stack ∧ stack.length ≤ nameEnd - (nameEnd - nameStart) ∧
      name = c.copiedName nameStart nameEnd ++ stack

/-- A loop of the parser stops at a byte that stops it, behind bytes that do not. -/
theorem scan_eq_some {c : Command} {stops : UInt8 → Bool} {start index : Nat}
    (found : c.scan stops start = some index) (small : start < 256) :
    index < 256 ∧ stops (c.byte index) = true ∧
      ∀ i, start ≤ i → i < index → stops (c.byte i) = false := by
  rw [scan, List.find?_map, Option.map_eq_some_iff] at found
  rcases found with ⟨j, first, rfl⟩
  rw [List.find?_range_eq_some] at first
  rcases first with ⟨stop, inRange, before⟩
  refine ⟨Nat.mod_lt _ (by decide), stop, fun i from_ below => ?_⟩
  have inside := List.mem_range.mp inRange
  have ahead : i - start < j := by omega
  have here : (start + (i - start)) % 256 = i := by omega
  have passed := before (i - start) ahead
  rw [Function.comp_apply, here] at passed
  simpa using passed

theorem nameBounds_eq_some {c : Command} {nameStart nameEnd : Nat}
    (bounds : c.nameBounds = some (nameStart, nameEnd)) :
    c.scan (· ≠ 0x20) 0 = some nameStart ∧ c.scan isEnd nameStart = some nameEnd := by
  rcases Option.bind_eq_some_iff.mp bounds with ⟨first, start, rest⟩
  rcases Option.bind_eq_some_iff.mp rest with ⟨last, ends, done⟩
  cases done
  exact ⟨start, ends⟩

theorem zero_notMem_copiedName {c : Command} {nameStart nameEnd : Nat}
    (bounds : c.nameBounds = some (nameStart, nameEnd)) : 0 ∉ c.copiedName nameStart nameEnd := by
  rcases nameBounds_eq_some bounds with ⟨start, ends⟩
  have small := (scan_eq_some start (by decide)).1
  have before := (scan_eq_some ends small).2.2
  intro member
  rcases List.mem_map.mp member with ⟨j, inside, zero⟩
  have below := List.mem_range.mp inside
  have passed := before (nameStart + j) (Nat.le_add_right _ _) (by omega)
  rw [zero] at passed
  revert passed
  decide

/-- The string in an array with a NUL at some index. -/
theorem cString_array (array : Nat → UInt8) {nul : Nat} (small : nul < 256) (zero : array nul = 0) :
    cString ((List.range 256).map array) = cString ((List.range nul).map array) := by
  have split : List.range 256 = List.range nul ++ nul :: (List.range (255 - nul)).map
      (nul + 1 + ·) := by
    have total : 256 = nul + 1 + (255 - nul) := by omega
    rw [total, List.range_add, List.range_succ, List.append_assoc, List.singleton_append]
  rw [split, List.map_append, List.map_cons, zero, cString_append_nul]

/-- The string that the parser leaves in `parsed_cmd`. -/
theorem cString_copied {c : Command} {nameStart nameEnd : Nat}
    (bounds : c.nameBounds = some (nameStart, nameEnd)) (parsedCmd : Nat → UInt8) :
    cString ((List.range 256).map (c.copied parsedCmd nameStart nameEnd nameEnd)) =
      c.copiedName nameStart nameEnd ++
        cString ((List.range (nameEnd - (nameEnd - nameStart))).map fun j =>
          parsedCmd (nameEnd - nameStart + j)) := by
  rcases nameBounds_eq_some bounds with ⟨start, ends⟩
  have small := (scan_eq_some ends (scan_eq_some start (by decide)).1).1
  have nul : c.copied parsedCmd nameStart nameEnd nameEnd nameEnd = 0 := if_pos rfl
  have total : nameEnd = nameEnd - nameStart + (nameEnd - (nameEnd - nameStart)) := by omega
  have copies : ∀ j ∈ List.range (nameEnd - nameStart),
      c.copied parsedCmd nameStart nameEnd nameEnd j = c.byte (nameStart + j) := by
    intro j member
    have below := List.mem_range.mp member
    rw [copied, if_neg (by omega), if_pos (by omega)]
  have keeps : ∀ j ∈ List.range (nameEnd - (nameEnd - nameStart)),
      c.copied parsedCmd nameStart nameEnd nameEnd (nameEnd - nameStart + j) =
        parsedCmd (nameEnd - nameStart + j) := by
    intro j member
    have below := List.mem_range.mp member
    rw [copied, if_neg (by omega), if_neg (by omega)]
  have array : (List.range nameEnd).map (c.copied parsedCmd nameStart nameEnd nameEnd) =
      c.copiedName nameStart nameEnd ++
        (List.range (nameEnd - (nameEnd - nameStart))).map fun j =>
          parsedCmd (nameEnd - nameStart + j) := by
    have range : List.range nameEnd = List.range (nameEnd - nameStart) ++
        (List.range (nameEnd - (nameEnd - nameStart))).map (nameEnd - nameStart + ·) := by
      rw [← List.range_add, ← total]
    rw [range, List.map_append, List.map_congr_left copies, List.map_map,
      List.map_congr_left (f := _ ∘ _) keeps]
    rfl
  rw [cString_array _ small nul, array, cString_append (zero_notMem_copiedName bounds)]

/-- The parser leaves its name in the array. -/
theorem parse_eq_some_iff {c : Command} {parsed : Parsed} :
    c.parse = some parsed ↔
      ∃ nameStart nameEnd argEnd, c.nameBounds = some (nameStart, nameEnd) ∧
        c.scan isEnd ((nameEnd + 1) % 256) = some argEnd ∧
        parsed.name = cString ((List.range 256).map
          (c.copied c.parsedCmd nameStart nameEnd nameEnd)) ∧
        parsed.arg = cString ((List.range 256).map
          (c.copied c.arg ((nameEnd + 1) % 256) argEnd
            (argEnd - ((nameEnd + 1) % 256 : Nat)))) := by
  constructor
  · intro parses
    rcases Option.bind_eq_some_iff.mp parses with ⟨nameStart, start, rest⟩
    rcases Option.bind_eq_some_iff.mp rest with ⟨nameEnd, ends, rest⟩
    rcases Option.bind_eq_some_iff.mp rest with ⟨argEnd, argEnds, done⟩
    cases done
    have bounds : c.nameBounds = some (nameStart, nameEnd) := by
      rw [nameBounds, start, Option.bind_eq_bind, Option.bind_some, ends]
      rfl
    exact ⟨nameStart, nameEnd, argEnd, bounds, argEnds, rfl, rfl⟩
  · rintro ⟨nameStart, nameEnd, argEnd, bounds, argEnds, name, arg⟩
    rcases nameBounds_eq_some bounds with ⟨start, ends⟩
    rcases parsed with ⟨_, _⟩
    rcases name with rfl
    rcases arg with rfl
    simp only [parse, start, ends, argEnds, Option.bind_eq_bind, Option.bind_some]

theorem leaves_of_parse {c : Command} {parsed : Parsed} (parses : c.parse = some parsed) :
    c.Leaves parsed.name := by
  rcases parse_eq_some_iff.mp parses with ⟨nameStart, nameEnd, argEnd, bounds, _, name, _⟩
  rw [cString_copied bounds] at name
  refine ⟨nameStart, nameEnd, bounds, _, zero_notMem_cString _, ?_, name⟩
  exact le_trans (length_cString_le _) (by simp)

/-- Every such name is left there, with some stack contents. -/
theorem parse_of_leaves {c : Command} (inBounds : c.InBounds) {name : List UInt8}
    (leaves : c.Leaves name) :
    ∃ parsedCmd, ∀ arg buffer, ∃ parsed,
      Command.parse ⟨c.byte, parsedCmd, arg, buffer⟩ = some parsed ∧ parsed.name = name := by
  rcases inBounds with ⟨nameStart, nameEnd, argEnd, bounds, ends, _, _⟩
  rcases leaves with ⟨first, last, found, stack, noNul, short, rfl⟩
  cases bounds.symm.trans found
  refine ⟨fun j => stack.getD (j - (nameEnd - nameStart)) 0, fun arg buffer => ?_⟩
  have filled : (List.range (nameEnd - (nameEnd - nameStart))).map (fun j =>
      stack.getD (nameEnd - nameStart + j - (nameEnd - nameStart)) 0) =
      stack ++ List.replicate (nameEnd - (nameEnd - nameStart) - stack.length) 0 := by
    apply List.ext_getElem
    · simp
      omega
    · intro j inside _
      by_cases onStack : j < stack.length <;> simp [onStack, List.getElem_append]
  have string : cString (stack ++ List.replicate
      (nameEnd - (nameEnd - nameStart) - stack.length) 0) = stack := by
    rw [cString_append noNul]
    cases nameEnd - (nameEnd - nameStart) - stack.length with
    | zero => exact List.append_nil _
    | succ count => exact List.append_nil _
  refine ⟨⟨_, _⟩, parse_eq_some_iff.mpr ⟨nameStart, nameEnd, argEnd, bounds, ends, rfl, rfl⟩, ?_⟩
  have name := cString_copied bounds fun j => stack.getD (j - (nameEnd - nameStart)) 0
  rw [filled, string] at name
  exact name

end Command

end Ece391Os
