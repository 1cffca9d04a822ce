import Mathlib.Algebra.Order.Ring.Int
import Mathlib.Data.List.TakeWhile

/-!
# The file-system image

The read-only image at `FILESYSLOC`, addressed relative to its start.  Addresses
are 32-bit words, so pointer arithmetic wraps around.  The boot block holds the
counts and the directory entries; block `i + 1` is inode `i`; the data blocks
follow the inodes.
-/

namespace Ece391Os

/-! ## C strings

A C string is the list of its bytes in front of the terminating NUL. -/

/-- The C string at the start of an array. -/
def cString (bytes : List UInt8) : List UInt8 :=
  bytes.takeWhile (· ≠ 0)

/-- The bytes that `strncpy(dest, src, n)` stores. -/
def strncpy (src : List UInt8) (n : Nat) : List UInt8 :=
  let copied := cString (src.take n)
  copied ++ List.replicate (n - copied.length) 0

/-- `strncmp(s1, s2, n)`; the characters are signed. -/
def strncmp (s1 s2 : List UInt8) : Nat → Int
  | 0 => 0
  | n + 1 =>
      let c1 := s1.headD 0
      let c2 := s2.headD 0
      if c1 ≠ c2 ∨ c1 = 0 then
        c1.toInt8.toInt - c2.toInt8.toInt
      else
        strncmp s1.tail s2.tail n

theorem zero_notMem_cString (bytes : List UInt8) : 0 ∉ cString bytes := by
  intro member
  simpa using List.mem_takeWhile_imp member

theorem length_cString_le (bytes : List UInt8) : (cString bytes).length ≤ bytes.length :=
  (List.takeWhile_prefix _).length_le

theorem cString_eq_self {text : List UInt8} (noNul : 0 ∉ text) : cString text = text := by
  apply List.takeWhile_eq_self_iff.mpr
  intro c member
  simpa using fun zero : c = 0 => noNul (zero ▸ member)

/-- What follows the first NUL does not matter. -/
theorem cString_append_nul (bytes after : List UInt8) :
    cString (bytes ++ 0 :: after) = cString bytes := by
  induction bytes with
  | nil => simp [cString]
  | cons c bytes ih =>
      simp only [cString, List.cons_append, List.takeWhile_cons] at ih ⊢
      rw [ih]

/-- Bytes other than NUL are part of the string. -/
theorem cString_append {text : List UInt8} (noNul : 0 ∉ text) (after : List UInt8) :
    cString (text ++ after) = text ++ cString after := by
  have all : ∀ c ∈ text, decide (c ≠ 0) = true := by
    intro c member
    simpa using fun zero : c = 0 => noNul (zero ▸ member)
  exact List.takeWhile_append_of_pos all

/-- A string is read back from an array that holds it, a NUL and anything else. -/
theorem cString_append_zero {text : List UInt8} (noNul : 0 ∉ text) (after : List UInt8) :
    cString (text ++ 0 :: after) = text := by
  rw [cString_append_nul, cString_eq_self noNul]

/-- An array with a NUL holds a string, the NUL and what follows. -/
theorem cString_split {bytes : List UInt8} (nul : 0 ∈ bytes) :
    ∃ after, bytes = cString bytes ++ 0 :: after := by
  induction bytes with
  | nil => cases nul
  | cons c bytes ih =>
      by_cases zero : c = 0
      · subst c
        exact ⟨bytes, rfl⟩
      · rcases List.mem_cons.mp nul with head | tail
        · exact absurd head.symm zero
        · rcases ih tail with ⟨after, split⟩
          refine ⟨after, ?_⟩
          have char : cString (c :: bytes) = c :: cString bytes := by
            simp [cString, zero]
          rw [char, List.cons_append, ← split]

/-- A string that fits is followed by NULs only. -/
theorem strncpy_of_length_le {text : List UInt8} (noNul : 0 ∉ text) {n : Nat}
    (fits : text.length ≤ n) : strncpy text n = text ++ List.replicate (n - text.length) 0 := by
  rw [strncpy, List.take_of_length_le fits, cString_eq_self noNul]

theorem toInt8_toInt_injective {c d : UInt8} (equal : c.toInt8.toInt = d.toInt8.toInt) :
    c = d := by
  have same : c.toInt8 = d.toInt8 := Int8.toInt_inj.mp equal
  simpa using congrArg Int8.toUInt8 same

/-- Two strings of the same length compare equal over it when they are equal. -/
theorem strncmp_eq_zero_iff {s1 s2 : List UInt8} (noNul : 0 ∉ s2) (length : s1.length = s2.length) :
    strncmp s1 s2 s1.length = 0 ↔ s1 = s2 := by
  induction s1 generalizing s2 with
  | nil =>
      have empty : s2 = [] := List.length_eq_zero_iff.mp length.symm
      simp [strncmp, empty]
  | cons c s1 ih =>
      obtain ⟨d, s2, rfl⟩ := List.exists_cons_of_length_eq_add_one length.symm
      have head : d ≠ 0 := fun zero => noNul (zero ▸ List.mem_cons_self)
      have tail : 0 ∉ s2 := fun member => noNul (List.mem_cons_of_mem d member)
      by_cases same : c = d
      · subst d
        simpa [strncmp, head] using ih tail (by simpa using length)
      · have differ : c.toInt8.toInt - d.toInt8.toInt ≠ 0 := fun zero =>
          same (toInt8_toInt_injective (by omega))
        simp only [strncmp, List.headD_cons, List.length_cons, List.cons.injEq, same, false_and,
          iff_false]
        simpa [same] using differ

/-! ## Image words -/

/-- The bytes of the image by address relative to `FILESYSLOC`. -/
abbrev Image := BitVec 32 → UInt8

/-- A directory entry as `read_dentry_by_name` and `read_dentry_by_index` fill it
in; `fileName` is the array of 33 bytes. -/
structure Dentry where
  fileName : List UInt8
  filetype : Nat
  inodeNumber : Nat
  deriving DecidableEq

namespace Image

variable (img : Image)

/-- The byte at an address. -/
def byte (address : Nat) : UInt8 :=
  img (BitVec.ofNat 32 address)

/-- The little-endian word at an address. -/
def word (address : Nat) : Nat :=
  (img.byte address).toNat + 2 ^ 8 * (img.byte (address + 1)).toNat +
    2 ^ 16 * (img.byte (address + 2)).toNat + 2 ^ 24 * (img.byte (address + 3)).toNat

theorem word_lt (address : Nat) : img.word address < 2 ^ 32 := by
  have b0 := (img.byte address).toNat_lt
  have b1 := (img.byte (address + 1)).toNat_lt
  have b2 := (img.byte (address + 2)).toNat_lt
  have b3 := (img.byte (address + 3)).toNat_lt
  unfold word
  omega

/-- `numDirectories`. -/
def numDirectories : Nat := img.word 0

/-- `total_inodes`, at `INODE_BYTE_OFFSET`. -/
def totalInodes : Nat := img.word 4

/-- `total_data_blocks`, at `DATA_BLOCK_BYTE_OFFSET`. -/
def totalDataBlocks : Nat := img.word 8

/-! ## Directory entries -/

/-- The address of directory entry `i`. -/
def directoryAddr (i : Nat) : Nat := (i + 1) * 64

/-- The name field of directory entry `i` as `strncpy` copies it, with the NUL
stored behind it. -/
def curName (i : Nat) : List UInt8 :=
  strncpy ((List.range 32).map fun j => img.byte (directoryAddr i + j)) 32 ++ [0]

/-- The fields of directory entry `i`. -/
def dentry (i : Nat) : Dentry where
  fileName := img.curName i
  filetype := img.word (directoryAddr i + 32)
  inodeNumber := img.word (directoryAddr i + 36)

/-- The name of directory entry `i`. -/
def name (i : Nat) : List UInt8 := cString (img.curName i)

/-- `read_dentry_by_name(fname, dentry)`: the entry filled in, or `none` for -1. -/
def readDentryByName (fname : List UInt8) : Option Dentry :=
  let length := fname.length
  if length > 32 then
    none
  else
    (List.range img.numDirectories).findSome? fun i =>
      let curName := cString (img.curName i)
      if length = curName.length ∧ strncmp fname curName length = 0 then
        some { img.dentry i with fileName := strncpy curName 32 ++ [0] }
      else
        none

/-- `read_dentry_by_index(index, dentry)`: the entry filled in, or `none` for -1. -/
def readDentryByIndex (index : Nat) : Option Dentry :=
  if index ≥ img.numDirectories then none else some (img.dentry index)

theorem zero_notMem_name (i : Nat) : 0 ∉ img.name i :=
  zero_notMem_cString _

theorem curName_eq (i : Nat) :
    ∃ copied, 0 ∉ copied ∧ copied.length ≤ 32 ∧
      img.curName i = copied ++ List.replicate (32 - copied.length) 0 ++ [0] := by
  let field := (List.range 32).map fun j => img.byte (directoryAddr i + j)
  have short : (cString (field.take 32)).length ≤ 32 :=
    le_trans (length_cString_le _) (by simp [field])
  exact ⟨cString (field.take 32), zero_notMem_cString _, short, rfl⟩

/-- The name is what the array holds in front of its NULs. -/
theorem curName_eq_name (i : Nat) :
    img.curName i = img.name i ++ List.replicate (33 - (img.name i).length) 0 ∧
      (img.name i).length ≤ 32 := by
  obtain ⟨copied, noNul, short, stored⟩ := img.curName_eq i
  have padded : img.curName i = copied ++ List.replicate (33 - copied.length) 0 := by
    have one : 33 - copied.length = 32 - copied.length + 1 := by omega
    rw [stored, one, List.replicate_succ', List.append_assoc]
  have nameEq : img.name i = copied := by
    have more : 33 - copied.length = 32 - copied.length + 1 := by omega
    rw [name, padded, more, List.replicate_succ]
    exact cString_append_zero noNul _
  rw [nameEq]
  exact ⟨padded, short⟩

theorem length_name_le (i : Nat) : (img.name i).length ≤ 32 :=
  (img.curName_eq_name i).2

/-- The test that the search makes on an entry. -/
theorem match_iff (fname : List UInt8) (i : Nat) :
    (fname.length = (cString (img.curName i)).length ∧
      strncmp fname (cString (img.curName i)) fname.length = 0) ↔ img.name i = fname := by
  change fname.length = (img.name i).length ∧ strncmp fname (img.name i) fname.length = 0 ↔ _
  constructor
  · rintro ⟨length, equal⟩
    exact ((strncmp_eq_zero_iff (img.zero_notMem_name i) length).mp equal).symm
  · rintro rfl
    exact ⟨rfl, (strncmp_eq_zero_iff (img.zero_notMem_name i) rfl).mpr rfl⟩

/-- The name copied once more is the array of the entry. -/
theorem strncpy_name (i : Nat) : strncpy (img.name i) 32 ++ [0] = img.curName i := by
  obtain ⟨padded, short⟩ := img.curName_eq_name i
  have one : 33 - (img.name i).length = 32 - (img.name i).length + 1 := by omega
  rw [strncpy_of_length_le (img.zero_notMem_name i) short, padded, one, List.replicate_succ',
    List.append_assoc]

/-- The lookup returns the first entry with the given name. -/
theorem readDentryByName_eq (fname : List UInt8) :
    img.readDentryByName fname =
      ((List.range img.numDirectories).find? fun i => img.name i = fname).map img.dentry := by
  have entry : ∀ i, (if fname.length = (cString (img.curName i)).length ∧
      strncmp fname (cString (img.curName i)) fname.length = 0 then
        some { img.dentry i with fileName := strncpy (cString (img.curName i)) 32 ++ [0] }
      else none) = if img.name i = fname then some (img.dentry i) else none := by
    intro i
    simp only [img.match_iff fname i]
    congr 2
    change { img.dentry i with fileName := strncpy (img.name i) 32 ++ [0] } = _
    rw [strncpy_name]
    rfl
  have search : ∀ candidates : List Nat,
      (candidates.findSome? fun i =>
        if img.name i = fname then some (img.dentry i) else none) =
        (candidates.find? fun i => img.name i = fname).map img.dentry := by
    intro candidates
    induction candidates with
    | nil => rfl
    | cons i candidates ih =>
        by_cases found : img.name i = fname <;> simp [found, ih]
  simp only [readDentryByName, entry, search]
  split
  · -- no entry has so long a name
    rename_i long
    have unnamed : ∀ i, img.name i ≠ fname := by
      rintro i rfl
      exact absurd (img.length_name_le i) (by omega)
    rw [List.find?_eq_none.mpr fun i _ => by simpa using unnamed i]
    rfl
  · rfl

theorem readDentryByName_eq_none_iff (fname : List UInt8) :
    img.readDentryByName fname = none ↔ ∀ i < img.numDirectories, img.name i ≠ fname := by
  simp [readDentryByName_eq]

/-- An entry found is the entry of that name with the least index. -/
theorem readDentryByName_eq_some {fname : List UInt8} {d : Dentry}
    (found : img.readDentryByName fname = some d) :
    ∃ i < img.numDirectories, img.name i = fname ∧ d = img.dentry i ∧
      ∀ j < i, img.name j ≠ fname := by
  rw [readDentryByName_eq, Option.map_eq_some_iff] at found
  obtain ⟨i, first, rfl⟩ := found
  rw [List.find?_range_eq_some] at first
  exact ⟨i, by simpa using first.2.1, by simpa using first.1, rfl, by simpa using first.2.2⟩

/-- The image whose bytes are given at some addresses and zero elsewhere. -/
def ofBytes (bytes : List (Nat × List UInt8)) : Image := fun address =>
  let offset := address.toNat
  match bytes.find? fun part => part.1 ≤ offset ∧ offset < part.1 + part.2.length with
  | some part => part.2.getD (offset - part.1) 0
  | none => 0

/-- A small image: the directory entries `.` and `shell`, where `shell` is a file of
28 bytes that starts with the ELF magic number. -/
def sample : Image :=
  ofBytes
    [(0, [2, 0, 0, 0, 1, 0, 0, 0, 1]),
      (64, [0x2E]), (96, [1]),
      (128, [0x73, 0x68, 0x65, 0x6C, 0x6C]), (160, [2]),
      (4096, [28]),
      (8192, [0x7F, 0x45, 0x4C, 0x46])]

end Image

end Ece391Os
