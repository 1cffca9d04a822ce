import Ece391Os.FileSys.Image
import Ece391Os.Memory.Stores

/-!
# Reading file data

`read_data` copies a slice of a file, block by block, into a buffer.  The result
is its return value and the log of its stores, at offsets from the buffer.  The
arithmetic of the source is on 32-bit words and wraps around.
-/

namespace Ece391Os

open Memory

/-- The value of a 32-bit word as an `int32_t`. -/
def toInt32 (value : Nat) : Int :=
  Int.bmod value (2 ^ 32)

theorem toInt32_of_lt {value : Nat} (small : value < 2 ^ 31) : toInt32 value = value := by
  unfold toInt32
  exact Int.bmod_eq_of_le (by omega) (by omega)

namespace Image

variable (img : Image)

/-- `inode_ptr`. -/
def inodeAddr (inode : Nat) : Nat := 4096 * (inode + 1)

/-- `file_size`. -/
def fileSize (inode : Nat) : Nat := img.word (inodeAddr inode)

/-- The data-block index in place `block` of the table of an inode. -/
def dataBlockIndex (inode block : Nat) : Nat :=
  img.word (inodeAddr inode + (block + 1) * 4)

/-- `data_block_start_ptr + BLOCK_SIZE * index`. -/
def dataAddr (index : Nat) : Nat :=
  4096 * (img.totalInodes + 1) + 4096 * index

/-- The loop over the data blocks after the first one, from the place `block` on,
with `byte_count` bytes copied and `length` bytes left. -/
def readBlocks (inode block byteCount length : Nat) : Int × Stores Nat :=
  if _h : length = 0 then
    (0, [])
  else
    let index := img.dataBlockIndex inode block
    if index ≥ img.totalDataBlocks then
      (-1, [])
    else
      let dataPtr := img.dataAddr index
      if length ≤ 4096 then
        (toInt32 (byteCount + length), storeRange byteCount length fun i => img.byte (dataPtr + i))
      else
        let rest := readBlocks inode (block + 1) (byteCount + 4096) (length - 4096)
        (rest.1, storeRange byteCount 4096 (fun i => img.byte (dataPtr + i)) ++ rest.2)
  -- a pair: the kernel would unfold the subtraction in a measure of type `Nat`
  termination_by (length, 0)
  decreasing_by exact Prod.Lex.left _ _ (by omega)

/-- `read_data(inode, offset, buf, length)`. -/
def readData (inode offset length : Nat) : Int × Stores Nat :=
  if inode ≥ img.totalInodes then
    (-1, [])
  else
    let fileSize := img.fileSize inode
    if offset ≥ fileSize then
      (0, [])
    else
      let length := if (length + offset) % 2 ^ 32 > fileSize then fileSize - offset else length
      let index := img.dataBlockIndex inode (offset / 4096)
      if index ≥ img.totalDataBlocks then
        (-1, [])
      else
        let dataPtr := img.dataAddr index + offset % 4096
        if (offset % 4096 + length) % 2 ^ 32 ≤ 4096 then
          (toInt32 length, storeRange 0 length fun i => img.byte (dataPtr + i))
        else
          let first := 4096 - offset % 4096
          let rest := img.readBlocks inode (offset / 4096 + 1) first (length - first)
          (rest.1, storeRange 0 first (fun i => img.byte (dataPtr + i)) ++ rest.2)

/-! ## Every image -/

/-- The loop returns -1 or the bytes it was asked for, and stores inside their
range, whatever the image holds. -/
theorem readBlocks_bounded (inode block byteCount length : Nat) (positive : 0 < length)
    (small : byteCount + length < 2 ^ 31) :
    let result := img.readBlocks inode block byteCount length
    (result.1 = -1 ∨ result.1 = (byteCount + length : Nat)) ∧
      ∀ store ∈ result.2, store.1 < byteCount + length := by
  induction length using Nat.strongRecOn generalizing block byteCount with
  | ind length ih =>
      rw [readBlocks, dif_neg (by omega)]
      dsimp only
      split
      · exact ⟨.inl rfl, by simp⟩
      split
      · have value := toInt32_of_lt small
        dsimp only
        refine ⟨.inr value, fun store member => ?_⟩
        obtain ⟨i, inside, rfl⟩ := mem_storeRange.mp member
        simp only
        omega
      · rename_i long
        obtain ⟨value, inside⟩ := ih (length - 4096) (by omega) (block + 1) (byteCount + 4096)
          (by omega) (by omega)
        have total : byteCount + 4096 + (length - 4096) = byteCount + length := by omega
        rw [total] at value inside
        refine ⟨value, fun store member => ?_⟩
        rcases List.mem_append.mp member with first | rest
        · obtain ⟨i, below, rfl⟩ := mem_storeRange.mp first
          simp only
          omega
        · exact inside store rest

/-- `read_data` returns -1 or at most the requested length, and stores inside it. -/
theorem readData_bounded (inode offset length : Nat) (small : length < 2 ^ 31) :
    let result := img.readData inode offset length
    (result.1 = -1 ∨ 0 ≤ result.1 ∧ result.1 ≤ length) ∧
      ∀ store ∈ result.2, store.1 < length := by
  dsimp only [readData]
  split
  · exact ⟨.inl rfl, by simp⟩
  split
  · exact ⟨.inr ⟨by simp, by simp⟩, by simp⟩
  rename_i inFile
  generalize clipped : (if (length + offset) % 2 ^ 32 > img.fileSize inode then
    img.fileSize inode - offset else length) = wanted
  have wantedLe : wanted ≤ length := by
    have sizeLt : img.fileSize inode < 2 ^ 32 := img.word_lt _
    split at clipped <;> omega
  split
  · exact ⟨.inl rfl, by simp⟩
  split
  · rw [toInt32_of_lt (by omega)]
    refine ⟨.inr ⟨by omega, by omega⟩, fun store member => ?_⟩
    obtain ⟨i, inside, rfl⟩ := mem_storeRange.mp member
    simp only
    omega
  · rename_i crosses
    have offsetLt : offset % 4096 < 4096 := Nat.mod_lt _ (by decide)
    have beyond : 4096 < offset % 4096 + wanted := by omega
    obtain ⟨value, inside⟩ := img.readBlocks_bounded inode (offset / 4096 + 1)
      (4096 - offset % 4096) (wanted - (4096 - offset % 4096)) (by omega) (by omega)
    have total : 4096 - offset % 4096 + (wanted - (4096 - offset % 4096)) = wanted := by omega
    rw [total] at value inside
    refine ⟨value.imp id fun result => ⟨by omega, by omega⟩, fun store member => ?_⟩
    rcases List.mem_append.mp member with first | rest
    · obtain ⟨i, below, rfl⟩ := mem_storeRange.mp first
      simp only
      omega
    · exact lt_of_lt_of_le (inside store rest) wantedLe

/-! ## Well-formed files -/

/-- A file whose inode exists, whose size the index table can hold, and whose data
blocks all exist. -/
structure WellFormedFile (inode : Nat) : Prop where
  inodeLt : inode < img.totalInodes
  sizeLe : img.fileSize inode ≤ 1023 * 4096
  blockLt : ∀ block, block * 4096 < img.fileSize inode →
    img.dataBlockIndex inode block < img.totalDataBlocks

/-- Byte `j` of a file. -/
def fileByte (inode j : Nat) : UInt8 :=
  img.byte (img.dataAddr (img.dataBlockIndex inode (j / 4096)) + j % 4096)

/-- The content of a file. -/
def content (inode : Nat) : List UInt8 :=
  (List.range (img.fileSize inode)).map (img.fileByte inode)

variable {img}

/-- The bytes of one block are consecutive bytes of the file. -/
theorem byte_dataAddr_eq_fileByte (inode start i : Nat) (inBlock : start % 4096 + i < 4096) :
    img.byte (img.dataAddr (img.dataBlockIndex inode (start / 4096)) + start % 4096 + i) =
      img.fileByte inode (start + i) := by
  have block : (start + i) / 4096 = start / 4096 := by omega
  have place : (start + i) % 4096 = start % 4096 + i := by omega
  rw [fileByte, block, place, Nat.add_assoc]

/-- The loop copies the rest of the slice that started at `offset`. -/
theorem readBlocks_eq {inode : Nat} (wellFormed : img.WellFormedFile inode)
    (offset block byteCount length : Nat) (aligned : offset + byteCount = block * 4096)
    (positive : 0 < length) (inFile : offset + byteCount + length ≤ img.fileSize inode) :
    img.readBlocks inode block byteCount length =
      (((byteCount + length : Nat) : Int),
        storeRange byteCount length fun i => img.fileByte inode (offset + byteCount + i)) := by
  have sizeLe := wellFormed.sizeLe
  induction length using Nat.strongRecOn generalizing block byteCount with
  | ind length ih =>
      have blockLt := wellFormed.blockLt block (by omega)
      have inBlock : ∀ i < 4096, img.byte (img.dataAddr (img.dataBlockIndex inode block) + i) =
          img.fileByte inode (offset + byteCount + i) := by
        intro i small
        have same := @byte_dataAddr_eq_fileByte img inode (block * 4096) i (by omega)
        rw [aligned]
        simpa using same
      rw [readBlocks, dif_neg (by omega)]
      simp only [ge_iff_le, Nat.not_le.mpr blockLt, if_false]
      by_cases last : length ≤ 4096
      · rw [if_pos last, toInt32_of_lt (by omega)]
        exact Prod.ext rfl (storeRange_congr fun i below => inBlock i (by omega))
      · rw [if_neg last, ih (length - 4096) (by omega) (block + 1) (byteCount + 4096) (by omega)
          (by omega) (by omega)]
        have total : byteCount + 4096 + (length - 4096) = byteCount + length := by omega
        have joined := storeRange_append byteCount 4096 (length - 4096)
          (fun i => img.byte (img.dataAddr (img.dataBlockIndex inode block) + i))
          (fun i => img.fileByte inode (offset + (byteCount + 4096) + i))
          (fun i => img.fileByte inode (offset + byteCount + i)) inBlock
          (fun i _ => by rw [← Nat.add_assoc, ← Nat.add_assoc])
        rw [show 4096 + (length - 4096) = length by omega] at joined
        apply Prod.ext (congrArg Nat.cast total)
        dsimp only
        exact joined

/-- On a well-formed file `read_data` delivers the requested slice, when the sum of
offset and length does not wrap around to a value inside the file. -/
theorem readData_eq_of_clipped {inode : Nat} (wellFormed : img.WellFormedFile inode)
    (offset length : Nat)
    (clips : length + offset < 2 ^ 32 ∨ img.fileSize inode < (length + offset) % 2 ^ 32) :
    img.readData inode offset length =
      let delivered := min length (img.fileSize inode - offset)
      ((delivered : Int), storeRange 0 delivered fun i => img.fileByte inode (offset + i)) := by
  have sizeLe := wellFormed.sizeLe
  rw [readData, if_neg (Nat.not_le.mpr wellFormed.inodeLt)]
  dsimp only
  split
  · rename_i atEnd
    have none : img.fileSize inode - offset = 0 := by omega
    simp [none]
  rename_i inFile
  have clipped : (if (length + offset) % 2 ^ 32 > img.fileSize inode then
      img.fileSize inode - offset else length) = min length (img.fileSize inode - offset) := by
    split <;> omega
  simp only [clipped]
  generalize wantedEq : min length (img.fileSize inode - offset) = wanted
  have blockLt := wellFormed.blockLt (offset / 4096) (by omega)
  simp only [ge_iff_le, Nat.not_le.mpr blockLt, if_false]
  by_cases single : (offset % 4096 + wanted) % 2 ^ 32 ≤ 4096
  · rw [if_pos single, toInt32_of_lt (by omega)]
    exact Prod.ext rfl
      (storeRange_congr fun i below => byte_dataAddr_eq_fileByte inode offset i (by omega))
  · rw [if_neg single, readBlocks_eq wellFormed offset _ _ _ (by omega) (by omega) (by omega)]
    have offsetLt : offset % 4096 < 4096 := Nat.mod_lt _ (by decide)
    have total : 4096 - offset % 4096 + (wanted - (4096 - offset % 4096)) = wanted := by omega
    have joined := storeRange_append 0 (4096 - offset % 4096) (wanted - (4096 - offset % 4096))
      (fun i => img.byte (img.dataAddr (img.dataBlockIndex inode (offset / 4096)) +
        offset % 4096 + i))
      (fun i => img.fileByte inode (offset + (4096 - offset % 4096) + i))
      (fun i => img.fileByte inode (offset + i))
      (fun i below => byte_dataAddr_eq_fileByte inode offset i (by omega))
      (fun i _ => by rw [Nat.add_assoc])
    rw [total, Nat.zero_add] at joined
    exact Prod.ext (by rw [total]) joined

/-- A length that is an `int32_t` does not wrap around. -/
theorem readData_eq {inode : Nat} (wellFormed : img.WellFormedFile inode) (offset length : Nat)
    (small : length < 2 ^ 31) :
    img.readData inode offset length =
      let delivered := min length (img.fileSize inode - offset)
      ((delivered : Int), storeRange 0 delivered fun i => img.fileByte inode (offset + i)) := by
  have sizeLe := wellFormed.sizeLe
  by_cases inFile : offset < img.fileSize inode
  · exact readData_eq_of_clipped wellFormed offset length (.inl (by omega))
  · have none : img.fileSize inode - offset = 0 := Nat.sub_eq_zero_of_le (Nat.le_of_not_lt inFile)
    rw [readData, if_neg (Nat.not_le.mpr wellFormed.inodeLt)]
    simp only [ge_iff_le, Nat.le_of_not_lt inFile, if_true, none]
    simp

theorem sample_wellFormed : sample.WellFormedFile 0 where
  inodeLt := by decide
  sizeLe := by decide
  blockLt := by
    intro block needed
    have size : sample.fileSize 0 = 28 := by decide
    have first : block = 0 := by omega
    subst first
    decide

end Image

end Ece391Os
