import Ece391Os.FileSys.ReadData

/-!
# Which slice `read_data` returns

`read_data` cuts the requested length down when the 32-bit sum of offset and length is
beyond the end of the file.  When that sum wraps around to a value inside the file, the
length stays as it was, and the copy runs past the end of the file.
-/

namespace Ece391Os

open Memory

theorem toInt32_neg {value : Nat} (large : 2 ^ 31 ≤ value) (word : value < 2 ^ 32) :
    toInt32 value < 0 := by
  have wrapped : (value : Int).bmod (2 ^ 32) = value - (2 ^ 32 : Nat) := by
    rw [← Int.sub_bmod_right]
    apply Int.bmod_eq_of_le
    · omega
    · omega
  unfold toInt32
  rw [wrapped]
  omega

namespace Image

variable (img : Image)

/-! ## The return behind the loop -/

/-- The loop of `readBlocks` in front of a `return` of any value. -/
def readBlocksReturning (final : Int) (inode block byteCount length : Nat) : Int × Stores Nat :=
  if _h : length = 0 then
    (final, [])
  else
    let index := img.dataBlockIndex inode block
    if index ≥ img.totalDataBlocks then
      (-1, [])
    else
      let dataPtr := img.dataAddr index
      if length ≤ 4096 then
        (toInt32 (byteCount + length), storeRange byteCount length fun i => img.byte (dataPtr + i))
      else
        let rest := readBlocksReturning final inode (block + 1) (byteCount + 4096) (length - 4096)
        (rest.1, storeRange byteCount 4096 (fun i => img.byte (dataPtr + i)) ++ rest.2)
  termination_by (length, 0)
  decreasing_by exact Prod.Lex.left _ _ (by omega)

/-- `read_data` with a `return` of any value behind its loop. -/
def readDataReturning (final : Int) (inode offset length : Nat) : Int × Stores Nat :=
  if inode ≥ img.totalInodes then
    (-1, [])
  else
    let fileSize := img.fileSize inode
    if offset ≥ fileSize then
      (0, [])
    else
      let length := if (length + offset) % 2 ^ 32 > fileSize then fileSize - offset else length
      let index := img.dataBlockIndex inode (offset / 4096)
      if index ≥ img.totalDataBlocks then
        (-1, [])
      else
        let dataPtr := img.dataAddr index + offset % 4096
        if (offset % 4096 + length) % 2 ^ 32 ≤ 4096 then
          (toInt32 length, storeRange 0 length fun i => img.byte (dataPtr + i))
        else
          let first := 4096 - offset % 4096
          let rest := img.readBlocksReturning final inode (offset / 4096 + 1) first (length - first)
          (rest.1, storeRange 0 first (fun i => img.byte (dataPtr + i)) ++ rest.2)

/-- A loop that is entered ends in one of the returns inside it. -/
theorem readBlocksReturning_eq (final : Int) (inode block byteCount length : Nat)
    (positive : 0 < length) :
    img.readBlocksReturning final inode block byteCount length =
      img.readBlocks inode block byteCount length := by
  induction length using Nat.strongRecOn generalizing block byteCount with
  | ind length ih =>
      have entered : length ≠ 0 := Nat.ne_of_gt positive
      rw [readBlocksReturning, readBlocks, dif_neg entered, dif_neg entered]
      dsimp only
      split
      · rfl
      split
      · rfl
      · rename_i long
        rw [ih (length - 4096) (by omega) (block + 1) (byteCount + 4096) (by omega)]

/-- The value returned behind the loop does not matter: that `return` is not reached. -/
theorem readDataReturning_eq (final : Int) (inode offset length : Nat) :
    img.readDataReturning final inode offset length = img.readData inode offset length := by
  unfold readDataReturning readData
  dsimp only
  split
  · rfl
  split
  · rfl
  generalize (if (length + offset) % 2 ^ 32 > img.fileSize inode then
    img.fileSize inode - offset else length) = wanted
  split
  · rfl
  split
  · rfl
  · rename_i crosses
    have offsetLt : offset % 4096 < 4096 := Nat.mod_lt _ (by decide)
    have beyond := Nat.mod_le (offset % 4096 + wanted) (2 ^ 32)
    rw [readBlocksReturning_eq _ _ _ _ _ _ (by omega)]

/-! ## The values returned -/

/-- The loop returns -1 or the bytes it was asked for, as an `int32_t`. -/
theorem readBlocks_value (inode block byteCount length : Nat) (positive : 0 < length) :
    (img.readBlocks inode block byteCount length).1 = -1 ∨
      (img.readBlocks inode block byteCount length).1 = toInt32 (byteCount + length) := by
  induction length using Nat.strongRecOn generalizing block byteCount with
  | ind length ih =>
      rw [readBlocks, dif_neg (Nat.ne_of_gt positive)]
      dsimp only
      by_cases missing : img.dataBlockIndex inode block ≥ img.totalDataBlocks
      · rw [if_pos missing]
        exact .inl rfl
      rw [if_neg missing]
      by_cases last : length ≤ 4096
      · rw [if_pos last]
        dsimp only
        exact .inr rfl
      · rw [if_neg last]
        have total : byteCount + 4096 + (length - 4096) = byteCount + length := by omega
        have value := ih (length - 4096) (by omega) (block + 1) (byteCount + 4096) (by omega)
        rw [total] at value
        exact value

/-- The sum of offset and length wraps around to a value inside the file. -/
def Unclipped (inode offset length : Nat) : Prop :=
  2 ^ 32 ≤ length + offset ∧ (length + offset) % 2 ^ 32 ≤ img.fileSize inode

/-- A length that is not cut down is returned as a negative number, or the read fails. -/
theorem readData_of_unclipped {inode offset length : Nat} (valid : inode < img.totalInodes)
    (sizeLe : img.fileSize inode ≤ 1023 * 4096) (inFile : offset < img.fileSize inode)
    (word : length < 2 ^ 32) (unclipped : img.Unclipped inode offset length) :
    (img.readData inode offset length).1 < 0 := by
  rcases unclipped with ⟨wraps, inside⟩
  have large : 2 ^ 31 ≤ length := by omega
  rw [readData, if_neg (Nat.not_le.mpr valid)]
  dsimp only
  rw [if_neg (Nat.not_le.mpr inFile), if_neg (Nat.not_lt.mpr inside)]
  by_cases missing : img.dataBlockIndex inode (offset / 4096) ≥ img.totalDataBlocks
  · rw [if_pos missing]
    exact (by decide : (-1 : Int) < 0)
  rw [if_neg missing]
  by_cases single : (offset % 4096 + length) % 2 ^ 32 ≤ 4096
  · rw [if_pos single]
    dsimp only
    exact toInt32_neg large word
  · rw [if_neg single]
    have offsetLt : offset % 4096 < 4096 := Nat.mod_lt _ (by decide)
    have total : 4096 - offset % 4096 + (length - (4096 - offset % 4096)) = length := by omega
    have value := img.readBlocks_value inode (offset / 4096 + 1) (4096 - offset % 4096)
      (length - (4096 - offset % 4096)) (by omega)
    rw [total] at value
    rcases value with failed | returned
    · exact lt_of_eq_of_lt failed (by decide)
    · exact lt_of_eq_of_lt returned (toInt32_neg large word)

/-! ## The slice -/

/-- Every file of the image is well formed. -/
def WellFormed : Prop :=
  ∀ inode < img.totalInodes, img.WellFormedFile inode

/-- What `read_data` returns and stores: the bytes of the file from `offset` on, as many
as were asked for and as there are. -/
structure ReadsSlice (inode offset length : UInt32) : Prop where
  invalid : img.totalInodes ≤ inode.toNat →
    img.readData inode.toNat offset.toNat length.toNat = (-1, [])
  atEnd : inode.toNat < img.totalInodes → img.fileSize inode.toNat ≤ offset.toNat →
    img.readData inode.toNat offset.toNat length.toNat = (0, [])
  inside : inode.toNat < img.totalInodes → offset.toNat < img.fileSize inode.toNat →
    let result := img.readData inode.toNat offset.toNat length.toNat
    let n := min length.toNat (img.fileSize inode.toNat - offset.toNat)
    result.1 = n ∧
      (∀ (buf : Nat → UInt8) (i : Nat), applyStores buf result.2 i =
        if i < n then img.fileByte inode.toNat (offset.toNat + i) else buf i) ∧
      ∀ store ∈ result.2, store.1 < n

variable {img}

theorem readsSlice_of_clipped (wellFormed : img.WellFormed) {inode offset length : UInt32}
    (clips : inode.toNat < img.totalInodes → offset.toNat < img.fileSize inode.toNat →
      ¬ img.Unclipped inode.toNat offset.toNat length.toNat) :
    img.ReadsSlice inode offset length := by
  constructor
  · intro invalid
    rw [readData, if_pos invalid]
  · intro valid atEnd
    rw [readData, if_neg (Nat.not_le.mpr valid)]
    dsimp only
    rw [if_pos atEnd]
  · intro valid inFile
    have fits := clips valid inFile
    unfold Unclipped at fits
    have slice := readData_eq_of_clipped (wellFormed _ valid) offset.toNat length.toNat (by omega)
    dsimp only at slice ⊢
    rw [slice]
    refine ⟨rfl, fun buf i => ?_, fun store member => ?_⟩
    · rw [applyStores_storeRange]
      simp
    · obtain ⟨i, below, rfl⟩ := mem_storeRange.mp member
      simpa using below

/-- The `return` behind the loop of `read_data` is not reached, and `read_data` returns
exactly the requested slice, if and only if the sum of offset and length does not wrap
around to a value inside the file. -/
theorem readData_slice_iff (wellFormed : img.WellFormed) (inode offset length : UInt32) :
    (∀ final, img.readDataReturning final inode.toNat offset.toNat length.toNat =
      img.readData inode.toNat offset.toNat length.toNat) ∧
      (img.ReadsSlice inode offset length ↔
        ¬ (inode.toNat < img.totalInodes ∧ offset.toNat < img.fileSize inode.toNat ∧
          2 ^ 32 ≤ length.toNat + offset.toNat ∧
          (length.toNat + offset.toNat) % 2 ^ 32 ≤ img.fileSize inode.toNat)) := by
  constructor
  · intro final
    exact img.readDataReturning_eq final _ _ _
  · constructor
    · rintro slice ⟨valid, inFile, unclipped⟩
      have returned := (slice.inside valid inFile).1
      have negative := img.readData_of_unclipped valid (wellFormed _ valid).sizeLe inFile
        length.toNat_lt unclipped
      omega
    · intro clips
      exact readsSlice_of_clipped wellFormed fun valid inFile unclipped =>
        clips ⟨valid, inFile, unclipped⟩

theorem wellFormed_sample : sample.WellFormed := by
  intro inode valid
  have one : sample.totalInodes = 1 := by decide
  have first : inode = 0 := by omega
  subst first
  exact sample_wellFormed

theorem readData_slice_sample : sample.ReadsSlice 0 20 0x7FFFFFFF :=
  (readData_slice_iff wellFormed_sample 0 20 0x7FFFFFFF).2.mpr (by decide)

/-- A read of 2^32 - 1 bytes from byte 1 of the file on, as `sys_read` makes it for the byte
count -1. -/
theorem readData_wraps : ¬ sample.ReadsSlice 0 1 0xFFFFFFFF := by
  intro slice
  have size : sample.fileSize 0 = 28 := by decide
  have one : sample.totalInodes = 1 := by decide
  have valid : 0 < sample.totalInodes := by omega
  have inFile : 1 < sample.fileSize 0 := by omega
  have wraps : sample.Unclipped 0 1 0xFFFFFFFF := ⟨by decide, by omega⟩
  have returned := (slice.inside valid inFile).1
  have negative := sample.readData_of_unclipped valid (by omega) inFile (by decide) wraps
  have same : (sample.readData (0 : UInt32).toNat (1 : UInt32).toNat
      (0xFFFFFFFF : UInt32).toNat).1 = (sample.readData 0 1 0xFFFFFFFF).1 := rfl
  omega

end Image

end Ece391Os
