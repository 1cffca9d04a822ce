import Ece391Os.Memory.BlockOperations
import Ece391Os.X86.Strings

/-!
# `memmove`, `memset_word` and `memset_dword`

The block operations of `lib.c` that are one repeated string instruction.  `memmove` moves blocks
that overlap, in the direction in which every byte is read before it is written.
-/

namespace Ece391Os

open X86

namespace BlockOperations

/-- `movw %ds, %dx`, `movw %dx, %es` and `cld`. -/
def dsToEs (cpu : Processor) : Processor :=
  execAll [.movwFromDs .edx, .movwToEs .edx, .cld] cpu

/-- `memmove`.  The two `leal` and `std` are passed where `cmp %edi, %esi` finds the source not
below the destination. -/
def memmove (cpu : Processor) (dest src n : UInt32) : UInt32 × Processor :=
  let cpu := dsToEs { cpu with edi := dest, esi := src, ecx := n }
  let cpu :=
    if cpu.edi ≤ cpu.esi then cpu
    else { cpu with esi := cpu.esi + cpu.ecx - 1, edi := cpu.edi + cpu.ecx - 1, df := true }
  (dest, Strings.rep Strings.movsb cpu)

/-- `memset_word`. -/
def memsetWord (cpu : Processor) (s c n : UInt32) : UInt32 × Processor :=
  (s, Strings.rep (Strings.stos 2) (dsToEs { cpu with eax := c, edi := s, ecx := n }))

/-- `memset_dword`. -/
def memsetDword (cpu : Processor) (s c n : UInt32) : UInt32 × Processor :=
  (s, Strings.rep (Strings.stos 4) (dsToEs { cpu with eax := c, edi := s, ecx := n }))

/-- What `memmove` leaves in memory. -/
theorem memmove_memory (cpu : Processor) {dest src n : UInt32}
    (room : dest.toNat + n.toNat ≤ 2 ^ 32) (sourceRoom : src.toNat + n.toNat ≤ 2 ^ 32)
    (a : UInt32) :
    (memmove cpu dest src n).2.memory a =
      if (a - dest).toNat < n.toNat then cpu.memory (src + (a - dest)) else cpu.memory a := by
  by_cases order : dest ≤ src
  · let start : Processor := dsToEs { cpu with edi := dest, esi := src, ecx := n }
    have moved : (memmove cpu dest src n).2 = Strings.rep Strings.movsb start := by
      rw [memmove]
      exact congrArg (Strings.rep Strings.movsb) (if_pos order)
    have up : Strings.direction start = 1 := rfl
    have ahead : (Strings.direction start * (start.esi - start.edi)).toNat + n.toNat ≤ 2 ^ 32 := by
      have difference : (src - dest).toNat = src.toNat - dest.toNat :=
        UInt32.toNat_sub_of_le _ _ order
      rw [up, UInt32.one_mul]
      change (src - dest).toNat + n.toNat ≤ 2 ^ 32
      omega
    have moves := Strings.movsb_moves start ahead a
    rw [up, UInt32.one_mul] at moves
    rw [moved]
    exact moves
  · let start : Processor :=
      { dsToEs { cpu with edi := dest, esi := src, ecx := n } with
        esi := src + n - 1
        edi := dest + n - 1
        df := true }
    have moved : (memmove cpu dest src n).2 = Strings.rep Strings.movsb start := by
      rw [memmove]
      exact congrArg (Strings.rep Strings.movsb) (if_neg order)
    have down : Strings.direction start = -1 := rfl
    have above : src.toNat < dest.toNat := UInt32.lt_iff_toNat_lt.mp (UInt32.not_le.mp order)
    have ahead : (Strings.direction start * (start.esi - start.edi)).toNat + n.toNat ≤ 2 ^ 32 := by
      have difference : -1 * (src + n - 1 - (dest + n - 1)) = dest - src := by grind
      rw [down]
      change (-1 * (src + n - 1 - (dest + n - 1))).toNat + n.toNat ≤ 2 ^ 32
      rw [difference, UInt32.toNat_sub_of_le _ _ (UInt32.le_iff_toNat_le.mpr (by omega))]
      omega
    have moves := Strings.movsb_moves start ahead a
    have offset : -1 * (a - (dest + n - 1)) = n - 1 - (a - dest) := by grind
    have place : src + n - 1 + (a - (dest + n - 1)) = src + (a - dest) := by grind
    -- Counted from the last byte, the block has the same addresses.
    have range : (n - 1 - (a - dest)).toNat < n.toNat ↔ (a - dest).toNat < n.toNat := by
      have inside := (a - dest).toNat_lt
      have length := n.toNat_lt
      have one : (1 : UInt32).toNat = 1 := rfl
      rw [UInt32.toNat_sub, UInt32.toNat_sub n, one]
      omega
    rw [moved]
    refine moves.trans ?_
    rw [down]
    change (if (-1 * (a - (dest + n - 1))).toNat < n.toNat then
      cpu.memory (src + n - 1 + (a - (dest + n - 1))) else cpu.memory a) = _
    rw [offset, place]
    simp only [range]

/-- The direction flag is left set where the bytes are moved from the last one on. -/
theorem memmove_df (cpu : Processor) (dest src n : UInt32) :
    (memmove cpu dest src n).2.df = decide (src < dest) := by
  rw [memmove]
  change ((Strings.movsb)^[_] _).df = _
  rw [(Strings.movsb_registers _ _).1]
  by_cases order : dest ≤ src
  · rw [decide_eq_false (UInt32.not_lt.mpr order)]
    exact congrArg Processor.df (if_pos order)
  · rw [decide_eq_true (UInt32.not_le.mp order)]
    exact congrArg Processor.df (if_neg order)

/-- What `rep stos` of some width leaves in memory. -/
theorem stos_memory (cpu : Processor) {width : Nat} (positive : 0 < width) {s c n : UInt32}
    (room : width * n.toNat ≤ 2 ^ 32) (a : UInt32) :
    (Strings.rep (Strings.stos width)
        (dsToEs { cpu with eax := c, edi := s, ecx := n })).memory a =
      if (a - s).toNat < width * n.toNat then wordByte c ((a - s).toNat % width)
      else cpu.memory a :=
  @Strings.stos_fills (dsToEs { cpu with eax := c, edi := s, ecx := n }) rfl width n.toNat positive
    room a

/-- `memmove` returns its destination and moves the bytes of one block exactly to another one,
overlapping or not, and leaves the direction flag set where the source is below the destination;
`memset_word` and `memset_dword` fill so many words exactly with the low bytes of `c`. -/
theorem string_routines_exact (cpu : Processor) :
    (∀ dest src n : UInt32, dest.toNat + n.toNat ≤ 2 ^ 32 → src.toNat + n.toNat ≤ 2 ^ 32 →
      (memmove cpu dest src n).1 = dest ∧
        Writes cpu.memory (memmove cpu dest src n).2.memory dest n
          (fun i => cpu.memory (src + i)) ∧
        (memmove cpu dest src n).2.df = decide (src < dest)) ∧
      (∀ s c n : UInt32, 2 * n.toNat < 2 ^ 32 → s.toNat + 2 * n.toNat ≤ 2 ^ 32 →
        (memsetWord cpu s c n).1 = s ∧
          Writes cpu.memory (memsetWord cpu s c n).2.memory s (2 * n)
            fun i => wordByte c (i.toNat % 2)) ∧
      ∀ s c n : UInt32, 4 * n.toNat < 2 ^ 32 → s.toNat + 4 * n.toNat ≤ 2 ^ 32 →
        (memsetDword cpu s c n).1 = s ∧
          Writes cpu.memory (memsetDword cpu s c n).2.memory s (4 * n)
            fun i => wordByte c (i.toNat % 4) := by
  refine ⟨fun dest src n room sourceRoom => ?_, fun s c n small room => ?_,
    fun s c n small room => ?_⟩
  · exact ⟨rfl, writes_of_offsets room fun a => memmove_memory cpu room sourceRoom a,
      memmove_df cpu dest src n⟩
  · have bytes : (2 * n).toNat = 2 * n.toNat := by
      rw [UInt32.toNat_mul]
      exact Nat.mod_eq_of_lt small
    refine ⟨rfl, writes_of_offsets (by rw [bytes]; exact room) fun a => ?_⟩
    rw [bytes]
    exact stos_memory cpu (by decide) (Nat.le_of_lt small) a
  · have bytes : (4 * n).toNat = 4 * n.toNat := by
      rw [UInt32.toNat_mul]
      exact Nat.mod_eq_of_lt small
    refine ⟨rfl, writes_of_offsets (by rw [bytes]; exact room) fun a => ?_⟩
    rw [bytes]
    exact stos_memory cpu (by decide) (Nat.le_of_lt small) a

/-- Eight bytes are moved up by two, and three words are filled. -/
theorem string_routines_exact_sample :
    (Writes (fun a => a.toUInt8) (memmove (sampleCpu fun a => a.toUInt8) 0x1002 0x1000 8).2.memory
        0x1002 8 (fun i => (0x1000 + i).toUInt8) ∧
      (memmove (sampleCpu fun a => a.toUInt8) 0x1002 0x1000 8).2.df = true) ∧
      Writes (fun _ => 0) (memsetWord (sampleCpu fun _ => 0) 0x1001 0x0720 3).2.memory 0x1001 6
        (fun i => wordByte 0x0720 (i.toNat % 2)) ∧
      Writes (fun _ => 0) (memsetDword (sampleCpu fun _ => 0) 0x1001 0x0720 3).2.memory 0x1001 12
        fun i => wordByte 0x0720 (i.toNat % 4) := by
  have moved := ((string_routines_exact (sampleCpu fun a => a.toUInt8)).1 0x1002 0x1000 8
    (by decide) (by decide)).2
  have filled := (string_routines_exact (sampleCpu fun _ => 0)).2
  exact ⟨moved, (filled.1 0x1001 0x0720 3 (by decide) (by decide)).2,
    (filled.2 0x1001 0x0720 3 (by decide) (by decide)).2⟩

end BlockOperations

end Ece391Os
