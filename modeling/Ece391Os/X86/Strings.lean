import Ece391Os.X86.Machine

/-!
# String instructions of bytes and words

Repeated `movsb` in both directions, also where the blocks overlap, and repeated `stos` of any
width.
-/

namespace Ece391Os.X86

namespace Strings

/-- The sign of the direction flag. -/
def direction (cpu : Processor) : UInt32 :=
  if cpu.df then -1 else 1

/-- A pointer behind or in front of an element, by the direction flag. -/
def advance (cpu : Processor) (width : UInt32) (pointer : UInt32) : UInt32 :=
  pointer + direction cpu * width

/-- `movsb`. -/
def movsb (cpu : Processor) : Processor :=
  { cpu with
    memory := Function.update cpu.memory cpu.edi (cpu.memory cpu.esi)
    edi := advance cpu 1 cpu.edi
    esi := advance cpu 1 cpu.esi }

/-- Store the low bytes of a word. -/
def storeBytes (width : Nat) (memory : UInt32 → UInt8) (address word a : UInt32) : UInt8 :=
  if (a - address).toNat < width then wordByte word (a - address).toNat else memory a

/-- `stosw` and `stosl`, by their width. -/
def stos (width : Nat) (cpu : Processor) : Processor :=
  { cpu with
    memory := storeBytes width cpu.memory cpu.edi cpu.eax
    edi := advance cpu (.ofNat width) cpu.edi }

/-- `rep`: as many rounds as `ecx` says. -/
def rep (string : Processor → Processor) (cpu : Processor) : Processor :=
  { string^[cpu.ecx.toNat] cpu with ecx := 0 }

variable {cpu : Processor}

theorem direction_square (cpu : Processor) : direction cpu * direction cpu = 1 := by
  rw [direction]
  split <;> rfl

/-! ## Moves -/

/-- The registers after some rounds. -/
theorem movsb_registers (cpu : Processor) (count : Nat) :
    (movsb^[count] cpu).df = cpu.df ∧
      (movsb^[count] cpu).edi = cpu.edi + direction cpu * .ofNat count ∧
      (movsb^[count] cpu).esi = cpu.esi + direction cpu * .ofNat count := by
  induction count with
  | zero => simp
  | succ count ih =>
      rcases ih with ⟨df, edi, esi⟩
      have same : direction (movsb^[count] cpu) = direction cpu := by
        rw [direction, direction, df]
      have more : UInt32.ofNat (count + 1) = .ofNat count + 1 := UInt32.ofNat_add count 1
      rw [Function.iterate_succ_apply', movsb]
      refine ⟨df, ?_, ?_⟩
      · simp only [advance, same, edi, more]
        grind
      · simp only [advance, same, esi, more]
        grind

/-- Some rounds move the bytes of a block, in the order of the addresses or the other way, where
no byte is written before it is read. -/
theorem movsb_moves (cpu : Processor) {count : Nat}
    (ahead : (direction cpu * (cpu.esi - cpu.edi)).toNat + count ≤ 2 ^ 32) (a : UInt32) :
    (movsb^[count] cpu).memory a =
      if (direction cpu * (a - cpu.edi)).toNat < count then cpu.memory (cpu.esi + (a - cpu.edi))
      else cpu.memory a := by
  induction count generalizing a with
  | zero => rfl
  | succ count ih =>
      have ⟨_, edi, esi⟩ := movsb_registers cpu count
      have square := direction_square cpu
      have number : (UInt32.ofNat count).toNat = count :=
        UInt32.toNat_ofNat_of_lt' (Nat.lt_of_lt_of_le (by omega) ahead)
      -- The byte that the next round reads is not yet written.
      have unread : (movsb^[count] cpu).memory (cpu.esi + direction cpu * .ofNat count) =
          cpu.memory (cpu.esi + direction cpu * .ofNat count) := by
        have offset : direction cpu * (cpu.esi + direction cpu * .ofNat count - cpu.edi) =
            direction cpu * (cpu.esi - cpu.edi) + .ofNat count := by grind
        rw [ih (Nat.le_of_succ_le ahead), offset, UInt32.toNat_add, number, if_neg]
        omega
      rw [Function.iterate_succ_apply', movsb, edi, esi, unread]
      by_cases here : a = cpu.edi + direction cpu * .ofNat count
      · have offset : direction cpu * (a - cpu.edi) = .ofNat count := by grind
        have place : cpu.esi + (a - cpu.edi) = cpu.esi + direction cpu * .ofNat count := by grind
        rw [offset, number, if_pos (Nat.lt_succ_self count), place, ← here]
        exact Function.update_self _ _ _
      · have other : (direction cpu * (a - cpu.edi)).toNat ≠ count := by
          intro same
          have offset : direction cpu * (a - cpu.edi) = .ofNat count :=
            UInt32.toNat_inj.mp (same.trans number.symm)
          exact here (by grind)
        have bound : (direction cpu * (a - cpu.edi)).toNat < count + 1 ↔
            (direction cpu * (a - cpu.edi)).toNat < count := by omega
        simp only [bound]
        exact (Function.update_of_ne here _ _).trans (ih (Nat.le_of_succ_le ahead) a)

/-! ## Stores -/

/-- The registers after some rounds upwards. -/
theorem stos_registers (up : cpu.df = false) (width count : Nat) :
    ((stos width)^[count] cpu).df = false ∧ ((stos width)^[count] cpu).eax = cpu.eax ∧
      ((stos width)^[count] cpu).edi = cpu.edi + .ofNat (width * count) := by
  induction count with
  | zero => simp [up]
  | succ count ih =>
      rcases ih with ⟨df, eax, edi⟩
      have more : UInt32.ofNat (width * (count + 1)) = .ofNat (width * count) + .ofNat width := by
        rw [Nat.mul_succ, UInt32.ofNat_add]
      rw [Function.iterate_succ_apply', stos]
      refine ⟨df, eax, ?_⟩
      simp only [advance, direction, df, edi, more]
      grind

/-- Some rounds upwards fill a block with the low bytes of `eax`, over and over. -/
theorem stos_fills (up : cpu.df = false) {width count : Nat} (positive : 0 < width)
    (room : width * count ≤ 2 ^ 32) (a : UInt32) :
    ((stos width)^[count] cpu).memory a =
      if (a - cpu.edi).toNat < width * count then
        wordByte cpu.eax ((a - cpu.edi).toNat % width)
      else
        cpu.memory a := by
  induction count with
  | zero => rfl
  | succ count ih =>
      have ⟨_, eax, edi⟩ := stos_registers up width count
      have before := ih (Nat.le_trans (Nat.mul_le_mul_left _ (Nat.le_succ count)) room)
      rw [Nat.mul_succ] at room ⊢
      have number : (UInt32.ofNat (width * count)).toNat = width * count :=
        UInt32.toNat_ofNat_of_lt' (Nat.lt_of_lt_of_le (by omega) room)
      have offset : a - (cpu.edi + .ofNat (width * count)) =
          a - cpu.edi - .ofNat (width * count) := by grind
      rw [Function.iterate_succ_apply', stos, edi, eax]
      dsimp only
      rw [storeBytes, before, offset, UInt32.toNat_sub, number]
      have inside := (a - cpu.edi).toNat_lt
      generalize (a - cpu.edi).toNat = x at inside ⊢
      by_cases behind : x < width * count
      · rw [if_neg (by omega), if_pos behind, if_pos (by omega)]
      · have rest : (2 ^ 32 - width * count + x) % 2 ^ 32 = x - width * count := by omega
        rw [rest, if_neg behind]
        by_cases last : x - width * count < width
        · have part : x % width = x - width * count := by
            rw [← Nat.sub_mul_mod (by omega : width * count ≤ x), Nat.mod_eq_of_lt last]
          rw [if_pos last, if_pos (by omega), part]
        · rw [if_neg last, if_neg (by omega)]

end Strings

end Ece391Os.X86
