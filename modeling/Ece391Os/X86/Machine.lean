import Ece391Os.Transition.Bounded
import Mathlib.Algebra.Order.Ring.Int
import Mathlib.Logic.Function.Basic
import Mathlib.Logic.Function.Iterate

/-!
# A fragment of the 80386

Instructions of assembly text with labels, in the order of AT&T syntax, on a flat address
space.  A machine runs instruction by instruction, and a repeated string instruction round
by round, until it is at the end of the text.  The rules at the end of the module lead from
what holds behind an instruction to what holds in front of it.
-/

namespace Ece391Os.X86

open Transition

/-- The registers that the fragment uses, and memory. -/
structure Processor where
  eax : UInt32
  ecx : UInt32
  edx : UInt32
  esi : UInt32
  edi : UInt32
  ds : UInt16
  es : UInt16
  zf : Bool
  df : Bool
  memory : UInt32 → UInt8

/-- The general registers. -/
inductive Reg where
  | eax
  | ecx
  | edx
  | esi
  | edi

namespace Processor

/-- The value of a register. -/
def get (cpu : Processor) : Reg → UInt32
  | .eax => cpu.eax
  | .ecx => cpu.ecx
  | .edx => cpu.edx
  | .esi => cpu.esi
  | .edi => cpu.edi

/-- Change a register. -/
def set (cpu : Processor) (r : Reg) (value : UInt32) : Processor :=
  match r with
  | .eax => { cpu with eax := value }
  | .ecx => { cpu with ecx := value }
  | .edx => { cpu with edx := value }
  | .esi => { cpu with esi := value }
  | .edi => { cpu with edi := value }

/-- Change a register to a result, which sets the zero flag. -/
def setResult (cpu : Processor) (r : Reg) (value : UInt32) : Processor :=
  { cpu.set r value with zf := value = 0 }

/-- Store a byte. -/
def store (cpu : Processor) (address : UInt32) (value : UInt8) : Processor :=
  { cpu with memory := Function.update cpu.memory address value }

end Processor

/-! ## Words in memory -/

/-- A byte of a word, the lowest first. -/
def wordByte (word : UInt32) (i : Nat) : UInt8 :=
  UInt8.ofNat (word.toNat / 2 ^ (8 * i))

/-- Store a word, its lowest byte first. -/
def storeWord (memory : UInt32 → UInt8) (address word : UInt32) : UInt32 → UInt8 :=
  let first := Function.update memory address (wordByte word 0)
  let second := Function.update first (address + 1) (wordByte word 1)
  let third := Function.update second (address + 2) (wordByte word 2)
  Function.update third (address + 3) (wordByte word 3)

/-- Load a word. -/
def loadWord (memory : UInt32 → UInt8) (address : UInt32) : UInt32 :=
  UInt32.ofNat ((memory address).toNat + 2 ^ 8 * (memory (address + 1)).toNat +
    2 ^ 16 * (memory (address + 2)).toNat + 2 ^ 24 * (memory (address + 3)).toNat)

theorem wordByte_zero (word : UInt32) : wordByte word 0 = word.toUInt8 := by
  apply UInt8.toNat_inj.mp
  rw [wordByte, UInt8.toNat_ofNat', UInt32.toNat_toUInt8]
  simp

theorem wordByte_loadWord (memory : UInt32 → UInt8) (address : UInt32) :
    wordByte (loadWord memory address) 0 = memory address ∧
      wordByte (loadWord memory address) 1 = memory (address + 1) ∧
      wordByte (loadWord memory address) 2 = memory (address + 2) ∧
      wordByte (loadWord memory address) 3 = memory (address + 3) := by
  have first := (memory address).toNat_lt
  have second := (memory (address + 1)).toNat_lt
  have third := (memory (address + 2)).toNat_lt
  have fourth := (memory (address + 3)).toNat_lt
  have word : (loadWord memory address).toNat = (memory address).toNat +
      2 ^ 8 * (memory (address + 1)).toNat + 2 ^ 16 * (memory (address + 2)).toNat +
      2 ^ 24 * (memory (address + 3)).toNat := by
    rw [loadWord, UInt32.toNat_ofNat']
    omega
  refine ⟨?_, ?_, ?_, ?_⟩
  all_goals
    apply UInt8.toNat_inj.mp
    rw [wordByte, word, UInt8.toNat_ofNat']
    omega

/-! ## Instructions -/

/-- Instructions that lead to the next one. -/
inductive Op where
  | testlImm (imm : UInt32) (r : Reg)
  | testl (source r : Reg)
  | movbLoad (address : Reg)
  | movbStore (address : Reg)
  | addl (imm : UInt32) (r : Reg)
  | subl (imm : UInt32) (r : Reg)
  | andl (imm : UInt32) (r : Reg)
  | shrl (imm : UInt32) (r : Reg)
  | movl (source r : Reg)
  | movwFromDs (r : Reg)
  | movwToEs (r : Reg)
  | cld

/-- What an instruction does.  `movbLoad` is `movb (r), %al` and `movbStore` is
`movb %al, (r)`. -/
def Op.exec (cpu : Processor) : Op → Processor
  | .testlImm imm r => { cpu with zf := imm &&& cpu.get r = 0 }
  | .testl source r => { cpu with zf := cpu.get source &&& cpu.get r = 0 }
  | .movbLoad address =>
      { cpu with
        eax := (cpu.eax &&& 0xFFFFFF00) ||| (cpu.memory (cpu.get address)).toUInt32 }
  | .movbStore address => cpu.store (cpu.get address) cpu.eax.toUInt8
  | .addl imm r => cpu.setResult r (cpu.get r + imm)
  | .subl imm r => cpu.setResult r (cpu.get r - imm)
  | .andl imm r => cpu.setResult r (cpu.get r &&& imm)
  | .shrl imm r => cpu.setResult r (cpu.get r >>> imm)
  | .movl source r => cpu.set r (cpu.get source)
  | .movwFromDs r => cpu.set r ((cpu.get r &&& 0xFFFF0000) ||| cpu.ds.toUInt32)
  | .movwToEs r => { cpu with es := (cpu.get r).toUInt16 }
  | .cld => { cpu with df := false }

/-- String instructions on words. -/
inductive StringOp where
  | stosl
  | movsl

/-- A pointer behind or in front of a word, by the direction flag. -/
def Processor.advance (cpu : Processor) (pointer : UInt32) : UInt32 :=
  if cpu.df then pointer - 4 else pointer + 4

/-- One round of a string instruction. -/
def StringOp.exec (cpu : Processor) : StringOp → Processor
  | .stosl =>
      { cpu with
        memory := storeWord cpu.memory cpu.edi cpu.eax
        edi := cpu.advance cpu.edi }
  | .movsl =>
      { cpu with
        memory := storeWord cpu.memory cpu.edi (loadWord cpu.memory cpu.esi)
        edi := cpu.advance cpu.edi
        esi := cpu.advance cpu.esi }

/-- Assembly text. -/
inductive Instr (L : Type) where
  | label (l : L)
  | op (op : Op)
  | jz (l : L)
  | jmp (l : L)
  | rep (string : StringOp)

/-- The text behind a label. -/
def target {L : Type} [DecidableEq L] (l : L) : List (Instr L) → List (Instr L)
  | [] => []
  | .label other :: rest => if other = l then rest else target l rest
  | .op _ :: rest | .jz _ :: rest | .jmp _ :: rest | .rep _ :: rest => target l rest

/-- A machine is in front of the rest of its text. -/
structure Machine (L : Type) where
  cpu : Processor
  rest : List (Instr L)

variable {L : Type} [DecidableEq L] {code rest : List (Instr L)} {cpu : Processor}
  {post : Processor → Prop}

/-- One step of a machine with the given text. -/
def step (code : List (Instr L)) (m : Machine L) : Machine L :=
  match m.rest with
  | [] => m
  | .label _ :: rest => { m with rest := rest }
  | .op op :: rest => { cpu := op.exec m.cpu, rest := rest }
  | .jz l :: rest => { m with rest := if m.cpu.zf then target l code else rest }
  | .jmp l :: _ => { m with rest := target l code }
  | .rep string :: rest =>
      if m.cpu.ecx = 0 then
        { m with rest := rest }
      else
        { m with cpu := { string.exec m.cpu with ecx := m.cpu.ecx - 1 } }

/-- Run a machine to the end of its text, for a number of steps at most. -/
def run (code : List (Instr L)) (bound : Nat) (m : Machine L) : Option (Machine L) :=
  whileLoop (fun m => !m.rest.isEmpty) (step code) bound m

/-- The machine ends, and what holds there. -/
def Halts (code : List (Instr L)) (m : Machine L) (post : Processor → Prop) : Prop :=
  ∃ final, Returns (fun bound => run code bound m) final ∧ post final.cpu

/-- There are no labels among instructions of other kinds. -/
theorem target_ops (l : L) (block : List Op) (rest : List (Instr L)) :
    target l (block.map .op ++ rest) = target l rest := by
  induction block with
  | nil => rfl
  | cons first block ih => exact ih

/-- The processor behind a block of instructions. -/
def execAll (block : List Op) (cpu : Processor) : Processor :=
  block.foldl (fun cpu op => op.exec cpu) cpu

/-! ## Rules -/

namespace Halts

theorem done (holds : post cpu) : Halts code { cpu := cpu, rest := [] } post :=
  ⟨_, Returns.round (.pure _), holds⟩

/-- What holds behind a step. -/
theorem step {instr : Instr L}
    (next : Halts code (step code { cpu := cpu, rest := instr :: rest }) post) :
    Halts code { cpu := cpu, rest := instr :: rest } post := by
  rcases next with ⟨final, returns, holds⟩
  exact ⟨final, Returns.round returns, holds⟩

theorem label {l : L} (next : Halts code { cpu := cpu, rest := rest } post) :
    Halts code { cpu := cpu, rest := .label l :: rest } post :=
  step next

theorem op {op : Op} (next : Halts code { cpu := op.exec cpu, rest := rest } post) :
    Halts code { cpu := cpu, rest := .op op :: rest } post :=
  step next

theorem jmp {l : L} (next : Halts code { cpu := cpu, rest := target l code } post) :
    Halts code { cpu := cpu, rest := .jmp l :: rest } post :=
  step next

theorem jz_taken {l : L} (zero : cpu.zf = true)
    (next : Halts code { cpu := cpu, rest := target l code } post) :
    Halts code { cpu := cpu, rest := .jz l :: rest } post := by
  apply step
  simpa [X86.step, zero] using next

theorem jz_passed {l : L} (nonzero : cpu.zf = false)
    (next : Halts code { cpu := cpu, rest := rest } post) :
    Halts code { cpu := cpu, rest := .jz l :: rest } post := by
  apply step
  simpa [X86.step, nonzero] using next

/-- Instructions one after the other. -/
theorem ops {block : List Op}
    (next : Halts code { cpu := execAll block cpu, rest := rest } post) :
    Halts code { cpu := cpu, rest := block.map .op ++ rest } post := by
  induction block generalizing cpu with
  | nil => exact next
  | cons first block ih => exact op (ih next)

end Halts

theorem StringOp.exec_setEcx (string : StringOp) (cpu : Processor) (ecx : UInt32) :
    string.exec { cpu with ecx := ecx } = { string.exec cpu with ecx := ecx } := by
  cases string <;> rfl

theorem StringOp.iterate_setEcx (string : StringOp) (cpu : Processor) (ecx : UInt32) (count : Nat) :
    (fun cpu => string.exec cpu)^[count] { cpu with ecx := ecx } =
      { (fun cpu => string.exec cpu)^[count] cpu with ecx := ecx } := by
  induction count generalizing cpu with
  | zero => rfl
  | succ count ih =>
      rw [Function.iterate_succ_apply, Function.iterate_succ_apply, string.exec_setEcx, ih]

theorem StringOp.iterate_edx (string : StringOp) (cpu : Processor) (count : Nat) :
    ((fun cpu => string.exec cpu)^[count] cpu).edx = cpu.edx := by
  induction count generalizing cpu with
  | zero => rfl
  | succ count ih =>
      rw [Function.iterate_succ_apply, ih]
      cases string <;> rfl

/-- A counter that is not zero goes down. -/
theorem toNat_sub_one {counter : UInt32} {count : Nat} (rounds : counter.toNat = count + 1) :
    (counter - 1).toNat = count := by
  have one : (1 : UInt32).toNat = 1 := rfl
  have enough : (1 : UInt32) ≤ counter := UInt32.le_iff_toNat_le.mpr (by omega)
  rw [UInt32.toNat_sub_of_le _ _ enough]
  omega

/-- A repeated string instruction makes as many rounds as `ecx` says. -/
theorem Halts.rep {string : StringOp}
    (next : Halts code
      { cpu := { (fun cpu => string.exec cpu)^[cpu.ecx.toNat] cpu with ecx := 0 }, rest := rest }
      post) :
    Halts code { cpu := cpu, rest := .rep string :: rest } post := by
  induction rounds : cpu.ecx.toNat generalizing cpu with
  | zero =>
      have none : cpu.ecx = 0 := UInt32.toNat_inj.mp rounds
      have same : { cpu with ecx := 0 } = cpu := by rw [← none]
      rw [rounds, Function.iterate_zero, id, same] at next
      apply Halts.step
      simpa [X86.step, none] using next
  | succ count ih =>
      have some : cpu.ecx ≠ 0 := by
        intro zero
        rw [zero] at rounds
        cases rounds
      have fewer : (cpu.ecx - 1).toNat = count := toNat_sub_one rounds
      have round : Halts code
          { cpu := { string.exec cpu with ecx := cpu.ecx - 1 }, rest := .rep string :: rest }
          post := by
        apply ih _ fewer
        rw [fewer, string.iterate_setEcx]
        rw [rounds, Function.iterate_succ_apply] at next
        exact next
      apply Halts.step
      simpa [X86.step, some] using round

end Ece391Os.X86
