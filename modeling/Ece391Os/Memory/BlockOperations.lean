import Ece391Os.Memory.Stores
import Ece391Os.X86.Machine

/-!
# `memset` and `memcpy`

The assembly of the two block operations of `lib.c`: bytes up to an aligned destination, then
words, then the bytes that are left.  Both texts are one text with their own moves, and
both operations do to every length what so many moves of a byte do.
-/

namespace Ece391Os

open Transition X86

namespace BlockOperations

/-- The labels `.memset_top` to `.memset_done`, and those of `memcpy`. -/
inductive Label where
  | top
  | aligned
  | bottom
  | done
  deriving DecidableEq

/-- The assembly of `memset`. -/
def memsetCode : List (Instr Label) :=
  [.label .top,
    .op (.testl .ecx .ecx),
    .jz .done,
    .op (.testlImm 0x3 .edi),
    .jz .aligned,
    .op (.movbStore .edi),
    .op (.addl 1 .edi),
    .op (.subl 1 .ecx),
    .jmp .top,
    .label .aligned,
    .op (.movwFromDs .edx),
    .op (.movwToEs .edx),
    .op (.movl .ecx .edx),
    .op (.shrl 2 .ecx),
    .op (.andl 0x3 .edx),
    .op .cld,
    .rep .stosl,
    .label .bottom,
    .op (.testl .edx .edx),
    .jz .done,
    .op (.movbStore .edi),
    .op (.addl 1 .edi),
    .op (.subl 1 .edx),
    .jmp .bottom,
    .label .done]

/-- The assembly of `memcpy`. -/
def memcpyCode : List (Instr Label) :=
  [.label .top,
    .op (.testl .ecx .ecx),
    .jz .done,
    .op (.testlImm 0x3 .edi),
    .jz .aligned,
    .op (.movbLoad .esi),
    .op (.movbStore .edi),
    .op (.addl 1 .edi),
    .op (.addl 1 .esi),
    .op (.subl 1 .ecx),
    .jmp .top,
    .label .aligned,
    .op (.movwFromDs .edx),
    .op (.movwToEs .edx),
    .op (.movl .ecx .edx),
    .op (.shrl 2 .ecx),
    .op (.andl 0x3 .edx),
    .op .cld,
    .rep .movsl,
    .label .bottom,
    .op (.testl .edx .edx),
    .jz .done,
    .op (.movbLoad .esi),
    .op (.movbStore .edi),
    .op (.addl 1 .edi),
    .op (.addl 1 .esi),
    .op (.subl 1 .edx),
    .jmp .bottom,
    .label .done]

/-- `memset(s, c, n)`, with the registers and memory at its call. -/
def memset (bound : Nat) (cpu : Processor) (s c n : UInt32) : Option (UInt32 × Processor) :=
  let c := c &&& 0xFF
  let eax := c <<< 24 ||| c <<< 16 ||| c <<< 8 ||| c
  (X86.run memsetCode bound
    { cpu := { cpu with eax := eax, edi := s, ecx := n }, rest := memsetCode }).map fun m =>
      (s, m.cpu)

/-- `memcpy(dest, src, n)`, with the registers and memory at its call. -/
def memcpy (bound : Nat) (cpu : Processor) (dest src n : UInt32) : Option (UInt32 × Processor) :=
  (X86.run memcpyCode bound
    { cpu := { cpu with esi := src, edi := dest, ecx := n }, rest := memcpyCode }).map fun m =>
      (dest, m.cpu)

/-! ## The text of a block operation -/

/-- The loop for the last bytes. -/
def bottomLoop (move : List Op) : List (Instr Label) :=
  .op (.testl .edx .edx) :: .jz .done ::
    (move.map .op ++ [.op (.subl 1 .edx), .jmp .bottom, .label .done])

/-- The words, and what follows. -/
def wordCode (move : List Op) (string : StringOp) : List (Instr Label) :=
  .op (.movwFromDs .edx) :: .op (.movwToEs .edx) :: .op (.movl .ecx .edx) ::
    .op (.shrl 2 .ecx) :: .op (.andl 0x3 .edx) :: .op .cld :: .rep string ::
    .label .bottom :: bottomLoop move

/-- The loop up to an aligned destination, and what follows. -/
def topLoop (move : List Op) (string : StringOp) : List (Instr Label) :=
  .op (.testl .ecx .ecx) :: .jz .done :: .op (.testlImm 0x3 .edi) :: .jz .aligned ::
    (move.map .op ++ .op (.subl 1 .ecx) :: .jmp .top :: .label .aligned :: wordCode move string)

/-- The text that moves bytes by some instructions and words by a string instruction. -/
def blockCode (move : List Op) (string : StringOp) : List (Instr Label) :=
  .label .top :: topLoop move string

theorem memsetCode_eq : memsetCode = blockCode [.movbStore .edi, .addl 1 .edi] .stosl :=
  rfl

theorem memcpyCode_eq :
    memcpyCode =
      blockCode [.movbLoad .esi, .movbStore .edi, .addl 1 .edi, .addl 1 .esi] .movsl :=
  rfl

section Targets

variable (move : List Op) (string : StringOp)

theorem target_top : target .top (blockCode move string) = topLoop move string :=
  rfl

theorem target_aligned : target .aligned (blockCode move string) = wordCode move string :=
  target_ops _ _ _

theorem target_bottom : target .bottom (blockCode move string) = bottomLoop move :=
  target_ops _ _ _

theorem target_done : target .done (blockCode move string) = [] := by
  have behind : target .done (blockCode move string) = target .done (wordCode move string) :=
    target_ops _ _ _
  rw [behind]
  exact target_ops _ _ _

end Targets

/-! ## What a block operation does -/

/-- The moves of a byte and of a word, seen through some view of the processor. -/
structure Moves (move : List Op) (string : StringOp) {τ : Type} (view : Processor → τ)
    (unit : τ → τ) (ready : Nat → τ → Prop) : Prop where
  counters : ∀ (cpu : Processor) ecx edx es zf df, view { cpu with
    ecx := ecx
    edx := edx
    es := es
    zf := zf
    df := df } = view cpu
  byte : ∀ cpu, view (execAll move cpu) = unit (view cpu)
  ecx : ∀ cpu, (execAll move cpu).ecx = cpu.ecx
  edx : ∀ cpu, (execAll move cpu).edx = cpu.edx
  word : ∀ n cpu, cpu.df = false → ready (n + 4) (view cpu) →
    view (string.exec cpu) = unit^[4] (view cpu)
  ready : ∀ n seen, ready (n + 1) seen → ready n (unit seen)

namespace Moves

variable {move : List Op} {string : StringOp} {τ : Type} {view : Processor → τ} {unit : τ → τ}
  {ready : Nat → τ → Prop} (moves : Moves move string view unit ready)
include moves

/-- The move of a byte in a loop. -/
theorem round {cpu tested : Processor} (same : view tested = view cpu) (count : Reg)
    (counter : count = .ecx ∨ count = .edx) :
    view ((Op.subl 1 count).exec (execAll move tested)) = unit (view cpu) := by
  rw [← same, ← moves.byte tested]
  rcases counter with rfl | rfl
  · exact moves.counters (execAll move tested) _ _ _ _ _
  · exact moves.counters (execAll move tested) _ _ _ _ _

/-- The loop for the last bytes moves as many as `edx` says. -/
theorem bottom_halts (cpu : Processor) :
    Halts (blockCode move string) { cpu := cpu, rest := bottomLoop move }
      fun final => view final = unit^[cpu.edx.toNat] (view cpu) := by
  have same : ∀ cpu, view ((Op.testl .edx .edx).exec cpu) = view cpu :=
    fun cpu => moves.counters cpu _ _ _ _ _
  induction rounds : cpu.edx.toNat generalizing cpu with
  | zero =>
      have none : cpu.edx = 0 := UInt32.toNat_inj.mp rounds
      apply Halts.op
      apply Halts.jz_taken
      · simp [Op.exec, Processor.get, none]
      · rw [target_done]
        exact Halts.done (same cpu)
  | succ count ih =>
      have some : cpu.edx ≠ 0 := by
        intro zero
        rw [zero] at rounds
        cases rounds
      apply Halts.op
      apply Halts.jz_passed
      · simp [Op.exec, Processor.get, some]
      apply Halts.ops
      apply Halts.op
      apply Halts.jmp
      rw [target_bottom, Function.iterate_succ_apply, ← moves.round (same cpu) .edx (.inr rfl)]
      apply ih
      have left : ((Op.subl 1 .edx).exec (execAll move ((Op.testl .edx .edx).exec cpu))).edx =
          cpu.edx - 1 := congrArg (· - 1) (moves.edx _)
      rw [left]
      exact toNat_sub_one rounds

theorem ready_iterate {n : Nat} {seen : τ} (count : Nat) (room : ready (n + count) seen) :
    ready n (unit^[count] seen) := by
  induction count generalizing seen with
  | zero => exact room
  | succ count ih =>
      rw [Function.iterate_succ_apply]
      exact ih (moves.ready (n + count) seen room)

/-- Rounds of the string instruction are moves of four bytes each. -/
theorem words {cpu : Processor} {count rest : Nat} (up : cpu.df = false)
    (room : ready (4 * count + rest) (view cpu)) :
    view ((fun cpu => string.exec cpu)^[count] cpu) = unit^[4 * count] (view cpu) := by
  induction count generalizing cpu with
  | zero => rfl
  | succ count ih =>
      have split : 4 * (count + 1) + rest = 4 * count + rest + 4 := by omega
      rw [split] at room
      have word := moves.word _ cpu up room
      have upward : (string.exec cpu).df = false := by
        cases string <;> exact up
      have later := ih upward (by rw [word]; exact moves.ready_iterate 4 room)
      rw [Function.iterate_succ_apply, later, word, ← Function.iterate_add_apply]
      rfl

/-- The words, and the last bytes. -/
theorem word_halts (cpu : Processor) (room : ready cpu.ecx.toNat (view cpu)) :
    Halts (blockCode move string) { cpu := cpu, rest := wordCode move string }
      fun final => view final = unit^[cpu.ecx.toNat] (view cpu) := by
  have quotient : (cpu.ecx >>> 2).toNat = cpu.ecx.toNat / 4 := by
    rw [UInt32.toNat_shiftRight]
    exact Nat.shiftRight_eq_div_pow _ 2
  have remainder : (cpu.ecx &&& 3).toNat = cpu.ecx.toNat % 4 := by
    rw [UInt32.toNat_and]
    exact Nat.and_two_pow_sub_one_eq_mod _ 2
  have split : 4 * (cpu.ecx.toNat / 4) + cpu.ecx.toNat % 4 = cpu.ecx.toNat :=
    Nat.div_add_mod _ 4
  unfold wordCode
  iterate 6 apply Halts.op
  apply Halts.rep
  apply Halts.label
  generalize start : Op.exec _ Op.cld = before
  have same : view before = view cpu := by
    rw [← start]
    exact moves.counters cpu _ _ _ _ _
  have ecx : before.ecx.toNat = cpu.ecx.toNat / 4 := by
    rw [← quotient, ← start]
    rfl
  have edx : before.edx.toNat = cpu.ecx.toNat % 4 := by
    rw [← remainder, ← start]
    rfl
  have up : before.df = false := by
    rw [← start]
    rfl
  have wordRoom : ready (4 * before.ecx.toNat + cpu.ecx.toNat % 4) (view before) := by
    rw [same, ecx, split]
    exact room
  have moved := moves.words up wordRoom
  have rest := moves.bottom_halts
    { (fun cpu => string.exec cpu)^[before.ecx.toNat] before with ecx := 0 }
  have seen : view { (fun cpu => string.exec cpu)^[before.ecx.toNat] before with ecx := 0 } =
      unit^[4 * (cpu.ecx.toNat / 4)] (view cpu) := by
    rw [← ecx, ← same, ← moved]
    exact moves.counters _ _ _ _ _ _
  have left : ({ (fun cpu => string.exec cpu)^[before.ecx.toNat] before with
      ecx := 0 } : Processor).edx = before.edx := string.iterate_edx before _
  rw [seen, left, edx, ← Function.iterate_add_apply, Nat.add_comm, split] at rest
  exact rest

/-- The bytes up to an aligned destination, the words, and the last bytes. -/
theorem top_halts (cpu : Processor) (room : ready cpu.ecx.toNat (view cpu)) :
    Halts (blockCode move string) { cpu := cpu, rest := topLoop move string }
      fun final => view final = unit^[cpu.ecx.toNat] (view cpu) := by
  have same : ∀ cpu, view ((Op.testlImm 3 .edi).exec ((Op.testl .ecx .ecx).exec cpu)) =
      view cpu := fun cpu => moves.counters cpu _ _ _ _ _
  induction rounds : cpu.ecx.toNat generalizing cpu with
  | zero =>
      have none : cpu.ecx = 0 := UInt32.toNat_inj.mp rounds
      apply Halts.op
      apply Halts.jz_taken
      · simp [Op.exec, Processor.get, none]
      · rw [target_done]
        exact Halts.done (moves.counters cpu _ _ _ _ _)
  | succ count ih =>
      have some : cpu.ecx ≠ 0 := by
        intro zero
        rw [zero] at rounds
        cases rounds
      apply Halts.op
      apply Halts.jz_passed
      · simp [Op.exec, Processor.get, some]
      apply Halts.op
      by_cases aligned : (3 : UInt32) &&& cpu.edi = 0
      · apply Halts.jz_taken
        · simp [Op.exec, Processor.get, aligned]
        have words := moves.word_halts ((Op.testlImm 3 .edi).exec ((Op.testl .ecx .ecx).exec cpu))
        have counted : ((Op.testlImm 3 .edi).exec ((Op.testl .ecx .ecx).exec cpu)).ecx.toNat =
            count + 1 := rounds
        rw [same cpu, counted] at words
        rw [target_aligned]
        rw [rounds] at room
        exact words room
      · apply Halts.jz_passed
        · simp [Op.exec, Processor.get, aligned]
        apply Halts.ops
        apply Halts.op
        apply Halts.jmp
        have moved := moves.round (same cpu) .ecx (.inl rfl)
        have left : ((Op.subl 1 .ecx).exec (execAll move
            ((Op.testlImm 3 .edi).exec ((Op.testl .ecx .ecx).exec cpu)))).ecx.toNat = count := by
          have counted : ((Op.subl 1 .ecx).exec (execAll move
              ((Op.testlImm 3 .edi).exec ((Op.testl .ecx .ecx).exec cpu)))).ecx = cpu.ecx - 1 :=
            congrArg (· - 1) (moves.ecx _)
          rw [counted]
          exact toNat_sub_one rounds
        rw [target_top, Function.iterate_succ_apply, ← moved]
        apply ih
        · rw [left, moved]
          rw [rounds] at room
          exact moves.ready count _ room
        · exact left

/-- The text moves as many bytes as `ecx` says. -/
theorem block_halts (cpu : Processor) (room : ready cpu.ecx.toNat (view cpu)) :
    Halts (blockCode move string) { cpu := cpu, rest := blockCode move string }
      fun final => view final = unit^[cpu.ecx.toNat] (view cpu) :=
  Halts.label (moves.top_halts cpu room)

end Moves

/-! ## Ranges of addresses -/

/-- The first address of a range is in it, and the others are in the range behind it. -/
theorem offset_succ {a s : UInt32} {count : Nat} (room : count < 2 ^ 32) :
    (a - (s + 1)).toNat < count ↔ a ≠ s ∧ (a - s).toNat < count + 1 := by
  have behind : a - (s + 1) = a - s - 1 := by grind
  rw [behind]
  cases offset : (a - s).toNat with
  | zero =>
      have zero : a - s = 0 := UInt32.toNat_inj.mp offset
      have same : a = s := by grind
      rw [zero]
      have last : (0 - 1 : UInt32).toNat = 2 ^ 32 - 1 := rfl
      rw [last]
      constructor
      · intro inside
        omega
      · exact fun both => absurd same both.1
  | succ before =>
      have differs : a ≠ s := by
        rintro rfl
        rw [UInt32.sub_self] at offset
        cases offset
      rw [toNat_sub_one offset]
      constructor
      · exact fun inside => ⟨differs, Nat.succ_lt_succ inside⟩
      · exact fun both => Nat.lt_of_succ_lt_succ both.2

/-- A range that does not wrap around. -/
theorem offset_lt_iff {a s n : UInt32} (room : s.toNat + n.toNat ≤ 2 ^ 32) :
    (a - s).toNat < n.toNat ↔ s.toNat ≤ a.toNat ∧ a.toNat < s.toNat + n.toNat := by
  have inside := a.toNat_lt
  rw [UInt32.toNat_sub]
  omega

/-! ## `memset` -/

/-- Memory that is filled up from a pointer on. -/
@[ext]
structure Filling where
  memory : UInt32 → UInt8
  edi : UInt32
  eax : UInt32

namespace Filling

/-- The part of the processor that `memset` works on. -/
def ofCpu (cpu : Processor) : Filling where
  memory := cpu.memory
  edi := cpu.edi
  eax := cpu.eax

/-- Fill one byte. -/
def unit (f : Filling) : Filling where
  memory := Function.update f.memory f.edi f.eax.toUInt8
  edi := f.edi + 1
  eax := f.eax

/-- The bytes of the word are the same. -/
def Uniform (f : Filling) : Prop :=
  ∀ i < 4, wordByte f.eax i = f.eax.toUInt8

theorem moves :
    Moves [.movbStore .edi, .addl 1 .edi] .stosl ofCpu unit fun _ f => f.Uniform where
  counters := fun _ _ _ _ _ _ => rfl
  byte := fun _ => rfl
  ecx := fun _ => rfl
  edx := fun _ => rfl
  word := by
    intro n cpu up uniform
    have same : ∀ i < 4, wordByte cpu.eax i = cpu.eax.toUInt8 := uniform
    have two : cpu.edi + 1 + 1 = cpu.edi + 2 := by grind
    have three : cpu.edi + 2 + 1 = cpu.edi + 3 := by grind
    have four : cpu.edi + 3 + 1 = cpu.edi + 4 := by grind
    change ofCpu (StringOp.exec cpu .stosl) = unit (unit (unit (unit (ofCpu cpu))))
    simp [ofCpu, unit, StringOp.exec, storeWord, Processor.advance, up, two, three, four, same]
  ready := fun _ _ uniform => uniform

/-- What a number of bytes leave. -/
theorem memory_iterate (f : Filling) {count : Nat} (room : count ≤ 2 ^ 32) (a : UInt32) :
    (unit^[count] f).memory a =
      if (a - f.edi).toNat < count then f.eax.toUInt8 else f.memory a := by
  induction count generalizing f with
  | zero => rfl
  | succ count ih =>
      rw [Function.iterate_succ_apply, ih f.unit (Nat.le_of_succ_le room)]
      simp only [unit, offset_succ (Nat.lt_of_succ_le room)]
      by_cases first : a = f.edi
      · subst first
        simp
      · simp [first]

end Filling

/-! ## `memcpy` -/

/-- Memory that is copied from one pointer to another. -/
@[ext]
structure Copying where
  memory : UInt32 → UInt8
  esi : UInt32
  edi : UInt32

namespace Copying

/-- The part of the processor that `memcpy` works on. -/
def ofCpu (cpu : Processor) : Copying where
  memory := cpu.memory
  esi := cpu.esi
  edi := cpu.edi

/-- Copy one byte. -/
def unit (c : Copying) : Copying where
  memory := Function.update c.memory c.edi (c.memory c.esi)
  esi := c.esi + 1
  edi := c.edi + 1

/-- The ranges of a number of bytes do not overlap. -/
def Disjoint (count : Nat) (c : Copying) : Prop :=
  ∀ i j : UInt32, i.toNat < count → j.toNat < count → c.edi + i ≠ c.esi + j

theorem Disjoint.unit {count : Nat} {c : Copying} (disjoint : Disjoint (count + 1) c) :
    Disjoint count c.unit := by
  intro i j inside insideSource same
  have apart := disjoint i j (Nat.lt_succ_of_lt inside) (Nat.lt_succ_of_lt insideSource)
  have shifted : c.edi + 1 + i = c.esi + 1 + j := same
  exact apart (by grind)

theorem byte_load (eax : UInt32) (byte : UInt8) :
    ((eax &&& 0xFFFFFF00) ||| byte.toUInt32).toUInt8 = byte := by
  have cleared : (0xFFFFFF00 : UInt32).toUInt8 = 0 := rfl
  rw [UInt32.toUInt8_or, UInt32.toUInt8_and, cleared, UInt8.toUInt8_toUInt32, UInt8.and_zero,
    UInt8.zero_or]

theorem moves :
    Moves [.movbLoad .esi, .movbStore .edi, .addl 1 .edi, .addl 1 .esi] .movsl ofCpu unit
      Disjoint where
  counters := fun _ _ _ _ _ _ => rfl
  byte := by
    intro cpu
    have loaded := byte_load cpu.eax (cpu.memory cpu.esi)
    simp [ofCpu, unit, execAll, Op.exec, Processor.store, Processor.setResult, Processor.set,
      Processor.get, loaded]
  ecx := fun _ => rfl
  edx := fun _ => rfl
  word := by
    intro n cpu up disjoint
    have apart : ∀ i j : UInt32, i.toNat < 4 → j.toNat < 4 → cpu.esi + j ≠ cpu.edi + i :=
      fun i j inside insideSource =>
        (disjoint i j (Nat.lt_add_left n inside) (Nat.lt_add_left n insideSource)).symm
    have first : cpu.esi + 1 ≠ cpu.edi := by simpa using apart 0 1 (by decide) (by decide)
    have second : cpu.esi + 2 ≠ cpu.edi := by simpa using apart 0 2 (by decide) (by decide)
    have third : cpu.esi + 3 ≠ cpu.edi := by simpa using apart 0 3 (by decide) (by decide)
    have two : ∀ pointer : UInt32, pointer + 1 + 1 = pointer + 2 := by grind
    have three : ∀ pointer : UInt32, pointer + 2 + 1 = pointer + 3 := by grind
    have four : ∀ pointer : UInt32, pointer + 3 + 1 = pointer + 4 := by grind
    have bytes := wordByte_loadWord cpu.memory cpu.esi
    change ofCpu (StringOp.exec cpu .movsl) = unit (unit (unit (unit (ofCpu cpu))))
    simp [ofCpu, unit, StringOp.exec, storeWord, Processor.advance, up, two, three, four, bytes,
      first, second, third, apart 1 2 (by decide) (by decide), apart 1 3 (by decide) (by decide),
      apart 2 3 (by decide) (by decide)]
  ready := fun _ _ disjoint => disjoint.unit

/-- What a number of bytes leave. -/
theorem memory_iterate (c : Copying) {count : Nat} (room : count ≤ 2 ^ 32)
    (disjoint : Disjoint count c) (a : UInt32) :
    (unit^[count] c).memory a =
      if (a - c.edi).toNat < count then c.memory (c.esi + (a - c.edi)) else c.memory a := by
  induction count generalizing c with
  | zero => rfl
  | succ count ih =>
      rw [Function.iterate_succ_apply, ih c.unit (Nat.le_of_succ_le room) disjoint.unit]
      simp only [unit, offset_succ (Nat.lt_of_succ_le room)]
      by_cases first : a = c.edi
      · subst first
        simp
      have next : c.esi + 1 + (a - (c.edi + 1)) = c.esi + (a - c.edi) := by grind
      have outside : Function.update c.memory c.edi (c.memory c.esi) a = c.memory a :=
        Function.update_of_ne first _ _
      rw [next, outside]
      by_cases inside : (a - c.edi).toNat < count + 1
      · have apart := disjoint 0 (a - c.edi) (Nat.succ_pos count) inside
        rw [UInt32.add_zero] at apart
        rw [if_pos ⟨first, inside⟩, if_pos inside, Function.update_of_ne apart.symm]
      · rw [if_neg fun both => inside both.2, if_neg inside]

end Copying

/-! ## The results -/

/-- The word that `memset` stores. -/
theorem uniform_word (c : UInt32) {i : Nat} (inside : i < 4) :
    wordByte ((c &&& 0xFF) <<< 24 ||| (c &&& 0xFF) <<< 16 ||| (c &&& 0xFF) <<< 8 |||
      (c &&& 0xFF)) i = c.toUInt8 := by
  have low : c &&& 0xFF = UInt32.ofNat (c.toNat % 256) := by
    apply UInt32.toNat_inj.mp
    have ones : (0xFF : UInt32).toNat = 2 ^ 8 - 1 := rfl
    rw [UInt32.toNat_and, ones, Nat.and_two_pow_sub_one_eq_mod, UInt32.toNat_ofNat']
    omega
  have bytes : ∀ byte < 256, ∀ i < 4, wordByte (UInt32.ofNat byte <<< 24 |||
      UInt32.ofNat byte <<< 16 ||| UInt32.ofNat byte <<< 8 ||| UInt32.ofNat byte) i =
        UInt8.ofNat byte := by
    decide +kernel
  have byte : c.toUInt8 = UInt8.ofNat (c.toNat % 256) := by
    apply UInt8.toNat_inj.mp
    rw [UInt32.toNat_toUInt8, UInt8.toNat_ofNat']
    omega
  rw [low, byte]
  exact bytes _ (Nat.mod_lt _ (by decide)) i inside

/-- The bytes from an address on, by a number of them, are as given, and no others changed. -/
structure Writes (before after : UInt32 → UInt8) (start count : UInt32)
    (value : UInt32 → UInt8) : Prop where
  inside : ∀ i < count, after (start + i) = value i
  outside : ∀ a : UInt32, ¬ (start.toNat ≤ a.toNat ∧ a.toNat < start.toNat + count.toNat) →
    after a = before a

theorem writes_of_offsets {before after : UInt32 → UInt8} {start count : UInt32}
    {value : UInt32 → UInt8} (room : start.toNat + count.toNat ≤ 2 ^ 32)
    (each : ∀ a, after a =
      if (a - start).toNat < count.toNat then value (a - start) else before a) :
    Writes before after start count value where
  inside := by
    intro i inside
    have offset : start + i - start = i := by grind
    rw [each, offset, if_pos (UInt32.lt_iff_toNat_lt.mp inside)]
  outside := by
    intro a outside
    rw [each, if_neg fun inside => outside ((offset_lt_iff room).mp inside)]

/-- The stores of the bytes one by one, as the other routines log them. -/
theorem Writes.eq_applyStores {before after : UInt32 → UInt8} {start count : UInt32}
    {value : UInt32 → UInt8} (writes : Writes before after start count value) {a : Nat}
    (address : a < 2 ^ 32) :
    after (UInt32.ofNat a) =
      Memory.applyStores (fun a => before (UInt32.ofNat a))
        (Memory.storeRange start.toNat count.toNat fun i => value (UInt32.ofNat i)) a := by
  have here : (UInt32.ofNat a).toNat = a := UInt32.toNat_ofNat_of_lt' address
  rw [Memory.applyStores_storeRange]
  split
  · rename_i inside
    have offset : (UInt32.ofNat (a - start.toNat)).toNat = a - start.toNat :=
      UInt32.toNat_ofNat_of_lt' (Nat.lt_of_le_of_lt (Nat.sub_le _ _) address)
    have split : start + UInt32.ofNat (a - start.toNat) = UInt32.ofNat a := by
      apply UInt32.toNat_inj.mp
      rw [UInt32.toNat_add, offset, here, Nat.add_sub_cancel' inside.1, Nat.mod_eq_of_lt address]
    rw [← split]
    apply writes.inside
    rw [UInt32.lt_iff_toNat_lt, offset]
    omega
  · rename_i outside
    apply writes.outside
    rwa [here]

/-- `memset` returns, and sets the bytes from `s` on to the low byte of `c`. -/
theorem memset_returns (cpu : Processor) (s c n : UInt32) (room : s.toNat + n.toNat ≤ 2 ^ 32) :
    ∃ final, Returns (fun bound => memset bound cpu s c n) (s, final) ∧
      Writes cpu.memory final.memory s n fun _ => c.toUInt8 := by
  let eax := (c &&& 0xFF) <<< 24 ||| (c &&& 0xFF) <<< 16 ||| (c &&& 0xFF) <<< 8 ||| (c &&& 0xFF)
  let start : Processor := { cpu with eax := eax, edi := s, ecx := n }
  have low : eax.toUInt8 = c.toUInt8 := by
    rw [← wordByte_zero]
    exact uniform_word c (by decide)
  have uniform : (Filling.ofCpu start).Uniform := by
    intro i inside
    exact (uniform_word c inside).trans low.symm
  have halts := Filling.moves.block_halts start uniform
  rw [← memsetCode_eq] at halts
  rcases halts with ⟨final, returns, seen⟩
  refine ⟨final.cpu, returns.map, writes_of_offsets room fun a => ?_⟩
  have memory : final.cpu.memory = (Filling.unit^[n.toNat] (Filling.ofCpu start)).memory :=
    congrArg Filling.memory seen
  rw [memory, Filling.memory_iterate _ (Nat.le_of_lt n.toNat_lt), ← low]
  rfl

/-- `memcpy` returns, and copies the bytes from `src` on to `dest`. -/
theorem memcpy_returns (cpu : Processor) (dest src n : UInt32)
    (room : dest.toNat + n.toNat ≤ 2 ^ 32) (sourceRoom : src.toNat + n.toNat ≤ 2 ^ 32)
    (apart : dest.toNat + n.toNat ≤ src.toNat ∨ src.toNat + n.toNat ≤ dest.toNat) :
    ∃ final, Returns (fun bound => memcpy bound cpu dest src n) (dest, final) ∧
      Writes cpu.memory final.memory dest n fun i => cpu.memory (src + i) := by
  let start : Processor := { cpu with esi := src, edi := dest, ecx := n }
  have disjoint : (Copying.ofCpu start).Disjoint n.toNat := by
    intro i j inside insideSource same
    have sums := congrArg UInt32.toNat same
    change (dest + i).toNat = (src + j).toNat at sums
    rw [UInt32.toNat_add, UInt32.toNat_add] at sums
    omega
  have halts := Copying.moves.block_halts start disjoint
  rw [← memcpyCode_eq] at halts
  rcases halts with ⟨final, returns, seen⟩
  refine ⟨final.cpu, returns.map, writes_of_offsets room fun a => ?_⟩
  have memory : final.cpu.memory = (Copying.unit^[n.toNat] (Copying.ofCpu start)).memory :=
    congrArg Copying.memory seen
  rw [memory, Copying.memory_iterate _ (Nat.le_of_lt n.toNat_lt) disjoint]
  rfl

/-- `memset` sets exactly the bytes of its range to the low byte of `c`, and `memcpy` copies
exactly the bytes of one range to another that does not overlap it, for every alignment and
every length. -/
theorem block_operations_exact :
    (∀ (cpu : Processor) (s c n : UInt32), s.toNat + n.toNat ≤ 2 ^ 32 →
      ∃ final, Returns (fun bound => memset bound cpu s c n) (s, final) ∧
        Writes cpu.memory final.memory s n fun _ => c.toUInt8) ∧
      ∀ (cpu : Processor) (dest src n : UInt32), dest.toNat + n.toNat ≤ 2 ^ 32 →
        src.toNat + n.toNat ≤ 2 ^ 32 →
        (dest.toNat + n.toNat ≤ src.toNat ∨ src.toNat + n.toNat ≤ dest.toNat) →
          ∃ final, Returns (fun bound => memcpy bound cpu dest src n) (dest, final) ∧
            Writes cpu.memory final.memory dest n fun i => cpu.memory (src + i) :=
  ⟨memset_returns, memcpy_returns⟩

/-- A processor with zeros everywhere but in memory. -/
def sampleCpu (memory : UInt32 → UInt8) : Processor where
  eax := 0
  ecx := 0
  edx := 0
  esi := 0
  edi := 0
  ds := 0
  es := 0
  zf := false
  df := false
  memory := memory

/-- Three bytes in front of an aligned address, two words and one more byte. -/
theorem block_operations_exact_sample :
    (∃ final, Returns (fun bound => memset bound (sampleCpu fun _ => 0) 0x1001 0x141 12)
        (0x1001, final) ∧
      Writes (fun _ => 0) final.memory 0x1001 12 fun _ => 0x41) ∧
      ∃ final, Returns (fun bound => memcpy bound (sampleCpu fun a => a.toUInt8) 0x1001 0x2003 12)
          (0x1001, final) ∧
        Writes (fun a => a.toUInt8) final.memory 0x1001 12 fun i => (0x2003 + i).toUInt8 :=
  ⟨block_operations_exact.1 (sampleCpu fun _ => 0) 0x1001 0x141 12 (by decide),
    block_operations_exact.2 (sampleCpu fun a => a.toUInt8) 0x1001 0x2003 12 (by decide)
      (by decide) (by decide)⟩

end BlockOperations

end Ece391Os
