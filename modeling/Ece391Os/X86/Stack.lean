import Ece391Os.X86.Machine

/-!
# The stack of the 80386

Words on the stack, the instructions that push and pop them, and the transfers of control
that go through the stack: calls, software interrupts and their returns.  What is on the
stack is a list of words from the stack pointer up.
-/

namespace Ece391Os.X86

/-! ## Words in memory -/

/-- A word is the sum of its bytes. -/
theorem loadWord_eq_of_bytes {memory : UInt32 → UInt8} {address word : UInt32}
    (first : memory address = wordByte word 0) (second : memory (address + 1) = wordByte word 1)
    (third : memory (address + 2) = wordByte word 2)
    (fourth : memory (address + 3) = wordByte word 3) : loadWord memory address = word := by
  have small := word.toNat_lt
  apply UInt32.toNat_inj.mp
  rw [loadWord, first, second, third, fourth, UInt32.toNat_ofNat']
  simp only [wordByte, UInt8.toNat_ofNat']
  omega

/-- The bytes of two words, the second at a distance behind the first, are apart. -/
theorem bytes_apart {base address : UInt32} (behind : 4 ≤ (address - base).toNat)
    (fits : (address - base).toNat + 4 ≤ 2 ^ 32) {i j : UInt32} (small : i.toNat < 4)
    (small' : j.toNat < 4) : address + i ≠ base + j := by
  intro same
  have first := congrArg UInt32.toNat same
  have distance := UInt32.toNat_sub address base
  have addressLt := address.toNat_lt
  have baseLt := base.toNat_lt
  rw [UInt32.toNat_add, UInt32.toNat_add] at first
  omega

theorem storeWord_apart {memory : UInt32 → UInt8} {base word address : UInt32}
    (behind : 4 ≤ (address - base).toNat) (fits : (address - base).toNat + 4 ≤ 2 ^ 32)
    {i : UInt32} (small : i.toNat < 4) :
    storeWord memory base word (address + i) = memory (address + i) := by
  have zero := bytes_apart behind fits small (by decide : (0 : UInt32).toNat < 4)
  have one := bytes_apart behind fits small (by decide : (1 : UInt32).toNat < 4)
  have two := bytes_apart behind fits small (by decide : (2 : UInt32).toNat < 4)
  have three := bytes_apart behind fits small (by decide : (3 : UInt32).toNat < 4)
  rw [UInt32.add_zero] at zero
  simp only [storeWord]
  rw [Function.update_of_ne three, Function.update_of_ne two, Function.update_of_ne one,
    Function.update_of_ne zero]

/-- A store leaves a word behind it as it is. -/
theorem loadWord_storeWord_apart {memory : UInt32 → UInt8} {base word address : UInt32}
    (behind : 4 ≤ (address - base).toNat) (fits : (address - base).toNat + 4 ≤ 2 ^ 32) :
    loadWord (storeWord memory base word) address = loadWord memory address := by
  have zero : storeWord memory base word (address + 0) = memory (address + 0) :=
    storeWord_apart behind fits (by decide)
  rw [UInt32.add_zero] at zero
  simp only [loadWord]
  rw [zero, storeWord_apart behind fits (by decide : (1 : UInt32).toNat < 4),
    storeWord_apart behind fits (by decide : (2 : UInt32).toNat < 4),
    storeWord_apart behind fits (by decide : (3 : UInt32).toNat < 4)]

/-- A word is loaded as it was stored. -/
theorem loadWord_storeWord (memory : UInt32 → UInt8) (address word : UInt32) :
    loadWord (storeWord memory address word) address = word := by
  have apart : ∀ {i j : UInt32}, i ≠ j → address + i ≠ address + j :=
    fun differs same => differs ((UInt32.add_right_inj address).mp same)
  have first : ∀ {j : UInt32}, (0 : UInt32) ≠ j → address ≠ address + j := by
    intro j differs
    have other := apart differs
    rwa [UInt32.add_zero] at other
  apply loadWord_eq_of_bytes
  · simp only [storeWord]
    rw [Function.update_of_ne (first (by decide)), Function.update_of_ne (first (by decide)),
      Function.update_of_ne (first (by decide)), Function.update_self]
  · simp only [storeWord]
    rw [Function.update_of_ne (apart (by decide)), Function.update_of_ne (apart (by decide)),
      Function.update_self]
  · simp only [storeWord]
    rw [Function.update_of_ne (apart (by decide)), Function.update_self]
  · exact Function.update_self _ _ _

/-! ## Words on a stack -/

/-- The words from an address up. -/
def Stacked (memory : UInt32 → UInt8) (address : UInt32) : List UInt32 → Prop
  | [] => True
  | word :: words => loadWord memory address = word ∧ Stacked memory (address + 4) words

namespace Stacked

variable {memory : UInt32 → UInt8} {base address word : UInt32} {words : List UInt32}

/-- A store in front of the words leaves them as they are. -/
theorem store (stacked : Stacked memory address words) (behind : 4 ≤ (address - base).toNat)
    (fits : (address - base).toNat + 4 * words.length ≤ 2 ^ 32) :
    Stacked (storeWord memory base word) address words := by
  induction words generalizing address with
  | nil => trivial
  | cons first words ih =>
      rw [List.length_cons] at fits
      refine ⟨(loadWord_storeWord_apart behind (by omega)).trans stacked.1, ?_⟩
      cases words with
      | nil => trivial
      | cons second words =>
          rw [List.length_cons] at fits
          have next : (address + 4 - base).toNat = (address - base).toNat + 4 := by
            have distance := UInt32.toNat_sub address base
            have further := UInt32.toNat_sub (address + 4) base
            have four : (4 : UInt32).toNat = 4 := rfl
            have addressLt := address.toNat_lt
            have baseLt := base.toNat_lt
            rw [UInt32.toNat_add, four] at further
            omega
          exact ih stacked.2 (by omega) (by rw [next, List.length_cons]; omega)

/-- A word is pushed on the words. -/
theorem push (stacked : Stacked memory address words) (few : words.length < 2 ^ 20) :
    Stacked (storeWord memory (address - 4) word) (address - 4) (word :: words) := by
  have distance : (address - (address - 4)).toNat = 4 := by
    have inner := UInt32.toNat_sub address 4
    have outer := UInt32.toNat_sub address (address - 4)
    have four : (4 : UInt32).toNat = 4 := rfl
    have addressLt := address.toNat_lt
    omega
  refine ⟨loadWord_storeWord _ _ _, ?_⟩
  rw [UInt32.sub_add_cancel]
  exact stacked.store (by rw [distance]) (by rw [distance]; omega)

end Stacked

/-- Words from an address up are in the one memory as in the other. -/
def SameAbove (limit : UInt32) (before after : UInt32 → UInt8) : Prop :=
  ∀ address words, Stacked before address words → limit.toNat ≤ address.toNat →
    address.toNat + 4 * words.length ≤ 2 ^ 32 → Stacked after address words

namespace SameAbove

variable {limit : UInt32} {first second third : UInt32 → UInt8}

theorem trans (one : SameAbove limit first second) (two : SameAbove limit second third) :
    SameAbove limit first third :=
  fun _ _ stacked above fits => two _ _ (one _ _ stacked above fits) above fits

theorem mono {higher : UInt32} (same : SameAbove limit first second)
    (order : limit.toNat ≤ higher.toNat) : SameAbove higher first second :=
  fun _ _ stacked above fits => same _ _ stacked (Nat.le_trans order above) fits

/-- A push does not reach above the stack. -/
theorem push (memory : UInt32 → UInt8) (word : UInt32) (room : 4 ≤ limit.toNat) :
    SameAbove limit memory (storeWord memory (limit - 4) word) := by
  intro address words stacked above fits
  have lower := UInt32.toNat_sub limit 4
  have distance := UInt32.toNat_sub address (limit - 4)
  have four : (4 : UInt32).toNat = 4 := rfl
  have addressLt := address.toNat_lt
  have limitLt := limit.toNat_lt
  exact stacked.store (by omega) (by omega)

end SameAbove

/-! ## The processor -/

/-- The general registers but the stack pointer. -/
inductive Gpr where
  | eax
  | ecx
  | edx
  | ebx
  | ebp
  | esi
  | edi
  deriving DecidableEq

/-- The processor with what calls and interrupts change. -/
structure Core where
  gpr : Gpr → UInt32
  esp : UInt32
  eip : UInt32
  cs : UInt16
  ss : UInt16
  ds : UInt16
  es : UInt16
  eflags : UInt32
  memory : UInt32 → UInt8

namespace Core

/-- Change a register. -/
def set (c : Core) (r : Gpr) (value : UInt32) : Core :=
  { c with gpr := Function.update c.gpr r value }

/-- Push a word. -/
def push (c : Core) (word : UInt32) : Core :=
  { c with esp := c.esp - 4, memory := storeWord c.memory (c.esp - 4) word }

/-- The word on top of the stack. -/
def top (c : Core) : UInt32 :=
  loadWord c.memory c.esp

/-- Take words from the stack. -/
def drop (c : Core) (bytes : UInt32) : Core :=
  { c with esp := c.esp + bytes }

/-- The words on the stack. -/
def Holds (c : Core) (words : List UInt32) : Prop :=
  Stacked c.memory c.esp words

/-- Pop a word to a register. -/
def pop (c : Core) (r : Gpr) : Core :=
  (c.set r c.top).drop 4

/-- The privilege level. -/
def level (cs : UInt16) : Nat :=
  cs.toNat % 4

end Core

/-! ## Flags -/

/-- The flags that `cmpl` leaves: carry, parity, adjust, zero, sign and overflow. -/
def compareFlags (left right : UInt32) : UInt32 :=
  let result := left - right
  let parity := (List.range 8).countP (fun i => result.toNat.testBit i) % 2 = 0
  let sign (word : UInt32) : Bool := 2 ^ 31 ≤ word.toNat
  UInt32.ofNat ((decide (left < right)).toNat + 0x4 * (decide parity).toNat +
    0x10 * (decide (left.toNat % 16 < right.toNat % 16)).toNat +
    0x40 * (decide (result = 0)).toNat + 0x80 * (sign result).toNat +
    0x800 * (sign left != sign right && sign result != sign left).toNat)

/-- The flags that `addl` leaves. -/
def addFlags (left right : UInt32) : UInt32 :=
  let result := left + right
  let parity := (List.range 8).countP (fun i => result.toNat.testBit i) % 2 = 0
  let sign (word : UInt32) : Bool := 2 ^ 31 ≤ word.toNat
  UInt32.ofNat ((decide (result < left)).toNat + 0x4 * (decide parity).toNat +
    0x10 * (decide (16 ≤ left.toNat % 16 + right.toNat % 16)).toNat +
    0x40 * (decide (result = 0)).toNat + 0x80 * (sign result).toNat +
    0x800 * (sign left == sign right && sign result != sign left).toNat)

/-- The condition of `jl`: the sign and the overflow flag differ. -/
def less (eflags : UInt32) : Bool :=
  eflags.toNat.testBit 7 != eflags.toNat.testBit 11

/-- The condition of `jg`: neither less nor zero. -/
def greater (eflags : UInt32) : Bool :=
  !less eflags && !eflags.toNat.testBit 6

/-- The flags that conditional jumps test, behind a comparison. -/
theorem testBit_compared (eflags left right : UInt32) :
    ((eflags &&& 0xFFFFF72A) ||| compareFlags left right).toNat.testBit 6 =
        decide (left - right = 0) ∧
      ((eflags &&& 0xFFFFF72A) ||| compareFlags left right).toNat.testBit 7 =
        decide (2 ^ 31 ≤ (left - right).toNat) ∧
      ((eflags &&& 0xFFFFF72A) ||| compareFlags left right).toNat.testBit 11 =
        (decide (2 ^ 31 ≤ left.toNat) != decide (2 ^ 31 ≤ right.toNat) &&
          decide (2 ^ 31 ≤ (left - right).toNat) != decide (2 ^ 31 ≤ left.toNat)) := by
  have sum : ∀ cf pf af zf sf of : Bool,
      (UInt32.ofNat (cf.toNat + 0x4 * pf.toNat + 0x10 * af.toNat + 0x40 * zf.toNat +
        0x80 * sf.toNat + 0x800 * of.toNat)).toNat.testBit 6 = zf ∧
      (UInt32.ofNat (cf.toNat + 0x4 * pf.toNat + 0x10 * af.toNat + 0x40 * zf.toNat +
        0x80 * sf.toNat + 0x800 * of.toNat)).toNat.testBit 7 = sf ∧
      (UInt32.ofNat (cf.toNat + 0x4 * pf.toNat + 0x10 * af.toNat + 0x40 * zf.toNat +
        0x80 * sf.toNat + 0x800 * of.toNat)).toNat.testBit 11 = of := by
    decide
  have cleared : ∀ i, (0xFFFFF72A : UInt32).toNat.testBit i = false →
      (eflags &&& 0xFFFFF72A).toNat.testBit i = false := by
    intro i clear
    rw [UInt32.toNat_and, Nat.testBit_and, clear, Bool.and_false]
  simp only [UInt32.toNat_or, Nat.testBit_or, cleared 6 (by decide), cleared 7 (by decide),
    cleared 11 (by decide), Bool.false_or]
  exact sum _ _ _ _ _ _

/-- A word as a signed number. -/
def signed (word : UInt32) : Int :=
  if word.toNat < 2 ^ 31 then word.toNat else word.toNat - 2 ^ 32

/-- The sign of a difference and its overflow differ where the left word is the smaller one. -/
theorem sign_ne_overflow (left right : UInt32) :
    (decide (2 ^ 31 ≤ (left - right).toNat) != (decide (2 ^ 31 ≤ left.toNat) !=
        decide (2 ^ 31 ≤ right.toNat) &&
          decide (2 ^ 31 ≤ (left - right).toNat) != decide (2 ^ 31 ≤ left.toNat))) =
      decide (signed left < signed right) := by
  have difference := UInt32.toNat_sub left right
  have leftLt := left.toNat_lt
  have rightLt := right.toNat_lt
  unfold signed
  by_cases first : 2 ^ 31 ≤ left.toNat <;> by_cases second : 2 ^ 31 ≤ right.toNat <;>
    by_cases third : 2 ^ 31 ≤ (left - right).toNat
  all_goals simp only [first, second, third, decide_true, decide_false]
  all_goals split_ifs <;> simp <;> omega

/-! ## Instructions -/

/-- The data segment registers. -/
inductive Seg where
  | ds
  | es

/-- Instructions that lead to the next one. -/
inductive StackOp where
  | pushl (r : Gpr)
  | popl (r : Gpr)
  | pushSeg (s : Seg)
  | popSeg (s : Seg)
  | pushfl
  | popfl
  | pushal
  | popal
  | addlEsp (imm : UInt32)
  | movlImm (imm : UInt32) (r : Gpr)
  | movlStack (disp : UInt32) (r : Gpr)
  | cmpl (imm : UInt32) (r : Gpr)
  | cli
  | sti

/-- What an instruction does.  `movlStack` is `movl disp(%esp), r`; a segment register is
pushed as a word, and popped from the low half of one. -/
def StackOp.exec (c : Core) : StackOp → Core
  | .pushl r => c.push (c.gpr r)
  | .popl r => c.pop r
  | .pushSeg .ds => c.push c.ds.toUInt32
  | .pushSeg .es => c.push c.es.toUInt32
  | .popSeg .ds => { c.drop 4 with ds := c.top.toUInt16 }
  | .popSeg .es => { c.drop 4 with es := c.top.toUInt16 }
  | .pushfl => c.push c.eflags
  | .popfl => { c.drop 4 with eflags := c.top }
  | .pushal =>
      let pushed := (((c.push (c.gpr .eax)).push (c.gpr .ecx)).push (c.gpr .edx)).push (c.gpr .ebx)
      (((pushed.push c.esp).push (c.gpr .ebp)).push (c.gpr .esi)).push (c.gpr .edi)
  | .popal =>
      let popped := ((c.pop .edi).pop .esi).pop .ebp
      ((((popped.drop 4).pop .ebx).pop .edx).pop .ecx).pop .eax
  | .addlEsp imm =>
      { c.drop imm with eflags := (c.eflags &&& 0xFFFFF72A) ||| addFlags c.esp imm }
  | .movlImm imm r => c.set r imm
  | .movlStack disp r => c.set r (loadWord c.memory (c.esp + disp))
  | .cmpl imm r =>
      { c with eflags := (c.eflags &&& 0xFFFFF72A) ||| compareFlags (c.gpr r) imm }
  | .cli => { c with eflags := c.eflags &&& 0xFFFFFDFF }
  | .sti => { c with eflags := c.eflags ||| 0x200 }

theorem less_cmpl (c : Core) (imm : UInt32) (r : Gpr) :
    less ((StackOp.cmpl imm r).exec c).eflags = decide (signed (c.gpr r) < signed imm) := by
  rcases testBit_compared c.eflags (c.gpr r) imm with ⟨_, sign, overflow⟩
  have flags : ((StackOp.cmpl imm r).exec c).eflags =
      (c.eflags &&& 0xFFFFF72A) ||| compareFlags (c.gpr r) imm := rfl
  rw [less, flags, sign, overflow]
  exact sign_ne_overflow _ _

theorem greater_cmpl (c : Core) (imm : UInt32) (r : Gpr) :
    greater ((StackOp.cmpl imm r).exec c).eflags = decide (signed imm < signed (c.gpr r)) := by
  rcases testBit_compared c.eflags (c.gpr r) imm with ⟨zero, _, _⟩
  have flags : ((StackOp.cmpl imm r).exec c).eflags =
      (c.eflags &&& 0xFFFFF72A) ||| compareFlags (c.gpr r) imm := rfl
  rw [greater, less_cmpl, flags, zero]
  have same : c.gpr r - imm = 0 ↔ signed (c.gpr r) = signed imm := by
    have difference := UInt32.toNat_sub (c.gpr r) imm
    have zero : (0 : UInt32).toNat = 0 := rfl
    have left := (c.gpr r).toNat_lt
    have right := imm.toNat_lt
    rw [← UInt32.toNat_inj]
    unfold signed
    split_ifs <;> omega
  by_cases equal : signed (c.gpr r) = signed imm
  · simp [same, equal]
  · have order : signed imm < signed (c.gpr r) ↔ ¬ signed (c.gpr r) < signed imm := by omega
    simp only [same, equal, order, decide_false, decide_not, Bool.not_false, Bool.and_true]

/-- Text that ends with a return.  A call goes to the routine that a processor picks, and an
interrupt to that of a vector; both come back to the address given. -/
inductive StackInstr (L F : Type) where
  | label (l : L)
  | op (op : StackOp)
  | jl (l : L)
  | jg (l : L)
  | jmp (l : L)
  | call (link : UInt32) (f : Core → F)
  | int (link : UInt32) (vector : UInt8)
  | ret
  | iret

/-- The text behind a label further on. -/
def onward {L F : Type} [DecidableEq L] (l : L) : List (StackInstr L F) → List (StackInstr L F)
  | [] => []
  | .label other :: rest => if other = l then rest else onward l rest
  | _ :: rest => onward l rest

/-- Return from an interrupt: to the same level, or to an outer one with its stack. -/
def Core.iret (c : Core) : Core :=
  let eip := c.top
  let c := c.drop 4
  let cs := c.top.toUInt16
  let c := c.drop 4
  let eflags := c.top
  let inner := { c.drop 4 with eip := eip, cs := cs, eflags := eflags }
  if Core.level c.cs < Core.level cs then
    let esp := inner.top
    let ss := (inner.drop 4).top.toUInt16
    { inner with esp := esp, ss := ss }
  else
    inner

/-- Return from a call. -/
def Core.ret (c : Core) : Core :=
  { c.drop 4 with eip := c.top }

section Perform

variable {L F : Type} [DecidableEq L]

theorem onward_length (l : L) (text : List (StackInstr L F)) :
    (onward l text).length ≤ text.length := by
  induction text with
  | nil => exact Nat.le_refl _
  | cons instr rest ih =>
      cases instr with
      | label other =>
          unfold onward
          split
          · exact Nat.le_succ _
          · exact Nat.le_succ_of_le ih
      | _ => exact Nat.le_succ_of_le ih

/-- The processor where text has returned, given what the routines and the handlers of
interrupts that it enters do. -/
def perform (routine : F → Core → Option Core) (handler : UInt8 → Core → Option Core) :
    List (StackInstr L F) → Core → Option Core
  | [], _ => none
  | .label _ :: rest, c => perform routine handler rest c
  | .op op :: rest, c => perform routine handler rest (op.exec c)
  | .jl l :: rest, c =>
      if less c.eflags then perform routine handler (onward l rest) c
      else perform routine handler rest c
  | .jg l :: rest, c =>
      if greater c.eflags then perform routine handler (onward l rest) c
      else perform routine handler rest c
  | .jmp l :: rest, c => perform routine handler (onward l rest) c
  | .call link f :: rest, c =>
      (routine (f c) (c.push link)).bind fun c => perform routine handler rest c
  | .int link vector :: rest, c =>
      (handler vector { c with eip := link }).bind fun c => perform routine handler rest c
  | .ret :: _, c => some c.ret
  | .iret :: _, c => some c.iret
  termination_by text => text.length
  decreasing_by
    all_goals
      simp only [List.length_cons]
      first
        | exact Nat.lt_succ_self _
        | exact Nat.lt_succ_of_le (onward_length _ _)

variable {routine : F → Core → Option Core} {handler : UInt8 → Core → Option Core}
  {rest : List (StackInstr L F)} {c : Core}

theorem perform_label (l : L) :
    perform routine handler (.label l :: rest) c = perform routine handler rest c := by
  rw [perform]

theorem perform_op (op : StackOp) :
    perform routine handler (.op op :: rest) c = perform routine handler rest (op.exec c) := by
  rw [perform]

theorem perform_jl (l : L) :
    perform routine handler (.jl l :: rest) c =
      perform routine handler (if less c.eflags then onward l rest else rest) c := by
  rw [perform]
  split <;> rfl

theorem perform_jg (l : L) :
    perform routine handler (.jg l :: rest) c =
      perform routine handler (if greater c.eflags then onward l rest else rest) c := by
  rw [perform]
  split <;> rfl

theorem perform_jmp (l : L) :
    perform routine handler (.jmp l :: rest) c = perform routine handler (onward l rest) c := by
  rw [perform]

theorem perform_call {link : UInt32} {f : Core → F} {after : Core}
    (returns : routine (f c) (c.push link) = some after) :
    perform routine handler (.call link f :: rest) c = perform routine handler rest after := by
  rw [perform, returns]
  rfl

theorem perform_int {link : UInt32} {vector : UInt8} {after : Core}
    (returns : handler vector { c with eip := link } = some after) :
    perform routine handler (.int link vector :: rest) c = perform routine handler rest after := by
  rw [perform, returns]
  rfl

/-- Instructions one after the other. -/
theorem perform_ops (block : List StackOp) :
    perform routine handler (block.map .op ++ rest) c =
      perform routine handler rest (block.foldl (fun c op => op.exec c) c) := by
  induction block generalizing c with
  | nil => rfl
  | cons op block ih =>
      rw [List.map_cons, List.cons_append, perform_op, ih]
      rfl

end Perform

/-! ## Pushes -/

/-- The word that an instruction pushes. -/
def StackOp.pushes (c : Core) : StackOp → Option UInt32
  | .pushl r => some (c.gpr r)
  | .pushSeg .ds => some c.ds.toUInt32
  | .pushSeg .es => some c.es.toUInt32
  | .pushfl => some c.eflags
  | _ => none

/-- Push words one after the other. -/
def Core.pushAll (c : Core) (words : List UInt32) : Core :=
  words.foldl Core.push c

theorem StackOp.exec_pushes {c : Core} {op : StackOp} {word : UInt32}
    (pushed : op.pushes c = some word) : op.exec c = c.push word := by
  cases op with
  | pushSeg s => cases s <;> cases pushed <;> rfl
  | _ => cases pushed <;> rfl

theorem StackOp.pushes_push (c : Core) (word : UInt32) (op : StackOp) :
    op.pushes (c.push word) = op.pushes c := by
  cases op with
  | pushSeg s => cases s <;> rfl
  | _ => rfl

/-- A block of instructions that push. -/
theorem foldl_pushes {c : Core} {block : List StackOp} {words : List UInt32}
    (pushed : block.map (StackOp.pushes c) = words.map some) :
    block.foldl (fun c op => op.exec c) c = c.pushAll words := by
  induction block generalizing c words with
  | nil =>
      cases words with
      | nil => rfl
      | cons => cases pushed
  | cons op block ih =>
      cases words with
      | nil => cases pushed
      | cons word words =>
          rw [List.map_cons, List.map_cons] at pushed
          rcases List.cons.inj pushed with ⟨first, others⟩
          have later : block.map (StackOp.pushes (c.push word)) = words.map some := by
            rw [← others]
            exact List.map_congr_left fun op _ => op.pushes_push c word
          rw [List.foldl_cons, StackOp.exec_pushes first, ih later]
          rfl

namespace Core

/-- Pushes change the stack pointer and memory only. -/
theorem pushAll_eq (c : Core) (words : List UInt32) :
    ∃ memory, c.pushAll words =
      { c with esp := c.esp - 4 * UInt32.ofNat words.length, memory := memory } := by
  induction words generalizing c with
  | nil => exact ⟨c.memory, by simp [pushAll]⟩
  | cons word words ih =>
      rcases ih (c.push word) with ⟨memory, pushed⟩
      refine ⟨memory, ?_⟩
      have further : c.esp - 4 - 4 * UInt32.ofNat words.length =
          c.esp - 4 * UInt32.ofNat (word :: words).length := by
        have four : (4 : UInt32).toNat = 4 := rfl
        apply UInt32.toNat_inj.mp
        simp only [UInt32.toNat_sub, UInt32.toNat_mul, UInt32.toNat_ofNat', List.length_cons, four]
        omega
      rw [pushAll, List.foldl_cons]
      exact pushed.trans (by rw [← further]; rfl)

/-- The words that were pushed lie on those that were there. -/
theorem holds_pushAll {c : Core} {words : List UInt32} (pushed : List UInt32)
    (holds : c.Holds words) (few : words.length + pushed.length < 2 ^ 20) :
    (c.pushAll pushed).Holds (pushed.reverse ++ words) := by
  induction pushed generalizing c words with
  | nil => exact holds
  | cons word pushed ih =>
      rw [List.length_cons] at few
      have first : (c.push word).Holds (word :: words) := Stacked.push holds (by omega)
      have later := ih first (by rw [List.length_cons]; omega)
      rw [List.reverse_cons, List.append_assoc]
      exact later

/-- Words above the stack stay as they are. -/
theorem sameAbove_pushAll {c : Core} (pushed : List UInt32)
    (room : 4 * pushed.length ≤ c.esp.toNat) :
    SameAbove c.esp c.memory (c.pushAll pushed).memory := by
  induction pushed generalizing c with
  | nil => exact fun _ _ stacked _ _ => stacked
  | cons word pushed ih =>
      rw [List.length_cons] at room
      have lower := UInt32.toNat_sub c.esp 4
      have four : (4 : UInt32).toNat = 4 := rfl
      have small := c.esp.toNat_lt
      have esp : (c.push word).esp.toNat = c.esp.toNat - 4 := by
        change (c.esp - 4).toNat = _
        omega
      have later := ih (c := c.push word) (by omega)
      exact (SameAbove.push c.memory word (by omega)).trans (later.mono (by omega))

end Core

/-! ## Pops -/

namespace Core.Holds

variable {c : Core} {word : UInt32} {words : List UInt32}

theorem top (holds : c.Holds (word :: words)) : c.top = word :=
  holds.1

/-- Words are dropped. -/
theorem drop (dropped : List UInt32) (holds : c.Holds (dropped ++ words)) :
    (c.drop (4 * UInt32.ofNat dropped.length)).Holds words := by
  induction dropped generalizing c with
  | nil =>
      have same : c.drop (4 * UInt32.ofNat ([] : List UInt32).length) = c := by simp [Core.drop]
      rw [same]
      exact holds
  | cons word dropped ih =>
      have later := ih (c := c.drop 4) holds.2
      have further : (c.drop 4).drop (4 * UInt32.ofNat dropped.length) =
          c.drop (4 * UInt32.ofNat (word :: dropped).length) := by
        rw [List.length_cons, UInt32.ofNat_add, UInt32.mul_add]
        simp only [Core.drop]
        rw [UInt32.add_assoc, UInt32.add_comm 4]
        rfl
      rw [← further]
      exact later

end Core.Holds

/-- What an instruction makes of the word that it pops. -/
def StackOp.popped (c : Core) (word : UInt32) : StackOp → Option Core
  | .popl r => some ((c.set r word).drop 4)
  | .popSeg .ds => some { c.drop 4 with ds := word.toUInt16 }
  | .popSeg .es => some { c.drop 4 with es := word.toUInt16 }
  | .popfl => some { c.drop 4 with eflags := word }
  | _ => none

theorem StackOp.exec_popped {c c' : Core} {word : UInt32} {words : List UInt32} {op : StackOp}
    (holds : c.Holds (word :: words)) (pops : op.popped c word = some c') :
    op.exec c = c' ∧ c'.Holds words := by
  cases op with
  | popl r =>
      cases pops
      exact ⟨by rw [StackOp.exec, Core.pop, holds.top], holds.2⟩
  | popSeg s =>
      cases s <;> cases pops
      · exact ⟨by rw [StackOp.exec, holds.top], holds.2⟩
      · exact ⟨by rw [StackOp.exec, holds.top], holds.2⟩
  | popfl =>
      cases pops
      exact ⟨by rw [StackOp.exec, holds.top], holds.2⟩
  | _ => cases pops

/-- What a block of instructions makes of the words that they pop. -/
def popAll : List StackOp → List UInt32 → Core → Option Core
  | op :: block, word :: words, c => (op.popped c word).bind fun c => popAll block words c
  | _, _, c => some c

theorem foldl_pops {c c' : Core} {block : List StackOp} {popped words : List UInt32}
    (same : popped.length = block.length) (holds : c.Holds (popped ++ words))
    (pops : popAll block popped c = some c') :
    block.foldl (fun c op => op.exec c) c = c' ∧ c'.Holds words := by
  induction block generalizing c popped with
  | nil =>
      cases List.length_eq_zero_iff.mp same
      cases pops
      exact ⟨rfl, holds⟩
  | cons op block ih =>
      cases popped with
      | nil => cases same
      | cons word popped =>
          rcases Option.bind_eq_some_iff.mp pops with ⟨next, first, rest⟩
          rcases StackOp.exec_popped holds first with ⟨executed, holds'⟩
          rw [List.foldl_cons, executed]
          exact ih (Nat.succ.inj same) holds' rest

/-! ## Interrupts -/

/-- A gate for interrupts and traps; a trap leaves interrupts enabled, and programs down to
some level may enter by an instruction. -/
structure Gate where
  selector : UInt16
  offset : UInt32
  level : Nat
  trap : Bool
  deriving DecidableEq

/-- The gate in a descriptor of the interrupt descriptor table, when present. -/
def Gate.decode (descriptor : UInt64) : Option Gate :=
  let bits := descriptor.toNat
  let type := bits / 2 ^ 40 % 2 ^ 5
  if bits / 2 ^ 47 % 2 = 1 ∧ (type = 0xE ∨ type = 0xF) then
    some
      { selector := UInt16.ofNat (bits / 2 ^ 16)
        offset := UInt32.ofNat (bits % 2 ^ 16 + bits / 2 ^ 48 * 2 ^ 16)
        level := bits / 2 ^ 45 % 2 ^ 2
        trap := type = 0xF }
  else
    none

/-- The stack of the innermost level in the task state segment. -/
structure Tss where
  esp0 : UInt32
  ss0 : UInt16

/-- The words of the frame that an interrupt pushes, in their order on the stack. -/
def Core.frame (c : Core) : List UInt32 :=
  [c.eip, c.cs.toUInt32, c.eflags] ++
    if Core.level c.cs = 0 then [] else [c.esp, c.ss.toUInt32]

/-- Enter a gate to the innermost level: from an outer level on the stack of the task state
segment. -/
def Core.interrupt (tss : Tss) (gate : Gate) (c : Core) : Core :=
  let inner := if Core.level c.cs = 0 then c else { c with esp := tss.esp0, ss := tss.ss0 }
  { inner.pushAll c.frame.reverse with
    cs := gate.selector
    eip := gate.offset
    eflags := c.eflags &&& (if gate.trap then 0xFFFFFEFF else 0xFFFFFCFF) }

/-- The instruction `int`: the gate must be open to the level of the program. -/
def Core.int (tss : Tss) (gate : Gate) (c : Core) : Option Core :=
  if Core.level c.cs ≤ gate.level then some (c.interrupt tss gate) else none

namespace Core

/-- The frame lies on the stack of the handler. -/
theorem holds_interrupt (tss : Tss) (gate : Gate) (c : Core) :
    (c.interrupt tss gate).Holds c.frame := by
  have few : ([] : List UInt32).length + c.frame.reverse.length < 2 ^ 20 := by
    rw [List.length_reverse, frame]
    split <;> simp
  have pushed : ∀ inner : Core, (inner.pushAll c.frame.reverse).Holds c.frame := by
    intro inner
    have holds : (inner.pushAll c.frame.reverse).Holds (c.frame.reverse.reverse ++ []) :=
      inner.holds_pushAll c.frame.reverse trivial few
    rwa [List.reverse_reverse, List.append_nil] at holds
  exact pushed _

/-- An interrupt leaves the general registers and the data segments as they are. -/
theorem interrupt_keeps (tss : Tss) (gate : Gate) (c : Core) :
    (c.interrupt tss gate).gpr = c.gpr ∧ (c.interrupt tss gate).ds = c.ds ∧
      (c.interrupt tss gate).es = c.es := by
  have pushed : ∀ inner : Core, (inner.pushAll c.frame.reverse).gpr = inner.gpr ∧
      (inner.pushAll c.frame.reverse).ds = inner.ds ∧
      (inner.pushAll c.frame.reverse).es = inner.es := by
    intro inner
    rcases inner.pushAll_eq c.frame.reverse with ⟨memory, same⟩
    rw [same]
    exact ⟨rfl, rfl, rfl⟩
  unfold interrupt
  split <;> exact pushed _

/-- The stack on which the handler of an interrupt runs. -/
def handlerStack (tss : Tss) (c : Core) : UInt32 :=
  if level c.cs = 0 then c.esp else tss.esp0

/-- What lies above the stack of the handler stays as it is. -/
theorem sameAbove_interrupt {tss : Tss} (gate : Gate) {c : Core}
    (room : 4 * c.frame.length ≤ (c.handlerStack tss).toNat) :
    SameAbove (c.handlerStack tss) c.memory (c.interrupt tss gate).memory := by
  rw [← List.length_reverse] at room
  unfold handlerStack at room ⊢
  unfold interrupt
  by_cases same : level c.cs = 0
  · rw [if_pos same] at room ⊢
    rw [if_pos same]
    exact sameAbove_pushAll _ room
  · rw [if_neg same] at room ⊢
    rw [if_neg same]
    exact sameAbove_pushAll (c := { c with esp := tss.esp0, ss := tss.ss0 }) _ room

/-- The frame is pushed on the stack of the handler. -/
theorem interrupt_esp (tss : Tss) (gate : Gate) (c : Core) :
    (c.interrupt tss gate).esp =
      c.handlerStack tss - 4 * UInt32.ofNat c.frame.length := by
  have pushed : ∀ inner : Core, (inner.pushAll c.frame.reverse).esp =
      inner.esp - 4 * UInt32.ofNat c.frame.length := by
    intro inner
    rcases inner.pushAll_eq c.frame.reverse with ⟨memory, same⟩
    rw [same, List.length_reverse]
  unfold interrupt handlerStack
  split <;> exact pushed _

theorem frame_length (c : Core) : c.frame.length ≤ 5 := by
  rw [frame]
  split <;> simp

theorem toNat_interrupt_esp (tss : Tss) (gate : Gate) {c : Core}
    (room : 20 ≤ (c.handlerStack tss).toNat) :
    (c.interrupt tss gate).esp.toNat = (c.handlerStack tss).toNat - 4 * c.frame.length := by
  have few := c.frame_length
  have four : (4 : UInt32).toNat = 4 := rfl
  rw [interrupt_esp]
  simp only [UInt32.toNat_sub, UInt32.toNat_mul, UInt32.toNat_ofNat', four]
  have small := (c.handlerStack tss).toNat_lt
  omega

/-- An interrupt of the innermost level stays on its stack. -/
theorem interrupt_inner (tss : Tss) (gate : Gate) {c : Core} (inner : level c.cs = 0) :
    (c.interrupt tss gate).esp = c.esp - 12 ∧ (c.interrupt tss gate).ss = c.ss := by
  rcases c.pushAll_eq c.frame.reverse with ⟨memory, pushed⟩
  refine ⟨?_, ?_⟩
  · rw [interrupt_esp, handlerStack, if_pos inner, frame, if_pos inner]
    rfl
  · rw [interrupt, if_pos inner, pushed]

/-- The return from an interrupt goes back to what it interrupted. -/
theorem iret_frame {c interrupted : Core} (inner : level c.cs = 0)
    (holds : c.Holds interrupted.frame) :
    c.iret = { c with
      eip := interrupted.eip
      cs := interrupted.cs
      eflags := interrupted.eflags
      esp := if level interrupted.cs = 0 then c.esp + 12 else interrupted.esp
      ss := if level interrupted.cs = 0 then c.ss else interrupted.ss } := by
  by_cases same : level interrupted.cs = 0
  · rw [frame, if_pos same] at holds
    rcases holds with ⟨eip, cs, eflags, _⟩
    have order : ¬ level c.cs < level interrupted.cs := by omega
    have esp : c.esp + 4 + 4 + 4 = c.esp + 12 := by
      rw [UInt32.add_assoc, UInt32.add_assoc]
      rfl
    simp only [iret, top, drop, eip, cs, eflags, UInt16.toUInt16_toUInt32, if_neg order,
      if_pos same, esp]
  · rw [frame, if_neg same] at holds
    rcases holds with ⟨eip, cs, eflags, esp, ss, _⟩
    have order : level c.cs < level interrupted.cs := by omega
    simp only [iret, top, drop, eip, cs, eflags, esp, ss, UInt16.toUInt16_toUInt32, if_pos order,
      if_neg same]

end Core

end Ece391Os.X86
