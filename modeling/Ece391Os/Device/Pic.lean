import Mathlib.Data.List.Find
import Mathlib.Data.List.Induction

/-!
# The interrupt masks

`enable_irq` and `disable_irq` of `i8259.c` over the two masks.  A line of the slave
reaches the processor through line 2 of the master.  Both routines change that line
together with each slave line, so the last call for any slave line decides for all of
them whether they are delivered.
-/

namespace Ece391Os

/-- The globals `master_mask` and `slave_mask`. -/
structure Pic where
  masterMask : UInt8
  slaveMask : UInt8
  deriving DecidableEq

/-- A call of `enable_irq` or `disable_irq`. -/
inductive PicCall where
  | enableIrq (irqNum : UInt32)
  | disableIrq (irqNum : UInt32)
  deriving DecidableEq

namespace PicCall

/-- The line that the call names. -/
def irqNum : PicCall → UInt32
  | enableIrq n => n
  | disableIrq n => n

/-- The call is one of `enable_irq`. -/
def enables : PicCall → Bool
  | enableIrq _ => true
  | disableIrq _ => false

/-- Among the calls that name one of some lines, the last is one of `enable_irq`. -/
def lastEnables (calls : List PicCall) (named : UInt32 → Bool) : Bool :=
  (calls.reverse.find? fun call => named call.irqNum).any enables

theorem lastEnables_concat (calls : List PicCall) (call : PicCall) (named : UInt32 → Bool) :
    lastEnables (calls ++ [call]) named =
      if named call.irqNum then call.enables else lastEnables calls named := by
  unfold lastEnables
  rw [List.reverse_append, List.reverse_singleton, List.singleton_append, List.find?_cons]
  cases named call.irqNum <;> rfl

/-- A line of the slave. -/
def isSlave (n : UInt32) : Bool :=
  8 ≤ n && n ≤ 15

/-- The line with a given number. -/
def isLine (line : Fin 16) (n : UInt32) : Bool :=
  n.toNat = line.val

end PicCall

namespace Pic

/-- `mask &= ~(1 << n)`. -/
def clearBit (mask : UInt8) (n : UInt32) : UInt8 :=
  mask &&& ~~~(1 <<< n.toUInt8)

/-- `mask |= 1 << n`. -/
def setBit (mask : UInt8) (n : UInt32) : UInt8 :=
  mask ||| 1 <<< n.toUInt8

/-- Bit `n` of a mask. -/
def bit (mask : UInt8) (n : Nat) : Bool :=
  mask.toBitVec.getLsbD n

/-- `enable_irq(irq_num)`. -/
def enableIrq (p : Pic) (irqNum : UInt32) : Pic :=
  if irqNum > 15 then
    p
  else if irqNum > 7 then
    { slaveMask := clearBit p.slaveMask (irqNum - 8)
      masterMask := clearBit p.masterMask 2 }
  else
    { p with masterMask := clearBit p.masterMask irqNum }

/-- `disable_irq(irq_num)`. -/
def disableIrq (p : Pic) (irqNum : UInt32) : Pic :=
  if irqNum > 15 then
    p
  else if irqNum > 7 then
    { slaveMask := setBit p.slaveMask (irqNum - 8)
      masterMask := setBit p.masterMask 2 }
  else
    { p with masterMask := setBit p.masterMask irqNum }

/-- One call. -/
def call (p : Pic) : PicCall → Pic
  | .enableIrq irqNum => p.enableIrq irqNum
  | .disableIrq irqNum => p.disableIrq irqNum

/-- The masks that start as `PIC_IRQ_MASK`, after a sequence of calls. -/
def after (calls : List PicCall) : Pic :=
  calls.foldl call { masterMask := 0xFF, slaveMask := 0xFF }

/-- The mask bit of a line. -/
def masked (p : Pic) (line : Fin 16) : Bool :=
  if line.val < 8 then bit p.masterMask line.val else bit p.slaveMask (line.val - 8)

/-- Interrupts of a line reach the processor. -/
def Deliverable (p : Pic) (line : Fin 16) : Prop :=
  p.masked line = false ∧ (8 ≤ line.val → p.masked 2 = false)

/-! ## One call -/

theorem bit_shift (n i : Fin 8) :
    bit (1 <<< (UInt32.ofNat n.val).toUInt8) i.val = decide (n = i) := by
  revert n i
  decide

theorem bit_clearBit (mask : UInt8) (n i : Fin 8) :
    bit (clearBit mask (UInt32.ofNat n.val)) i.val =
      if n = i then false else bit mask i.val := by
  have shifted := bit_shift n i
  unfold bit at shifted
  simp only [clearBit, bit, UInt8.toBitVec_and, UInt8.toBitVec_not, BitVec.getLsbD_and,
    BitVec.getLsbD_not, shifted, i.isLt, decide_true, Bool.true_and]
  split <;> simp_all

theorem bit_setBit (mask : UInt8) (n i : Fin 8) :
    bit (setBit mask (UInt32.ofNat n.val)) i.val =
      if n = i then true else bit mask i.val := by
  have shifted := bit_shift n i
  unfold bit at shifted
  simp only [setBit, bit, UInt8.toBitVec_or, BitVec.getLsbD_or, shifted]
  split <;> simp_all

/-- A call that names no line changes nothing. -/
theorem call_of_invalid (p : Pic) {c : PicCall} (invalid : 15 < c.irqNum) : p.call c = p := by
  cases c with
  | enableIrq n => exact if_pos invalid
  | disableIrq n => exact if_pos invalid

/-- The mask that a call gives to a line it names. -/
def assign (mask : UInt8) (enables : Bool) (n : UInt32) : UInt8 :=
  if enables then clearBit mask n else setBit mask n

theorem bit_assign (mask : UInt8) (enables : Bool) (n i : Fin 8) :
    bit (assign mask enables (UInt32.ofNat n.val)) i.val =
      if n = i then !enables else bit mask i.val := by
  cases enables with
  | true => exact bit_clearBit mask n i
  | false => exact bit_setBit mask n i

/-- A call assigns the mask bit of the line it names; one that names a line of the
slave also assigns that of line 2. -/
def assigns (line : Fin 16) (n : UInt32) : Bool :=
  PicCall.isLine line n || (decide (line = 2) && PicCall.isSlave n)

theorem assigns_master (n : Fin 8) (line : Fin 16) :
    assigns line (UInt32.ofNat n.val) = decide (n.val = line.val) := by
  revert n line
  decide

theorem assigns_slave (n : Fin 8) (line : Fin 16) :
    assigns line (UInt32.ofNat (n.val + 8)) =
      decide (n.val + 8 = line.val ∨ line = 2) := by
  revert n line
  decide

theorem assigns_invalid (n : UInt32) (line : Fin 16) (invalid : 15 < n) :
    assigns line n = false := by
  have high : 15 < n.toNat := invalid
  have notLine : PicCall.isLine line n = false := decide_eq_false (by omega)
  have notSlave : PicCall.isSlave n = false := by
    have : ¬ n ≤ 15 := fun valid => absurd invalid (UInt32.not_lt.mpr valid)
    simp [PicCall.isSlave, this]
  rw [assigns, notLine, notSlave, Bool.and_false, Bool.or_false]

/-- A line number is that of a master line, that of a slave line, or invalid. -/
theorem irqNum_cases (n : UInt32) :
    (∃ m : Fin 8, n = UInt32.ofNat m.val) ∨ (∃ m : Fin 8, n = UInt32.ofNat (m.val + 8)) ∨
      15 < n := by
  by_cases master : n.toNat < 8
  · left
    exact ⟨⟨n.toNat, master⟩, (UInt32.ofNat_toNat).symm⟩
  · right
    by_cases slave : n.toNat < 16
    · left
      refine ⟨⟨n.toNat - 8, by omega⟩, ?_⟩
      rw [Nat.sub_add_cancel (Nat.le_of_not_lt master)]
      exact (UInt32.ofNat_toNat).symm
    · right
      exact Nat.lt_of_succ_le (Nat.le_of_not_lt slave)

theorem call_master (p : Pic) (c : PicCall) (n : Fin 8) (names : c.irqNum = UInt32.ofNat n.val) :
    p.call c = { p with masterMask := assign p.masterMask c.enables (UInt32.ofNat n.val) } := by
  have valid : ∀ n : Fin 8, ¬ UInt32.ofNat n.val > 15 ∧ ¬ UInt32.ofNat n.val > 7 := by
    decide
  rcases c with m | m <;>
  · rcases names with rfl
    exact (if_neg (valid n).1).trans (if_neg (valid n).2)

theorem call_slave (p : Pic) (c : PicCall) (n : Fin 8)
    (names : c.irqNum = UInt32.ofNat (n.val + 8)) :
    p.call c =
      { slaveMask := assign p.slaveMask c.enables (UInt32.ofNat n.val)
        masterMask := assign p.masterMask c.enables 2 } := by
  have valid : ∀ n : Fin 8, ¬ UInt32.ofNat (n.val + 8) > 15 ∧ UInt32.ofNat (n.val + 8) > 7 ∧
      UInt32.ofNat (n.val + 8) - 8 = UInt32.ofNat n.val := by
    decide
  rw [← (valid n).2.2]
  rcases c with m | m <;>
  · rcases names with rfl
    exact (if_neg (valid n).1).trans (if_pos (valid n).2.1)

/-- A call assigns one mask bit, or that of a slave line and that of line 2. -/
theorem masked_call (p : Pic) (c : PicCall) (line : Fin 16) :
    (p.call c).masked line = if assigns line c.irqNum then !c.enables else p.masked line := by
  rcases irqNum_cases c.irqNum with ⟨n, names⟩ | ⟨n, names⟩ | invalid
  · rw [call_master p c n names, names, assigns_master]
    by_cases low : line.val < 8
    · simp only [masked, if_pos low]
      rw [bit_assign p.masterMask c.enables n ⟨line.val, low⟩]
      simp [Fin.ext_iff]
    · have differ : n.val ≠ line.val := by omega
      simp [masked, low, differ]
  · rw [call_slave p c n names, names, assigns_slave]
    by_cases low : line.val < 8
    · have differ : n.val + 8 ≠ line.val := by omega
      have cascade := bit_assign p.masterMask c.enables 2 ⟨line.val, low⟩
      simp only [masked, if_pos low]
      apply cascade.trans
      simp [Fin.ext_iff, differ, eq_comm]
    · have cascade : line ≠ 2 := by
        rintro rfl
        exact low (by decide)
      have inside : line.val - 8 < 8 := by omega
      simp only [masked, if_neg low]
      rw [bit_assign p.slaveMask c.enables n ⟨line.val - 8, inside⟩]
      have same : (n = (⟨line.val - 8, inside⟩ : Fin 8)) = (n.val + 8 = line.val) := by
        rw [Fin.ext_iff]
        exact propext ⟨by dsimp only; omega, by dsimp only; omega⟩
      simp [same, cascade]
  · rw [call_of_invalid p invalid, assigns_invalid _ _ invalid]
    rfl

/-! ## Sequences of calls -/

/-- The mask bit of a line is as the last call that assigned it left it. -/
theorem masked_after (calls : List PicCall) (line : Fin 16) :
    (after calls).masked line = !PicCall.lastEnables calls (assigns line) := by
  induction calls using List.reverseRecOn with
  | nil =>
      revert line
      decide
  | append_singleton calls c ih =>
      have step : after (calls ++ [c]) = (after calls).call c := by
        rw [after, List.foldl_append]
        rfl
      rw [step, masked_call, ih, PicCall.lastEnables_concat]
      split <;> rfl

/-- The calls that assign to a line other than line 2 are those that name it. -/
theorem assigns_of_ne {line : Fin 16} (other : line ≠ 2) : assigns line = PicCall.isLine line := by
  funext n
  simp [assigns, other]

/-- Where no call names line 2, the calls for slave lines assign to it. -/
theorem lastEnables_cascade {calls : List PicCall} (noCascade : ∀ c ∈ calls, c.irqNum ≠ 2) :
    PicCall.lastEnables calls (assigns 2) = PicCall.lastEnables calls PicCall.isSlave := by
  have same : ∀ c ∈ calls.reverse, assigns 2 c.irqNum = PicCall.isSlave c.irqNum := by
    intro c member
    have differs : PicCall.isLine 2 c.irqNum = false := by
      apply decide_eq_false
      intro names
      exact noCascade c (List.mem_reverse.mp member) (UInt32.toNat_inj.mp names)
    simp [assigns, differs]
  rw [PicCall.lastEnables, List.find?_congr same, PicCall.lastEnables]

/-- A master line is delivered when the last call naming it enables it; a slave line
needs that the last call for any slave line enables too. -/
theorem deliverable_after_iff {calls : List PicCall} (noCascade : ∀ c ∈ calls, c.irqNum ≠ 2)
    {line : Fin 16} (other : line ≠ 2) :
    (after calls).Deliverable line ↔
      PicCall.lastEnables calls (PicCall.isLine line) = true ∧
        (8 ≤ line.val → PicCall.lastEnables calls PicCall.isSlave = true) := by
  rw [Deliverable, masked_after, masked_after, assigns_of_ne other,
    lastEnables_cascade noCascade, Bool.not_eq_false', Bool.not_eq_false']

/-- Calls that name no line change nothing, and each line is delivered exactly when the
last call that named it was one of `enable_irq`, if and only if no enabled slave line is
cut off by a later call of `disable_irq` for a slave line. -/
theorem masking_per_line_iff {calls : List PicCall} (noCascade : ∀ c ∈ calls, c.irqNum ≠ 2) :
    (∀ (p : Pic) (c : PicCall), 15 < c.irqNum → p.call c = p) ∧
      ((∀ line : Fin 16, line ≠ 2 → ((after calls).Deliverable line ↔
          PicCall.lastEnables calls (PicCall.isLine line) = true)) ↔
        ((∃ line : Fin 16, 8 ≤ line.val ∧
            PicCall.lastEnables calls (PicCall.isLine line) = true) →
          PicCall.lastEnables calls PicCall.isSlave = true)) := by
  constructor
  · intro p c invalid
    exact call_of_invalid p invalid
  · constructor
    · rintro perLine ⟨line, slave, enabled⟩
      have other : line ≠ 2 := by
        rintro rfl
        exact absurd slave (by decide)
      have delivered := (perLine line other).mpr enabled
      exact ((deliverable_after_iff noCascade other).mp delivered).2 slave
    · intro connected line other
      rw [deliverable_after_iff noCascade other]
      constructor
      · exact And.left
      · intro enabled
        exact ⟨enabled, fun slave => connected ⟨line, slave, enabled⟩⟩

theorem masking_per_line_sample :
    (after [.enableIrq 1, .disableIrq 9, .enableIrq 8]).Deliverable 8 ∧
      ¬ (after [.enableIrq 1, .disableIrq 9, .enableIrq 8]).Deliverable 9 := by
  have noCascade : ∀ c ∈ [PicCall.enableIrq 1, .disableIrq 9, .enableIrq 8], c.irqNum ≠ 2 := by
    decide
  have perLine := (masking_per_line_iff noCascade).2.mpr fun _ => by decide
  constructor
  · exact (perLine 8 (by decide)).mpr (by decide)
  · intro delivered
    exact absurd ((perLine 9 (by decide)).mp delivered) (by decide)

/-- Lines 8 and 9 are enabled, and line 9 is disabled again: line 8 is not delivered. -/
theorem disable_cuts_slave_lines :
    ¬ ((after [.enableIrq 8, .enableIrq 9, .disableIrq 9]).Deliverable 8 ↔
      PicCall.lastEnables [.enableIrq 8, .enableIrq 9, .disableIrq 9]
        (PicCall.isLine 8) = true) := by
  have enabled : PicCall.lastEnables [.enableIrq 8, .enableIrq 9, .disableIrq 9]
      (PicCall.isLine 8) = true := by decide
  have cut : (after [.enableIrq 8, .enableIrq 9, .disableIrq 9]).masked 2 = true := by decide
  intro perLine
  exact absurd ((perLine.mpr enabled).2 (by decide)) (by rw [cut]; decide)

end Pic

end Ece391Os
