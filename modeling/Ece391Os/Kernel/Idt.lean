import Ece391Os.X86.Stack

/-!
# The interrupt descriptor table

The table of `x86_desc.S` after `init_idt`, as the processor decodes it.  The addresses of the
handlers are arbitrary.
-/

namespace Ece391Os

open X86

/-- `idt_desc_t`. -/
structure IdtDesc where
  offset_15_00 : UInt16
  seg_selector : UInt16
  reserved4 : UInt8
  reserved3 : Bool
  reserved2 : Bool
  reserved1 : Bool
  size : Bool
  reserved0 : Bool
  dpl : Fin 4
  present : Bool
  offset_31_16 : UInt16

namespace IdtDesc

/-- The bits of a descriptor from its first field up. -/
def val (e : IdtDesc) : UInt64 :=
  UInt64.ofNat (e.offset_15_00.toNat + 2 ^ 16 * e.seg_selector.toNat +
    2 ^ 32 * e.reserved4.toNat + 2 ^ 40 * e.reserved3.toNat + 2 ^ 41 * e.reserved2.toNat +
    2 ^ 42 * e.reserved1.toNat + 2 ^ 43 * e.size.toNat + 2 ^ 44 * e.reserved0.toNat +
    2 ^ 45 * e.dpl.val + 2 ^ 47 * e.present.toNat + 2 ^ 48 * e.offset_31_16.toNat)

/-- The descriptors that `x86_desc.S` assembles, `0x00008E0000100000`. -/
def assembled : IdtDesc where
  offset_15_00 := 0
  seg_selector := 0x0010
  reserved4 := 0
  reserved3 := false
  reserved2 := true
  reserved1 := true
  size := true
  reserved0 := false
  dpl := 0
  present := true
  offset_31_16 := 0

example : assembled.val = 0x00008E0000100000 := by
  decide

/-- `SET_IDT_ENTRY(str, handler)`. -/
def setIdtEntry (str : IdtDesc) (handler : UInt32) : IdtDesc :=
  { str with
    offset_31_16 := ((handler &&& 0xFFFF0000) >>> 16).toUInt16
    offset_15_00 := (handler &&& 0xFFFF).toUInt16 }

/-- The halves of an address make the address. -/
theorem offset_setIdtEntry (str : IdtDesc) (handler : UInt32) :
    UInt32.ofNat ((str.setIdtEntry handler).offset_15_00.toNat +
      (str.setIdtEntry handler).offset_31_16.toNat * 2 ^ 16) = handler := by
  have small := handler.toNat_lt
  have low : (handler &&& 0xFFFF).toUInt16.toNat = handler.toNat % 2 ^ 16 := by
    have mask : handler.toNat &&& 0xFFFF = handler.toNat % 2 ^ 16 :=
      Nat.and_two_pow_sub_one_eq_mod _ 16
    rw [UInt32.toNat_toUInt16, UInt32.toNat_and]
    change (handler.toNat &&& 0xFFFF) % 2 ^ 16 = _
    rw [mask, Nat.mod_mod]
  have high : ((handler &&& 0xFFFF0000) >>> 16).toUInt16.toNat = handler.toNat / 2 ^ 16 := by
    have mask : handler.toNat >>> 16 &&& 0xFFFF = handler.toNat >>> 16 % 2 ^ 16 :=
      Nat.and_two_pow_sub_one_eq_mod _ 16
    rw [UInt32.toNat_toUInt16, UInt32.toNat_shiftRight, UInt32.toNat_and]
    change ((handler.toNat &&& 0xFFFF0000) >>> 16) % 2 ^ 16 = _
    rw [Nat.shiftRight_and_distrib]
    change (handler.toNat >>> 16 &&& 0xFFFF) % 2 ^ 16 = _
    rw [mask, Nat.shiftRight_eq_div_pow]
    omega
  apply UInt32.toNat_inj.mp
  simp only [setIdtEntry, low, high, UInt32.toNat_ofNat']
  omega

/-- The gate in a descriptor. -/
theorem decode_val (e : IdtDesc) (present : e.present = true)
    (gate : (e.reserved0, e.size, e.reserved1, e.reserved2) = (false, true, true, true)) :
    Gate.decode e.val = some
      { selector := e.seg_selector
        offset := UInt32.ofNat (e.offset_15_00.toNat + e.offset_31_16.toNat * 2 ^ 16)
        level := e.dpl.val
        trap := e.reserved3 } := by
  rcases e with ⟨low, selector, reserved4, reserved3, _, _, _, _, dpl, _, high⟩
  cases present
  cases gate
  have lowLt := low.toNat_lt
  have selectorLt := selector.toNat_lt
  have reservedLt := reserved4.toNat_lt
  have highLt := high.toNat_lt
  have dplLt := dpl.isLt
  have bitLt : reserved3.toNat ≤ 1 := Bool.toNat_le reserved3
  let bits := low.toNat + 2 ^ 16 * selector.toNat + 2 ^ 32 * reserved4.toNat +
    2 ^ 40 * reserved3.toNat + 2 ^ 41 + 2 ^ 42 + 2 ^ 43 + 2 ^ 45 * dpl.val + 2 ^ 47 +
    2 ^ 48 * high.toNat
  have whole : (IdtDesc.val
      ⟨low, selector, reserved4, reserved3, true, true, true, false, dpl, true, high⟩).toNat =
        bits := by
    simp only [val, UInt64.toNat_ofNat', Bool.toNat_true, Bool.toNat_false]
    omega
  have isPresent : bits / 2 ^ 47 % 2 = 1 := by omega
  have type : bits / 2 ^ 40 % 2 ^ 5 = 0xE + reserved3.toNat := by omega
  have isGate : 0xE + reserved3.toNat = 0xE ∨ 0xE + reserved3.toNat = 0xF := by omega
  have offset : bits % 2 ^ 16 + bits / 2 ^ 48 * 2 ^ 16 = low.toNat + high.toNat * 2 ^ 16 := by
    omega
  have level : bits / 2 ^ 45 % 2 ^ 2 = dpl.val := by omega
  have selected : UInt16.ofNat (bits / 2 ^ 16) = selector := by
    apply UInt16.toNat_inj.mp
    rw [UInt16.toNat_ofNat']
    omega
  have trap : decide (0xE + reserved3.toNat = 0xF) = reserved3 := by
    cases reserved3 <;> rfl
  simp only [Gate.decode, whole, isPresent, type, isGate, offset, level, selected, trap, and_self,
    if_true]

end IdtDesc

namespace Idt

/-- The handlers of exceptions in `idt.c` and the handlers in `interrupts.S`. -/
inductive Handler where
  | divide_error
  | debug
  | nmi
  | breakpoint
  | overflow
  | bounds
  | invalid_op
  | device_not_available
  | double_fault
  | segment_overrun
  | invalid_TSS
  | segment_not_present
  | stack_segment
  | general_protection
  | page_fault
  | generic_error
  | fp
  | alignment_check
  | machine_check
  | rtc_handler
  | keyboard_handler
  | pit_handler
  | system_call_handler
  deriving DecidableEq

def SYSCALL_VECTOR : Nat := 0x80
def RTC_VECTOR : Nat := 0x28
def KEYBOARD_VECTOR : Nat := 0x21
def PIT_VECTOR : Nat := 0x20
def NUM_VEC : Nat := 256
def KERNEL_CS : UInt16 := 0x0010

/-- The calls of `SET_IDT_ENTRY` in `init_idt`. -/
def entries : List (Nat × Handler) :=
  [(0, .divide_error), (1, .debug), (2, .nmi), (3, .breakpoint), (4, .overflow), (5, .bounds),
    (6, .invalid_op), (7, .device_not_available), (8, .double_fault), (9, .segment_overrun),
    (10, .invalid_TSS), (11, .segment_not_present), (12, .stack_segment),
    (13, .general_protection), (14, .page_fault), (15, .generic_error), (16, .fp),
    (17, .alignment_check), (18, .machine_check), (RTC_VECTOR, .rtc_handler),
    (KEYBOARD_VECTOR, .keyboard_handler), (PIT_VECTOR, .pit_handler),
    (SYSCALL_VECTOR, .system_call_handler)]

/-- The body of the loop of `init_idt`. -/
def initEntry (i : Nat) (e : IdtDesc) : IdtDesc :=
  let e := { e with present := true, dpl := 0, size := true }
  let e :=
    { e with
      reserved0 := false
      reserved1 := true
      reserved2 := true
      reserved3 := false
      reserved4 := 0
      seg_selector := KERNEL_CS }
  let e := if i < 32 then { e with reserved3 := true } else e
  if SYSCALL_VECTOR = i then { e with reserved3 := true, dpl := 3 } else e

/-- `init_idt`. -/
def initIdt (address : Handler → UInt32) (idt : Nat → IdtDesc) : Nat → IdtDesc :=
  let idt := (List.range NUM_VEC).foldl (fun idt i =>
    Function.update idt i (initEntry i (idt i))) idt
  entries.foldl (fun idt entry =>
    Function.update idt entry.1 ((idt entry.1).setIdtEntry (address entry.2))) idt

/-- The table when the kernel runs. -/
def table (address : Handler → UInt32) : Nat → IdtDesc :=
  initIdt address fun _ => .assembled

/-- The handler of a vector. -/
def handlerOf (vector : Nat) : Option Handler :=
  entries.lookup vector

section Table

variable (address : Handler → UInt32)

/-- The loop changes the descriptors below its bound, each once. -/
theorem foldl_initEntry (idt : Nat → IdtDesc) (bound vector : Nat) :
    (List.range bound).foldl (fun idt i => Function.update idt i (initEntry i (idt i))) idt
        vector =
      if vector < bound then initEntry vector (idt vector) else idt vector := by
  induction bound with
  | zero => rfl
  | succ bound ih =>
      rw [List.range_succ, List.foldl_append, List.foldl_cons, List.foldl_nil]
      by_cases last : vector = bound
      · subst last
        rw [Function.update_self, ih, if_neg (Nat.lt_irrefl vector), if_pos (Nat.lt_succ_self _)]
      · rw [Function.update_of_ne last, ih]
        have same : vector < bound + 1 ↔ vector < bound := by omega
        simp only [same]

/-- A handler is entered in the descriptor of its vector. -/
theorem foldl_setIdtEntry (idt : Nat → IdtDesc) {calls : List (Nat × Handler)}
    (distinct : (calls.map Prod.fst).Nodup) (vector : Nat) :
    calls.foldl (fun idt entry =>
        Function.update idt entry.1 ((idt entry.1).setIdtEntry (address entry.2))) idt vector =
      match calls.lookup vector with
      | some handler => (idt vector).setIdtEntry (address handler)
      | none => idt vector := by
  induction calls generalizing idt with
  | nil => rfl
  | cons call calls ih =>
      rcases call with ⟨first, handler⟩
      rw [List.map_cons, List.nodup_cons] at distinct
      rw [List.foldl_cons, ih _ distinct.2]
      by_cases same : vector = first
      · subst same
        have none : calls.lookup vector = none := by
          rw [List.lookup_eq_none_iff]
          intro call called
          have other : call.1 ∈ calls.map Prod.fst := List.mem_map_of_mem called
          simpa using fun same : vector = call.1 => distinct.1 (same ▸ other)
        rw [none, List.lookup_cons_self, Function.update_self]
      · have later : ((first, handler) :: calls).lookup vector = calls.lookup vector := by
          rw [List.lookup_cons, beq_eq_false_iff_ne.mpr same]
        rw [later, Function.update_of_ne same]

/-- The gate of a vector. -/
def gate (vector : Nat) : Gate where
  selector := KERNEL_CS
  offset := (handlerOf vector).elim 0 address
  level := if vector = SYSCALL_VECTOR then 3 else 0
  trap := vector < 32 || vector == SYSCALL_VECTOR

/-- The descriptor of a vector after the loop. -/
theorem initEntry_assembled (vector : Nat) :
    initEntry vector .assembled =
      { IdtDesc.assembled with
        dpl := if vector = SYSCALL_VECTOR then 3 else 0
        reserved3 := vector < 32 || vector == SYSCALL_VECTOR } := by
  unfold initEntry
  by_cases exception : vector < 32 <;> by_cases call : vector = SYSCALL_VECTOR
  · exact absurd call (by unfold SYSCALL_VECTOR; omega)
  · simp [exception, call, Ne.symm call, IdtDesc.assembled, KERNEL_CS]
  · subst call
    rfl
  · simp [exception, call, Ne.symm call, IdtDesc.assembled, KERNEL_CS]

/-- The processor finds the gate of every vector in the table. -/
theorem decode_table {vector : Nat} (inTable : vector < NUM_VEC) :
    Gate.decode (table address vector).val = some (gate address vector) := by
  have entry : table address vector =
      match entries.lookup vector with
      | some handler => (initEntry vector .assembled).setIdtEntry (address handler)
      | none => initEntry vector .assembled := by
    rw [table, initIdt, foldl_setIdtEntry address _ (by decide), foldl_initEntry,
      if_pos inTable]
  have level : (if vector = SYSCALL_VECTOR then (3 : Fin 4) else 0).val =
      if vector = SYSCALL_VECTOR then 3 else 0 := by
    split <;> rfl
  rw [entry, gate, handlerOf]
  cases entries.lookup vector with
  | none =>
      have offset : UInt32.ofNat (IdtDesc.assembled.offset_15_00.toNat +
          IdtDesc.assembled.offset_31_16.toNat * 2 ^ 16) = 0 := rfl
      rw [initEntry_assembled, IdtDesc.decode_val _ rfl rfl]
      exact congrArg some
        (congrArg₂ (fun offset level => Gate.mk KERNEL_CS offset level _) offset level)
  | some handler =>
      rw [initEntry_assembled, IdtDesc.decode_val _ rfl rfl, IdtDesc.offset_setIdtEntry]
      exact congrArg some
        (congrArg (fun level => Gate.mk KERNEL_CS (address handler) level _) level)

end Table

end Idt

end Ece391Os
