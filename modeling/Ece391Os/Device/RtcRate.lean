import Ece391Os.Device.Rtc
import Mathlib.Logic.Function.Iterate
import Mathlib.Tactic.IntervalCases

/-!
# Changing the rate while interrupts arrive

`rtc_set_freq` runs with interrupts enabled.  It reads register A and writes it back
through the index latched in `RTC_PORT`, which `rtc_interrupt_handler` leaves at
register C.
-/

namespace Ece391Os

/-- How many times the handler runs before each port access of `rtc_set_freq`, and
after the last one. -/
structure HandlerRuns where
  beforeSelect : Nat
  beforeRead : Nat
  beforeReselect : Nat
  beforeWrite : Nat
  afterWrite : Nat
  deriving DecidableEq

namespace Cmos

/-! ## Rate codes -/

/-- The upper half of register A is as before, the lower half is the rate code, and no
other register is written. -/
def SetsRate (before after : Cmos) (code : UInt8) (written : List UInt8) : Prop :=
  after.reg 0x0A &&& 0xF0 = before.reg 0x0A &&& 0xF0 ∧ after.reg 0x0A &&& 0x0F = code ∧
    ∀ r ∈ written, r = 0x0A

/-- The rate code for `2 ^ e` interrupts a second is `16 - e`. -/
theorem rate_pow (junk : UInt8) {e : Nat} (low : 1 ≤ e) (high : e ≤ 10) :
    rate junk (2 ^ e) = UInt8.ofNat (16 - e) := by
  interval_cases e <;> rfl

theorem pow_accepted {e : Nat} (high : e ≤ 10) :
    ¬ ((2 : Int) ^ e = 8192 ∨ (2 : Int) ^ e = 4096 ∨ (2 : Int) ^ e = 2048) := by
  interval_cases e <;> decide

theorem code_halves {e : Nat} (low : 1 ≤ e) (high : e ≤ 10) :
    UInt8.ofNat (16 - e) &&& 0xF0 = 0 ∧ UInt8.ofNat (16 - e) &&& 0x0F = UInt8.ofNat (16 - e) := by
  interval_cases e <;> decide

/-- The upper half of a byte joined with a rate code. -/
theorem joined_halves (old : UInt8) {code : UInt8} (upper : code &&& 0xF0 = 0)
    (lower : code &&& 0x0F = code) :
    (0xF0 &&& old ||| code) &&& 0xF0 = old &&& 0xF0 ∧
      (0xF0 &&& old ||| code) &&& 0x0F = code := by
  have distributes : ∀ mask : UInt8, (0xF0 &&& old ||| code) &&& mask =
      old &&& (0xF0 &&& mask) ||| code &&& mask := by
    intro mask
    have split : (0xF0 &&& old ||| code) &&& mask = 0xF0 &&& old &&& mask ||| code &&& mask :=
      UInt8.toBitVec_inj.mp BitVec.and_or_distrib_right
    rw [split, UInt8.and_comm 0xF0 old, UInt8.and_assoc]
  constructor
  · rw [distributes, upper]
    exact UInt8.or_zero
  · rw [distributes, lower]
    exact (congrArg (· ||| code) UInt8.and_zero).trans UInt8.zero_or

end Cmos

namespace Kernel

/-- A number of runs of `rtc_interrupt_handler`. -/
def handlerRuns (k : Kernel) (runs : Nat) : Kernel :=
  rtcInterruptHandler^[runs] k

/-- `outb(index, RTC_PORT)`. -/
def outRtcPort (k : Kernel) (index : UInt8) : Kernel :=
  { k with cmos := k.cmos.select index }

/-- `inb(CMOS_PORT)`. -/
def inCmosPort (k : Kernel) : UInt8 :=
  k.cmos.reg k.cmos.index

/-- `outb(data, CMOS_PORT)`. -/
def outCmosPort (k : Kernel) (data : UInt8) : Kernel :=
  { k with cmos := k.cmos.write data }

/-- `rtc_set_freq(freq)` with runs of the handler between its port accesses, and the
registers that it writes. -/
def rtcSetFreqInterrupted (k : Kernel) (junk : UInt8) (freq : Int) (runs : HandlerRuns) :
    Kernel × List UInt8 :=
  let k := k.handlerRuns runs.beforeSelect
  let k := k.outRtcPort 0x0A
  let k := k.handlerRuns runs.beforeRead
  let aOld := k.inCmosPort
  let k := k.handlerRuns runs.beforeReselect
  if freq = 8192 ∨ freq = 4096 ∨ freq = 2048 then
    (k, [])
  else
    let k := k.outRtcPort 0x0A
    let k := k.handlerRuns runs.beforeWrite
    let written := k.cmos.index
    let k := k.outCmosPort (0xF0 &&& aOld ||| Cmos.rate junk freq)
    (k.handlerRuns runs.afterWrite, [written])

/-! ## Runs of the handler -/

theorem handlerRuns_succ (k : Kernel) (runs : Nat) :
    k.handlerRuns (runs + 1) = (k.handlerRuns runs).rtcInterruptHandler :=
  Function.iterate_succ_apply' rtcInterruptHandler runs k

@[simp]
theorem reg_handlerRuns (k : Kernel) (runs : Nat) :
    (k.handlerRuns runs).cmos.reg = k.cmos.reg := by
  induction runs with
  | zero => rfl
  | succ runs ih =>
      rw [handlerRuns_succ]
      exact ih

/-- The handler leaves register C selected. -/
@[simp]
theorem index_handlerRuns (k : Kernel) (runs : Nat) :
    (k.handlerRuns runs).cmos.index = if runs = 0 then k.cmos.index else 0x0C := by
  cases runs with
  | zero => rfl
  | succ runs =>
      rw [handlerRuns_succ, if_neg (Nat.succ_ne_zero runs)]
      rfl

/-! ## The call -/

/-- The register that an access finds selected after `0x0A` and some runs of the handler. -/
def selected (runs : Nat) : UInt8 :=
  if runs = 0 then 0x0A else 0x0C

/-- The call writes the rate, with the upper half of what it read for register A, to what
is selected at its last access. -/
theorem rtcSetFreqInterrupted_eq (k : Kernel) (junk : UInt8) {freq : Int} (runs : HandlerRuns)
    (accepted : ¬ (freq = 8192 ∨ freq = 4096 ∨ freq = 2048)) :
    (k.rtcSetFreqInterrupted junk freq runs).1.cmos.reg =
        Function.update k.cmos.reg (selected runs.beforeWrite)
          (0xF0 &&& k.cmos.reg (selected runs.beforeRead) ||| Cmos.rate junk freq) ∧
      (k.rtcSetFreqInterrupted junk freq runs).2 = [selected runs.beforeWrite] := by
  unfold rtcSetFreqInterrupted
  simp only [if_neg accepted, inCmosPort, outRtcPort, outCmosPort, Cmos.select, Cmos.write,
    reg_handlerRuns, index_handlerRuns, selected]
  trivial

/-- Without interrupts the call is `rtcSetFreq`. -/
theorem rtcSetFreqInterrupted_zero (k : Kernel) (junk : UInt8) (freq : Int) :
    (k.rtcSetFreqInterrupted junk freq ⟨0, 0, 0, 0, 0⟩).1.cmos = k.cmos.rtcSetFreq junk freq := by
  unfold rtcSetFreqInterrupted Cmos.rtcSetFreq
  dsimp only
  split <;> rfl

/-- A register that the call does not write keeps its contents. -/
theorem rtcSetFreqInterrupted_unwritten (k : Kernel) (junk : UInt8) (freq : Int)
    (runs : HandlerRuns) (r : UInt8)
    (unwritten : r ∉ (k.rtcSetFreqInterrupted junk freq runs).2) :
    (k.rtcSetFreqInterrupted junk freq runs).1.cmos.reg r = k.cmos.reg r := by
  by_cases refused : freq = 8192 ∨ freq = 4096 ∨ freq = 2048
  · unfold rtcSetFreqInterrupted
    simp [if_pos refused, outRtcPort, Cmos.select]
  · rcases k.rtcSetFreqInterrupted_eq junk runs refused with ⟨registers, written⟩
    rw [written, List.mem_singleton] at unwritten
    rw [registers, Function.update_of_ne unwritten]

/-- A call for a rate ends as it should, if and only if the handler does not run between
the last selection of register A and the write, and does not run between the first one and
the read, unless the upper half of register C is that of register A. -/
theorem rtcSetFreq_survives_iff (k : Kernel) (junk : UInt8) (runs : HandlerRuns) {e : Nat}
    (low : 1 ≤ e) (high : e ≤ 10) :
    Cmos.SetsRate k.cmos (k.rtcSetFreqInterrupted junk (2 ^ e) runs).1.cmos
        (UInt8.ofNat (16 - e)) (k.rtcSetFreqInterrupted junk (2 ^ e) runs).2 ↔
      runs.beforeWrite = 0 ∧
        (runs.beforeRead = 0 ∨ k.cmos.reg 0x0C &&& 0xF0 = k.cmos.reg 0x0A &&& 0xF0) := by
  rcases k.rtcSetFreqInterrupted_eq junk runs (Cmos.pow_accepted high) with ⟨registers, written⟩
  rcases Cmos.code_halves low high with ⟨upper, lower⟩
  rw [Cmos.rate_pow junk low high] at registers
  have halves := Cmos.joined_halves (k.cmos.reg (selected runs.beforeRead)) upper lower
  unfold Cmos.SetsRate
  rw [registers, written]
  by_cases late : runs.beforeWrite = 0
  · have target : selected runs.beforeWrite = 0x0A := if_pos late
    rw [target, Function.update_self, halves.1, halves.2]
    by_cases early : runs.beforeRead = 0
    · have source : selected 0 = 0x0A := rfl
      simp [late, early, source]
    · have source : selected runs.beforeRead = 0x0C := if_neg early
      simp [late, early, source]
  · have target : selected runs.beforeWrite = 0x0C := if_neg late
    rw [target]
    constructor
    · rintro ⟨_, _, only⟩
      exact absurd (only 0x0C List.mem_cons_self) (by decide)
    · rintro ⟨none, _⟩
      exact absurd none late

theorem rtcSetFreq_survives_sample :
    Cmos.SetsRate (default : Kernel).cmos
      ((default : Kernel).rtcSetFreqInterrupted 0 (2 ^ 10) ⟨3, 0, 1, 0, 2⟩).1.cmos 0x06
      ((default : Kernel).rtcSetFreqInterrupted 0 (2 ^ 10) ⟨3, 0, 1, 0, 2⟩).2 :=
  (rtcSetFreq_survives_iff default 0 ⟨3, 0, 1, 0, 2⟩ (e := 10) (by decide) (by decide)).mpr
    ⟨rfl, .inl rfl⟩

/-- The handler runs once between the last selection of register A and the write. -/
theorem interrupt_before_write :
    ¬ Cmos.SetsRate (default : Kernel).cmos
      ((default : Kernel).rtcSetFreqInterrupted 0 1024 ⟨0, 0, 0, 1, 0⟩).1.cmos 0x06
      ((default : Kernel).rtcSetFreqInterrupted 0 1024 ⟨0, 0, 0, 1, 0⟩).2 := by
  rintro ⟨_, _, only⟩
  exact absurd (only 0x0C (by decide)) (by decide)

end Kernel

end Ece391Os
