import Ece391Os.Device.RtcRate

/-!
# Requests for a rate

`rtc_write` with any request of four bytes.  It reports success whatever the request is,
and for a request that is no rate it writes an uninitialized rate code.
-/

namespace Ece391Os

/-- A power of two between 2 and 1024. -/
def SupportedRate (freq : Int32) : Prop :=
  ∃ e : Nat, 1 ≤ e ∧ e ≤ 10 ∧ freq.toInt = 2 ^ e

/-- A rate code divides the 32768 Hz of the clock down to the rate. -/
def RateCodeFor (code : UInt8) (freq : Int32) : Prop :=
  32768 / 2 ^ (code.toNat - 1) = freq.toInt

theorem rateCodeFor_pow {freq : Int32} {e : Nat} (low : 1 ≤ e) (high : e ≤ 10)
    (power : freq.toInt = 2 ^ e) : RateCodeFor (UInt8.ofNat (16 - e)) freq := by
  unfold RateCodeFor
  rw [power]
  interval_cases e <;> rfl

namespace Kernel

variable {k : Kernel} {junk : UInt8} {buf : Nat} {freq : Int32}

/-- A write of four bytes reports success for every request. -/
theorem rtcWrite_eq (present : buf ≠ 0) (word : Int) :
    k.rtcWrite junk buf word 4 = (4, { k with cmos := k.cmos.rtcSetFreq junk word }) := by
  have fits : ¬ ((4 : Int) ≠ 4 ∨ buf = 0) := by
    rintro (length | absent)
    · exact length rfl
    · exact present absent
  unfold rtcWrite
  rw [if_neg fits]

/-- For a rate the rate code is joined to the upper half of register A. -/
theorem reg_rtcSetFreq (c : Cmos) (junk : UInt8) {e : Nat} (low : 1 ≤ e) (high : e ≤ 10) :
    (c.rtcSetFreq junk (2 ^ e)).reg 0x0A = 0xF0 &&& c.reg 0x0A ||| UInt8.ofNat (16 - e) := by
  unfold Cmos.rtcSetFreq
  dsimp only
  rw [if_neg (Cmos.pow_accepted high), Cmos.rate_pow junk low high]
  exact Function.update_self (0x0A : UInt8) _ c.reg

/-- The outcome of a request does not depend on the stack: a rate is accepted and stored in
the lower half of register A, and any other request is refused and leaves the register. -/
def AnswersRequest (k : Kernel) (buf : Nat) (freq : Int32) : Prop :=
  ∀ junk : UInt8,
    (SupportedRate freq →
      (k.rtcWrite junk buf freq.toInt 4).1 = 4 ∧
        (k.rtcWrite junk buf freq.toInt 4).2.cmos.reg 0x0A &&& 0xF0 = k.cmos.reg 0x0A &&& 0xF0 ∧
        RateCodeFor ((k.rtcWrite junk buf freq.toInt 4).2.cmos.reg 0x0A &&& 0x0F) freq) ∧
    (¬ SupportedRate freq →
      (k.rtcWrite junk buf freq.toInt 4).1 = -1 ∧
        (k.rtcWrite junk buf freq.toInt 4).2.cmos.reg 0x0A = k.cmos.reg 0x0A)

/-- A request is answered as it should be if and only if it is for a power of two between 2
and 1024. -/
theorem answersRequest_iff (k : Kernel) (buf : Nat) (freq : Int32) (present : buf ≠ 0) :
    k.AnswersRequest buf freq ↔ SupportedRate freq := by
  constructor
  · intro answers
    by_contra unsupported
    have refused := ((answers 0).2 unsupported).1
    rw [rtcWrite_eq present] at refused
    have four : (4 : Int) = -1 := refused
    exact absurd four (by decide)
  · intro supported junk
    constructor
    · intro _
      rcases supported with ⟨e, low, high, power⟩
      rcases Cmos.code_halves low high with ⟨upper, lower⟩
      have halves := Cmos.joined_halves (k.cmos.reg 0x0A) upper lower
      rw [rtcWrite_eq present, power]
      dsimp only
      rw [reg_rtcSetFreq k.cmos junk low high, halves.1, halves.2]
      exact ⟨rfl, rfl, rateCodeFor_pow low high power⟩
    · exact fun unsupported => absurd supported unsupported

theorem answersRequest_sample : (default : Kernel).AnswersRequest 0x8048000 1024 :=
  (answersRequest_iff default 0x8048000 1024 (by decide)).mpr ⟨10, by decide, by decide, rfl⟩

theorem not_supportedRate_17 : ¬ SupportedRate 17 := by
  rintro ⟨e, low, high, power⟩
  have seventeen : (17 : Int32).toInt = 17 := rfl
  rw [seventeen] at power
  interval_cases e <;> exact absurd power (by decide)

/-- The request for 17 Hz, which `rtc_writefreq_test` makes: it is reported as a success, and
register A gets whatever the stack held. -/
theorem accepts_17 :
    ¬ (default : Kernel).AnswersRequest 0x8048000 17 ∧
      ∀ junk : UInt8, ((default : Kernel).rtcWrite junk 0x8048000 17 4).1 = 4 ∧
        ((default : Kernel).rtcWrite junk 0x8048000 17 4).2.cmos.reg 0x0A = junk := by
  constructor
  · intro answers
    have refused := ((answers 0).2 not_supportedRate_17).1
    exact absurd refused (by decide)
  · intro junk
    refine ⟨rfl, ?_⟩
    exact UInt8.zero_or

end Kernel

end Ece391Os
