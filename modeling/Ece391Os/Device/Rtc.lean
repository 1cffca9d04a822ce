import Ece391Os.Kernel.State

/-!
# The real-time clock

`rtc.c` over the CMOS ports: a write to `RTC_PORT` latches a register index and
`CMOS_PORT` accesses the register of that index.
-/

namespace Ece391Os

namespace Cmos

/-- `outb(index, RTC_PORT)`. -/
def select (c : Cmos) (index : UInt8) : Cmos :=
  { c with index := index }

/-- `outb(data, CMOS_PORT)`. -/
def write (c : Cmos) (data : UInt8) : Cmos :=
  { c with reg := Function.update c.reg c.index data }

/-- The assignments to `rate` in `rtc_set_freq`; `junk` is its uninitialized value. -/
def rate (junk : UInt8) (freq : Int) : UInt8 :=
  if freq = 1024 then 0x06
  else if freq = 512 then 0x07
  else if freq = 256 then 0x08
  else if freq = 128 then 0x09
  else if freq = 64 then 0x0A
  else if freq = 32 then 0x0B
  else if freq = 16 then 0x0C
  else if freq = 8 then 0x0D
  else if freq = 4 then 0x0E
  else if freq = 2 then 0x0F
  else junk

/-- `rtc_set_freq(freq)`. -/
def rtcSetFreq (c : Cmos) (junk : UInt8) (freq : Int) : Cmos :=
  let c := c.select 0x0A
  let aOld := c.reg c.index
  if freq = 8192 ∨ freq = 4096 ∨ freq = 2048 then
    c
  else
    (c.select 0x0A).write (0xF0 &&& aOld ||| rate junk freq)

end Cmos

namespace Kernel

/-- The body of `rtc_open` and of `rtc_close`, which both return 0. -/
def rtcReset (k : Kernel) : Kernel :=
  { k with cmos := k.cmos.rtcSetFreq 0 2 }

/-- `rtc_write(fd, buf, nbytes)`, with the word at `buf`. -/
def rtcWrite (k : Kernel) (junk : UInt8) (buf : Nat) (word : Int) (nbytes : Int) : Int × Kernel :=
  if nbytes ≠ 4 ∨ buf = 0 then
    (-1, k)
  else
    (nbytes, { k with cmos := k.cmos.rtcSetFreq junk word })

/-- `rtc_interrupt_handler()`. -/
def rtcInterruptHandler (k : Kernel) : Kernel :=
  { k with
    rtcInterruptOccurred := fun _ => true
    cmos := k.cmos.select 0x0C }

end Kernel

end Ece391Os
