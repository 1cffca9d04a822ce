import Mathlib.Algebra.Order.Ring.Int

/-!
# Page walks of the 80386

The translation of an address through a page directory and a page table of 32-bit entries,
with 4MB pages.  An entry is a base address in its high bits and attributes in its low
twelve.
-/

namespace Ece391Os.X86

/-- Physical memory by words, at addresses divisible by four. -/
abbrev Words := Nat → UInt32

/-- An access: from a user program or from the kernel, a read or a write. -/
structure Access where
  user : Bool
  write : Bool

namespace Entry

/-- An attribute bit of an entry. -/
def bit (entry : UInt32) (i : Nat) : Bool :=
  entry.toNat.testBit i

/-- The address of the 4KB page or of the page table in an entry. -/
def page4KB (entry : UInt32) : Nat :=
  entry.toNat / 0x1000 * 0x1000

/-- The address of the 4MB page in an entry. -/
def page4MB (entry : UInt32) : Nat :=
  entry.toNat / 0x400000 * 0x400000

/-- The present bit is set, for a user program the user bit too, and for a write by a user
program the write bit.  The kernel writes whatever the write bit is. -/
def allows (entry : UInt32) (access : Access) : Bool :=
  bit entry 0 && (!access.user || bit entry 2) && (!(access.user && access.write) || bit entry 1)

end Entry

/-- The physical address that an access reaches, through the page directory at `cr3`. -/
def walk (memory : Words) (cr3 : Nat) (access : Access) (addr : UInt32) : Option Nat :=
  let directory := memory (cr3 + 4 * (addr.toNat / 0x400000))
  if !Entry.allows directory access then
    none
  else if Entry.bit directory 7 then
    some (Entry.page4MB directory + addr.toNat % 0x400000)
  else
    let table := memory (Entry.page4KB directory + 4 * (addr.toNat / 0x1000 % 1024))
    if Entry.allows table access then
      some (Entry.page4KB table + addr.toNat % 0x1000)
    else
      none

namespace Entry

variable {base attributes : UInt32}

/-- A base address and attributes do not overlap. -/
theorem toNat_or (aligned : base.toNat % 0x1000 = 0) (small : attributes.toNat < 0x1000) :
    (base ||| attributes).toNat = base.toNat + attributes.toNat := by
  have split : base.toNat = 2 ^ 12 * (base.toNat / 0x1000) := by omega
  rw [UInt32.toNat_or, split]
  exact (Nat.two_pow_add_eq_or_of_lt (i := 12) small _).symm

/-- The attributes of an entry are the low bits. -/
theorem bit_or (aligned : base.toNat % 0x1000 = 0) {i : Nat} (low : i < 12) :
    bit (base ||| attributes) i = bit attributes i := by
  have clear : base.toNat.testBit i = false := by
    have masked := Nat.testBit_mod_two_pow base.toNat 12 i
    have aligned' : base.toNat % 2 ^ 12 = 0 := aligned
    rw [aligned', Nat.zero_testBit, decide_eq_true low, Bool.true_and] at masked
    exact masked.symm
  rw [bit, UInt32.toNat_or, Nat.testBit_or, clear, Bool.false_or]
  rfl

theorem allows_or (aligned : base.toNat % 0x1000 = 0) (access : Access) :
    allows (base ||| attributes) access = allows attributes access := by
  simp only [allows, bit_or aligned (by decide : 0 < 12), bit_or aligned (by decide : 1 < 12),
    bit_or aligned (by decide : 2 < 12)]

/-- The base address of an entry is what is above its attributes. -/
theorem page4KB_or (aligned : base.toNat % 0x1000 = 0) (small : attributes.toNat < 0x1000) :
    page4KB (base ||| attributes) = base.toNat := by
  rw [page4KB, toNat_or aligned small]
  omega

theorem page4MB_or (aligned : base.toNat % 0x400000 = 0) (small : attributes.toNat < 0x1000) :
    page4MB (base ||| attributes) = base.toNat := by
  rw [page4MB, toNat_or (by omega) small]
  omega

end Entry

end Ece391Os.X86
