import Ece391Os.Memory.Linked
import Mathlib.Data.List.FinRange
import Mathlib.Data.UInt

/-!
# Blinking characters

The list of blinking characters in the program `fish`: the assembly of `blink.S` with the
allocation of `fish.c`, over the array of structures and the pointers in it.
-/

namespace Ece391Os

open Memory Transition

namespace Fish

/-- The size of `blink_array`. -/
def slots : Nat := 80 * 25

/-- A pointer into `blink_array`. -/
abbrev Slot := Fin slots

/-- `struct mp1_blink_struct` but for its pointer. -/
structure Light where
  location : UInt16
  onChar : UInt8
  offChar : UInt8
  onLength : UInt16
  offLength : UInt16
  countdown : UInt16
  status : UInt16
  deriving DecidableEq

/-- `struct mp1_blink_struct`. -/
structure Blink extends Light where
  next : Option Slot
  deriving DecidableEq

/-- A structure of zeros. -/
def Blink.zero : Blink where
  location := 0
  onChar := 0
  offChar := 0
  onLength := 0
  offLength := 0
  countdown := 0
  status := 0
  next := none

end Fish

/-- The memory of `fish`; `video` is the memory from `vmem_base_addr` on. -/
structure Fish where
  blinkArray : Fish.Slot → Fish.Blink
  mp1ListHead : Option Fish.Slot
  video : UInt32 → UInt8

namespace Fish

/-- `mp1_poke`. -/
def mp1Poke (offset : UInt32) (byte : UInt8) (video : UInt32 → UInt8) : UInt32 → UInt8 :=
  Function.update video offset byte

/-- The offset of a location, `shll $1`. -/
def Light.offset (l : Light) : UInt32 :=
  l.location.toUInt32 <<< 1

/-- `mp1_malloc`: a slot is free where its location is 0. -/
def mp1Malloc (f : Fish) : Option Slot :=
  (List.finRange slots).find? fun i => (f.blinkArray i).location == 0

/-- `mp1_free`. -/
def mp1Free (f : Fish) (i : Slot) : Fish :=
  { f with blinkArray := Function.update f.blinkArray i .zero }

/-- The pointer of a slot. -/
def next (f : Fish) (i : Slot) : Option Slot :=
  (f.blinkArray i).next

/-- `mp1_find_helper`. -/
def mp1FindHelper (bound : Nat) (location : UInt16) (f : Fish) : Option (Option Slot) :=
  whileLoop (fun cursor => cursor.any fun i => !((f.blinkArray i).location == location))
    (fun cursor => cursor.bind f.next) bound f.mp1ListHead

/-- A structure is marked as on. -/
def Light.started (user : Light) : Light :=
  { user with status := 1, countdown := user.onLength }

/-- `mp1_ioctl_add`, with the structure that its argument points to. -/
def mp1IoctlAdd (user : Light) (f : Fish) : Fish × UInt32 :=
  if 80 * 25 ≤ user.location then
    (f, -1)
  else
    let temp := user.started
    match f.mp1Malloc with
    | none => (f, -1)
    | some i =>
        ({ f with
            blinkArray := Function.update f.blinkArray i { temp with next := f.mp1ListHead }
            mp1ListHead := some i
            video := mp1Poke temp.offset temp.onChar f.video }, 0)

/-- Store a pointer in a place: in the head, or in a slot. -/
def store (place pointer : Option Slot) (f : Fish) : Fish :=
  match place with
  | none => { f with mp1ListHead := pointer }
  | some i =>
      let slot := { f.blinkArray i with next := pointer }
      { f with blinkArray := Function.update f.blinkArray i slot }

/-- `mp1_ioctl_remove`. -/
def mp1IoctlRemove (bound : Nat) (arg : UInt32) (f : Fish) : Option (Fish × UInt32) :=
  (mp1FindHelper bound arg.toUInt16 f).bind fun
    | none => some (f, -1)
    | some i =>
        (whileLoop (fun place => decide (LinkedList.deref f.next f.mp1ListHead place ≠ some i))
          (fun place => LinkedList.deref f.next f.mp1ListHead place) bound none).map fun place =>
            (mp1Free (f.store place (f.next i)) i, 0)

/-- The condition of `cmovl` behind `testb $0x1`: the sign flag and the overflow flag, which is
clear, differ. -/
def testbLess (status : UInt16) : Bool :=
  (0x1 &&& status.toUInt8).toNat.testBit 7 != false

/-- The lengths and the state of one structure go to another. -/
def Light.copyFrom (source target : Light) : Light :=
  { target with
    onLength := source.onLength
    offLength := source.offLength
    countdown := source.countdown
    status := source.status }

/-- The character that `mp1_ioctl_sync` displays. -/
def Light.synced (l : Light) : UInt8 :=
  if testbLess l.status then l.onChar else l.offChar

/-- `mp1_ioctl_sync`. -/
def mp1IoctlSync (bound : Nat) (arg : UInt32) (f : Fish) : Option (Fish × UInt32) :=
  (mp1FindHelper bound (arg >>> 16).toUInt16 f).bind fun
    | none => some (f, -1)
    | some source =>
        (mp1FindHelper bound (arg &&& 0xFFFF).toUInt16 f).map fun
          | none => (f, -1)
          | some target =>
              let light := (f.blinkArray source).toLight.copyFrom (f.blinkArray target).toLight
              ({ f with
                  blinkArray :=
                    Function.update f.blinkArray target { light with next := f.next target }
                  video := mp1Poke light.offset light.synced f.video }, 0)

/-- `mp1_ioctl_find`, with the location that its argument points to, and the structure that it
stores there. -/
def mp1IoctlFind (bound : Nat) (location : UInt16) (f : Fish) :
    Option (Option Light × UInt32) :=
  (mp1FindHelper bound location f).map fun
    | none => (none, -1)
    | some i => (some (f.blinkArray i).toLight, 0)

/-- The count goes down to zero or below, as a signed number. -/
def Light.due (l : Light) : Bool :=
  !(0 < (l.countdown - 1).toNat && (l.countdown - 1).toNat < 2 ^ 15)

/-- What a tick makes of a structure. -/
def Light.tick (l : Light) : Light :=
  if l.due then
    { l with
      countdown := if l.status &&& 1 = 0 then l.onLength else l.offLength
      status := l.status ^^^ 1 }
  else
    { l with countdown := l.countdown - 1 }

/-- What a tick displays. -/
def Light.display (video : UInt32 → UInt8) (l : Light) : UInt32 → UInt8 :=
  if l.due then mp1Poke l.offset (if l.status &&& 1 = 0 then l.onChar else l.offChar) video
  else video

/-- A round of `mp1_rtc_tasklet`. -/
def visit (i : Slot) (f : Fish) : Fish :=
  let light := (f.blinkArray i).toLight
  { f with
    blinkArray := Function.update f.blinkArray i { light.tick with next := f.next i }
    video := light.display f.video }

/-- `mp1_rtc_tasklet`. -/
def mp1RtcTasklet (bound : Nat) (f : Fish) : Option Fish :=
  (whileLoop (fun cursor : Option Slot × Fish => cursor.1.isSome) (LinkedList.round next visit)
    bound (f.mp1ListHead, f)).map Prod.snd

end Fish

end Ece391Os
