import Ece391Os.Fish.Lights

/-!
# Runs of `fish`

Sequences of calls of the four operations of `mp1_ioctl` and of `mp1_rtc_tasklet`, from the
empty list on.
-/

namespace Ece391Os.Fish

open Memory Transition

/-- A call, with what its argument is or points to. -/
inductive Call where
  | add (user : Light)
  | remove (arg : UInt32)
  | find (location : UInt16)
  | sync (arg : UInt32)
  | tick
  deriving DecidableEq

/-- What a call returns, and the structure that it stores. -/
abbrev Reply := UInt32 × Option Light

/-- One call. -/
def call (bound : Nat) (f : Fish) : Call → Option (Fish × Reply)
  | .add user =>
      let (f, code) := mp1IoctlAdd user f
      some (f, code, none)
  | .remove arg => (mp1IoctlRemove bound arg f).map fun (f, code) => (f, code, none)
  | .find location => (mp1IoctlFind bound location f).map fun (light, code) => (f, code, light)
  | .sync arg => (mp1IoctlSync bound arg f).map fun (f, code) => (f, code, none)
  | .tick => (mp1RtcTasklet bound f).map fun f => (f, 0, none)

/-- One call after the other. -/
def runCalls (bound : Nat) : Fish → List Call → Option (Fish × List Reply)
  | f, [] => some (f, [])
  | f, c :: calls =>
      (call bound f c).bind fun (f, reply) =>
        (runCalls bound f calls).map fun (f, replies) => (f, reply :: replies)

/-- The memory of `fish` when `main` has cleared the array, over some screen. -/
def empty (video : UInt32 → UInt8) : Fish where
  blinkArray := fun _ => .zero
  mp1ListHead := none
  video := video

namespace Lights

/-- What a call means for the list of lights. -/
def call (s : Lights) : Call → Lights × Reply
  | .add user => ((s.add user).1, (s.add user).2, none)
  | .remove arg => ((s.remove arg.toUInt16).1, (s.remove arg.toUInt16).2, none)
  | .find location => (s, (s.find location).2, (s.find location).1)
  | .sync arg =>
      let (s, code) := s.sync (arg >>> 16).toUInt16 (arg &&& 0xFFFF).toUInt16
      (s, code, none)
  | .tick => (s.tick, 0, none)

def runCalls : Lights → List Call → Lights × List Reply
  | s, [] => (s, [])
  | s, c :: calls =>
      let (s, reply) := s.call c
      let (s, replies) := s.runCalls calls
      (s, reply :: replies)

end Lights

/-- A call adds no structure with the location 0. -/
def Nonzero : Call → Prop
  | .add user => user.location ≠ 0
  | _ => True

instance : DecidablePred Nonzero
  | .add user => inferInstanceAs (Decidable (user.location ≠ 0))
  | .remove _ | .find _ | .sync _ | .tick => isTrue trivial

variable {f : Fish} {is : List Slot} {s : Lights}

theorem represents_empty (video : UInt32 → UInt8) :
    Represents (empty video) [] { lights := [], video := video } where
  video := rfl
  linked := .nil
  lights := rfl
  used := by
    intro i
    simp [empty, Blink.zero]

/-- A call on memory that holds a list of lights is the call on the list. -/
theorem Represents.call (rep : Represents f is s) {c : Call} (nonzero : Nonzero c) :
    ∃ final is, Returns (fun bound => Fish.call bound f c) (final, (s.call c).2) ∧
      Represents final is (s.call c).1 := by
  cases c with
  | add user =>
      rcases rep.add nonzero with ⟨⟨is, rep⟩, code⟩
      refine ⟨_, is, ?_, rep⟩
      rw [Lights.call, ← code]
      exact .pure _
  | remove arg =>
      rcases rep.remove arg with ⟨final, is, returns, rep⟩
      exact ⟨final, is, returns.map, rep⟩
  | find location => exact ⟨f, is, (rep.find location).map, rep⟩
  | sync arg =>
      rcases rep.sync arg with ⟨final, is, returns, rep⟩
      exact ⟨final, is, returns.map, rep⟩
  | tick =>
      rcases rep.tick with ⟨final, returns, rep⟩
      exact ⟨final, is, returns.map, rep⟩

theorem Represents.runCalls (rep : Represents f is s) {calls : List Call}
    (nonzero : ∀ c ∈ calls, Nonzero c) :
    ∃ final is, Returns (fun bound => Fish.runCalls bound f calls)
        (final, (s.runCalls calls).2) ∧
      Represents final is (s.runCalls calls).1 := by
  induction calls generalizing f is s with
  | nil => exact ⟨f, is, .pure _, rep⟩
  | cons c calls ih =>
      rcases rep.call (nonzero c List.mem_cons_self) with ⟨next, others, called, later⟩
      rcases ih later fun c inside => nonzero c (List.mem_cons_of_mem _ inside) with
        ⟨final, last, ran, ends⟩
      exact ⟨final, last, called.bind ran.map, ends⟩

/-- Whatever `fish` calls, as long as it adds no structure with the location 0, every call
returns, and the array and the pointers hold the list of lights that the calls mean. -/
theorem lists_lights (video : UInt32 → UInt8) {calls : List Call}
    (nonzero : ∀ c ∈ calls, Nonzero c) :
    ∃ final is, Returns (fun bound => Fish.runCalls bound (empty video) calls)
        (final, (Lights.runCalls { lights := [], video := video } calls).2) ∧
      Represents final is (Lights.runCalls { lights := [], video := video } calls).1 :=
  (represents_empty video).runCalls nonzero

/-- The light of the later call is in front, and the first one at a location is changed. -/
theorem lists_lights_sample :
    let user : Light :=
      { location := 540, onChar := 0x49, offChar := 0x4D, onLength := 7, offLength := 6,
        countdown := 0, status := 0 }
    let other : Light := { user with location := 541, onLength := 1 }
    let calls : List Call :=
      [.add user, .add other, .tick, .sync (540 * 2 ^ 16 + 541), .find 541, .remove 540,
        .remove 540, .add { user with location := 2000 }]
    let light : Light := { other with onLength := 7, countdown := 6, status := 1 }
    ∃ final is, Returns (fun bound => Fish.runCalls bound (empty fun _ => 0) calls)
        (final, [(0, none), (0, none), (0, none), (0, none), (0, some light), (0, none),
          (-1, none), (-1, none)]) ∧
      Represents final is { lights := [light], video := final.video } := by
  intro user other calls light
  let s : Lights := { lights := [], video := fun _ => 0 }
  have replies : (s.runCalls calls).2 = [(0, none), (0, none), (0, none), (0, none),
      (0, some light), (0, none), (-1, none), (-1, none)] := by decide
  have lights : (s.runCalls calls).1.lights = [light] := by decide
  rcases @lists_lights (fun _ => 0) calls (by decide) with ⟨final, is, returns, rep⟩
  rw [← replies, ← lights]
  refine ⟨final, is, returns, ?_⟩
  rw [rep.video]
  exact rep

/-! ## The location 0 -/

/-- The tasklet goes round where a structure points to itself. -/
theorem tasklet_diverges {i : Slot} (head : f.mp1ListHead = some i) (loop : f.next i = some i)
    (bound : Nat) : mp1RtcTasklet bound f = none := by
  have rounds : ∀ (bound : Nat) (f : Fish), f.next i = some i →
      whileLoop (fun cursor : Option Slot × Fish => cursor.1.isSome) (LinkedList.round next visit)
        bound (some i, f) = none := by
    intro bound
    induction bound with
    | zero => exact fun _ _ => rfl
    | succ bound ih =>
        intro f loop
        have same : (visit i f).next i = some i :=
          (congrFun (Represents.next_visit i f) i).trans loop
        have later := ih (visit i f) same
        have round : LinkedList.round next visit (some i, f) = (some i, visit i f) :=
          congrArg (·, visit i f) same
        rw [whileLoop]
        simpa [round] using later
  rw [mp1RtcTasklet, head, rounds bound f loop]
  rfl

/-- After a structure with the location 0 is added, and then any other, the tasklet never
returns: the second one takes the slot of the first, and points to itself. -/
theorem zero_diverges (rep : Represents f is s) (room : s.lights.length ≠ slots)
    {zero other : Light} (atZero : zero.location = 0) (inside : other.location < 80 * 25)
    (bound : Nat) : Fish.runCalls bound f [.add zero, .add other, .tick] = none := by
  have zeroInside : ¬ 80 * 25 ≤ zero.location := by
    rw [atZero]
    decide
  have otherInside : ¬ 80 * 25 ≤ other.location := UInt16.not_le.mpr inside
  rcases free : f.mp1Malloc with _ | i
  · exact absurd (rep.malloc_none.mp free) room
  have wasFree : (f.blinkArray i).location = 0 := by simpa using List.find?_some free
  -- The slot that the first structure took is the first free one again.
  have again : ∀ first : Fish, first.blinkArray = Function.update f.blinkArray i
      { zero.started with next := f.mp1ListHead } → first.mp1Malloc = some i := by
    intro first taken
    have locations : ∀ j, (first.blinkArray j).location = (f.blinkArray j).location := by
      intro j
      by_cases same : j = i
      · have location : zero.started.location = 0 := atZero
        rw [taken, same, Function.update_self, wasFree]
        exact location
      · rw [taken, Function.update_of_ne same]
    rw [← free]
    simp only [mp1Malloc, locations]
  simp only [Fish.runCalls, Fish.call, mp1IoctlAdd, if_neg zeroInside, free, Option.bind_some]
  rw [if_neg otherInside, again _ rfl]
  dsimp only
  rw [tasklet_diverges rfl (by simp [next])]
  rfl

/-- It is so on the empty list. -/
theorem zero_diverges_sample :
    let zero : Light :=
      { location := 0, onChar := 0x49, offChar := 0x4D, onLength := 7, offLength := 6,
        countdown := 0, status := 0 }
    (fun bound => Fish.runCalls bound (empty fun _ => 0)
      [.add zero, .add { zero with location := 540 }, .tick]) = fun _ => none := by
  intro zero
  exact funext fun bound =>
    zero_diverges (represents_empty fun _ => 0) (by decide) rfl (by decide) bound

end Ece391Os.Fish
