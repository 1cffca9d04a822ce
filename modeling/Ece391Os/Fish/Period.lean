import Ece391Os.Fish.Calls

/-!
# The period of a light

What a light displays after any number of ticks, whatever calls for other locations are made
between them.
-/

namespace Ece391Os.Fish

open Memory Transition

namespace Light

/-- The ticks after which a light is as it was. -/
def period (user : Light) : Nat :=
  user.onLength.toNat + user.offLength.toNat

/-- A started light some ticks into its period. -/
def inPeriod (user : Light) (passed : Nat) : Light :=
  if passed < user.onLength.toNat then
    { user with status := 1, countdown := .ofNat (user.onLength.toNat - passed) }
  else
    { user with status := 0, countdown := .ofNat (user.period - passed) }

/-- The character of a light some ticks into its period. -/
def character (user : Light) (passed : Nat) : UInt8 :=
  if passed < user.onLength.toNat then user.onChar else user.offChar

/-- The lengths of a light are positive as signed numbers. -/
structure Blinks (user : Light) : Prop where
  on : 0 < user.onLength.toNat
  onSigned : user.onLength.toNat < 2 ^ 15
  off : 0 < user.offLength.toNat
  offSigned : user.offLength.toNat < 2 ^ 15

instance (user : Light) : Decidable user.Blinks :=
  decidable_of_iff (0 < user.onLength.toNat ∧ user.onLength.toNat < 2 ^ 15 ∧
      0 < user.offLength.toNat ∧ user.offLength.toNat < 2 ^ 15)
    ⟨fun ⟨on, onSigned, off, offSigned⟩ => ⟨on, onSigned, off, offSigned⟩,
      fun ⟨on, onSigned, off, offSigned⟩ => ⟨on, onSigned, off, offSigned⟩⟩

variable {user : Light}

theorem countdown_pred {count : Nat} (positive : 0 < count) :
    UInt16.ofNat count - 1 = UInt16.ofNat (count - 1) := by
  rw [UInt16.ofNat_sub positive]
  rfl

/-- A light is due where its count is one. -/
theorem due_eq {l : Light} {count : Nat} (counts : l.countdown = .ofNat count)
    (positive : 0 < count) (signed : count < 2 ^ 15) : l.due = decide (count = 1) := by
  have small : count - 1 < 2 ^ 16 := by omega
  rw [due, counts, countdown_pred positive, UInt16.toNat_ofNat_of_lt' small]
  by_cases last : count = 1
  · simp [last]
  · have more : 0 < count - 1 ∧ count - 1 < 2 ^ 15 := by omega
    rw [decide_eq_true more.1, decide_eq_true more.2, decide_eq_false last]
    rfl

theorem inPeriod_lit {passed : Nat} (lit : passed < user.onLength.toNat) :
    user.inPeriod passed =
      { user with status := 1, countdown := .ofNat (user.onLength.toNat - passed) } :=
  if_pos lit

theorem inPeriod_dark {passed : Nat} (dark : ¬ passed < user.onLength.toNat) :
    user.inPeriod passed =
      { user with status := 0, countdown := .ofNat (user.period - passed) } :=
  if_neg dark

theorem inPeriod_zero (blinks : user.Blinks) : user.inPeriod 0 = user.started := by
  rw [inPeriod_lit blinks.on, Nat.sub_zero, UInt16.ofNat_toNat]
  rfl

/-- A light is due at the end of each part of its period. -/
theorem due_inPeriod (blinks : user.Blinks) {passed : Nat} (below : passed < user.period) :
    (user.inPeriod passed).due =
      decide (passed + 1 = user.onLength.toNat ∨ passed + 1 = user.period) := by
  have ⟨on, onSigned, off, offSigned⟩ := blinks
  have whole : user.period = user.onLength.toNat + user.offLength.toNat := rfl
  by_cases lit : passed < user.onLength.toNat
  · rw [inPeriod_lit lit, due_eq rfl (by omega) (by omega), decide_eq_decide]
    omega
  · rw [inPeriod_dark lit, due_eq rfl (by omega) (by omega), decide_eq_decide]
    omega

/-- A tick of a light goes on in its period. -/
theorem tick_inPeriod (blinks : user.Blinks) {passed : Nat} (below : passed < user.period) :
    (user.inPeriod passed).tick = user.inPeriod ((passed + 1) % user.period) := by
  have whole : user.period = user.onLength.toNat + user.offLength.toNat := rfl
  have off := blinks.off
  rw [tick, due_inPeriod blinks below]
  by_cases turns : passed + 1 = user.onLength.toNat
  · have lit : passed < user.onLength.toNat := by omega
    have dark : ¬ passed + 1 < user.onLength.toNat := by omega
    have length : user.period - (passed + 1) = user.offLength.toNat := by omega
    rw [if_pos (decide_eq_true (.inl turns)), Nat.mod_eq_of_lt (by omega), inPeriod_lit lit,
      inPeriod_dark dark, length, UInt16.ofNat_toNat]
    simp
  by_cases wraps : passed + 1 = user.period
  · have dark : ¬ passed < user.onLength.toNat := by omega
    rw [if_pos (decide_eq_true (.inr wraps)), wraps, Nat.mod_self, inPeriod_zero blinks,
      inPeriod_dark dark]
    simp [started]
  rw [if_neg (by simp [turns, wraps]), Nat.mod_eq_of_lt (by omega)]
  by_cases lit : passed < user.onLength.toNat
  · rw [inPeriod_lit lit, inPeriod_lit (by omega), countdown_pred (by omega), Nat.sub_sub]
  · rw [inPeriod_dark lit, inPeriod_dark (by omega), countdown_pred (by omega), Nat.sub_sub]

/-- A tick of a light displays the character of its new state. -/
theorem display_inPeriod (blinks : user.Blinks) {passed : Nat} (below : passed < user.period)
    {video : UInt32 → UInt8} (shows : video user.offset = user.character passed) :
    (user.inPeriod passed).display video user.offset =
      user.character ((passed + 1) % user.period) := by
  have whole : user.period = user.onLength.toNat + user.offLength.toNat := rfl
  have off := blinks.off
  have offset : (user.inPeriod passed).offset = user.offset := by
    rw [inPeriod]
    split <;> rfl
  rw [display, due_inPeriod blinks below, offset]
  by_cases turns : passed + 1 = user.onLength.toNat
  · have lit : passed < user.onLength.toNat := by omega
    have dark : ¬ passed + 1 < user.onLength.toNat := by omega
    rw [if_pos (decide_eq_true (.inl turns)), Nat.mod_eq_of_lt (by omega), inPeriod_lit lit,
      character, if_neg dark]
    simp [mp1Poke]
  by_cases wraps : passed + 1 = user.period
  · have dark : ¬ passed < user.onLength.toNat := by omega
    rw [if_pos (decide_eq_true (.inr wraps)), wraps, Nat.mod_self, inPeriod_dark dark,
      character, if_pos blinks.on]
    simp [mp1Poke]
  rw [if_neg (by simp [turns, wraps]), Nat.mod_eq_of_lt (by omega), shows, character, character]
  have same : passed + 1 < user.onLength.toNat ↔ passed < user.onLength.toNat := by omega
  simp only [same]

theorem location_tick (l : Light) : l.tick.location = l.location := by
  rw [tick]
  split <;> rfl

/-- Lights at two locations are displayed at two offsets. -/
theorem offset_ne {first second : Light} (apart : first.location ≠ second.location) :
    first.offset ≠ second.offset := by
  intro same
  refine apart (UInt16.toNat_inj.mp ?_)
  have numbers := congrArg UInt32.toNat same
  have below := first.location.toNat_lt
  have others := second.location.toNat_lt
  simp only [offset, UInt32.toNat_shiftLeft, UInt16.toNat_toUInt32] at numbers
  simp only [show UInt32.toNat 1 % 32 = 1 from rfl, Nat.shiftLeft_eq] at numbers
  omega

theorem display_apart {l user : Light} (apart : l.location ≠ user.location)
    (video : UInt32 → UInt8) : l.display video user.offset = video user.offset := by
  rw [display]
  split
  · exact Function.update_of_ne (offset_ne apart).symm _ _
  · rfl

end Light

/-! ## Calls for other locations -/

/-- A call that adds no structure with the location 0, and nothing at a location, and removes or
changes nothing there. -/
def Elsewhere (location : UInt16) : Call → Prop
  | .add other => other.location ≠ 0 ∧ other.location ≠ location
  | .remove arg => arg.toUInt16 ≠ location
  | .sync arg => (arg &&& 0xFFFF).toUInt16 ≠ location
  | .find _ | .tick => True

instance (location : UInt16) : DecidablePred (Elsewhere location)
  | .add other => inferInstanceAs (Decidable (other.location ≠ 0 ∧ other.location ≠ location))
  | .remove arg => inferInstanceAs (Decidable (arg.toUInt16 ≠ location))
  | .sync arg => inferInstanceAs (Decidable ((arg &&& 0xFFFF).toUInt16 ≠ location))
  | .find _ | .tick => isTrue trivial

theorem Elsewhere.nonzero {location : UInt16} {c : Call} (elsewhere : Elsewhere location c) :
    Nonzero c := by
  cases c with
  | add other => exact elsewhere.1
  | remove _ | sync _ | find _ | tick => trivial

/-- One light of a list is some ticks into its period, and displayed. -/
structure Blinking (user : Light) (passed : Nat) (s : Lights) : Prop where
  only : (s.lights.filter fun l => l.location == user.location) = [user.inPeriod passed]
  shows : s.video user.offset = user.character passed

theorem filter_eraseP {α : Type} {p q : α → Bool} (apart : ∀ a, p a = true → q a = false)
    (as : List α) : (as.eraseP p).filter q = as.filter q := by
  rcases List.exists_or_eq_self_of_eraseP p as with same | ⟨a, before, after, _, hit, whole, erased⟩
  · rw [same]
  · rw [erased, whole, List.filter_append, List.filter_append, List.filter_cons_of_neg]
    simpa using apart a hit

theorem filter_replaceF {α : Type} {p : α → Option α} {q : α → Bool}
    (apart : ∀ a b, p a = some b → q a = false ∧ q b = false) (as : List α) :
    (as.replaceF p).filter q = as.filter q := by
  rcases List.exists_or_eq_self_of_replaceF p as with
    same | ⟨a, b, before, after, _, hit, whole, replaced⟩
  · rw [same]
  · have ⟨old, new⟩ := apart a b hit
    rw [replaced, whole, List.filter_append, List.filter_append,
      List.filter_cons_of_neg (by simpa using new), List.filter_cons_of_neg (by simpa using old)]

/-- The ticks into a period after a call. -/
def passedAfter (user : Light) (passed : Nat) : Call → Nat
  | .tick => (passed + 1) % user.period
  | .add _ | .remove _ | .find _ | .sync _ => passed

namespace Blinking

variable {user : Light} {passed : Nat} {s : Lights}

/-- The light is displayed by a tick, and the others are elsewhere. -/
theorem foldl_display (blinks : user.Blinks) (below : passed < user.period)
    {lights : List Light} {video : UInt32 → UInt8}
    (only : (lights.filter fun l => l.location == user.location) = [user.inPeriod passed])
    (shows : video user.offset = user.character passed) :
    lights.foldl Light.display video user.offset =
      user.character ((passed + 1) % user.period) := by
  have others : ∀ (lights : List Light) (video : UInt32 → UInt8),
      (∀ l ∈ lights, l.location ≠ user.location) →
      lights.foldl Light.display video user.offset = video user.offset := by
    intro lights
    induction lights with
    | nil => exact fun _ _ => rfl
    | cons l lights ih =>
        intro video apart
        rw [List.foldl_cons, ih _ fun m inside => apart m (List.mem_cons_of_mem _ inside)]
        exact Light.display_apart (apart l List.mem_cons_self) video
  rcases List.filter_eq_cons_iff.mp only with ⟨before, after, rfl, missed, _, rest⟩
  rw [List.foldl_append, List.foldl_cons, others after]
  · refine Light.display_inPeriod blinks below ?_
    rw [others before video, shows]
    intro l inside
    simpa using missed l inside
  · intro l inside
    have apart := List.filter_eq_nil_iff.mp rest l inside
    simpa using apart

/-- A call for another location leaves the light in its period. -/
theorem call (blinking : Blinking user passed s) (blinks : user.Blinks)
    (below : passed < user.period) {c : Call} (elsewhere : Elsewhere user.location c) :
    Blinking user (passedAfter user passed c) (s.call c).1 := by
  rcases blinking with ⟨only, shows⟩
  cases c with
  | find location => exact ⟨only, shows⟩
  | add other =>
      simp only [Lights.call, Lights.add, passedAfter]
      split
      · exact ⟨only, shows⟩
      · have apart : other.started.location ≠ user.location := elsewhere.2
        refine ⟨?_, ?_⟩
        · rw [List.filter_cons_of_neg (by simpa using apart)]
          exact only
        · exact (Function.update_of_ne (Light.offset_ne apart).symm _ _).trans shows
  | remove arg =>
      simp only [Lights.call, Lights.remove, passedAfter]
      split
      · exact ⟨only, shows⟩
      · refine ⟨?_, shows⟩
        refine (filter_eraseP ?_ s.lights).trans only
        intro l hit
        have apart : arg.toUInt16 ≠ user.location := elsewhere
        rw [beq_iff_eq] at hit
        rw [hit]
        simpa using apart
  | sync arg =>
      simp only [Lights.call, Lights.sync, passedAfter]
      split
      case h_2 => exact ⟨only, shows⟩
      case h_1 one other _ found =>
        have target : other.location = (arg &&& 0xFFFF).toUInt16 := by
          simpa using List.find?_some found
        have apart : other.location ≠ user.location := by
          rw [target]
          exact elsewhere
        refine ⟨?_, ?_⟩
        · refine (filter_replaceF ?_ s.lights).trans only
          intro old new replaces
          split at replaces
          case isFalse => cases replaces
          case isTrue hit =>
            cases replaces
            rw [beq_iff_eq] at hit
            have same : (one.copyFrom old).location = old.location := rfl
            rw [same, hit, ← target]
            simpa using apart
        · exact (Function.update_of_ne (Light.offset_ne apart).symm _ _).trans shows
  | tick =>
      refine ⟨?_, foldl_display blinks below only shows⟩
      have locations : ((fun l : Light => l.location == user.location) ∘ Light.tick) =
          fun l => l.location == user.location := by
        funext l
        simp only [Function.comp_apply, Light.location_tick]
      rw [Lights.call, Lights.tick, List.filter_map, locations, only, List.map_singleton,
        Light.tick_inPeriod blinks below]
      rfl

theorem runCalls (blinking : Blinking user passed s) (blinks : user.Blinks)
    (below : passed < user.period) {calls : List Call}
    (elsewhere : ∀ c ∈ calls, Elsewhere user.location c) :
    Blinking user ((passed + calls.count .tick) % user.period) (s.runCalls calls).1 := by
  induction calls generalizing passed s with
  | nil =>
      rw [List.count_nil, Nat.add_zero, Nat.mod_eq_of_lt below]
      exact blinking
  | cons c calls ih =>
      have called := blinking.call blinks below (elsewhere c List.mem_cons_self)
      have inside : passedAfter user passed c < user.period := by
        cases c with
        | tick => exact Nat.mod_lt _ (Nat.lt_of_le_of_lt (Nat.zero_le passed) below)
        | add _ | remove _ | find _ | sync _ => exact below
      have ran := ih called inside fun d member => elsewhere d (List.mem_cons_of_mem _ member)
      have ticks : (passedAfter user passed c + calls.count .tick) % user.period =
          (passed + (c :: calls).count .tick) % user.period := by
        cases c with
        | tick =>
            rw [passedAfter, List.count_cons_self, Nat.mod_add_mod, Nat.add_assoc,
              Nat.add_comm 1]
        | add _ | remove _ | find _ | sync _ =>
            rw [passedAfter, List.count_cons_of_ne (by simp)]
      rw [← ticks]
      exact ran

end Blinking

variable {f : Fish} {is : List Slot} {s : Lights}

/-- A light that is added where none is blinks: after any calls for other locations, it is as
many ticks into its period as there were ticks, and its character is displayed so. -/
theorem blinks (rep : Represents f is s) {user : Light} (lengths : user.Blinks)
    (nonzero : user.location ≠ 0) (inside : user.location < 80 * 25)
    (room : s.lights.length ≠ slots) (alone : ∀ l ∈ s.lights, l.location ≠ user.location)
    {calls : List Call} (elsewhere : ∀ c ∈ calls, Elsewhere user.location c) :
    ∃ final replies, Returns (fun bound => Fish.runCalls bound f (.add user :: calls))
        (final, replies) ∧
      final.video user.offset = user.character (calls.count .tick % user.period) ∧
      Returns (fun bound => mp1IoctlFind bound user.location final)
        (some (user.inPeriod (calls.count .tick % user.period)), 0) := by
  have nonzeros : ∀ c ∈ Call.add user :: calls, Nonzero c :=
    List.forall_mem_cons.mpr ⟨nonzero, fun c member => (elsewhere c member).nonzero⟩
  rcases rep.runCalls nonzeros with ⟨final, last, ran, ends⟩
  refine ⟨final, _, ran, ?_⟩
  have added : (s.call (.add user)).1 =
      { lights := user.started :: s.lights
        video := mp1Poke user.started.offset user.started.onChar s.video } := by
    rw [Lights.call, Lights.add, if_neg]
    rw [not_or]
    exact ⟨UInt16.not_le.mpr inside, room⟩
  have starts : Blinking user 0 (s.call (.add user)).1 := by
    rw [added]
    refine ⟨?_, ?_⟩
    · have others : (s.lights.filter fun l => l.location == user.location) = [] := by
        rw [List.filter_eq_nil_iff]
        intro l member
        simpa using alone l member
      rw [Light.inPeriod_zero lengths, List.filter_cons_of_pos, others]
      exact beq_self_eq_true _
    · rw [Light.character, if_pos lengths.on]
      exact Function.update_self _ _ _
  have later := starts.runCalls lengths (Nat.add_pos_left lengths.on _) elsewhere
  rw [Nat.zero_add] at later
  have whole : (s.runCalls (.add user :: calls)).1 = ((s.call (.add user)).1.runCalls calls).1 :=
    rfl
  rw [← whole] at later
  refine ⟨(congrFun ends.video _).trans later.shows, ?_⟩
  have found := ends.find user.location
  rw [Lights.find, ← List.head?_filter] at found
  simpa [later.only] using found

/-- Nine ticks after the light of `main` is added, it is off. -/
theorem blinks_sample :
    let user : Light :=
      { location := 540, onChar := 0x49, offChar := 0x4D, onLength := 7, offLength := 6,
        countdown := 0, status := 0 }
    let other : Light := { user with location := 541 }
    let calls : List Call :=
      [.tick, .add other, .sync (540 * 2 ^ 16 + 541), .tick, .remove 541] ++
        List.replicate 7 .tick
    ∃ final replies, Returns (fun bound => Fish.runCalls bound (empty fun _ => 0)
        (.add user :: calls)) (final, replies) ∧
      final.video 1080 = 0x4D ∧
      Returns (fun bound => mp1IoctlFind bound 540 final)
        (some { user with countdown := 4, status := 0 }, 0) := by
  intro user other calls
  exact blinks (represents_empty fun _ => 0) (by decide) (by decide) (by decide) (by decide)
    (fun _ none => nomatch none) (by decide)

end Ece391Os.Fish
