import Ece391Os.Fish.Blink
import Mathlib.Data.Fintype.Card

/-!
# Lists of lights

What the list of `fish` is for: lights, the last one that was added first, each with its
characters, lengths and state.  The array and the pointers represent such a list as long as no
structure with the location 0 is added, which `mp1_malloc` takes for a free one.
-/

namespace Ece391Os.Fish

open Memory Transition

/-- A list of lights over the screen. -/
structure Lights where
  lights : List Light
  video : UInt32 → UInt8

namespace Lights

/-- Add a light, unless it is outside of the screen or there are as many as the array has. -/
def add (user : Light) (s : Lights) : Lights × UInt32 :=
  if 80 * 25 ≤ user.location ∨ s.lights.length = slots then
    (s, -1)
  else
    ({ lights := user.started :: s.lights
       video := mp1Poke user.started.offset user.started.onChar s.video }, 0)

/-- Remove the first light at a location. -/
def remove (location : UInt16) (s : Lights) : Lights × UInt32 :=
  match s.lights.find? fun l => l.location == location with
  | none => (s, -1)
  | some _ => ({ s with lights := s.lights.eraseP fun l => l.location == location }, 0)

/-- The first light at a location gets the lengths and the state of that at another one.  It is
displayed off, whatever its state. -/
def sync (source target : UInt16) (s : Lights) : Lights × UInt32 :=
  match s.lights.find? (fun l => l.location == source),
      s.lights.find? (fun l => l.location == target) with
  | some one, some other =>
      ({ lights := s.lights.replaceF fun l =>
           if l.location == target then some (one.copyFrom l) else none
         video := mp1Poke other.offset other.offChar s.video }, 0)
  | _, _ => (s, -1)

/-- The first light at a location. -/
def find (location : UInt16) (s : Lights) : Option Light × UInt32 :=
  match s.lights.find? fun l => l.location == location with
  | none => (none, -1)
  | some light => (some light, 0)

/-- A tick of the clock. -/
def tick (s : Lights) : Lights where
  lights := s.lights.map Light.tick
  video := s.lights.foldl Light.display s.video

end Lights

/-- The array and the pointers hold a list of lights, and all other structures are free. -/
structure Represents (f : Fish) (is : List Slot) (s : Lights) : Prop where
  video : f.video = s.video
  linked : LinkedList f.next f.mp1ListHead is
  lights : (is.map fun i => (f.blinkArray i).toLight) = s.lights
  used : ∀ i, i ∈ is ↔ (f.blinkArray i).location ≠ 0

variable {f : Fish} {is : List Slot} {s : Lights}

namespace Represents

/-- A slot is free unless there are as many lights as slots. -/
theorem malloc_none (rep : Represents f is s) : f.mp1Malloc = none ↔ s.lights.length = slots := by
  have count : s.lights.length = is.toFinset.card := by
    rw [← rep.lights, List.length_map, List.toFinset_card_of_nodup rep.linked.nodup]
  have whole : is.toFinset.card = slots ↔ is.toFinset = Finset.univ := by
    rw [← Finset.card_eq_iff_eq_univ, Fintype.card_fin]
  rw [count, whole, mp1Malloc, List.find?_eq_none, Finset.eq_univ_iff_forall]
  constructor
  · intro none i
    have occupied := none i (List.mem_finRange i)
    rw [List.mem_toFinset, rep.used]
    simpa using occupied
  · intro all i _
    have inside := all i
    rw [List.mem_toFinset, rep.used] at inside
    simpa using inside

theorem malloc_some (rep : Represents f is s) {i : Slot} (free : f.mp1Malloc = some i) :
    i ∉ is := by
  have zero := List.find?_some free
  have location : (f.blinkArray i).location = 0 := by simpa using zero
  exact fun inside => (rep.used i).mp inside location

/-- A slot that is not on the list takes a light. -/
theorem push (rep : Represents f is s) {i : Slot} {light : Light} (outside : i ∉ is)
    (nonzero : light.location ≠ 0) (video : UInt32 → UInt8) :
    Represents
      { blinkArray := Function.update f.blinkArray i { light with next := f.mp1ListHead }
        mp1ListHead := some i
        video := video }
      (i :: is) { lights := light :: s.lights, video := video } where
  video := rfl
  linked := by
    have pushed := rep.linked.push outside
    refine pushed.congr fun j _ => ?_
    by_cases same : j = i
    · subst same
      simp [next]
    · simp [next, same]
  lights := by
    have others : ∀ j ∈ is, (Function.update f.blinkArray i
        { light with next := f.mp1ListHead } j).toLight = (f.blinkArray j).toLight := by
      intro j inside
      have differs : j ≠ i := by
        rintro rfl
        exact outside inside
      rw [Function.update_of_ne differs]
    have mapped := List.map_congr_left others
    rw [rep.lights] at mapped
    simp only [List.map_cons, Function.update_self]
    exact congrArg (light :: ·) mapped
  used := by
    intro j
    by_cases same : j = i
    · subst same
      simpa using nonzero
    · simp [same, rep.used j]

/-- Adding a light that has not the location 0. -/
theorem add (rep : Represents f is s) {user : Light} (nonzero : user.location ≠ 0) :
    (∃ is, Represents (mp1IoctlAdd user f).1 is (s.add user).1) ∧
      (mp1IoctlAdd user f).2 = (s.add user).2 := by
  by_cases outside : 80 * 25 ≤ user.location
  · rw [mp1IoctlAdd, if_pos outside, Lights.add, if_pos (.inl outside)]
    exact ⟨⟨is, rep⟩, rfl⟩
  · rw [mp1IoctlAdd, if_neg outside]
    cases free : f.mp1Malloc with
    | none =>
        rw [Lights.add, if_pos (.inr (rep.malloc_none.mp free))]
        exact ⟨⟨is, rep⟩, rfl⟩
    | some i =>
        have room : ¬ s.lights.length = slots := by
          intro full
          rw [rep.malloc_none.mpr full] at free
          cases free
        rw [Lights.add, if_neg (by simp only [outside, room, or_self, not_false_iff]), ← rep.video]
        have started : user.started.location ≠ 0 := nonzero
        exact ⟨⟨_, rep.push (rep.malloc_some free) started _⟩, rfl⟩

/-! ### Looking for a location -/

theorem find_lights (rep : Represents f is s) (location : UInt16) :
    (s.lights.find? fun l => l.location == location) =
      (is.find? fun i => (f.blinkArray i).location == location).map fun i =>
        (f.blinkArray i).toLight := by
  rw [← rep.lights, List.find?_map]
  rfl

theorem findHelper_returns (rep : Represents f is s) (location : UInt16) :
    Returns (fun bound => mp1FindHelper bound location f)
      (is.find? fun i => (f.blinkArray i).location == location) :=
  rep.linked.search _

theorem find (rep : Represents f is s) (location : UInt16) :
    Returns (fun bound => mp1IoctlFind bound location f) (s.find location) := by
  have found := rep.findHelper_returns location
  simp only [mp1IoctlFind, Lights.find, rep.find_lights location]
  cases here : is.find? fun i => (f.blinkArray i).location == location with
  | none =>
      rw [here] at found
      exact found.map
  | some i =>
      rw [here] at found
      exact found.map

/-! ### Removing -/

theorem store_toLight (place pointer : Option Slot) (f : Fish) (i : Slot) :
    ((f.store place pointer).blinkArray i).toLight = (f.blinkArray i).toLight := by
  cases place with
  | none => rfl
  | some j =>
      by_cases same : i = j
      · subst same
        simp [store]
      · simp [store, same]

theorem store_video (place pointer : Option Slot) (f : Fish) :
    (f.store place pointer).video = f.video := by
  cases place <;> rfl

/-- The list without an element, whose slot is free. -/
theorem unlink {i : Slot} {before after : List Slot} (rep : Represents f (before ++ i :: after) s) :
    Represents (mp1Free (f.store before.getLast? (f.next i)) i) (before ++ after)
      { s with lights := (before ++ after).map fun j => (f.blinkArray j).toLight } := by
  have apart : i ∉ before ++ after :=
    (List.nodup_cons.mp (List.perm_middle.nodup_iff.mp rep.linked.nodup)).1
  have differs : ∀ j ∈ before ++ after, j ≠ i := by
    rintro j inside rfl
    exact apart inside
  refine ⟨(store_video _ _ f).trans rep.video, ?_, ?_, ?_⟩
  · rcases List.eq_nil_or_concat before with rfl | ⟨first, q, rfl⟩
    · refine rep.linked.tail.2.congr fun j inside => ?_
      simp [mp1Free, store, next, differs j (List.mem_append_right _ inside)]
    · have linked := rep.linked
      rw [List.concat_eq_append] at differs ⊢
      rw [List.concat_eq_append, List.append_assoc, List.singleton_append] at linked
      rw [List.append_assoc, List.singleton_append] at differs ⊢
      have last : (first ++ [q]).getLast? = some q := by simp
      rw [last]
      refine linked.unlink.congr fun j inside => ?_
      by_cases same : j = q
      · subst same
        simp [mp1Free, store, next, differs j inside]
      · simp [mp1Free, store, next, differs j inside, same]
  · refine List.map_congr_left fun j inside => ?_
    simp [mp1Free, differs j inside, store_toLight]
  · intro j
    by_cases same : j = i
    · subst same
      simp [apart, mp1Free, Blink.zero]
    · have used := rep.used j
      have location : (mp1Free (f.store before.getLast? (f.next i)) i).blinkArray j =
          (f.store before.getLast? (f.next i)).blinkArray j := Function.update_of_ne same _ _
      rw [location, store_toLight, ← used]
      simp [same]

/-- Removing a light. -/
theorem remove (rep : Represents f is s) (arg : UInt32) :
    ∃ final is, Returns (fun bound => mp1IoctlRemove bound arg f)
      (final, (s.remove arg.toUInt16).2) ∧ Represents final is (s.remove arg.toUInt16).1 := by
  have found := rep.findHelper_returns arg.toUInt16
  simp only [Lights.remove, rep.find_lights]
  cases here : is.find? fun i => (f.blinkArray i).location == arg.toUInt16 with
  | none =>
      rw [here] at found
      exact ⟨f, is, found.bind (.pure _), rep⟩
  | some i =>
      rw [here] at found
      rcases List.find?_eq_some_iff_append.mp here with ⟨hit, before, after, rfl, missed⟩
      have fromHead : LinkedList f.next (LinkedList.deref f.next f.mp1ListHead none)
          (before ++ i :: after) := rep.linked
      have place := fromHead.place
      rw [Option.or_none] at place
      refine ⟨_, before ++ after, found.bind place.map, ?_⟩
      have erased : s.lights.eraseP (fun l => l.location == arg.toUInt16) =
          (before ++ after).map fun j => (f.blinkArray j).toLight := by
        rw [← rep.lights, List.eraseP_map, List.eraseP_append_right]
        · rw [List.eraseP_cons_of_pos (by exact hit)]
        · intro j inside
          have other := missed j inside
          simpa using other
      have unlinked := rep.unlink
      rw [← erased] at unlinked
      exact unlinked

/-! ### Changing lights in place -/

/-- A light is changed, but not its location. -/
theorem change (rep : Represents f is s) {i : Slot} {light : Light}
    (same : light.location = (f.blinkArray i).location) (video : UInt32 → UInt8) :
    Represents
      { f with
        blinkArray := Function.update f.blinkArray i { light with next := f.next i }
        video := video }
      is
      { lights := is.map fun j => if j = i then light else (f.blinkArray j).toLight
        video := video } where
  video := rfl
  linked := by
    refine rep.linked.congr fun j _ => ?_
    by_cases here : j = i
    · subst here
      simp [next]
    · simp [next, here]
  lights := by
    refine List.map_congr_left fun j _ => ?_
    by_cases here : j = i
    · subst here
      simp
    · simp [here]
  used := by
    intro j
    by_cases here : j = i
    · subst here
      simp [rep.used j, same]
    · simp [here, rep.used j]

theorem replaceF_first {α : Type} {p : α → Option α} {before after : List α} {old new : α}
    (missed : ∀ other ∈ before, p other = none) (hit : p old = some new) :
    (before ++ old :: after).replaceF p = before ++ new :: after := by
  induction before with
  | nil => exact List.replaceF_cons_of_some p hit
  | cons first before ih =>
      have rest := ih fun other inside => missed other (List.mem_cons_of_mem _ inside)
      rw [List.cons_append, List.replaceF_cons_of_none p (missed first List.mem_cons_self), rest]
      rfl

/-- The first light at a location is replaced. -/
theorem replaced (rep : Represents f is s) {location : UInt16} {i : Slot} {source : Light}
    (found : (is.find? fun i => (f.blinkArray i).location == location) = some i) :
    (s.lights.replaceF fun l => if l.location == location then some (source.copyFrom l) else none) =
      is.map fun j =>
        if j = i then source.copyFrom (f.blinkArray i).toLight else (f.blinkArray j).toLight := by
  rcases List.find?_eq_some_iff_append.mp found with ⟨hit, before, after, rfl, missed⟩
  have apart : i ∉ before ++ after :=
    (List.nodup_cons.mp (List.perm_middle.nodup_iff.mp rep.linked.nodup)).1
  have others : ∀ js : List Slot, (∀ j ∈ js, j ∈ before ++ after) →
      (js.map fun j =>
        if j = i then source.copyFrom (f.blinkArray i).toLight else (f.blinkArray j).toLight) =
        js.map fun j => (f.blinkArray j).toLight := by
    intro js inside
    refine List.map_congr_left fun j member => ?_
    have differs : j ≠ i := by
      rintro rfl
      exact apart (inside j member)
    rw [if_neg differs]
  rw [← rep.lights, List.map_append, List.map_cons, List.map_append, List.map_cons, if_pos rfl,
    others before fun j member => List.mem_append_left _ member,
    others after fun j member => List.mem_append_right _ member]
  refine replaceF_first ?_ ?_
  · intro light member
    rcases List.mem_map.mp member with ⟨j, inside, rfl⟩
    have other := missed j inside
    rw [if_neg]
    simpa using other
  · exact if_pos hit

/-- The and of a bit is no negative byte. -/
theorem testbLess_eq_false (status : UInt16) : testbLess status = false := by
  have low : (0x1 &&& status.toUInt8).toNat.testBit 7 = false := by
    rw [UInt8.toNat_and, Nat.testBit_and]
    rfl
  rw [testbLess, low]
  rfl

/-- Copying the state of one light to another. -/
theorem sync (rep : Represents f is s) (arg : UInt32) :
    ∃ final is, Returns (fun bound => mp1IoctlSync bound arg f)
        (final, (s.sync (arg >>> 16).toUInt16 (arg &&& 0xFFFF).toUInt16).2) ∧
      Represents final is (s.sync (arg >>> 16).toUInt16 (arg &&& 0xFFFF).toUInt16).1 := by
  have first := rep.findHelper_returns (arg >>> 16).toUInt16
  have second := rep.findHelper_returns (arg &&& 0xFFFF).toUInt16
  simp only [Lights.sync, rep.find_lights]
  cases one : is.find? fun i => (f.blinkArray i).location == (arg >>> 16).toUInt16 with
  | none =>
      rw [one] at first
      exact ⟨f, is, first.bind (.pure _), rep⟩
  | some source =>
      cases other : is.find? fun i => (f.blinkArray i).location == (arg &&& 0xFFFF).toUInt16 with
      | none =>
          rw [one] at first
          rw [other] at second
          exact ⟨f, is, first.bind second.map, rep⟩
      | some target =>
          rw [one] at first
          rw [other] at second
          refine ⟨_, is, first.bind second.map, ?_⟩
          have same : ((f.blinkArray source).toLight.copyFrom
              (f.blinkArray target).toLight).location = (f.blinkArray target).location := rfl
          have changed := rep.change same (mp1Poke (f.blinkArray target).toLight.offset
            (f.blinkArray target).toLight.offChar f.video)
          rw [← rep.replaced other] at changed
          simp only [Light.synced, testbLess_eq_false, Bool.false_eq_true, if_false]
          rw [rep.video] at changed ⊢
          exact changed

/-! ### A tick -/

theorem next_visit (i : Slot) (f : Fish) : (visit i f).next = f.next := by
  funext j
  by_cases same : j = i
  · subst same
    simp [visit, next]
  · simp [visit, next, same]

theorem foldl_visit (is : List Slot) (distinct : is.Nodup) (f : Fish) :
    (is.foldl (fun f i => visit i f) f).mp1ListHead = f.mp1ListHead ∧
      (is.foldl (fun f i => visit i f) f).next = f.next ∧
      (∀ i, ((is.foldl (fun f i => visit i f) f).blinkArray i).toLight =
        if i ∈ is then (f.blinkArray i).toLight.tick else (f.blinkArray i).toLight) ∧
      (is.foldl (fun f i => visit i f) f).video =
        (is.map fun i => (f.blinkArray i).toLight).foldl Light.display f.video := by
  induction is generalizing f with
  | nil => exact ⟨rfl, rfl, fun _ => rfl, rfl⟩
  | cons j is ih =>
      rw [List.nodup_cons] at distinct
      rcases ih distinct.2 (visit j f) with ⟨head, next, lights, video⟩
      have others : ∀ i, i ≠ j → ((visit j f).blinkArray i).toLight = (f.blinkArray i).toLight :=
        fun i differs => congrArg Blink.toLight (Function.update_of_ne differs _ _)
      have here : ((visit j f).blinkArray j).toLight = (f.blinkArray j).toLight.tick := by
        simp [visit]
      refine ⟨head, next.trans (next_visit j f), ?_, ?_⟩
      · intro i
        rw [List.foldl_cons, lights i]
        by_cases same : i = j
        · subst same
          rw [if_neg distinct.1, if_pos List.mem_cons_self, here]
        · rw [others i same]
          simp only [List.mem_cons, same, false_or]
      · have mapped : (is.map fun i => ((visit j f).blinkArray i).toLight) =
            is.map fun i => (f.blinkArray i).toLight := by
          refine List.map_congr_left fun i inside => others i ?_
          rintro rfl
          exact distinct.1 inside
        rw [List.foldl_cons, video, mapped]
        rfl

/-- A tick of the clock. -/
theorem tick (rep : Represents f is s) :
    ∃ final, Returns (fun bound => mp1RtcTasklet bound f) final ∧ Represents final is s.tick := by
  have visited := LinkedList.visits (fun i j f => congrFun (next_visit i f) j) rep.linked
  rcases foldl_visit is rep.linked.nodup f with ⟨head, next, lights, video⟩
  refine ⟨_, visited.map, ?_, ?_, ?_, ?_⟩
  · rw [video, rep.lights, rep.video]
    rfl
  · rw [head, next]
    exact rep.linked
  · have ticked : (is.map fun i =>
        ((is.foldl (fun f i => visit i f) f).blinkArray i).toLight) =
          is.map fun i => (f.blinkArray i).toLight.tick :=
      List.map_congr_left fun i inside => (lights i).trans (if_pos inside)
    rw [ticked, Lights.tick, ← rep.lights, List.map_map]
    rfl
  · intro i
    have location : (((is.foldl (fun f i => visit i f) f).blinkArray i).toLight).location =
        (f.blinkArray i).location := by
      rw [lights i]
      split
      · rw [Light.tick]
        split <;> rfl
      · rfl
    rw [rep.used i]
    exact not_congr (by rw [← location])

end Represents

end Ece391Os.Fish
