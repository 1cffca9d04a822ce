import Ece391Os.Process.Frames
import Ece391Os.Transition.History

/-!
# Listing directories

`directory_read` keeps the position of the next entry in one global counter, and not in
the descriptor.  A history counts the reads of each directory descriptor since it was
opened, and all reads of directories since the last one that found no entry left.
-/

namespace Ece391Os

open Memory Transition

/-- The reads of each descriptor since it was opened, and the reads of directories since
the last one that found no entry left. -/
structure Listing where
  listed : ProcId → Fin 8 → Nat
  since : Nat

namespace Listing

/-- Nothing has been read. -/
def empty : Listing where
  listed _ _ := 0
  since := 0

/-- Assign to the count of a descriptor. -/
def setListed (h : Listing) (p : ProcId) (i : Fin 8) (count : Nat) : Listing :=
  { h with listed := Function.update h.listed p (Function.update (h.listed p) i count) }

end Listing

namespace Image

/-- What the read number `j` of an open directory returns and stores: the name of entry
`j`, behind the last one nothing. -/
def entryRead (img : Image) (j : Nat) : Int × Stores Nat :=
  if j < img.numDirectories then
    ((img.name j).length,
      storeRange 0 33 (fun _ => 0) ++
        storeRange 0 (img.name j).length fun i => (img.name j).getD i 0)
  else
    (0, [])

theorem entryRead_of_le (img : Image) {j : Nat} (behind : img.numDirectories ≤ j) :
    img.entryRead j = (0, []) :=
  if_neg (Nat.not_lt.mpr behind)

end Image

namespace Kernel

/-- The directory descriptor that the running program reads. -/
def directoryFd (k : Kernel) : Event → Option (ProcId × Fin 8)
  | .read fd buf _ =>
      if k.inUserMode then do
        let p ← k.getPcbPtr
        let i ← (k.pcb p).fds.opened fd buf
        if ((k.pcb p).fds i).fopsPtr = .dir then some (p, i) else none
      else
        none
  | _ => none

/-- Count a read of a directory, and start the count of a descriptor that is opened. -/
def noteListing (img : Image) (k : Kernel) (event : Event) (k' : Kernel) (h : Listing) : Listing :=
  match k.directoryFd event with
  | some (p, i) =>
      { h.setListed p i (h.listed p i + 1) with
        since := if h.since < img.numDirectories then h.since + 1 else 0 }
  | none =>
      match event, k.getPcbPtr, k'.cpu.activity with
      | .openFile _, some p, .user eax =>
          if 0 ≤ eax then h.setListed p ⟨eax.toNat % 8, Nat.mod_lt _ (by decide)⟩ 0 else h
      | _, _, _ => h

/-- The machine with the history of its listings. -/
def listingStep (env : Env) : EventStep (Kernel × Listing) Event :=
  withHistory (step env) (noteListing env.image)

/-- The counts are kept beside the machine's own runs. -/
theorem run_listingStep (env : Env) (state : Kernel × Listing) (events : List Event) :
    (run (listingStep env) state events).map Prod.fst = run (step env) state.1 events :=
  run_withHistory state events

/-- A read of a directory descriptor returns the entry that its count says. -/
def ReturnsNextEntry (env : Env) (state : Kernel × Listing) (event : Event) : Prop :=
  ∀ p i, state.1.directoryFd event = some (p, i) →
    ∃ k', state.1.step env event = some k' ∧
      k'.cpu.activity = .user (env.image.entryRead (state.2.listed p i)).1 ∧
      ∀ fd buf nbytes, event = .read fd buf nbytes →
        k'.memory = (state.1.storeUser buf (env.image.entryRead (state.2.listed p i)).2).memory

/-- A read of a directory descriptor continues the only listing since the last end of
one: all reads of directories since then, and no others, were made on this descriptor
since it was opened; or both it and they have come to the end. -/
def ContinuesListing (env : Env) (state : Kernel × Listing) (event : Event) : Prop :=
  match state.1.directoryFd event with
  | none => True
  | some (p, i) =>
      state.2.listed p i = state.2.since ∨
        env.image.numDirectories ≤ state.2.listed p i ∧ env.image.numDirectories ≤ state.2.since

instance (env : Env) (state : Kernel × Listing) (event : Event) :
    Decidable (ContinuesListing env state event) := by
  unfold ContinuesListing
  cases state.1.directoryFd event with
  | none => exact .isTrue trivial
  | some fd => exact inferInstanceAs (Decidable (_ ∨ _))

/-! ## The global position -/

/-- A read of an open directory returns the entry at the global position. -/
theorem directoryRead_eq (img : Image) (k : Kernel) :
    k.directoryRead img =
      { value := (img.entryRead k.directoryLoc.toNat).1
        stores := (img.entryRead k.directoryLoc.toNat).2
        kernel := { k with directoryLoc :=
          if k.directoryLoc.toNat < img.numDirectories then k.directoryLoc + 1 else 0 } } := by
  unfold directoryRead Image.readDentryByIndex Image.entryRead
  by_cases left : k.directoryLoc.toNat < img.numDirectories
  · rw [if_neg (Nat.not_le.mpr left), if_pos left, if_pos left]
    rfl
  · rw [if_pos (Nat.le_of_not_lt left), if_neg left, if_neg left]

theorem directoryFd_eq_some {k : Kernel} {event : Event} {p : ProcId} {i : Fin 8}
    (reads : k.directoryFd event = some (p, i)) :
    ∃ fd buf nbytes, event = .read fd buf nbytes ∧ k.inUserMode = true ∧
      k.getPcbPtr = some p ∧ (k.pcb p).fds.opened fd buf = some i ∧
      ((k.pcb p).fds i).fopsPtr = .dir := by
  cases event with
  | read fd buf nbytes =>
      simp only [directoryFd] at reads
      split at reads
      · rename_i user
        rcases Option.bind_eq_some_iff.mp reads with ⟨q, current, rest⟩
        rcases Option.bind_eq_some_iff.mp rest with ⟨j, opened, found⟩
        split at found
        · rename_i dir
          cases found
          exact ⟨fd, buf, nbytes, rfl, user, current, opened, dir⟩
        · cases found
      · cases reads
  | _ => cases reads

/-- A read of a directory descriptor is a read at the global position. -/
theorem step_directoryFd {env : Env} {k : Kernel} {fd : Int} {buf : Nat} {nbytes : Int}
    {p : ProcId} {i : Fin 8} (user : k.inUserMode = true) (current : k.getPcbPtr = some p)
    (opened : (k.pcb p).fds.opened fd buf = some i) (dir : ((k.pcb p).fds i).fopsPtr = .dir) :
    k.step env (.read fd buf nbytes) =
      some (((k.directoryRead env.image).kernel.storeUser buf
        (k.directoryRead env.image).stores).returnToUser (k.directoryRead env.image).value) := by
  simp only [Kernel.step, if_pos user, systemCall, beginRead, current, Option.bind_eq_bind,
    Option.bind_some, opened, dir, fopsRead]

theorem directoryLoc_untouchedByKeys : UntouchedByKeys directoryLoc where
  console := fun _ _ => rfl
  screen := fun _ _ _ _ => rfl
  rtcInterruptOccurred := fun _ _ => rfl
  cmos := fun _ _ => rfl
  memory := fun _ _ => rfl
  cpu := fun _ _ => rfl
  keyboard := fun _ _ => rfl
  keyLog := fun _ _ => rfl
  input := fun _ _ _ _ => rfl

theorem directoryLoc_untouched : UntouchedByProcesses directoryLoc where
  toUntouchedByOutput := directoryLoc_untouchedByKeys.toUntouchedByOutput
  fds := fun _ _ _ => rfl
  owner := fun _ _ _ _ => rfl
  pcb := fun _ _ => rfl
  pidArray := fun _ _ => rfl
  procLog := fun _ _ => rfl
  paging := fun _ _ => rfl
  tssEsp0 := fun _ _ => rfl
  curActiveTerminal := fun _ _ => rfl
  nextSchedTerminal := fun _ _ => rfl

/-! ## Every other event -/

theorem directoryLoc_switchTerminal {k k' : Kernel} {termNum : Nat}
    (switches : k.switchTerminal termNum = some k') : k'.directoryLoc = k.directoryLoc := by
  cases switchTerminal_cases switches with
  | kept => rfl
  | displayed => split <;> rfl
  | awaits => rfl

/-- Only the reads of directories move the global position. -/
theorem directoryLoc_step {env : Env} {k k' : Kernel} {event : Event}
    (step : k.step env event = some k') :
    k'.directoryLoc =
      if (k.directoryFd event).isSome then
        if k.directoryLoc.toNat < env.image.numDirectories then k.directoryLoc + 1 else 0
      else k.directoryLoc := by
  cases reads : k.directoryFd event with
  | some fd =>
      rcases fd with ⟨p, i⟩
      rcases directoryFd_eq_some reads with ⟨fd, buf, nbytes, rfl, user, current, opened, dir⟩
      rw [step_directoryFd user current opened dir] at step
      cases step
      rw [directoryLoc_untouched.returnToUser, directoryLoc_untouched.storeUser, directoryRead_eq]
      rfl
  | none =>
      rw [Option.isSome_none, if_neg (by decide)]
      cases step_cases step with
      | scheduled _ schedules => exact directoryLoc_untouched.pitScheduling schedules
      | ignored => rfl
      | pressed _ _ _ _ handled =>
          have kept := directoryLoc_untouchedByKeys.handleKeyPress handled
          exact kept
      | switched _ _ _ _ switches =>
          have kept := directoryLoc_switchTerminal switches
          exact kept
      | ticked => rfl
      | halted _ _ _ halts => exact directoryLoc_untouched.halt halts
      | executed _ _ _ executes => exact directoryLoc_untouched.executeCall executes
      | begun fd buf nbytes _ user begins =>
          apply directoryLoc_untouched.beginRead _ begins
          intro p i current opened dir
          simp [directoryFd, user, current, opened, dir] at reads
      | returned _ _ _ _ returns => exact directoryLoc_untouched.returns returns
      | mapped screenStart =>
          exact (directoryLoc_untouched.returnToUser _).trans
            (directoryLoc_untouched.vidmap screenStart)
      | readOn _ _ _ _ _ stepped => exact directoryLoc_untouchedByKeys.terminalReadStep stepped
      | rtcReadOn seen => exact directoryLoc_untouched.rtcReadStep seen
      | launched _ _ _ _ launches => exact directoryLoc_untouched.launchStep launches

/-! ## Every run -/

/-- The global position is the number of reads since the last end of a listing. -/
def PositionCounted (env : Env) (state : Kernel × Listing) : Prop :=
  state.1.directoryLoc.toNat = state.2.since ∧ state.2.since ≤ env.image.numDirectories

theorem since_noteListing (img : Image) (k k' : Kernel) (event : Event) (h : Listing) :
    (noteListing img k event k' h).since =
      if (k.directoryFd event).isSome then
        if h.since < img.numDirectories then h.since + 1 else 0
      else h.since := by
  unfold noteListing
  cases k.directoryFd event with
  | some fd => rfl
  | none =>
      dsimp only
      split
      · split <;> rfl
      · rfl

theorem positionCounted_step {env : Env} {state target : Kernel × Listing} {event : Event}
    (counted : PositionCounted env state) (step : listingStep env state event = some target) :
    PositionCounted env target := by
  rcases withHistory_eq_some_iff.mp step with ⟨machine, noted⟩
  rcases counted with ⟨position, bounded⟩
  have moved := directoryLoc_step machine
  have word := env.image.word_lt 0
  unfold PositionCounted
  rw [noted, since_noteListing, moved]
  split
  · by_cases left : state.2.since < env.image.numDirectories
    · have next : state.1.directoryLoc.toNat + 1 < 2 ^ 32 := by
        unfold Image.numDirectories at left
        omega
      rw [if_pos (position ▸ left), if_pos left, UInt32.toNat_add, position]
      rw [position] at next
      exact ⟨Nat.mod_eq_of_lt next, left⟩
    · rw [if_neg (position ▸ left), if_neg left]
      exact ⟨rfl, Nat.zero_le _⟩
  · exact ⟨position, bounded⟩

theorem directoryLoc_boot {env : Env} {k start : Kernel} (booted : boot env k = some start) :
    start.directoryLoc = 0 :=
  (directoryLoc_untouched.boot booted).trans rfl

/-- What a program's buffer holds after a store does not depend on the global position. -/
theorem memory_storeUser (k : Kernel) (loc : UInt32) (buf : Nat) (stores : Stores Nat) :
    (Kernel.storeUser { k with directoryLoc := loc } buf stores).memory =
      (k.storeUser buf stores).memory := by
  have mapped : Kernel.mappedProcess { k with directoryLoc := loc } = k.mappedProcess := rfl
  unfold storeUser
  rw [mapped]
  split <;> rfl

/-- A read at the global position returns the entry of its descriptor's count, when the
read continues the only listing. -/
theorem returnsNextEntry_of_continues {env : Env} {state : Kernel × Listing} {event : Event}
    (counted : PositionCounted env state) (continues : ContinuesListing env state event) :
    ReturnsNextEntry env state event := by
  intro p i reads
  rcases directoryFd_eq_some reads with ⟨fd, buf, nbytes, rfl, user, current, opened, dir⟩
  have entry : env.image.entryRead state.1.directoryLoc.toNat =
      env.image.entryRead (state.2.listed p i) := by
    rw [counted.1]
    unfold ContinuesListing at continues
    rw [reads] at continues
    rcases continues with same | ⟨ended, behind⟩
    · rw [same]
    · rw [env.image.entryRead_of_le ended, env.image.entryRead_of_le behind]
  refine ⟨_, step_directoryFd user current opened dir, ?_, ?_⟩
  · rw [directoryRead_eq, ← entry]
    rfl
  · rintro _ _ _ ⟨⟩
    rw [directoryRead_eq, ← entry]
    exact memory_storeUser _ _ _ _

/-- In every run from the first shell, the successive reads of a directory descriptor
return the entries in order and then nothing, as long as each read of a directory continues
the only listing since the last end of one. -/
theorem directory_listed {env : Env} {k start : Kernel} {events : List Event}
    (ran : UserRun env k start events)
    (alone : EachStep (listingStep env) (ContinuesListing env) (start, .empty) events) :
    EachStep (listingStep env) (ReturnsNextEntry env) (start, .empty) events := by
  apply eachStep_of_invariant (PositionCounted env) _ _ _ alone
  · intro state event target counted _ step
    exact positionCounted_step counted step
  · intro state event counted continues
    exact returnsNextEntry_of_continues counted continues
  · rw [PositionCounted, directoryLoc_boot ran.booted]
    exact ⟨rfl, Nat.zero_le _⟩

/-- The first shell opens the directory and reads it to the end. -/
def wholeListing : List Event :=
  [.openFile [0x2E], .read 2 0x8048000 33, .read 2 0x8048000 33, .read 2 0x8048000 33]

def wholeListingRun :
    ObservedRun ((boot Env.sample default).map fun start => (start, Listing.empty))
      (listingStep Env.sample) []
      (fun state =>
        (decide (EachStep (listingStep Env.sample) (ContinuesListing Env.sample) state
            wholeListing),
          (run (listingStep Env.sample) state wholeListing).map fun s => s.2.listed 0 2))
      (true, some 3) :=
  .of (by decide +kernel)

theorem directory_listed_sample :
    ∃ start, boot Env.sample default = some start ∧
      (run (listingStep Env.sample) (start, .empty) wholeListing).map
        (fun state => state.2.listed 0 2) = some 3 ∧
      EachStep (listingStep Env.sample) (ReturnsNextEntry Env.sample) (start, .empty)
        wholeListing := by
  rcases wholeListingRun with ⟨initial, final, starts, reached, saw⟩
  rcases Option.map_eq_some_iff.mp starts with ⟨start, booted, rfl⟩
  cases reached
  rcases Prod.mk.inj saw with ⟨alone, counted⟩
  have ran : UserRun Env.sample default start wholeListing := ⟨booted, by decide⟩
  exact ⟨start, booted, counted, directory_listed ran (of_decide_eq_true alone)⟩

/-- Two descriptors are opened and the first is read. -/
def twoListingsRun :
    ObservedRun ((boot Env.sample default).map fun start => (start, Listing.empty))
      (listingStep Env.sample) [.openFile [0x2E], .openFile [0x2E], .read 2 0x8048000 33]
      (fun state =>
        (state.1.directoryFd (.read 3 0x8048000 33), state.2.listed 0 3,
          (state.1.step Env.sample (.read 3 0x8048000 33)).map fun k => k.cpu.activity))
      (some (0, 3), 0, some (.user 5)) :=
  .of (by decide +kernel)

/-- The first read of the second descriptor returns the second entry, a name of length 5. -/
theorem second_listing_skips :
    ∃ start, boot Env.sample default = some start ∧
      ¬ EachStep (listingStep Env.sample) (ReturnsNextEntry Env.sample) (start, .empty)
        ([.openFile [0x2E], .openFile [0x2E], .read 2 0x8048000 33] ++
          [.read 3 0x8048000 33]) := by
  rcases twoListingsRun with ⟨initial, final, starts, reached, saw⟩
  rcases Option.map_eq_some_iff.mp starts with ⟨start, booted, rfl⟩
  refine ⟨start, booted, fun each => ?_⟩
  rcases Prod.mk.inj saw with ⟨reads, rest⟩
  rcases Prod.mk.inj rest with ⟨unread, returned⟩
  rcases each.last reached 0 3 reads with ⟨k', step, value, _⟩
  rw [step, Option.map_some, value, unread] at returned
  revert returned
  decide

end Kernel

end Ece391Os
