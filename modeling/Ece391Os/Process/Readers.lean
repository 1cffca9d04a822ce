import Ece391Os.Process.Chains

/-!
# Readers of the clock

A process that waits in `rtc_read` has seen the flag of its terminal set, or goes on
testing it.  The processes keep apart: a context that has seen the flag belongs to the
newest process of its terminal, and the flag stays set until that process resets it.
-/

namespace Ece391Os

/-- The activity of a process: it has seen the flag of its terminal only if the flag is
set, and `switch_terminal` interrupted the process itself. -/
def Activity.Fits (flag : Bool) (p : ProcId) : Activity → Prop
  | .rtcRead seen => seen = true → flag = true
  | .launch old interrupted => old = p ∧ interrupted.Fits flag p
  | .user _ | .terminalRead _ _ _ => True

/-- The activity is the last part of `switch_terminal`. -/
def Activity.Launches : Activity → Prop
  | .launch _ _ => True
  | _ => False

/-- An activity fits a flag that is set if it fits any. -/
theorem Activity.Fits.set {flag : Bool} {p : ProcId} {activity : Activity}
    (fits : activity.Fits flag p) : activity.Fits true p := by
  induction activity with
  | user => trivial
  | terminalRead => trivial
  | rtcRead seen => exact fun _ => rfl
  | launch old interrupted ih => exact ⟨fits.1, ih fits.2⟩

/-- The processes with their saved contexts, the flags of the terminals and what the
running process does. -/
@[ext]
structure Readers where
  procs : ProcTable
  saved : ProcId → Option Activity
  caller : ProcId → ExecCaller
  flag : TermId → Bool
  running : Activity

namespace Readers

/-- The newest process of a terminal has seen the flag of the terminal only if the flag is
set, and a process that waits for a child has no context to go on from. -/
structure Kept (r : Readers) : Prop where
  saved : ∀ t p activity, r.procs.active t = true → r.procs.apn t = some p →
    r.saved p = some activity → activity.Fits (r.flag t) p
  buried : ∀ t p, p ∈ r.procs.stack t → r.procs.parent p ≠ p → r.caller p = .systemCall →
    r.saved (r.procs.parent p) = none

/-- The running process, too, has seen the flag of its terminal only if the flag is set, and
its saved context is used up. -/
structure Apart (r : Readers) : Prop extends Kept r where
  running : ∀ p, r.procs.apn r.procs.scheduled = some p →
    r.running.Fits (r.flag r.procs.scheduled) p
  spent : ∀ p, r.procs.apn r.procs.scheduled = some p → ¬ r.running.Launches → r.saved p = none

/-- `execute` starts a process. -/
def start (r : Readers) (p : ProcId) (caller : ExecCaller) : Readers where
  procs := r.procs.start p
  saved := Function.update r.saved p none
  caller := Function.update r.caller p caller
  flag := r.flag
  running := .user 0

end Readers

/-- The parent of a process is behind it in a chain. -/
theorem Linked.parent_mem_tail {parent : ProcId → ProcId} {processes : List ProcId}
    (linked : Linked parent processes) {p : ProcId} (member : p ∈ processes)
    (child : parent p ≠ p) : parent p ∈ processes.tail := by
  induction processes with
  | nil => cases member
  | cons q rest ih =>
      cases rest with
      | nil =>
          cases List.mem_singleton.mp member
          exact absurd linked child
      | cons next rest =>
          rcases linked with ⟨below, linked⟩
          rcases List.mem_cons.mp member with rfl | later
          · rw [below]
            exact List.mem_cons_self
          · exact List.mem_of_mem_tail (ih linked later)

namespace ProcTable

namespace Chains

variable {v : ProcTable}

/-- The newest process of a terminal has no children. -/
theorem parent_ne_newest (chains : v.Chains) {t u : TermId} {p q : ProcId}
    (active : v.active t = true) (newest : v.apn t = some q) (member : p ∈ v.stack u)
    (child : v.parent p ≠ p) : v.parent p ≠ q := by
  rintro rfl
  rcases chains.newest t active with ⟨head, rest, stack, apn⟩
  cases apn.symm.trans newest
  have below := (chains.linked u).parent_mem_tail member child
  have here : v.term (v.parent p) = u := (chains.member u _ (List.mem_of_mem_tail below)).2.1
  have there : v.term (v.parent p) = t :=
    (chains.member t _ (by rw [stack]; exact List.mem_cons_self)).2.1
  have same : u = t := here.symm.trans there
  subst same
  have distinct := chains.nodup u
  rw [stack] at below distinct
  exact (List.nodup_cons.mp distinct).1 below

/-- The newest processes of two terminals differ. -/
theorem newest_ne (chains : v.Chains) {t u : TermId} {p q : ProcId} (activeT : v.active t = true)
    (activeU : v.active u = true) (newestT : v.apn t = some p) (newestU : v.apn u = some q)
    (differs : t ≠ u) : p ≠ q := by
  rintro rfl
  rcases chains.newest t activeT with ⟨_, _, stackT, apnT⟩
  rcases chains.newest u activeU with ⟨_, _, stackU, apnU⟩
  cases apnT.symm.trans newestT
  cases apnU.symm.trans newestU
  have here := (chains.member t p (by rw [stackT]; exact List.mem_cons_self)).2.1
  have there := (chains.member u p (by rw [stackU]; exact List.mem_cons_self)).2.1
  exact differs (here.symm.trans there)

end Chains

/-- The running process, if it is not the first of its terminal, has another process as its
parent. -/
theorem Coherent.parent_running {v : ProcTable} (coherent : v.Coherent) {p : ProcId}
    (apn : v.apn v.scheduled = some p) (child : v.number p ≠ v.parent p) :
    p ∈ v.stack v.scheduled ∧ v.parent p ≠ p ∧ v.number (v.parent p) = v.parent p := by
  rcases coherent.forest.stack_of_apn coherent.scheduledActive apn with ⟨rest, stack⟩
  have top : p ∈ v.stack v.scheduled := by
    rw [stack]
    exact List.mem_cons_self
  have differs : v.parent p ≠ p := by
    rw [(coherent.member _ p top).2.2] at child
    exact child.symm
  have below := (coherent.linked _).parent_mem_tail top differs
  exact ⟨top, differs, (coherent.member _ _ (List.mem_of_mem_tail below)).2.2⟩

end ProcTable

namespace Readers

variable {r : Readers}

namespace Apart

/-! ## The process goes on -/

/-- The clock sets all flags. -/
theorem tick (apart : r.Apart) : Apart { r with flag := fun _ => true } where
  running := fun p apn => (apart.running p apn).set
  saved := fun t p activity active apn saved => (apart.saved t p activity active apn saved).set
  spent := apart.spent
  buried := apart.buried

/-- The running process goes on with an activity that fits. -/
theorem goOn (apart : r.Apart) {activity : Activity} (started : ¬ r.running.Launches)
    (fits : ∀ p, activity.Fits (r.flag r.procs.scheduled) p) :
    Apart { r with running := activity } where
  running := fun p _ => fits p
  saved := apart.saved
  spent := fun p apn _ => apart.spent p apn started
  buried := apart.buried

/-- The running process resets the flag of its terminal. -/
theorem complete (apart : r.Apart) (started : ¬ r.running.Launches) (eax : Int) :
    Apart { r with
      flag := Function.update r.flag r.procs.scheduled false
      running := .user eax } where
  running := fun _ _ => trivial
  saved := by
    intro t p activity active apn saved
    dsimp only
    by_cases here : t = r.procs.scheduled
    · subst here
      rw [apart.spent p apn started] at saved
      cases saved
    · rw [Function.update_of_ne here]
      exact apart.saved t p activity active apn saved
  spent := fun p apn _ => apart.spent p apn started
  buried := apart.buried

/-- The tables differ in what is displayed only. -/
theorem redisplay (apart : r.Apart) (t : TermId) (video : Option Nat) :
    Apart { r with procs := { r.procs with shown := t, video := video } } where
  running := apart.running
  saved := apart.saved
  spent := apart.spent
  buried := apart.buried

/-! ## Another process goes on -/

section Switches

variable (coherent : r.procs.Coherent) (apart : r.Apart)
include coherent apart

/-- No process that waits for a child is the newest of its terminal. -/
theorem buried_update {q : ProcId} (newest : r.procs.apn r.procs.scheduled = some q)
    (context : Option Activity) (t : TermId) (p : ProcId) (member : p ∈ r.procs.stack t)
    (child : r.procs.parent p ≠ p) (called : r.caller p = .systemCall) :
    Function.update r.saved q context (r.procs.parent p) = none := by
  rw [Function.update_of_ne
    (coherent.parent_ne_newest coherent.scheduledActive newest member child)]
  exact apart.buried t p member child called

/-- `switch_terminal` saves the context of the running process. -/
theorem await {old : ProcId} (apn : r.procs.apn r.procs.scheduled = some old) (t : TermId) :
    Apart { r with
      procs := { r.procs with shown := t }
      saved := Function.update r.saved old (some r.running)
      running := .launch old r.running } where
  running := by
    intro p apn'
    cases apn.symm.trans apn'
    exact ⟨rfl, apart.running old apn⟩
  saved := by
    intro u p activity active newest saved
    dsimp only at active newest saved ⊢
    by_cases same : p = old
    · subst same
      rw [Function.update_self] at saved
      cases saved
      by_cases here : u = r.procs.scheduled
      · subst here
        exact apart.running p apn
      · exact absurd rfl
          (coherent.newest_ne active coherent.scheduledActive newest apn here)
    · rw [Function.update_of_ne same] at saved
      exact apart.saved u p activity active newest saved
  spent := fun _ _ started => absurd trivial started
  buried := fun u p member child called =>
    apart.buried_update coherent apn (some r.running) u p member child called

/-- `switch_terminal` returns to what it interrupted. -/
theorem giveUp {old : ProcId} {interrupted : Activity}
    (launching : r.running = .launch old interrupted) :
    Apart { r with
      saved := Function.update r.saved old none
      running := interrupted } := by
  rcases coherent.running with ⟨q, _, _, apn, _, _⟩
  have fits := apart.running q apn
  rw [launching] at fits
  rcases fits with ⟨rfl, fits⟩
  refine ⟨⟨?saved, ?buried⟩, ?running, ?spent⟩
  case running =>
    intro p apn'
    cases apn.symm.trans apn'
    exact fits
  case saved =>
    intro u p activity active newest saved
    dsimp only at active newest saved ⊢
    by_cases same : p = old
    · subst same
      rw [Function.update_self] at saved
      cases saved
    · rw [Function.update_of_ne same] at saved
      exact apart.saved u p activity active newest saved
  case spent =>
    intro p apn' _
    cases apn.symm.trans apn'
    exact Function.update_self old none r.saved
  case buried =>
    intro u p member child called
    exact apart.buried_update coherent apn none u p member child called

/-- The scheduler saves the context of the running process and goes on with another one. -/
theorem select {t : TermId} (enabled : r.procs.Enabled (.select t)) {old next : ProcId}
    {loaded : Activity} (apn : r.procs.apn r.procs.scheduled = some old)
    (newest : r.procs.apn t = some next)
    (context : Function.update r.saved old (some r.running) next = some loaded) :
    Apart { r with
      procs := r.procs.act (.select t)
      saved := Function.update (Function.update r.saved old (some r.running)) next none
      running := loaded } := by
  have active : r.procs.active t = true := coherent.active_of_next enabled.1 enabled.2.2
  have others : ∀ s : TermId, s + 1 ≠ s ∧ s + 1 + 1 ≠ s := by decide
  have elsewhere : t ≠ r.procs.scheduled := by
    rw [enabled.2.2]
    split
    · exact (others _).1
    · exact (others _).2
  have differ : next ≠ old :=
    coherent.newest_ne active coherent.scheduledActive newest apn elsewhere
  rw [Function.update_of_ne differ] at context
  rw [ProcTable.act_select newest]
  refine ⟨⟨?saved, ?buried⟩, ?running, ?spent⟩
  case running =>
    intro p apn'
    cases newest.symm.trans apn'
    exact apart.saved t next loaded active newest context
  case saved =>
    intro u p activity activeU newestU saved
    dsimp only at activeU newestU saved ⊢
    by_cases isNext : p = next
    · subst isNext
      rw [Function.update_self] at saved
      cases saved
    rw [Function.update_of_ne isNext] at saved
    by_cases isOld : p = old
    · subst isOld
      rw [Function.update_self] at saved
      cases saved
      by_cases here : u = r.procs.scheduled
      · subst here
        exact apart.running p apn
      · exact absurd rfl
          (coherent.newest_ne activeU coherent.scheduledActive newestU apn here)
    · rw [Function.update_of_ne isOld] at saved
      exact apart.saved u p activity activeU newestU saved
  case spent =>
    intro p apn' _
    cases newest.symm.trans apn'
    exact Function.update_self next none (Function.update r.saved old (some r.running))
  case buried =>
    intro u p member child called
    have kept := apart.buried_update coherent apn (some r.running) u p member child called
    have waits := coherent.parent_ne_newest active newest member child
    exact (Function.update_of_ne waits none _).trans kept

end Switches

/-! ## Processes start and finish -/

end Apart

/-- A new process on a terminal that ends up scheduled. -/
theorem Kept.start (kept : r.Kept) (chains : r.procs.Chains) {p : ProcId}
    (free : r.procs.live p = false) (scheduled : (r.procs.start p).scheduled = r.procs.shown)
    {caller : ExecCaller}
    (parentSpent : caller = .systemCall → r.procs.active r.procs.shown = true →
      ∀ q, r.procs.apn r.procs.shown = some q → r.saved q = none) : (r.start p caller).Apart := by
  have fresh : ∀ t q, q ∈ r.procs.stack t → q ≠ p := by
    rintro t q member rfl
    exact chains.forest.notMem_of_free free t member
  refine ⟨⟨?saved, ?buried⟩, ?running, ?spent⟩
  case running => exact fun _ _ => trivial
  case saved =>
    intro t q activity active newest context
    dsimp only [Readers.start] at active newest context ⊢
    by_cases new : q = p
    · subst new
      rw [Function.update_self] at context
      cases context
    rw [Function.update_of_ne new] at context
    by_cases here : t = r.procs.shown
    · subst here
      exact absurd (by simpa [ProcTable.start] using newest.symm) new
    · simp only [ProcTable.start, Function.update_of_ne here] at active newest
      exact kept.saved t q activity active newest context
  case spent =>
    intro q newest _
    dsimp only [Readers.start] at newest ⊢
    rw [scheduled] at newest
    have same : p = q := by simpa [ProcTable.start] using newest
    rw [same, Function.update_self]
  case buried =>
    intro t q member child called
    dsimp only [Readers.start] at member child called ⊢
    rw [ProcTable.stack_start] at member
    rcases Stacks.mem_push.mp member with ⟨rfl, rfl⟩ | old
    · rw [Function.update_self] at called
      cases busy : r.procs.active r.procs.shown with
      | false =>
          have root : (r.procs.start q).parent q = q := by simp [ProcTable.start, busy]
          exact absurd root child
      | true =>
          -- its parent is the process that runs, and has no saved context
          rcases chains.newest _ busy with ⟨o, rest, stack, newest⟩
          have top : o ∈ r.procs.stack r.procs.shown := by
            rw [stack]
            exact List.mem_cons_self
          have differs := fresh _ o top
          have parent : (r.procs.start q).parent q = o := by
            simp [ProcTable.start, busy, newest, differs, (chains.member _ o top).2.2]
          rw [parent, Function.update_of_ne differs]
          exact parentSpent called busy o newest
    · have differs := fresh t q old
      rw [Function.update_of_ne differs] at called
      have parent : (r.procs.start p).parent q = r.procs.parent q :=
        Function.update_of_ne differs _ _
      rw [parent] at child ⊢
      by_cases isNew : r.procs.parent q = p
      · rw [isNew, Function.update_self]
      · rw [Function.update_of_ne isNew]
        exact kept.buried t q old child called

namespace Apart

variable (coherent : r.procs.Coherent) (apart : r.Apart)
include coherent apart

/-- A program starts a process, or `switch_terminal` starts a shell. -/
theorem start {p : ProcId} (free : r.procs.live p = false) (safe : r.procs.LaunchSafe)
    {caller : ExecCaller} (calls : caller = .systemCall → ¬ r.running.Launches) :
    (r.start p caller).Apart := by
  apply apart.toKept.start coherent.toChains free
  · cases busy : r.procs.active r.procs.shown with
    | true =>
        have same : r.procs.shown = r.procs.scheduled := safe.resolve_right (by simp [busy])
        simp [ProcTable.start, same]
    | false => simp [ProcTable.start, busy]
  · intro called busy q newest
    have same : r.procs.shown = r.procs.scheduled := safe.resolve_right (by simp [busy])
    rw [same] at newest
    exact apart.spent q newest (calls called)

/-- A process halts and its parent goes on. -/
theorem finish {esp0 : Nat} (enabled : r.procs.Enabled (.finish esp0)) {p : ProcId}
    (apn : r.procs.apn r.procs.scheduled = some p) (called : r.caller p = .systemCall)
    (eax : Int) :
    Apart { r with procs := r.procs.act (.finish esp0), running := .user eax } := by
  rcases coherent.forest.stack_of_apn coherent.scheduledActive apn with ⟨rest, stack⟩
  rcases enabled with ⟨q, apn', differs⟩
  cases apn.symm.trans apn'
  rcases coherent.parent_running apn differs with ⟨top, child, parentNumber⟩
  have waiting := apart.buried _ p top child called
  have result : r.procs.act (.finish esp0) =
      { r.procs.release p with
        mapped := some (r.procs.number (r.procs.parent p)), esp0 := esp0 } := by
    simp [ProcTable.act, apn]
  have owned : (r.procs.act (.finish esp0)).stack =
      Stacks.pop r.procs.stack r.procs.scheduled := by
    rw [result]
    exact coherent.stack_release apn
  have newest : (r.procs.act (.finish esp0)).apn =
      Function.update r.procs.apn r.procs.scheduled (some (r.procs.parent p)) := by
    rw [result, ← parentNumber]
    rfl
  have same : (r.procs.act (.finish esp0)).active = r.procs.active ∧
      (r.procs.act (.finish esp0)).scheduled = r.procs.scheduled ∧
      (r.procs.act (.finish esp0)).parent = r.procs.parent := by
    rw [result]
    exact ⟨rfl, rfl, rfl⟩
  rcases same with ⟨activeSame, scheduledSame, parentSame⟩
  refine ⟨⟨?saved, ?buried⟩, ?running, ?spent⟩
  case running => exact fun _ _ => trivial
  case saved =>
    intro t q activity active newestQ context
    dsimp only at active newestQ context ⊢
    rw [activeSame] at active
    rw [newest] at newestQ
    by_cases here : t = r.procs.scheduled
    · subst here
      rw [Function.update_self] at newestQ
      cases newestQ
      rw [waiting] at context
      cases context
    · rw [Function.update_of_ne here] at newestQ
      exact apart.saved t q activity active newestQ context
  case spent =>
    intro q newestQ _
    dsimp only at newestQ ⊢
    rw [newest, scheduledSame, Function.update_self] at newestQ
    cases newestQ
    exact waiting
  case buried =>
    intro t q member childQ calledQ
    dsimp only at member childQ calledQ ⊢
    rw [owned] at member
    rw [parentSame] at childQ ⊢
    have old := ((coherent.forest.mem_pop stack t q).mp member).2
    exact apart.buried t q old childQ calledQ

/-- The first process of a terminal halts and a new shell replaces it. -/
theorem restart {p : ProcId} (enabled : r.procs.Enabled (.restart p))
    (safe : r.procs.RestartSafe) :
    Apart
      { r with
        procs := r.procs.act (.restart p)
        saved := Function.update r.saved p none
        caller := Function.update r.caller p .halt
        running := .user 0 } := by
  rcases enabled with ⟨q, apn, root, free⟩
  rcases coherent.forest.stack_of_apn coherent.scheduledActive apn with ⟨rest, stack⟩
  have idle : Function.update r.procs.active r.procs.scheduled false r.procs.shown = false := by
    rcases safe with same | ⟨idle, _⟩
    · rw [same]
      simp
    · by_cases same : r.procs.shown = r.procs.scheduled <;> simp [same, idle]
  let released : ProcTable :=
    { r.procs.release q with
      active := Function.update r.procs.active r.procs.scheduled false }
  have kept : Kept { r with procs := released } := by
    constructor
    · intro t o activity active newest context
      dsimp only [released] at active newest context ⊢
      by_cases here : t = r.procs.scheduled
      · subst here
        rw [Function.update_self] at active
        cases active
      · simp only [ProcTable.release, Function.update_of_ne here] at active newest
        exact apart.saved t o activity active newest context
    · intro t o member child called
      have owned : released.stack = Stacks.pop r.procs.stack r.procs.scheduled :=
        coherent.stack_release apn
      dsimp only at member child called ⊢
      rw [owned] at member
      have old := ((coherent.forest.mem_pop stack t o).mp member).2
      exact apart.buried t o old child called
  rw [ProcTable.act_restart apn]
  apply kept.start (coherent.chains_release_root apn root) free
  · simp [ProcTable.start, ProcTable.release, released, idle]
  · intro called
    cases called

end Apart

/-! ## Everything that can happen -/

/-- Everything that happens to the readers but interrupts of the clock and the end of a
read. -/
inductive Changes (r : Readers) : Readers → Prop where
  | stay : Changes r r
  | goOn (activity : Activity) (started : ¬ r.running.Launches)
      (fits : ∀ p, activity.Fits (r.flag r.procs.scheduled) p) :
      Changes r { r with running := activity }
  | redisplay (t : TermId) (video : Option Nat) :
      Changes r { r with procs := { r.procs with shown := t, video := video } }
  | mapVideo (video : Option Nat) (started : ¬ r.running.Launches) (eax : Int) :
      Changes r { r with procs := { r.procs with video := video }, running := .user eax }
  | await (old : ProcId) (apn : r.procs.apn r.procs.scheduled = some old) (t : TermId) :
      Changes r { r with
        procs := { r.procs with shown := t }
        saved := Function.update r.saved old (some r.running)
        running := .launch old r.running }
  | giveUp (old : ProcId) (interrupted : Activity)
      (launching : r.running = .launch old interrupted) :
      Changes r { r with
        saved := Function.update r.saved old none
        running := interrupted }
  | select (t : TermId) (enabled : r.procs.Enabled (.select t)) (old next : ProcId)
      (loaded : Activity) (apn : r.procs.apn r.procs.scheduled = some old)
      (newest : r.procs.apn t = some next)
      (context : Function.update r.saved old (some r.running) next = some loaded) :
      Changes r { r with
        procs := r.procs.act (.select t)
        saved := Function.update (Function.update r.saved old (some r.running)) next none
        running := loaded }
  | start (p : ProcId) (free : r.procs.live p = false) (safe : r.procs.LaunchSafe)
      (caller : ExecCaller) (calls : caller = .systemCall → ¬ r.running.Launches) :
      Changes r (r.start p caller)
  | finish (esp0 : Nat) (enabled : r.procs.Enabled (.finish esp0)) (p : ProcId)
      (apn : r.procs.apn r.procs.scheduled = some p) (called : r.caller p = .systemCall)
      (eax : Int) :
      Changes r { r with procs := r.procs.act (.finish esp0), running := .user eax }
  | restart (p : ProcId) (enabled : r.procs.Enabled (.restart p))
      (safe : r.procs.RestartSafe) :
      Changes r { r with
        procs := r.procs.act (.restart p)
        saved := Function.update r.saved p none
        caller := Function.update r.caller p .halt
        running := .user 0 }

/-- No flag changes. -/
theorem Changes.flag {r' : Readers} (changes : r.Changes r') : r'.flag = r.flag := by
  cases changes <;> rfl

/-- The readers stay apart. -/
theorem Apart.change {r' : Readers} (coherent : r.procs.Coherent) (apart : r.Apart)
    (changes : r.Changes r') : r'.Apart := by
  cases changes with
  | stay => exact apart
  | goOn _ started fits => exact apart.goOn started fits
  | redisplay t video => exact apart.redisplay t video
  | mapVideo video started eax =>
      exact (apart.redisplay r.procs.shown video).goOn started fun _ => trivial
  | await _ apn t => exact apart.await coherent apn t
  | giveUp _ _ launching => exact apart.giveUp coherent launching
  | select _ enabled _ _ _ apn newest context =>
      exact apart.select coherent enabled apn newest context
  | start _ free safe _ calls => exact apart.start coherent free safe calls
  | finish _ enabled _ apn called eax => exact apart.finish coherent enabled apn called eax
  | restart _ enabled safe => exact apart.restart coherent enabled safe

end Readers

end Ece391Os
