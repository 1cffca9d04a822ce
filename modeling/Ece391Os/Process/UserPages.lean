import Ece391Os.Process.Refines
import Ece391Os.Transition.Run

/-!
# The pages that user programs reach

The kernel maps pages for user programs with three routines and a few addresses.  The
saved screens of the terminals are mapped for user programs too: `init_terminal` maps
them through `user_page_table`, which `vidmap` puts at 136MB as well.
-/

namespace Ece391Os

open Transition

/-- `_100MB`, behind which the saved screens lie. -/
def savedScreensAddr : Nat := 0x6400000

/-- A call of a mapping routine, as `execute`, `halt`, `vidmap`, `switch_terminal` and
`process_contextswitch` make it. -/
inductive PagingCall where
  | program (p : ProcId)
  | userVideo
  | savedVideo (t : TermId)
  deriving DecidableEq

namespace Paging

/-- The entries after a call. -/
def call (p : Paging) : PagingCall → Paging
  | .program process => p.pageRemap programAddr (programFrame process)
  | .userVideo => p.tableRemap userVideoAddr videoAddr
  | .savedVideo t => p.vidmemRemap userVideoAddr (savedVideoAddr t)

/-- The page-table index of an address. -/
def tableIndex (virtAddr : Nat) : Fin 1024 :=
  ⟨virtAddr / 0x1000 % 1024, Nat.mod_lt _ (by decide)⟩

/-- A user program can access an address: the present and user bits are set in the
page-directory entry and, for a 4KB page, in the page-table entry. -/
def userAccessible (p : Paging) (virtAddr : Nat) : Bool :=
  match p.pageDirectory (dirIndex virtAddr) with
  | .empty _ => false
  | .page4MB _ flags => flags.present && flags.user
  | .table t flags =>
      let entry := p.entries t (tableIndex virtAddr)
      flags.present && flags.user && (entry.flags.present && entry.flags.user)

theorem savedPage_lt (t : TermId) : t.val + 1 < 1024 := by
  omega

/-- The entries that `paging_init` and `init_terminal` make. -/
def initTerminal : Paging :=
  let map p (i : TermId) :=
    tableToPageMapping p savedScreensAddr (savedVideoAddr i) ⟨i.val + 1, savedPage_lt i⟩
  map (map (map pagingInit 0) 1) 2

/-! ## The entries with the user bit -/

/-- A page-directory entry with the user bit is the program page, or a table other than
that of the first 4MB, at 136MB or for the saved screens. -/
def UserEntry (i : Fin 1024) : Pde → Prop
  | .empty _ => True
  | .page4MB _ flags => flags.user = true → i = dirIndex programAddr
  | .table t flags => flags.user = true →
      t ≠ .pageTable ∧ (i = dirIndex userVideoAddr ∨ i = dirIndex savedScreensAddr)

/-- The entries of a page table with the user bit are the first four at most. -/
def UserEntries (entries : Fin 1024 → Pte) : Prop :=
  ∀ i, (entries i).flags.user = true → i.val < 4

theorem UserEntries.update {entries : Fin 1024 → Pte} (first : UserEntries entries) {i : Fin 1024}
    (small : i.val < 4) (entry : Pte) : UserEntries (Function.update entries i entry) := by
  intro j user
  by_cases same : j = i
  · exact same ▸ small
  · rw [Function.update_of_ne same] at user
    exact first j user

/-- The entries with the user bit are those of the program page, of the first pages at
136MB and of the saved screens. -/
structure UserPages (p : Paging) : Prop where
  directory : ∀ i, UserEntry i (p.pageDirectory i)
  userTable : UserEntries p.userPageTable
  videoTable : UserEntries p.videoPageTable

/-- The saved screens are mapped for user programs. -/
structure SavedScreens (p : Paging) : Prop where
  directory : p.pageDirectory (dirIndex savedScreensAddr) = .table .userPageTable .userRw
  entry : ∀ t : TermId, (p.userPageTable ⟨t.val + 1, savedPage_lt t⟩).flags = .userRw

theorem UserPages.mapPage {p : Paging} (pages : p.UserPages) {i : Fin 1024} {entry : Pde}
    (allowed : UserEntry i entry) :
    UserPages { p with pageDirectory := Function.update p.pageDirectory i entry } := by
  constructor
  · intro j
    by_cases same : j = i
    · subst same
      simpa using allowed
    · simpa [same] using pages.directory j
  · exact pages.userTable
  · exact pages.videoTable

theorem UserPages.tableToPageMapping {p : Paging} (pages : p.UserPages) {virtAddr physAddr : Nat}
    {curPage : Fin 1024} (small : curPage.val < 4)
    (place : dirIndex virtAddr = dirIndex userVideoAddr ∨
      dirIndex virtAddr = dirIndex savedScreensAddr) :
    (p.tableToPageMapping virtAddr physAddr curPage).UserPages := by
  have entry : UserEntry (dirIndex virtAddr) (.table .userPageTable .userRw) :=
    fun _ => ⟨by decide, place⟩
  have mapped := pages.mapPage entry
  exact ⟨mapped.directory, pages.userTable.update small _, pages.videoTable⟩

theorem userPages_pagingInit : pagingInit.UserPages := by
  constructor
  · intro i
    unfold pagingInit
    dsimp only
    split
    · intro user
      cases user
    split
    · intro user
      cases user
    · trivial
  · intro i user
    cases user
  · intro i user
    cases user

theorem userPages_initTerminal : initTerminal.UserPages := by
  have place : dirIndex savedScreensAddr = dirIndex savedScreensAddr := rfl
  apply UserPages.tableToPageMapping _ (by decide) (.inr place)
  apply UserPages.tableToPageMapping _ (by decide) (.inr place)
  apply UserPages.tableToPageMapping _ (by decide) (.inr place)
  exact userPages_pagingInit

/-- Every call keeps the user bit to these pages. -/
theorem UserPages.call {p : Paging} (pages : p.UserPages) (c : PagingCall) :
    (p.call c).UserPages := by
  cases c with
  | program process => exact pages.mapPage fun _ => rfl
  | userVideo => exact pages.tableToPageMapping (by decide) (.inl rfl)
  | savedVideo t =>
      have entry : UserEntry (dirIndex userVideoAddr) (.table .videoPageTable .userRw) :=
        fun _ => ⟨by decide, .inl rfl⟩
      have mapped := pages.mapPage entry
      exact ⟨mapped.directory, pages.userTable, pages.videoTable.update (by decide) _⟩

theorem savedScreens_initTerminal : initTerminal.SavedScreens := by
  constructor
  · rfl
  · intro t
    revert t
    decide

theorem SavedScreens.mapPage {p : Paging} (saved : p.SavedScreens) {i : Fin 1024} (entry : Pde)
    (other : dirIndex savedScreensAddr ≠ i) :
    SavedScreens { p with pageDirectory := Function.update p.pageDirectory i entry } :=
  ⟨(Function.update_of_ne other entry p.pageDirectory).trans saved.directory, saved.entry⟩

/-- No call takes the saved screens away. -/
theorem SavedScreens.call {p : Paging} (saved : p.SavedScreens) (c : PagingCall) :
    (p.call c).SavedScreens := by
  have video : dirIndex savedScreensAddr ≠ dirIndex userVideoAddr := by decide
  cases c with
  | program process => exact saved.mapPage _ (by decide)
  | userVideo =>
      have behind : ∀ t : TermId, (⟨t.val + 1, savedPage_lt t⟩ : Fin 1024) ≠ 0 := by decide
      have mapped := saved.mapPage (.table .userPageTable .userRw) video
      constructor
      · exact mapped.directory
      · intro t
        have kept := Function.update_of_ne (behind t)
          { base := videoAddr, flags := .userRw } p.userPageTable
        exact (congrArg Pte.flags kept).trans (saved.entry t)
  | savedVideo t =>
      have mapped := saved.mapPage (.table .videoPageTable .userRw) video
      exact ⟨mapped.directory, saved.entry⟩

/-! ## The addresses -/

/-- The program page, the first four pages at 136MB, and the first four at 100MB. -/
def UserRegion (virtAddr : Nat) : Prop :=
  programAddr ≤ virtAddr ∧ virtAddr < programAddr + 0x400000 ∨
    userVideoAddr ≤ virtAddr ∧ virtAddr < userVideoAddr + 0x4000 ∨
    savedScreensAddr ≤ virtAddr ∧ virtAddr < savedScreensAddr + 0x4000

/-- The addresses of a 4MB region. -/
theorem dirIndex_eq_iff (addr base : UInt32) :
    dirIndex addr.toNat = dirIndex base.toNat ↔
      addr.toNat / 0x400000 = base.toNat / 0x400000 := by
  have word := addr.toNat_lt
  have baseWord := base.toNat_lt
  rw [Fin.ext_iff]
  simp only [dirIndex]
  omega

/-- A user program can access no other address. -/
theorem UserPages.region {p : Paging} (pages : p.UserPages) {addr : UInt32}
    (accessible : p.userAccessible addr.toNat = true) : UserRegion addr.toNat := by
  have program := dirIndex_eq_iff addr 0x8000000
  have video := dirIndex_eq_iff addr 0x8800000
  have saved := dirIndex_eq_iff addr 0x6400000
  have allowed := pages.directory (dirIndex addr.toNat)
  have programVal : (0x8000000 : UInt32).toNat = programAddr := rfl
  have videoVal : (0x8800000 : UInt32).toNat = userVideoAddr := rfl
  have savedVal : (0x6400000 : UInt32).toNat = savedScreensAddr := rfl
  rw [programVal, programAddr] at program
  rw [videoVal, userVideoAddr] at video
  rw [savedVal, savedScreensAddr] at saved
  unfold userAccessible at accessible
  unfold UserRegion programAddr userVideoAddr savedScreensAddr
  split at accessible
  · cases accessible
  · rename_i base flags entry
    rw [entry] at allowed
    have here := program.mp (allowed (Bool.and_eq_true_iff.mp accessible).2)
    omega
  · rename_i t flags entry
    rw [entry] at allowed
    rcases Bool.and_eq_true_iff.mp accessible with ⟨directory, tableUser⟩
    rcases allowed (Bool.and_eq_true_iff.mp directory).2 with ⟨notKernel, place⟩
    have user := (Bool.and_eq_true_iff.mp tableUser).2
    have first : (tableIndex addr.toNat).val < 4 := by
      cases t with
      | pageTable => exact absurd rfl notKernel
      | userPageTable => exact pages.userTable _ user
      | videoPageTable => exact pages.videoTable _ user
    simp only [tableIndex] at first
    rcases place with atVideo | atSaved
    · have here := video.mp atVideo
      omega
    · have here := saved.mp atSaved
      omega

/-- A user program can access the saved screen of every terminal. -/
theorem SavedScreens.accessible {p : Paging} (saved : p.SavedScreens) (t : TermId)
    {offset : Nat} (inside : offset < 0x1000) :
    p.userAccessible (savedVideoAddr t + offset) = true := by
  have terms := t.isLt
  have place : dirIndex (savedVideoAddr t + offset) = dirIndex savedScreensAddr := by
    rw [Fin.ext_iff]
    simp only [dirIndex, savedVideoAddr, savedScreensAddr]
    omega
  have page : tableIndex (savedVideoAddr t + offset) = ⟨t.val + 1, savedPage_lt t⟩ := by
    rw [Fin.ext_iff]
    simp only [tableIndex, savedVideoAddr]
    omega
  have entry := saved.entry t
  rw [userAccessible, place, saved.directory]
  dsimp only [entries]
  rw [page, entry]
  rfl

/-- Entries that calls of the mapping routines make of others. -/
def Remapped (p q : Paging) : Prop :=
  ∃ calls : List PagingCall, q = calls.foldl call p

theorem Remapped.refl (p : Paging) : p.Remapped p :=
  ⟨[], rfl⟩

theorem Remapped.trans {p q r : Paging} (first : p.Remapped q) (second : q.Remapped r) :
    p.Remapped r := by
  rcases first with ⟨calls, rfl⟩
  rcases second with ⟨more, rfl⟩
  exact ⟨calls ++ more, List.foldl_append.symm⟩

theorem Remapped.call (p : Paging) (c : PagingCall) : p.Remapped (p.call c) :=
  ⟨[c], rfl⟩

theorem Remapped.userPages {p q : Paging} (remapped : p.Remapped q) (pages : p.UserPages)
    (saved : p.SavedScreens) : q.UserPages ∧ q.SavedScreens := by
  rcases remapped with ⟨calls, rfl⟩
  induction calls generalizing p with
  | nil => exact ⟨pages, saved⟩
  | cons c calls ih => exact ih (pages.call c) (saved.call c)

end Paging

namespace Kernel

open Paging

/-! ## The calls that the kernel makes -/

theorem paging_untouchedByKeys : UntouchedByKeys paging where
  console := fun _ _ => rfl
  screen := fun _ _ _ _ => rfl
  rtcInterruptOccurred := fun _ _ => rfl
  cmos := fun _ _ => rfl
  memory := fun _ _ => rfl
  cpu := fun _ _ => rfl
  keyboard := fun _ _ => rfl
  keyLog := fun _ _ => rfl
  input := fun _ _ _ _ => rfl

theorem paging_untouched : Untouched paging where
  toUntouchedByOutput := paging_untouchedByKeys.toUntouchedByOutput
  fds := fun _ _ _ => rfl
  directoryLoc := fun _ _ => rfl

theorem remapped_startProcess {env : Env} {caller : ExecCaller} {k k' : Kernel} {p : ProcId}
    {console : Console} {program : Command.Program}
    (starts : (k.claimed console p).startProcess env caller p program = some k') :
    k.paging.Remapped k'.paging := by
  rcases Option.map_eq_some_iff.mp starts with ⟨parent, _, rfl⟩
  exact .call k.paging (.program p)

theorem paging_releaseProcess {current : ProcId} {k k' : Kernel}
    (released : k.releaseProcess current = some k') : k'.paging = k.paging := by
  rcases Option.map_eq_some_iff.mp released with ⟨closed, close, rfl⟩
  have loop := paging_untouched.releaseFds close
  exact loop

theorem remapped_halt {env : Env} {k k' : Kernel} {status : UInt8}
    (halts : k.halt env status = some k') : k.paging.Remapped k'.paging := by
  cases halt_cases halts with
  | relaunched _ _ _ _ _ _ _ _ release _ starts =>
      rw [← paging_releaseProcess release]
      have started := remapped_startProcess starts
      exact started
  | resumed _ _ _ _ _ release resumes =>
      rw [← paging_releaseProcess release, resumeParent_eq resumes]
      exact .call _ (.program _)

theorem remapped_pitScheduling {k k' : Kernel} (scheduled : k.pitScheduling = some k') :
    k.paging.Remapped k'.paging := by
  unfold pitScheduling at scheduled
  split at scheduled
  · rcases Option.bind_eq_some_iff.mp scheduled with ⟨next, _, switches⟩
    rcases Option.bind_eq_some_iff.mp switches with ⟨old, _, rest⟩
    dsimp only at rest
    rcases Option.bind_eq_some_iff.mp rest with ⟨loaded, _, done⟩
    cases done
    split
    · exact (Remapped.call k.paging (.program next)).trans (.call _ .userVideo)
    · exact ((Remapped.call k.paging (.program next)).trans (.call _ .userVideo)).trans
        (.call _ (.savedVideo _))
  · cases scheduled
    exact .refl _

theorem remapped_switchTerminal {k k' : Kernel} {termNum : Nat}
    (switches : k.switchTerminal termNum = some k') : k.paging.Remapped k'.paging := by
  cases switchTerminal_cases switches with
  | kept => exact .refl _
  | displayed =>
      split
      · exact .call k.paging .userVideo
      · exact (Remapped.call k.paging .userVideo).trans (.call _ (.savedVideo _))
  | awaits => exact .refl _

/-- Every step of the machine changes the entries by calls of the mapping routines. -/
theorem remapped_step {env : Env} {k k' : Kernel} {event : Event}
    (step : k.step env event = some k') : k.paging.Remapped k'.paging := by
  have stays : k'.paging = k.paging → k.paging.Remapped k'.paging := fun same => same ▸ .refl _
  cases step_cases step with
  | scheduled _ schedules => exact remapped_pitScheduling schedules
  | ignored => exact .refl _
  | pressed _ _ _ _ handled =>
      have kept := paging_untouchedByKeys.handleKeyPress handled
      exact stays kept
  | switched _ _ _ _ switches =>
      have switched := remapped_switchTerminal switches
      exact switched
  | ticked => exact .refl _
  | halted _ _ _ halts => exact remapped_halt halts
  | executed _ _ _ executes =>
      cases executeCall_cases executes with
      | exited _ _ halts => exact remapped_halt halts
      | failed => exact .refl _
      | started _ _ _ _ _ starts =>
          have started := remapped_startProcess starts
          exact started
  | begun _ _ _ _ _ begins => exact stays (paging_untouched.beginRead begins)
  | returned _ _ _ _ returns => exact stays (paging_untouched.returns returns)
  | mapped screenStart =>
      unfold Kernel.vidmap
      split
      · exact .refl _
      · have stored := paging_untouched.storeUser (k := k.mapUserVideo) screenStart userVideoBytes
        exact (Remapped.call k.paging .userVideo).trans (stored ▸ .refl _)
  | readOn _ _ _ _ _ stepped => exact stays (paging_untouchedByKeys.terminalReadStep stepped)
  | rtcReadOn seen => exact stays (paging_untouched.rtcReadStep seen)
  | launched _ _ _ _ launches =>
      rcases launchStep_cases launches with ⟨_, _, _, _, starts⟩ | ⟨_, _, rfl⟩
      · have started := remapped_startProcess starts
        exact started
      · exact .refl _

/-! ## Every run -/

theorem remapped_boot {env : Env} {k start : Kernel} (booted : boot env k = some start) :
    initTerminal.Remapped start.paging := by
  rcases boot_cases booted with ⟨_, _, _, _, starts⟩
  have started := remapped_startProcess starts
  exact started

/-- In every run from the first shell, a user program can access only the program page,
four pages at 136MB and four at 100MB; and it can access the saved screens of all the
terminals. -/
theorem user_pages {env : Env} {k start final : Kernel} {events : List Event}
    (booted : boot env k = some start)
    (reached : run (Kernel.step env) start events = some final) :
    (∀ addr : UInt32, final.paging.userAccessible addr.toNat = true →
        UserRegion addr.toNat) ∧
      ∀ (t : TermId) (offset : Nat), offset < 0x1000 →
        final.paging.userAccessible (savedVideoAddr t + offset) = true := by
  have remapped : initTerminal.Remapped final.paging :=
    run_invariant_always (fun k => initTerminal.Remapped k.paging)
      (fun _ _ _ before step => before.trans (remapped_step step)) (remapped_boot booted) reached
  rcases remapped.userPages userPages_initTerminal savedScreens_initTerminal with ⟨pages, saved⟩
  constructor
  · intro addr accessible
    exact pages.region accessible
  · intro t offset inside
    exact saved.accessible t inside

/-- The first shell maps its screen. -/
def mappedScreenRun : BootRun Env.sample [.vidmap 0x8048000]
    (fun k => k.paging.userAccessible 0x8801000) true :=
  .of (by decide +kernel)

theorem user_pages_sample :
    UserRegion 0x8801000 ∧
      mappedScreenRun.final.paging.userAccessible (savedVideoAddr 2 + 7) = true := by
  rcases mappedScreenRun with ⟨start, final, booted, reached, accessible⟩
  rcases user_pages booted reached with ⟨region, saved⟩
  exact ⟨region 0x8801000 accessible, saved 2 7 (by decide)⟩

/-- At the first shell, the saved screen of the first terminal, behind 100MB, is accessible. -/
theorem savedScreen_accessible :
    ¬ ∀ (env : Env) (k start : Kernel) (addr : UInt32), boot env k = some start →
      start.paging.userAccessible addr.toNat = true →
        programAddr ≤ addr.toNat ∧ addr.toNat < programAddr + 0x400000 ∨
          userVideoAddr ≤ addr.toNat ∧ addr.toNat < userVideoAddr + 0x1000 := by
  intro only
  rcases mappedScreenRun with ⟨start, final, booted, _, _⟩
  have saved := (remapped_boot booted).userPages userPages_initTerminal savedScreens_initTerminal
  have accessible := saved.2.accessible 0 (by decide : 0 < 0x1000)
  have claimed := only Env.sample default start 0x6401000 booted accessible
  revert claimed
  decide

end Kernel

end Ece391Os
