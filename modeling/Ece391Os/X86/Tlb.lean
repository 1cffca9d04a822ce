import Ece391Os.X86.PageWalk
import Mathlib.Data.List.Induction
import Mathlib.Logic.Function.Basic

/-!
# Cached entries of page tables

A processor keeps entries of the page directory and of page tables in its buffers, and may read
any of them, also when memory has another one by now, until the kernel loads CR3.  It fills and
evicts them whenever it likes.
-/

namespace Ece391Os.X86

/-- Memory, and the entries that are cached, with their addresses. -/
structure Mmu where
  memory : Words
  cached : List (Nat × UInt32)

namespace Mmu

/-- What the kernel does: a store to an entry, or to CR3. -/
inductive Op where
  | store (address : Nat) (word : UInt32)
  | loadCr3
  deriving DecidableEq

/-- The kernel goes on, or the processor caches an entry or evicts one. -/
inductive Event where
  | op (o : Op)
  | fill (address : Nat)
  | evict (i : Nat)
  deriving DecidableEq

/-- What a store leaves in memory. -/
def Op.exec (memory : Words) : Op → Words
  | .store address word => Function.update memory address word
  | .loadCr3 => memory

/-- One step.  A store does not reach the cached entries, and CR3 discards all of them. -/
def step (s : Mmu) : Event → Mmu
  | .op (.store address word) => { s with memory := Function.update s.memory address word }
  | .op .loadCr3 => { s with cached := [] }
  | .fill address => { s with cached := (address, s.memory address) :: s.cached }
  | .evict i => { s with cached := s.cached.eraseIdx i }

def run (s : Mmu) (events : List Event) : Mmu :=
  events.foldl step s

/-- What the kernel does in a run. -/
def issued (events : List Event) : List Op :=
  events.filterMap fun
    | .op o => some o
    | .fill _ | .evict _ => none

/-- Words that walks may read: each is the one in memory, or a cached one. -/
def Sees (s : Mmu) (seen : Words) : Prop :=
  ∀ address, seen address = s.memory address ∨ (address, seen address) ∈ s.cached

/-- The processor may translate an address so. -/
def Translates (s : Mmu) (cr3 : Nat) (access : Access) (addr : UInt32) (phys : Option Nat) :
    Prop :=
  ∃ seen, s.Sees seen ∧ walk seen cr3 access addr = phys

/-- Cached entries are those in memory. -/
def Coherent (s : Mmu) : Prop :=
  ∀ address word, (address, word) ∈ s.cached → word = s.memory address

variable {s : Mmu}

theorem memory_run (s : Mmu) (events : List Event) :
    (s.run events).memory = (issued events).foldl Op.exec s.memory := by
  induction events generalizing s with
  | nil => rfl
  | cons event events ih =>
      have rest := ih (s.step event)
      cases event with
      | op o =>
          cases o with
          | store _ _ | loadCr3 => exact rest
      | fill _ | evict _ => exact rest

theorem Coherent.fill (coherent : s.Coherent) (address : Nat) :
    (s.step (.fill address)).Coherent := by
  intro other word inside
  rcases List.mem_cons.mp inside with same | before
  · cases same
    rfl
  · exact coherent other word before

theorem Coherent.evict (coherent : s.Coherent) (i : Nat) : (s.step (.evict i)).Coherent :=
  fun other word inside => coherent other word (List.mem_of_mem_eraseIdx inside)

theorem coherent_loadCr3 (s : Mmu) : (s.step (.op .loadCr3)).Coherent :=
  fun _ _ none => nomatch none

/-- Where the last that the kernel did was to load CR3, the processor sees memory. -/
theorem coherent_run {events : List Event} (last : (issued events).getLast? = some .loadCr3) :
    (s.run events).Coherent := by
  induction events using List.reverseRecOn with
  | nil => cases last
  | append_singleton events event ih =>
      rw [run, List.foldl_append]
      cases event with
      | op o =>
          have flushes : o = .loadCr3 := by simpa [issued] using last
          subst flushes
          exact coherent_loadCr3 _
      | fill address =>
          have before : (issued events).getLast? = some .loadCr3 := by simpa [issued] using last
          exact (ih before).fill address
      | evict i =>
          have before : (issued events).getLast? = some .loadCr3 := by simpa [issued] using last
          exact (ih before).evict i

/-- The translations of a coherent state are those of memory. -/
theorem Coherent.translates (coherent : s.Coherent) {cr3 : Nat} {access : Access} {addr : UInt32}
    {phys : Option Nat} (translates : s.Translates cr3 access addr phys) :
    phys = walk s.memory cr3 access addr := by
  rcases translates with ⟨seen, sees, rfl⟩
  have same : seen = s.memory := by
    funext address
    rcases sees address with memory | cached
    · exact memory
    · exact coherent address _ cached
  rw [same]

/-! ## Entries that the kernel leaves as they are -/

/-- An entry has a word, in memory and wherever it is cached. -/
structure Steady (s : Mmu) (address : Nat) (word : UInt32) : Prop where
  memory : s.memory address = word
  cached : ∀ other, (address, other) ∈ s.cached → other = word

/-- An operation that stores no other word to an entry. -/
def Op.Leaves (address : Nat) (word : UInt32) : Op → Prop
  | .store other stored => other = address → stored = word
  | .loadCr3 => True

variable {address : Nat} {word : UInt32}

theorem Steady.step (steady : s.Steady address word) (event : Event)
    (leaves : ∀ o, event = .op o → o.Leaves address word) :
    (s.step event).Steady address word := by
  rcases steady with ⟨memory, cached⟩
  cases event with
  | op o =>
      have left := leaves o rfl
      cases o with
      | loadCr3 => exact ⟨memory, fun _ none => nomatch none⟩
      | store other stored =>
          refine ⟨?_, cached⟩
          by_cases here : other = address
          · subst here
            exact (Function.update_self _ _ _).trans (left rfl)
          · exact (Function.update_of_ne (Ne.symm here) _ _).trans memory
  | fill filled =>
      refine ⟨memory, fun other inside => ?_⟩
      rcases List.mem_cons.mp inside with same | before
      · cases same
        exact memory
      · exact cached other before
  | evict i => exact ⟨memory, fun other inside => cached other (List.mem_of_mem_eraseIdx inside)⟩

/-- An entry that the kernel stores no other word to is steady throughout a run. -/
theorem Steady.run (steady : s.Steady address word) {events : List Event}
    (leaves : ∀ o ∈ issued events, o.Leaves address word) :
    (s.run events).Steady address word := by
  induction events generalizing s with
  | nil => exact steady
  | cons event events ih =>
      refine ih (steady.step event ?_) ?_
      · rintro o rfl
        exact leaves o List.mem_cons_self
      · intro o later
        refine leaves o ?_
        cases event with
        | op first => exact List.mem_cons_of_mem first later
        | fill _ | evict _ => exact later

/-- Whatever the processor reads, it reads the word of a steady entry. -/
theorem Steady.sees (steady : s.Steady address word) {seen : Words} (sees : s.Sees seen) :
    seen address = word := by
  rcases sees address with memory | cached
  · exact memory.trans steady.memory
  · exact steady.cached _ cached

end Mmu

end Ece391Os.X86
