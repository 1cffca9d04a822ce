import Ece391Os.Memory.Loops
import Ece391Os.Process.UserPages
import Ece391Os.X86.PageWalk

/-!
# The words of the page tables

`paging.c` with its entries as the processor reads them: 32-bit words in the arrays that the
linker places, a base address and attributes in each.  The entries of the kernel state are
what these words stand for, and what the processor makes of an address is what they say.
-/

namespace Ece391Os

open Memory X86 Transition

/-! ## Words -/

/-- The attribute bits of an entry. -/
def PageFlags.word (flags : PageFlags) : UInt32 :=
  UInt32.ofNat (flags.present.toNat + 2 * flags.writable.toNat + 4 * flags.user.toNat)

/-- An access that the attributes allow. -/
def PageFlags.allow (flags : PageFlags) (access : Access) : Bool :=
  flags.present && (!access.user || flags.user) &&
    (!(access.user && access.write) || flags.writable)

namespace PageFlags

theorem word_small (flags : PageFlags) : flags.word.toNat < 8 := by
  rcases flags with ⟨present, writable, user⟩
  revert present writable user
  decide

theorem allows_word (flags : PageFlags) (access : Access) :
    Entry.allows flags.word access = flags.allow access := by
  rcases flags with ⟨present, writable, user⟩
  rcases access with ⟨byUser, write⟩
  revert present writable user byUser write
  decide

/-- The page-size bit does not count for what an entry allows. -/
theorem allows_large (flags : PageFlags) (access : Access) :
    Entry.allows (0x80 ||| flags.word) access = flags.allow access := by
  rcases flags with ⟨present, writable, user⟩
  rcases access with ⟨byUser, write⟩
  revert present writable user byUser write
  decide

theorem large_word (flags : PageFlags) :
    Entry.bit flags.word 7 = false ∧ Entry.bit (0x80 ||| flags.word) 7 = true ∧
      (0x80 ||| flags.word).toNat < 0x1000 := by
  rcases flags with ⟨present, writable, user⟩
  revert present writable user
  decide

end PageFlags

/-- Where the linker places `page_directory`, named by `none`, and the page tables: aligned
to `ALIGN_BITS`, apart, and in the 4MB of the kernel. -/
structure PageArrays where
  address : Option PageTable → Nat
  aligned : ∀ array, address array % 0x1000 = 0
  apart : Function.Injective address
  inKernel : ∀ array, 0x400000 ≤ address array ∧ address array < 0x800000

namespace PageArrays

variable (arrays : PageArrays)

/-- The address of an element of an array. -/
def entry (array : Option PageTable) (i : Fin 1024) : Nat :=
  arrays.address array + 4 * i.val

variable {arrays}

theorem entry_inj {a b : Option PageTable} {i j : Fin 1024}
    (same : arrays.entry a i = arrays.entry b j) : a = b ∧ i = j := by
  have alignedA := arrays.aligned a
  have alignedB := arrays.aligned b
  simp only [entry] at same
  have addresses : arrays.address a = arrays.address b := by omega
  exact ⟨arrays.apart addresses, Fin.ext (by omega)⟩

end PageArrays

/-- The word of a page-directory entry. -/
def Pde.word (arrays : PageArrays) : Pde → UInt32
  | .page4MB base flags => UInt32.ofNat base ||| (0x80 ||| flags.word)
  | .table t flags => UInt32.ofNat (arrays.address (some t)) ||| flags.word
  | .empty flags => flags.word

/-- The word of a page-table entry. -/
def Pte.word (entry : Pte) : UInt32 :=
  UInt32.ofNat entry.base ||| entry.flags.word

/-- The words that the entries stand for. -/
def Paging.words (p : Paging) (arrays : PageArrays) : Option PageTable → Fin 1024 → UInt32
  | none, i => (p.pageDirectory i).word arrays
  | some t, i => (p.entries t i).word

/-- Memory holds the words of the entries. -/
def PageArrays.Holds (arrays : PageArrays) (memory : Words) (p : Paging) : Prop :=
  ∀ array i, memory (arrays.entry array i) = p.words arrays array i

/-! ## The routines of `paging.c` -/

namespace PageWords

variable (arrays : PageArrays)

/-- Store to an element of an array. -/
def store (memory : Words) (array : Option PageTable) (i : Fin 1024) (word : UInt32) : Words :=
  Function.update memory (arrays.entry array i) word

/-- The directory index of an address. -/
def dirEntry (virtAddr : UInt32) : Fin 1024 :=
  Paging.dirIndex virtAddr.toNat

/-- `paging_init()`. -/
def pagingInit (memory : Words) : Words :=
  let directory := loop 1024 (fun i memory => store arrays memory none (Fin.ofNat 1024 i) 2) memory
  let table := loop 1024
    (fun i memory => store arrays memory (some .pageTable) (Fin.ofNat 1024 i)
      (if 0xB8 ≤ i ∧ i ≤ 0xB8 + 3 then UInt32.ofNat i * 0x1000 ||| 3
        else UInt32.ofNat i * 0x1000 ||| 2)) directory
  let first := store arrays table none 0 (UInt32.ofNat (arrays.address (some .pageTable)) ||| 3)
  store arrays first none 1 0x00400083

/-- `page_remap(virt_addr, phys_addr)`. -/
def pageRemap (memory : Words) (virtAddr physAddr : UInt32) : Words :=
  store arrays memory none (dirEntry virtAddr) (physAddr ||| 0x87)

/-- `table_to_page_mapping(virt_addr, phys_addr, cur_page)`. -/
def tableToPageMapping (memory : Words) (virtAddr physAddr : UInt32) (curPage : Fin 1024) :
    Words :=
  let directory := store arrays memory none (dirEntry virtAddr)
    (UInt32.ofNat (arrays.address (some .userPageTable)) ||| 7)
  store arrays directory (some .userPageTable) curPage (physAddr ||| 7)

/-- `table_remap(virt_addr, phys_addr)`. -/
def tableRemap (memory : Words) (virtAddr physAddr : UInt32) : Words :=
  let directory := store arrays memory none (dirEntry virtAddr)
    (UInt32.ofNat (arrays.address (some .userPageTable)) ||| 7)
  store arrays directory (some .userPageTable) 0 (physAddr ||| 7)

/-- `vidmem_remap(virt_addr, phys_addr)`. -/
def vidmemRemap (memory : Words) (virtAddr physAddr : UInt32) : Words :=
  let directory := store arrays memory none (dirEntry virtAddr)
    (UInt32.ofNat (arrays.address (some .videoPageTable)) ||| 7)
  store arrays directory (some .videoPageTable) 0 (physAddr ||| 7)

/-- A call of a mapping routine on the words. -/
def call (memory : Words) : PagingCall → Words
  | .program p => pageRemap arrays memory 0x8000000 (0x800000 + UInt32.ofNat p.val * 0x400000)
  | .userVideo => tableRemap arrays memory 0x8800000 0xB8000
  | .savedVideo t =>
      vidmemRemap arrays memory 0x8800000 (0x6400000 + (UInt32.ofNat t.val + 1) * 0x1000)

/-- The words that `paging_init` and `init_terminal` store. -/
def initTerminal (memory : Words) : Words :=
  let map memory (i : TermId) :=
    tableToPageMapping arrays memory 0x6400000 (0x6400000 + (UInt32.ofNat i.val + 1) * 0x1000)
      ⟨i.val + 1, Paging.savedPage_lt i⟩
  map (map (map (pagingInit arrays memory) 0) 1) 2

/-! ## The words stand for the entries -/

variable {arrays}

theorem store_eq (memory : Words) (array : Option PageTable) (i : Fin 1024) (word : UInt32)
    (other : Option PageTable) (j : Fin 1024) :
    store arrays memory array i word (arrays.entry other j) =
      if other = array ∧ j = i then word else memory (arrays.entry other j) := by
  split
  · rename_i same
    rw [same.1, same.2]
    exact Function.update_self _ _ _
  · rename_i differs
    apply Function.update_of_ne
    exact fun same => differs (PageArrays.entry_inj same)

/-- One entry and one word change. -/
theorem holds_store {memory : Words} {p p' : Paging} (holds : arrays.Holds memory p)
    {array : Option PageTable} {i : Fin 1024} {word : UInt32}
    (changes : ∀ other j, p'.words arrays other j =
      if other = array ∧ j = i then word else p.words arrays other j) :
    arrays.Holds (store arrays memory array i word) p' := by
  intro other j
  rw [store_eq, changes, holds other j]

theorem holds_directory {memory : Words} {p : Paging} (holds : arrays.Holds memory p)
    (i : Fin 1024) {entry : Pde} {word : UInt32} (same : word = entry.word arrays) :
    arrays.Holds (store arrays memory none i word)
      { p with pageDirectory := Function.update p.pageDirectory i entry } := by
  refine holds_store holds fun other j => ?_
  cases other with
  | none => by_cases here : j = i <;> simp [Paging.words, here, same]
  | some t => cases t <;> simp [Paging.words, Paging.entries]

/-- One entry of a page table and its word change. -/
theorem holds_table {memory : Words} {p p' : Paging} (holds : arrays.Holds memory p)
    {t : PageTable} {i : Fin 1024} {entry : Pte} {word : UInt32} (same : word = entry.word)
    (directory : p'.pageDirectory = p.pageDirectory)
    (tables : ∀ u, p'.entries u =
      if u = t then Function.update (p.entries u) i entry else p.entries u) :
    arrays.Holds (store arrays memory (some t) i word) p' := by
  refine holds_store holds fun other j => ?_
  cases other with
  | none => simp [Paging.words, directory]
  | some u =>
      by_cases here : u = t
      · by_cases index : j = i <;> simp [Paging.words, tables, here, index, same]
      · simp [Paging.words, tables, here]

/-- Attributes that the source ors in one constant. -/
theorem word_userRw : PageFlags.userRw.word = 7 ∧ (0x80 ||| PageFlags.userRw.word) = 0x87 := by
  decide

theorem holds_pageRemap {memory : Words} {p : Paging} (holds : arrays.Holds memory p)
    (virtAddr physAddr : UInt32) :
    arrays.Holds (pageRemap arrays memory virtAddr physAddr)
      (p.pageRemap virtAddr.toNat physAddr.toNat) := by
  refine holds_directory holds _ ?_
  rw [Pde.word, word_userRw.2, UInt32.ofNat_toNat]

/-- The word of an entry for a page table. -/
theorem word_table (t : PageTable) :
    UInt32.ofNat (arrays.address (some t)) ||| 7 = (Pde.table t .userRw).word arrays := by
  rw [Pde.word, word_userRw.1]

theorem word_page (physAddr : UInt32) :
    physAddr ||| 7 = (Pte.mk physAddr.toNat .userRw).word := by
  rw [Pte.word, word_userRw.1, UInt32.ofNat_toNat]

theorem holds_tableToPageMapping {memory : Words} {p : Paging} (holds : arrays.Holds memory p)
    (virtAddr physAddr : UInt32) (curPage : Fin 1024) :
    arrays.Holds (tableToPageMapping arrays memory virtAddr physAddr curPage)
      (p.tableToPageMapping virtAddr.toNat physAddr.toNat curPage) :=
  holds_table (holds_directory holds _ (word_table _)) (word_page _) rfl
    fun u => by cases u <;> rfl

theorem holds_tableRemap {memory : Words} {p : Paging} (holds : arrays.Holds memory p)
    (virtAddr physAddr : UInt32) :
    arrays.Holds (tableRemap arrays memory virtAddr physAddr)
      (p.tableRemap virtAddr.toNat physAddr.toNat) :=
  holds_tableToPageMapping holds virtAddr physAddr 0

theorem holds_vidmemRemap {memory : Words} {p : Paging} (holds : arrays.Holds memory p)
    (virtAddr physAddr : UInt32) :
    arrays.Holds (vidmemRemap arrays memory virtAddr physAddr)
      (p.vidmemRemap virtAddr.toNat physAddr.toNat) :=
  holds_table (holds_directory holds _ (word_table _)) (word_page _) rfl
    fun u => by cases u <;> rfl

/-- A call changes the words as it changes the entries. -/
theorem holds_call {memory : Words} {p : Paging} (holds : arrays.Holds memory p)
    (c : PagingCall) : arrays.Holds (call arrays memory c) (p.call c) := by
  cases c with
  | program q =>
      have frame : (0x800000 + UInt32.ofNat q.val * 0x400000 : UInt32).toNat = programFrame q := by
        revert q
        decide
      have remapped := holds_pageRemap holds 0x8000000 (0x800000 + UInt32.ofNat q.val * 0x400000)
      rw [frame] at remapped
      exact remapped
  | userVideo => exact holds_tableRemap holds 0x8800000 0xB8000
  | savedVideo t =>
      have page : (0x6400000 + (UInt32.ofNat t.val + 1) * 0x1000 : UInt32).toNat =
          savedVideoAddr t := by
        revert t
        decide
      have remapped := holds_vidmemRemap holds 0x8800000
        (0x6400000 + (UInt32.ofNat t.val + 1) * 0x1000)
      rw [page] at remapped
      exact remapped

/-- The tables that `paging_init` leaves as they are, zeroed at the start of the kernel. -/
def Zeroed (arrays : PageArrays) (memory : Words) : Prop :=
  ∀ i, memory (arrays.entry (some .userPageTable) i) = 0 ∧
    memory (arrays.entry (some .videoPageTable) i) = 0

/-- A loop that stores to the elements of an array from the first one on. -/
theorem loop_store (memory : Words) (array : Option PageTable) (words : Nat → UInt32)
    {count : Nat} (inside : count ≤ 1024) (other : Option PageTable) (j : Fin 1024) :
    loop count (fun i memory => store arrays memory array (Fin.ofNat 1024 i) (words i)) memory
        (arrays.entry other j) =
      if other = array ∧ j.val < count then words j.val else memory (arrays.entry other j) := by
  refine loop_invariant (fun n (state : Words) => state (arrays.entry other j) =
    if other = array ∧ j.val < n then words j.val else memory (arrays.entry other j)) ?_ ?_
  · simp
  · intro i below state before
    have index : j = Fin.ofNat 1024 i ↔ j.val = i := by
      have value : (Fin.ofNat 1024 i).val = i := Nat.mod_eq_of_lt (by omega)
      rw [Fin.ext_iff, value]
    rw [store_eq, before]
    simp only [index]
    by_cases here : j.val = i
    · subst here
      simp
    · have bound : j.val < i + 1 ↔ j.val < i := by omega
      simp [here, bound]

theorem holds_pagingInit {memory : Words} (zeroed : Zeroed arrays memory) :
    arrays.Holds (pagingInit arrays memory) Paging.pagingInit := by
  intro array i
  have inside := i.isLt
  unfold pagingInit
  rw [store_eq, store_eq, loop_store _ _ _ (Nat.le_refl _),
    loop_store _ _ (fun _ => 2) (Nat.le_refl _)]
  cases array with
  | none =>
      by_cases second : i = 1
      · subst second
        rfl
      by_cases first : i = 0
      · subst first
        have attributes : PageFlags.kernelRw.word = 3 := by decide
        simp [Paging.words, Paging.pagingInit, Pde.word, attributes]
      have attributes : PageFlags.absent.word = 2 := by decide
      simp [Paging.words, Paging.pagingInit, Pde.word, attributes, first, second]
  | some t =>
      have zero : (Pte.mk 0 PageFlags.none).word = 0 := by decide
      cases t with
      | pageTable =>
          have base : UInt32.ofNat i.val * 0x1000 = UInt32.ofNat (i.val * 0x1000) := by
            rw [UInt32.ofNat_mul]
            rfl
          have present : PageFlags.kernelRw.word = 3 := by decide
          have absent : PageFlags.absent.word = 2 := by decide
          have words : Paging.words Paging.pagingInit arrays (some .pageTable) i =
              if 0xB8 ≤ i.val ∧ i.val ≤ 0xB8 + 3 then UInt32.ofNat i.val * 0x1000 ||| 3
              else UInt32.ofNat i.val * 0x1000 ||| 2 := by
            simp only [Paging.words, Paging.entries, Paging.pagingInit, Pte.word, base]
            split
            · rw [present]
            · rw [absent]
          rw [words]
          simp
      | userPageTable => simp [Paging.words, Paging.entries, Paging.pagingInit, zero, (zeroed i).1]
      | videoPageTable => simp [Paging.words, Paging.entries, Paging.pagingInit, zero, (zeroed i).2]

theorem holds_initTerminal {memory : Words} (zeroed : Zeroed arrays memory) :
    arrays.Holds (initTerminal arrays memory) Paging.initTerminal := by
  have map : ∀ {memory : Words} {p : Paging} (i : TermId), arrays.Holds memory p →
      arrays.Holds (tableToPageMapping arrays memory 0x6400000
        (0x6400000 + (UInt32.ofNat i.val + 1) * 0x1000) ⟨i.val + 1, Paging.savedPage_lt i⟩)
        (p.tableToPageMapping savedScreensAddr (savedVideoAddr i)
          ⟨i.val + 1, Paging.savedPage_lt i⟩) := by
    intro memory p i holds
    have page : (0x6400000 + (UInt32.ofNat i.val + 1) * 0x1000 : UInt32).toNat =
        savedVideoAddr i := by
      revert i
      decide
    have mapped := holds_tableToPageMapping holds 0x6400000
      (0x6400000 + (UInt32.ofNat i.val + 1) * 0x1000) ⟨i.val + 1, Paging.savedPage_lt i⟩
    rw [page] at mapped
    exact mapped
  exact map 2 (map 1 (map 0 (holds_pagingInit zeroed)))

end PageWords

/-! ## What the processor makes of an address -/

/-- The base address of an entry fits its word; an entry that is neither a page nor a table is
not present. -/
def Pde.Fits : Pde → Prop
  | .page4MB base _ => base % 0x400000 = 0 ∧ base < 2 ^ 32
  | .table _ _ => True
  | .empty flags => flags.present = false

namespace Paging

/-- The base addresses fit their words. -/
structure Fits (p : Paging) : Prop where
  directory : ∀ i, (p.pageDirectory i).Fits
  entries : ∀ t i, (p.entries t i).base % 0x1000 = 0 ∧ (p.entries t i).base < 2 ^ 32

/-- The physical address that the entries give to an access. -/
def translate (p : Paging) (access : Access) (addr : Nat) : Option Nat :=
  match p.pageDirectory (dirIndex addr) with
  | .empty _ => none
  | .page4MB base flags => if flags.allow access then some (base + addr % 0x400000) else none
  | .table t flags =>
      let entry := p.entries t (tableIndex addr)
      if flags.allow access && entry.flags.allow access then
        some (entry.base + addr % 0x1000)
      else
        none

/-- The walk over the words gives what the entries say. -/
theorem walk_eq {arrays : PageArrays} {memory : Words} {p : Paging}
    (holds : arrays.Holds memory p) (fits : p.Fits) (access : Access) (addr : UInt32) :
    walk memory (arrays.address none) access addr = p.translate access addr.toNat := by
  have word := addr.toNat_lt
  have dirEq : arrays.address none + 4 * (addr.toNat / 0x400000) =
      arrays.entry none (dirIndex addr.toNat) := by
    simp only [PageArrays.entry, dirIndex]
    omega
  have fitsDir := fits.directory (dirIndex addr.toNat)
  unfold walk Paging.translate
  rw [dirEq, holds none (dirIndex addr.toNat)]
  dsimp only [Paging.words]
  cases entry : p.pageDirectory (dirIndex addr.toNat) with
  | empty flags =>
      rw [entry] at fitsDir
      have absent : flags.allow access = false := by
        rw [PageFlags.allow, show flags.present = false from fitsDir]
        rfl
      simp only [Pde.word, PageFlags.allows_word, absent]
      rfl
  | page4MB base flags =>
      rw [entry] at fitsDir
      rcases fitsDir with ⟨aligned, small⟩
      have base' : (UInt32.ofNat base).toNat = base := UInt32.toNat_ofNat_of_lt' small
      have aligned4KB : (UInt32.ofNat base).toNat % 0x1000 = 0 := by omega
      have aligned4MB : (UInt32.ofNat base).toNat % 0x400000 = 0 := by omega
      have size := flags.large_word
      simp only [Pde.word, Entry.allows_or aligned4KB, PageFlags.allows_large,
        Entry.bit_or aligned4KB (by decide : 7 < 12), size.2.1, if_true,
        Entry.page4MB_or aligned4MB size.2.2, base']
      cases flags.allow access <;> rfl
  | table t flags =>
      have aligned := arrays.aligned (some t)
      have inKernel := arrays.inKernel (some t)
      have base : (UInt32.ofNat (arrays.address (some t))).toNat = arrays.address (some t) :=
        UInt32.toNat_ofNat_of_lt' (by change _ < 2 ^ 32; omega)
      have aligned' : (UInt32.ofNat (arrays.address (some t))).toNat % 0x1000 = 0 := by omega
      have size := flags.large_word
      have small : flags.word.toNat < 0x1000 := by
        have := flags.word_small
        omega
      have tableEq : arrays.address (some t) + 4 * (addr.toNat / 0x1000 % 1024) =
          arrays.entry (some t) (tableIndex addr.toNat) := rfl
      simp only [Pde.word, Entry.allows_or aligned', PageFlags.allows_word,
        Entry.bit_or aligned' (by decide : 7 < 12), size.1, Entry.page4KB_or aligned' small, base,
        tableEq, holds (some t) (tableIndex addr.toNat), Paging.words]
      rcases fits.entries t (tableIndex addr.toNat) with ⟨alignedPage, smallPage⟩
      generalize p.entries t (tableIndex addr.toNat) = pte at alignedPage smallPage
      have page : (UInt32.ofNat pte.base).toNat = pte.base := UInt32.toNat_ofNat_of_lt' smallPage
      have alignedPage' : (UInt32.ofNat pte.base).toNat % 0x1000 = 0 := by omega
      have smallFlags : pte.flags.word.toNat < 0x1000 := by
        have := pte.flags.word_small
        omega
      simp only [Pte.word, Entry.allows_or alignedPage', PageFlags.allows_word,
        Entry.page4KB_or alignedPage' smallFlags, page]
      cases flags.allow access <;> rfl

/-! ## The pages of user programs -/

/-- The pages that show screens: video memory and the saved screens. -/
def ScreenPage (base : Nat) : Prop :=
  base = videoAddr ∨ ∃ t, base = savedVideoAddr t

/-- User programs have the frame of a process and the pages that show screens, and the kernel
has its own 4MB. -/
structure Confined (p : Paging) : Prop where
  fits : p.Fits
  kernel : p.pageDirectory 1 = .page4MB 0x400000 .kernelRw
  program : ∀ i base flags, p.pageDirectory i = .page4MB base flags → flags.user = true →
    i = dirIndex programAddr ∧ flags = .userRw ∧ ∃ q, base = programFrame q
  tables : ∀ i t flags, p.pageDirectory i = .table t flags → flags.user = true → t ≠ .pageTable
  screens : ∀ t i, t ≠ .pageTable → (p.entries t i).flags.user = true →
    ScreenPage (p.entries t i).base

namespace Confined

variable {p : Paging} (confined : p.Confined)
include confined

/-- The program page is mapped to the frame of a process. -/
theorem pageRemap (q : ProcId) : (p.pageRemap programAddr (programFrame q)).Confined := by
  have directory : ∀ i, (p.pageRemap programAddr (programFrame q)).pageDirectory i =
      if i = dirIndex programAddr then .page4MB (programFrame q) .userRw
      else p.pageDirectory i := fun i => Function.update_apply _ _ _ i
  refine ⟨⟨fun i => ?_, confined.fits.entries⟩, ?_, ?_, ?_, confined.screens⟩
  · rw [directory]
    split
    · have small := q.isLt
      simp only [Pde.Fits, programFrame]
      omega
    · exact confined.fits.directory i
  · rw [directory, if_neg (by decide)]
    exact confined.kernel
  · intro i base flags entry user
    rw [directory] at entry
    split at entry
    · rename_i here
      cases entry
      exact ⟨here, rfl, q, rfl⟩
    · exact confined.program i base flags entry user
  · intro i t flags entry user
    rw [directory] at entry
    split at entry
    · cases entry
    · exact confined.tables i t flags entry user

/-- A table other than that of the first 4MB is mapped outside the 4MB of the kernel. -/
theorem mapTable {i : Fin 1024} (other : i ≠ 1) {t : PageTable} (notKernel : t ≠ .pageTable) :
    Confined { p with pageDirectory := Function.update p.pageDirectory i (.table t .userRw) } := by
  have directory : ∀ j, Function.update p.pageDirectory i (.table t .userRw) j =
      if j = i then .table t .userRw else p.pageDirectory j :=
    fun j => Function.update_apply _ _ _ j
  refine ⟨⟨fun j => ?_, fun t i => confined.fits.entries t i⟩, ?_, ?_, ?_,
    fun t i => confined.screens t i⟩
  · dsimp only
    rw [directory]
    split
    · trivial
    · exact confined.fits.directory j
  · dsimp only
    rw [directory, if_neg other.symm]
    exact confined.kernel
  · intro j base flags entry user
    dsimp only at entry
    rw [directory] at entry
    split at entry
    · cases entry
    · exact confined.program j base flags entry user
  · intro j t' flags entry user
    dsimp only at entry
    rw [directory] at entry
    split at entry
    · cases entry
      exact notKernel
    · exact confined.tables j t' flags entry user

/-- Entries of the other tables are assigned pages that show screens. -/
theorem setEntries {q : Paging} (same : q.pageDirectory = p.pageDirectory)
    (entries : ∀ t i, q.entries t i = p.entries t i ∨
      ∃ base, q.entries t i = { base := base, flags := .userRw } ∧ ScreenPage base) :
    q.Confined := by
  refine ⟨⟨?_, fun t i => ?_⟩, ?_, ?_, ?_, fun t i notKernel user => ?_⟩
  · rw [same]
    exact confined.fits.directory
  · rcases entries t i with kept | ⟨base, assigned, screen⟩
    · rw [kept]
      exact confined.fits.entries t i
    · rw [assigned]
      rcases screen with rfl | ⟨u, rfl⟩
      · exact ⟨by decide, by decide⟩
      · have small := u.isLt
        simp only [savedVideoAddr]
        omega
  · rw [same]
    exact confined.kernel
  · rw [same]
    exact confined.program
  · rw [same]
    exact confined.tables
  · rcases entries t i with kept | ⟨base, assigned, screen⟩
    · rw [kept] at user ⊢
      exact confined.screens t i notKernel user
    · rw [assigned]
      exact screen

theorem tableToPageMapping {virtAddr physAddr : Nat} (other : dirIndex virtAddr ≠ 1)
    (screen : ScreenPage physAddr) (curPage : Fin 1024) :
    (p.tableToPageMapping virtAddr physAddr curPage).Confined := by
  refine (confined.mapTable other (t := .userPageTable) (by decide)).setEntries rfl fun t i => ?_
  cases t with
  | userPageTable =>
      by_cases here : i = curPage
      · exact .inr ⟨physAddr, by simp [Paging.tableToPageMapping, entries, here], screen⟩
      · exact .inl (by simp [Paging.tableToPageMapping, entries, here])
  | _ => exact .inl rfl

theorem vidmemRemap {virtAddr physAddr : Nat} (other : dirIndex virtAddr ≠ 1)
    (screen : ScreenPage physAddr) : (p.vidmemRemap virtAddr physAddr).Confined := by
  refine (confined.mapTable other (t := .videoPageTable) (by decide)).setEntries rfl fun t i => ?_
  cases t with
  | videoPageTable =>
      by_cases here : i = 0
      · exact .inr ⟨physAddr, by simp [Paging.vidmemRemap, entries, here], screen⟩
      · exact .inl (by simp [Paging.vidmemRemap, entries, here])
  | _ => exact .inl rfl

theorem call (c : PagingCall) : (p.call c).Confined := by
  cases c with
  | program q => exact confined.pageRemap q
  | userVideo => exact confined.tableToPageMapping (by decide) (.inl rfl) 0
  | savedVideo t => exact confined.vidmemRemap (by decide) (.inr ⟨t, rfl⟩)

end Confined

theorem confined_pagingInit : pagingInit.Confined := by
  have directory : ∀ i, pagingInit.pageDirectory i =
      if i = 0 then .table .pageTable .kernelRw
      else if i = 1 then .page4MB 0x400000 .kernelRw else .empty .absent := fun _ => rfl
  refine ⟨⟨fun i => ?_, fun t i => ?_⟩, rfl, ?_, ?_, ?_⟩
  · rw [directory]
    split
    · trivial
    split
    · exact ⟨by decide, by decide⟩
    · rfl
  · have small := i.isLt
    cases t with
    | pageTable =>
        simp only [entries, pagingInit]
        omega
    | _ => exact ⟨rfl, by change 0 < 2 ^ 32; decide⟩
  · intro i base flags entry user
    rw [directory] at entry
    split at entry
    · cases entry
    split at entry
    · cases entry
      cases user
    · cases entry
  · intro i t flags entry user
    rw [directory] at entry
    split at entry
    · cases entry
      cases user
    split at entry <;> cases entry
  · intro t i notKernel user
    cases t with
    | pageTable => exact absurd rfl notKernel
    | _ => cases user

theorem confined_initTerminal : initTerminal.Confined := by
  have map : ∀ {p : Paging} (t : TermId), p.Confined →
      (p.tableToPageMapping savedScreensAddr (savedVideoAddr t)
        ⟨t.val + 1, savedPage_lt t⟩).Confined :=
    fun t confined => confined.tableToPageMapping (by decide) (.inr ⟨t, rfl⟩) _
  exact map 2 (map 1 (map 0 confined_pagingInit))

theorem Confined.calls {p : Paging} (confined : p.Confined) (calls : List PagingCall) :
    (calls.foldl Paging.call p).Confined := by
  induction calls generalizing p with
  | nil => exact confined
  | cons c calls ih => exact ih (confined.call c)

/-- The words after a list of calls stand for the entries after it. -/
theorem holds_calls {arrays : PageArrays} {memory : Words} {p : Paging}
    (holds : arrays.Holds memory p) (calls : List PagingCall) :
    arrays.Holds (calls.foldl (PageWords.call arrays) memory) (calls.foldl Paging.call p) := by
  induction calls generalizing memory p with
  | nil => exact holds
  | cons c calls ih => exact ih (PageWords.holds_call holds c)

/-- The frame of a process. -/
def InFrame (p : ProcId) (phys : Nat) : Prop :=
  programFrame p ≤ phys ∧ phys < programFrame p + 0x400000

/-- A page that shows a screen. -/
def InScreens (phys : Nat) : Prop :=
  ∃ base, ScreenPage base ∧ base ≤ phys ∧ phys < base + 0x1000

/-- What a user program reaches, whatever its access. -/
theorem Confined.reaches {p : Paging} (confined : p.Confined) {addr phys : Nat} {write : Bool}
    (translated : p.translate { user := true, write := write } addr = some phys) :
    (∃ q, p.pageDirectory (dirIndex programAddr) = .page4MB (programFrame q) .userRw ∧
      InFrame q phys) ∨ InScreens phys := by
  have userOf : ∀ flags : PageFlags, flags.allow { user := true, write := write } = true →
      flags.user = true := by
    intro flags allowed
    simp only [PageFlags.allow, Bool.and_eq_true, Bool.or_eq_true, Bool.not_true] at allowed
    exact allowed.1.2.resolve_left (by decide)
  unfold Paging.translate at translated
  split at translated
  · cases translated
  · rename_i base flags entry
    rcases Option.ite_none_right_eq_some.mp translated with ⟨allowed, reached⟩
    rcases confined.program _ _ _ entry (userOf _ allowed) with ⟨here, rfl, q, rfl⟩
    rw [here] at entry
    cases reached
    refine .inl ⟨q, entry, ?_⟩
    have offset := Nat.mod_lt addr (by decide : 0x400000 > 0)
    exact ⟨Nat.le_add_right _ _, Nat.add_lt_add_left offset _⟩
  · rename_i t flags entry
    rcases Option.ite_none_right_eq_some.mp translated with ⟨allowed, reached⟩
    rcases Bool.and_eq_true_iff.mp allowed with ⟨directory, table⟩
    have notKernel := confined.tables _ _ _ entry (userOf _ directory)
    have screen := confined.screens t _ notKernel (userOf _ table)
    cases reached
    refine .inr ⟨_, screen, Nat.le_add_right _ _, ?_⟩
    have offset := Nat.mod_lt addr (by decide : 0x1000 > 0)
    exact Nat.add_lt_add_left offset _

/-- The frames of processes, the pages that show screens and the 4MB of the kernel do not
overlap. -/
theorem inFrame_apart {p : ProcId} {phys : Nat} (inFrame : InFrame p phys) :
    0x800000 ≤ phys ∧ ¬ InScreens phys ∧ ∀ q, InFrame q phys → q = p := by
  have small := p.isLt
  simp only [InFrame, programFrame] at inFrame
  refine ⟨by omega, ?_, fun q other => ?_⟩
  · rintro ⟨base, rfl | ⟨t, rfl⟩, from_, below⟩
    · simp only [videoAddr] at from_ below
      omega
    · simp only [savedVideoAddr] at from_ below
      omega
  · simp only [InFrame, programFrame] at other
    exact Fin.ext (by omega)

theorem inScreens_apart {phys : Nat} (screens : InScreens phys) :
    phys < 0x400000 ∨ 0x800000 ≤ phys := by
  rcases screens with ⟨base, rfl | ⟨t, rfl⟩, from_, below⟩
  · simp only [videoAddr] at from_ below
    omega
  · simp only [savedVideoAddr] at from_ below
    omega

end Paging

namespace Kernel

open Paging

/-- What the processor makes of an address, with the words that the kernel has stored: the
program page is the frame of the running process, a user program reaches nothing but this
frame and the pages that show screens, and so neither the frame of another process nor the
4MB of the kernel, where the page tables are; and the kernel reaches its own 4MB. -/
structure Protects (mapped : Option ProcId) (translate : Access → UInt32 → Option Nat) : Prop where
  program : ∀ p, mapped = some p → ∀ (addr : UInt32) write, programAddr ≤ addr.toNat →
    addr.toNat < programAddr + 0x400000 →
    translate { user := true, write := write } addr =
      some (programFrame p + (addr.toNat - programAddr))
  user : ∀ (addr : UInt32) write phys,
    translate { user := true, write := write } addr = some phys →
    (∃ p, mapped = some p ∧ InFrame p phys) ∨ InScreens phys
  others : ∀ (addr : UInt32) write phys,
    translate { user := true, write := write } addr = some phys →
    (phys < 0x400000 ∨ 0x800000 ≤ phys) ∧ ∀ q, InFrame q phys → mapped = some q
  kernel : ∀ (addr : UInt32) write, 0x400000 ≤ addr.toNat → addr.toNat < 0x800000 →
    translate { user := false, write := write } addr = some addr.toNat

theorem protects_of_confined {k : Kernel} (confined : k.paging.Confined) :
    Protects k.mappedProcess fun access addr => k.paging.translate access addr.toNat := by
  have user : ∀ (addr : UInt32) write phys,
      k.paging.translate { user := true, write := write } addr.toNat = some phys →
      (∃ p, k.mappedProcess = some p ∧ InFrame p phys) ∨ InScreens phys := by
    intro addr write phys reaches
    rcases confined.reaches reaches with ⟨q, entry, inFrame⟩ | screens
    · exact .inl ⟨q, (k.mappedProcess_eq_some_iff q).mpr entry, inFrame⟩
    · exact .inr screens
  refine ⟨?_, user, ?_, ?_⟩
  · intro p mapped addr write from_ below
    have entry := (k.mappedProcess_eq_some_iff p).mp mapped
    simp only [programAddr] at from_ below
    have here : dirIndex addr.toNat = dirIndex programAddr := by
      rw [Fin.ext_iff]
      simp only [dirIndex, programAddr]
      omega
    have allowed : PageFlags.userRw.allow { user := true, write := write } = true := by
      revert write
      decide
    have offset : addr.toNat % 0x400000 = addr.toNat - programAddr := by
      simp only [programAddr]
      omega
    rw [Paging.translate, here, entry]
    dsimp only
    rw [if_pos allowed, offset]
  · intro addr write phys reaches
    rcases user addr write phys reaches with ⟨p, mapped, inFrame⟩ | screens
    · rcases inFrame_apart inFrame with ⟨above, _, only⟩
      refine ⟨.inr above, fun q other => ?_⟩
      rw [only q other]
      exact mapped
    · refine ⟨inScreens_apart screens, fun q inFrame => ?_⟩
      exact absurd screens (inFrame_apart inFrame).2.1
  · intro addr write from_ below
    have here : dirIndex addr.toNat = 1 := by
      rw [Fin.ext_iff]
      simp only [dirIndex]
      change addr.toNat / 0x400000 % 1024 = 1
      omega
    have allowed : PageFlags.kernelRw.allow { user := false, write := write } = true := by
      revert write
      decide
    have offset : 0x400000 + addr.toNat % 0x400000 = addr.toNat := by omega
    rw [Paging.translate, here, confined.kernel]
    dsimp only
    rw [if_pos allowed, offset]

/-- In every run from the first shell, the entries are those that calls of the mapping routines
make. -/
theorem remapped_run {env : Env} {k start final : Kernel} {events : List Event}
    (booted : boot env k = some start)
    (reached : run (Kernel.step env) start events = some final) :
    Paging.initTerminal.Remapped final.paging :=
  run_invariant_always (fun k => Paging.initTerminal.Remapped k.paging)
    (fun _ _ _ before step => before.trans (remapped_step step)) (remapped_boot booted) reached

/-- The words that calls of the mapping routines store protect the kernel and the processes. -/
theorem protects_calls {k : Kernel} {calls : List PagingCall}
    (paging : k.paging = calls.foldl Paging.call Paging.initTerminal) (arrays : PageArrays)
    {memory : Words} (zeroed : PageWords.Zeroed arrays memory) :
    Protects k.mappedProcess
      (walk (calls.foldl (PageWords.call arrays) (PageWords.initTerminal arrays memory))
        (arrays.address none)) := by
  have confined : k.paging.Confined := by
    rw [paging]
    exact confined_initTerminal.calls calls
  have holds := holds_calls (PageWords.holds_initTerminal zeroed) calls
  rw [← paging] at holds
  have walks : walk (calls.foldl (PageWords.call arrays) (PageWords.initTerminal arrays memory))
      (arrays.address none) = fun access addr => k.paging.translate access addr.toNat :=
    funext fun access => funext fun addr => walk_eq holds confined.fits access addr
  rw [walks]
  exact protects_of_confined confined

/-- In every run from the first shell whose programs and kernel stacks store in their own
memory, wherever the linker places the page tables, the words that the mapping routines have
stored protect the kernel and the processes. -/
theorem words_protect {env : Env} {k start final : Kernel} {events : List Event}
    (ran : RoomyRun env k start events) (reached : run (Kernel.step env) start events = some final)
    (arrays : PageArrays) {memory : Words} (zeroed : PageWords.Zeroed arrays memory) :
    ∃ calls : List PagingCall, final.paging = calls.foldl Paging.call Paging.initTerminal ∧
      Protects final.mappedProcess
        (walk (calls.foldl (PageWords.call arrays) (PageWords.initTerminal arrays memory))
          (arrays.address none)) := by
  rcases remapped_run ran.booted reached with ⟨calls, paging⟩
  exact ⟨calls, paging, protects_calls paging arrays zeroed⟩

/-- The arrays in the order of their declarations, at 0x410000. -/
def sampleArrays : PageArrays where
  address := fun
    | none => 0x410000
    | some .pageTable => 0x411000
    | some .userPageTable => 0x412000
    | some .videoPageTable => 0x413000
  aligned := by rintro (_ | _ | _ | _) <;> rfl
  apart := by rintro (_ | _ | _ | _) (_ | _ | _ | _) <;> simp
  inKernel := by rintro (_ | _ | _ | _) <;> decide

/-- The first shell has its whole kernel stack when it maps the screen. -/
theorem roomy_mappedScreenRun :
    RoomyRun Env.sample default mappedScreenRun.start [.vidmap 0x8048000] where
  booted := mappedScreenRun.booted
  pointers := by decide
  room := by
    have atBoot : (boot Env.sample default).map
        (fun start => decide (start.StackRoom Env.sample)) = some true := by decide +kernel
    rw [mappedScreenRun.booted] at atBoot
    exact ⟨of_decide_eq_true (Option.some.inj atBoot), fun _ _ => trivial⟩

theorem words_protect_sample :
    ∃ calls : List PagingCall,
      mappedScreenRun.final.paging = calls.foldl Paging.call Paging.initTerminal ∧
      Protects mappedScreenRun.final.mappedProcess
        (walk (calls.foldl (PageWords.call sampleArrays)
          (PageWords.initTerminal sampleArrays fun _ => 0)) 0x410000) :=
  words_protect roomy_mappedScreenRun mappedScreenRun.reached sampleArrays fun _ => ⟨rfl, rfl⟩

end Kernel

end Ece391Os
