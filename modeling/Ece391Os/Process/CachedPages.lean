import Ece391Os.Process.PageWords
import Ece391Os.X86.Tlb

/-!
# The translations that the processor keeps

Every mapping routine ends with `flush_tlb`.  Whatever entries the processor has cached before
and between the stores, a process reaches what the entries in memory say when the routine has
returned, and the kernel its own pages at any time.
-/

namespace Ece391Os

open Transition X86

namespace PageWords

variable (arrays : PageArrays)

/-- `flush_tlb()`. -/
def flushTlb : Mmu.Op :=
  .loadCr3

/-- An assignment to an element of an array. -/
def assign (array : Option PageTable) (i : Fin 1024) (word : UInt32) : Mmu.Op :=
  .store (arrays.entry array i) word

/-- `page_remap(virt_addr, phys_addr)`, store by store. -/
def pageRemapOps (virtAddr physAddr : UInt32) : List Mmu.Op :=
  [assign arrays none (dirEntry virtAddr) (physAddr ||| 0x87), flushTlb]

/-- `table_to_page_mapping(virt_addr, phys_addr, cur_page)`, store by store. -/
def tableToPageMappingOps (virtAddr physAddr : UInt32) (curPage : Fin 1024) : List Mmu.Op :=
  [assign arrays none (dirEntry virtAddr)
      (UInt32.ofNat (arrays.address (some .userPageTable)) ||| 7),
    assign arrays (some .userPageTable) curPage (physAddr ||| 7), flushTlb]

/-- `table_remap(virt_addr, phys_addr)`, store by store. -/
def tableRemapOps (virtAddr physAddr : UInt32) : List Mmu.Op :=
  [assign arrays none (dirEntry virtAddr)
      (UInt32.ofNat (arrays.address (some .userPageTable)) ||| 7),
    assign arrays (some .userPageTable) 0 (physAddr ||| 7), flushTlb]

/-- `vidmem_remap(virt_addr, phys_addr)`, store by store. -/
def vidmemRemapOps (virtAddr physAddr : UInt32) : List Mmu.Op :=
  [assign arrays none (dirEntry virtAddr)
      (UInt32.ofNat (arrays.address (some .videoPageTable)) ||| 7),
    assign arrays (some .videoPageTable) 0 (physAddr ||| 7), flushTlb]

/-- A call of a mapping routine, store by store. -/
def callOps : PagingCall → List Mmu.Op
  | .program p => pageRemapOps arrays 0x8000000 (0x800000 + UInt32.ofNat p.val * 0x400000)
  | .userVideo => tableRemapOps arrays 0x8800000 0xB8000
  | .savedVideo t =>
      vidmemRemapOps arrays 0x8800000 (0x6400000 + (UInt32.ofNat t.val + 1) * 0x1000)

/-- The mappings of `init_terminal`, store by store. -/
def initTerminalOps : List Mmu.Op :=
  let map (i : TermId) :=
    tableToPageMappingOps arrays 0x6400000 (0x6400000 + (UInt32.ofNat i.val + 1) * 0x1000)
      ⟨i.val + 1, Paging.savedPage_lt i⟩
  map 0 ++ map 1 ++ map 2

/-- What the kernel does from `init_terminal` on. -/
def kernelOps (calls : List PagingCall) : List Mmu.Op :=
  initTerminalOps arrays ++ calls.flatMap (callOps arrays)

/-- The processor when `paging_init` has loaded CR3 and turned paging on. -/
def pagingOn (memory : Words) : Mmu where
  memory := pagingInit arrays memory
  cached := []

variable {arrays}

theorem exec_callOps (memory : Words) (c : PagingCall) :
    (callOps arrays c).foldl Mmu.Op.exec memory = call arrays memory c := by
  cases c <;> rfl

/-- Store by store, the words are as after the calls. -/
theorem exec_kernelOps (memory : Words) (calls : List PagingCall) :
    (kernelOps arrays calls).foldl Mmu.Op.exec (pagingInit arrays memory) =
      calls.foldl (call arrays) (initTerminal arrays memory) := by
  have first : (initTerminalOps arrays).foldl Mmu.Op.exec (pagingInit arrays memory) =
      initTerminal arrays memory := rfl
  rw [kernelOps, List.foldl_append, first]
  generalize initTerminal arrays memory = words
  induction calls generalizing words with
  | nil => rfl
  | cons c calls ih =>
      rw [List.flatMap_cons, List.foldl_append, exec_callOps, ih]
      rfl

/-- The last that the kernel does is to flush. -/
theorem last_kernelOps (calls : List PagingCall) :
    (kernelOps arrays calls).getLast? = some flushTlb := by
  have call : ∀ c, (callOps arrays c).getLast? = some flushTlb := by
    intro c
    cases c <;> rfl
  induction calls using List.reverseRecOn with
  | nil => rfl
  | append_singleton calls c _ =>
      rw [kernelOps, List.flatMap_append, ← List.append_assoc, List.flatMap_singleton,
        List.getLast?_append_of_ne_nil]
      · exact call c
      · cases c <;> exact List.cons_ne_nil _ _

/-! ## The pages of the kernel -/

/-- The entries that map the 4MB of the kernel and video memory. -/
def KernelEntry (array : Option PageTable) (i : Fin 1024) : Prop :=
  (array = none ∧ i.val < 2) ∨ (array = some .pageTable ∧ 0xB8 ≤ i.val ∧ i.val ≤ 0xB8 + 3)

/-- The word of such an entry. -/
def kernelWord (arrays : PageArrays) : Option PageTable → Fin 1024 → UInt32
  | none, i => if i = 0 then UInt32.ofNat (arrays.address (some .pageTable)) ||| 3 else 0x00400083
  | some _, i => UInt32.ofNat i.val * 0x1000 ||| 3

theorem assign_leaves {array other : Option PageTable} {i j : Fin 1024}
    (apart : ¬ (array = other ∧ i = j)) (stored word : UInt32) :
    (assign arrays array i stored).Leaves (arrays.entry other j) word :=
  fun same => absurd (PageArrays.entry_inj same) apart

/-- No mapping routine assigns an entry of the kernel. -/
theorem kernelOps_leave {calls : List PagingCall} {array : Option PageTable} {i : Fin 1024}
    (kernel : KernelEntry array i) (word : UInt32) :
    ∀ o ∈ kernelOps arrays calls, o.Leaves (arrays.entry array i) word := by
  have directory : ∀ (virtAddr stored : UInt32), 2 ≤ (dirEntry virtAddr).val →
      (assign arrays none (dirEntry virtAddr) stored).Leaves (arrays.entry array i) word := by
    intro virtAddr stored high
    refine assign_leaves ?_ _ _
    rintro ⟨rfl, rfl⟩
    rcases kernel with ⟨_, low⟩ | ⟨table, _⟩
    · omega
    · cases table
  have table : ∀ (t : PageTable) (j : Fin 1024) (stored : UInt32), t ≠ .pageTable →
      (assign arrays (some t) j stored).Leaves (arrays.entry array i) word := by
    intro t j stored other
    refine assign_leaves ?_ _ _
    rintro ⟨rfl, rfl⟩
    rcases kernel with ⟨none, _⟩ | ⟨same, _⟩
    · cases none
    · exact other (Option.some.inj same)
  have flush : flushTlb.Leaves (arrays.entry array i) word := trivial
  intro o inside
  rcases List.mem_append.mp inside with first | later
  · simp only [initTerminalOps, tableToPageMappingOps, List.mem_append, List.mem_cons,
      List.not_mem_nil, or_false] at first
    rcases first with ((rfl | rfl | rfl) | rfl | rfl | rfl) | rfl | rfl | rfl
    all_goals first
      | exact directory _ _ (by decide)
      | exact table _ _ _ (by decide)
      | exact flush
  · rcases List.mem_flatMap.mp later with ⟨c, _, called⟩
    cases c with
    | program q =>
        simp only [callOps, pageRemapOps, List.mem_cons, List.not_mem_nil, or_false] at called
        rcases called with rfl | rfl
        · exact directory _ _ (by decide)
        · exact flush
    | userVideo =>
        simp only [callOps, tableRemapOps, List.mem_cons, List.not_mem_nil, or_false] at called
        rcases called with rfl | rfl | rfl
        · exact directory _ _ (by decide)
        · exact table _ _ _ (by decide)
        · exact flush
    | savedVideo t =>
        simp only [callOps, vidmemRemapOps, List.mem_cons, List.not_mem_nil, or_false] at called
        rcases called with rfl | rfl | rfl
        · exact directory _ _ (by decide)
        · exact table _ _ _ (by decide)
        · exact flush

theorem pagingInit_kernel (memory : Words) {array : Option PageTable} {i : Fin 1024}
    (kernel : KernelEntry array i) :
    pagingInit arrays memory (arrays.entry array i) = kernelWord arrays array i := by
  have inside := i.isLt
  unfold pagingInit
  rw [store_eq, store_eq, loop_store _ _ _ (Nat.le_refl _)]
  rcases kernel with ⟨rfl, low⟩ | ⟨rfl, video⟩
  · by_cases first : i = 0
    · subst first
      simp [kernelWord]
    · have second : i = 1 := Fin.ext (by
        have nonzero : i.val ≠ 0 := fun zero => first (Fin.ext zero)
        change i.val = 1
        omega)
      subst second
      simp [kernelWord]
  · simp [kernelWord, inside, video]

/-- Through these entries, the kernel reaches its own pages. -/
theorem walk_kernel {seen : Words}
    (words : ∀ array i, KernelEntry array i →
      seen (arrays.entry array i) = kernelWord arrays array i)
    {addr : UInt32} {write : Bool}
    (own : (0x400000 ≤ addr.toNat ∧ addr.toNat < 0x800000) ∨
      (0xB8000 ≤ addr.toNat ∧ addr.toNat < 0xBC000)) :
    walk seen (arrays.address none) { user := false, write := write } addr = some addr.toNat := by
  rcases own with ⟨from_, below⟩ | ⟨from_, below⟩
  · have directory := words none 1 (.inl ⟨rfl, by decide⟩)
    have index : arrays.address none + 4 * (addr.toNat / 0x400000) = arrays.entry none 1 := by
      simp only [PageArrays.entry]
      change _ = _ + 4 * 1
      omega
    have allowed : Entry.allows 0x00400083 { user := false, write := write } = true := by
      revert write
      decide
    have large : Entry.bit 0x00400083 7 = true := by decide
    have page : Entry.page4MB 0x00400083 + addr.toNat % 0x400000 = addr.toNat := by
      have base : Entry.page4MB 0x00400083 = 0x400000 := by decide
      rw [base]
      omega
    unfold walk
    rw [index, directory]
    simp [kernelWord, allowed, large, page]
  · have size : UInt32.size = 2 ^ 32 := rfl
    have small : addr.toNat / 0x1000 < 1024 := by omega
    have directory := words none 0 (.inl ⟨rfl, by decide⟩)
    have table := words (some .pageTable) ⟨addr.toNat / 0x1000, small⟩
      (.inr ⟨rfl, by dsimp only; omega, by dsimp only; omega⟩)
    have tableInside := arrays.inKernel (some .pageTable)
    have tableAddr : (UInt32.ofNat (arrays.address (some .pageTable))).toNat =
        arrays.address (some .pageTable) := UInt32.toNat_ofNat_of_lt' (by omega)
    have tableAligned : (UInt32.ofNat (arrays.address (some .pageTable))).toNat % 0x1000 = 0 := by
      rw [tableAddr]
      exact arrays.aligned _
    have pageAddr : (UInt32.ofNat (addr.toNat / 0x1000) * 0x1000).toNat =
        addr.toNat / 0x1000 * 0x1000 := by
      rw [UInt32.toNat_mul, UInt32.toNat_ofNat_of_lt' (by omega)]
      change _ * 0x1000 % 2 ^ 32 = _
      omega
    have pageAligned : (UInt32.ofNat (addr.toNat / 0x1000) * 0x1000).toNat % 0x1000 = 0 := by
      rw [pageAddr]
      omega
    have index : arrays.address none + 4 * (addr.toNat / 0x400000) = arrays.entry none 0 := by
      simp only [PageArrays.entry]
      change _ = _ + 4 * 0
      omega
    have place : arrays.address (some .pageTable) + 4 * (addr.toNat / 0x1000 % 1024) =
        arrays.entry (some .pageTable) ⟨addr.toNat / 0x1000, small⟩ := by
      rw [PageArrays.entry, Nat.mod_eq_of_lt small]
    have allowed : Entry.allows 3 { user := false, write := write } = true := by
      revert write
      decide
    have notLarge : Entry.bit 3 7 = false := by decide
    have bits : (3 : UInt32).toNat < 0x1000 := by decide
    have whole : addr.toNat / 0x1000 * 0x1000 + addr.toNat % 0x1000 = addr.toNat := by omega
    unfold walk
    simp only [index, directory, kernelWord, if_true, Entry.allows_or tableAligned, allowed,
      Bool.not_true, Bool.false_eq_true, if_false, Entry.bit_or tableAligned (by decide : 7 < 12),
      notLarge, Entry.page4KB_or tableAligned bits, tableAddr, place, table,
      Entry.allows_or pageAligned, Entry.page4KB_or pageAligned bits, pageAddr, whole]

end PageWords

namespace Kernel

/-- In every run from the first shell whose programs and kernel stacks store in their own
memory, whatever entries the processor has cached and evicted between the stores of the mapping
routines, all translations that it may use protect the kernel and the processes. -/
theorem translations_protect {env : Env} {k start final : Kernel} {events : List Event}
    (ran : RoomyRun env k start events) (reached : run (Kernel.step env) start events = some final)
    (arrays : PageArrays) {memory : Words} (zeroed : PageWords.Zeroed arrays memory) :
    ∃ calls : List PagingCall, final.paging = calls.foldl Paging.call Paging.initTerminal ∧
      ∀ fills, Mmu.issued fills = PageWords.kernelOps arrays calls →
        ∀ translate : Access → UInt32 → Option Nat,
          (∀ access addr, ((PageWords.pagingOn arrays memory).run fills).Translates
            (arrays.address none) access addr (translate access addr)) →
          Protects final.mappedProcess translate := by
  rcases remapped_run ran.booted reached with ⟨calls, paging⟩
  refine ⟨calls, paging, fun fills issued translate translates => ?_⟩
  have flushed := @PageWords.last_kernelOps arrays calls
  rw [← issued] at flushed
  have coherent : ((PageWords.pagingOn arrays memory).run fills).Coherent :=
    Mmu.coherent_run flushed
  have words : ((PageWords.pagingOn arrays memory).run fills).memory =
      calls.foldl (PageWords.call arrays) (PageWords.initTerminal arrays memory) := by
    rw [Mmu.memory_run, issued]
    exact PageWords.exec_kernelOps memory calls
  have walks : translate = walk (calls.foldl (PageWords.call arrays)
      (PageWords.initTerminal arrays memory)) (arrays.address none) := by
    funext access addr
    rw [← words]
    exact coherent.translates (translates access addr)
  rw [walks]
  exact protects_calls paging arrays zeroed

theorem translations_protect_sample :
    ∃ calls : List PagingCall,
      mappedScreenRun.final.paging = calls.foldl Paging.call Paging.initTerminal ∧
      ∀ fills, Mmu.issued fills = PageWords.kernelOps sampleArrays calls →
        ∀ translate : Access → UInt32 → Option Nat,
          (∀ access addr, ((PageWords.pagingOn sampleArrays fun _ => 0).run fills).Translates
            0x410000 access addr (translate access addr)) →
          Protects mappedScreenRun.final.mappedProcess translate :=
  translations_protect roomy_mappedScreenRun mappedScreenRun.reached sampleArrays
    fun _ => ⟨rfl, rfl⟩

/-- At any time, in the middle of a mapping routine too, whatever entries are cached, the kernel
reaches its own 4MB, where its code, its stacks and the page tables are, and video memory. -/
theorem kernel_steady (arrays : PageArrays) (memory : Words) {calls : List PagingCall}
    {fills : List Mmu.Event} (started : Mmu.issued fills <+: PageWords.kernelOps arrays calls)
    {addr : UInt32} {write : Bool} {phys : Option Nat}
    (own : (0x400000 ≤ addr.toNat ∧ addr.toNat < 0x800000) ∨
      (0xB8000 ≤ addr.toNat ∧ addr.toNat < 0xBC000))
    (translates : ((PageWords.pagingOn arrays memory).run fills).Translates (arrays.address none)
      { user := false, write := write } addr phys) :
    phys = some addr.toNat := by
  rcases translates with ⟨seen, sees, rfl⟩
  refine PageWords.walk_kernel (fun array i kernel => ?_) own
  have first : (PageWords.pagingOn arrays memory).Steady (arrays.entry array i)
      (PageWords.kernelWord arrays array i) :=
    ⟨PageWords.pagingInit_kernel memory kernel, fun _ none => nomatch none⟩
  have steady := first.run fun o inside =>
    PageWords.kernelOps_leave kernel _ o (started.subset inside)
  exact steady.sees sees

/-- Between the two stores of `vidmap`'s mapping, an entry of the directory is stale. -/
def sampleFills : List Mmu.Event :=
  (PageWords.initTerminalOps sampleArrays).map .op ++
    [.fill 0x410004, .fill 0x410088,
      .op (PageWords.assign sampleArrays none (PageWords.dirEntry 0x8800000) 0x412007)]

theorem kernel_steady_sample :
    ¬ ((PageWords.pagingOn sampleArrays fun _ => 0).run sampleFills).Translates 0x410000
      { user := false, write := true } 0x400010 none := by
  intro faults
  have started : Mmu.issued sampleFills <+: PageWords.kernelOps sampleArrays [.userVideo] :=
    ⟨_, rfl⟩
  cases kernel_steady sampleArrays (fun _ => 0) started (.inl (by decide)) faults

end Kernel

end Ece391Os
