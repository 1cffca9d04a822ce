import Ece391Os.Kernel.State

/-!
# Page tables of `paging.c`

Only the entries are modelled; `flush_tlb` and the control registers are left
out.  A page-directory entry names the page table it points to.
-/

namespace Ece391Os

namespace PageFlags

/-- The attribute bits `7` and, for a 4MB page, `0x87`. -/
def userRw : PageFlags :=
  { present := true, writable := true, user := true }

/-- The attribute bits `3` and, for a 4MB page, `0x83`. -/
def kernelRw : PageFlags :=
  { present := true, writable := true, user := false }

/-- The attribute bits `2`. -/
def absent : PageFlags :=
  { present := false, writable := true, user := false }

/-- The attribute bits of an entry of a zeroed table. -/
def none : PageFlags :=
  { present := false, writable := false, user := false }

end PageFlags

namespace Paging

/-- The page-directory index `virt_addr / CONVERT_4MB`. -/
def dirIndex (virtAddr : Nat) : Fin 1024 :=
  ⟨virtAddr / 0x400000 % 1024, Nat.mod_lt _ (by decide)⟩

/-- The entries that `paging_init` writes; the other two tables start zeroed. -/
def pagingInit : Paging where
  pageDirectory := fun i =>
    if i = 0 then .table .pageTable .kernelRw
    else if i = 1 then .page4MB 0x400000 .kernelRw
    else .empty .absent
  pageTable := fun i =>
    { base := i * 0x1000
      flags := if 0xB8 ≤ i.val ∧ i.val ≤ 0xB8 + 3 then .kernelRw else .absent }
  userPageTable := fun _ => { base := 0, flags := .none }
  videoPageTable := fun _ => { base := 0, flags := .none }

/-- `page_remap(virt_addr, phys_addr)`. -/
def pageRemap (p : Paging) (virtAddr physAddr : Nat) : Paging :=
  { p with pageDirectory :=
      Function.update p.pageDirectory (dirIndex virtAddr) (.page4MB physAddr .userRw) }

/-- `table_to_page_mapping(virt_addr, phys_addr, cur_page)`. -/
def tableToPageMapping (p : Paging) (virtAddr physAddr : Nat) (curPage : Fin 1024) : Paging :=
  { p with
    pageDirectory :=
      Function.update p.pageDirectory (dirIndex virtAddr) (.table .userPageTable .userRw)
    userPageTable :=
      Function.update p.userPageTable curPage { base := physAddr, flags := .userRw } }

/-- `table_remap(virt_addr, phys_addr)`. -/
def tableRemap (p : Paging) (virtAddr physAddr : Nat) : Paging :=
  p.tableToPageMapping virtAddr physAddr 0

/-- `vidmem_remap(virt_addr, phys_addr)`. -/
def vidmemRemap (p : Paging) (virtAddr physAddr : Nat) : Paging :=
  { p with
    pageDirectory :=
      Function.update p.pageDirectory (dirIndex virtAddr) (.table .videoPageTable .userRw)
    videoPageTable :=
      Function.update p.videoPageTable 0 { base := physAddr, flags := .userRw } }

/-- The entries of a page table. -/
def entries (p : Paging) : PageTable → Fin 1024 → Pte
  | .pageTable => p.pageTable
  | .userPageTable => p.userPageTable
  | .videoPageTable => p.videoPageTable

/-- The physical address that the first 4KB page of a 4MB region maps to, when
both of its entries are present. -/
def firstPage (p : Paging) (virtAddr : Nat) : Option Nat :=
  match p.pageDirectory (dirIndex virtAddr) with
  | .empty _ => none
  | .page4MB base flags => if flags.present then some base else none
  | .table t flags =>
      let entry := p.entries t 0
      if flags.present && entry.flags.present then some entry.base else none

end Paging

/-- `_128MB`, where the program page of the running process is mapped. -/
def programAddr : Nat := 0x8000000

/-- `_136MB`, where `vidmap` maps the screen. -/
def userVideoAddr : Nat := 0x8800000

/-- `VIDEO`. -/
def videoAddr : Nat := 0xB8000

/-- `terminal[t].video_mem`: the page at `_100MB + (t + 1) * _4KB`. -/
def savedVideoAddr (t : TermId) : Nat := 0x6400000 + (t.val + 1) * 0x1000

/-- The 4MB frame of a process: `_8MB + process * _4MB`. -/
def programFrame (p : ProcId) : Nat := 0x800000 + p.val * 0x400000

theorem programFrame_injective : Function.Injective programFrame := by
  intro p q equal
  simp only [programFrame] at equal
  exact Fin.ext (by omega)

namespace Kernel

/-- The process whose frame is mapped at 128MB. -/
def mappedProcess (k : Kernel) : Option ProcId :=
  (List.finRange 6).find? fun p =>
    k.paging.pageDirectory (Paging.dirIndex programAddr) = .page4MB (programFrame p) .userRw

/-- The screen that the page at 136MB shows to user programs, when present. -/
def userVideoPage (k : Kernel) : Option Nat :=
  k.paging.firstPage userVideoAddr

/-- Remap the program page to the frame of a process. -/
def mapProgram (k : Kernel) (p : ProcId) : Kernel :=
  { k with paging := k.paging.pageRemap programAddr (programFrame p) }

/-- The remapping that `vidmap` makes once it has accepted its argument. -/
def mapUserVideo (k : Kernel) : Kernel :=
  { k with paging := k.paging.tableRemap userVideoAddr videoAddr }

/-- `vidmem_remap` of 136MB to the saved screen of a terminal. -/
def mapSavedVideo (k : Kernel) (t : TermId) : Kernel :=
  { k with paging := k.paging.vidmemRemap userVideoAddr (savedVideoAddr t) }

theorem mappedProcess_eq_some_iff (k : Kernel) (p : ProcId) :
    k.mappedProcess = some p ↔
      k.paging.pageDirectory (Paging.dirIndex programAddr) =
        .page4MB (programFrame p) .userRw := by
  constructor
  · intro found
    simpa using List.find?_some found
  · intro mapped
    have unique : ∀ q, decide (k.paging.pageDirectory (Paging.dirIndex programAddr) =
        .page4MB (programFrame q) .userRw) = decide (p = q) := by
      intro q
      rw [mapped]
      simp [programFrame_injective.eq_iff]
    have search : ∀ r : ProcId, (List.finRange 6).find? (fun q => decide (r = q)) = some r := by
      decide
    simp only [mappedProcess, unique]
    exact search p

/-- The user video page does not share its directory entry with the program page. -/
theorem dirIndex_ne : Paging.dirIndex userVideoAddr ≠ Paging.dirIndex programAddr := by
  decide

@[simp]
theorem mappedProcess_mapProgram (k : Kernel) (p : ProcId) :
    (k.mapProgram p).mappedProcess = some p := by
  rw [mappedProcess_eq_some_iff]
  simp [mapProgram, Paging.pageRemap]

@[simp]
theorem mappedProcess_mapUserVideo (k : Kernel) :
    k.mapUserVideo.mappedProcess = k.mappedProcess := by
  simp [mappedProcess, mapUserVideo, Paging.tableRemap, Paging.tableToPageMapping,
    dirIndex_ne.symm]

@[simp]
theorem mappedProcess_mapSavedVideo (k : Kernel) (t : TermId) :
    (k.mapSavedVideo t).mappedProcess = k.mappedProcess := by
  simp [mappedProcess, mapSavedVideo, Paging.vidmemRemap, dirIndex_ne.symm]

@[simp]
theorem userVideoPage_mapProgram (k : Kernel) (p : ProcId) :
    (k.mapProgram p).userVideoPage = k.userVideoPage := by
  simp only [userVideoPage, Paging.firstPage, mapProgram, Paging.pageRemap,
    Function.update_of_ne dirIndex_ne]
  rfl

@[simp]
theorem userVideoPage_mapUserVideo (k : Kernel) :
    k.mapUserVideo.userVideoPage = some videoAddr := by
  simp [userVideoPage, Paging.firstPage, mapUserVideo, Paging.tableRemap,
    Paging.tableToPageMapping, Paging.entries, PageFlags.userRw]

@[simp]
theorem userVideoPage_mapSavedVideo (k : Kernel) (t : TermId) :
    (k.mapSavedVideo t).userVideoPage = some (savedVideoAddr t) := by
  simp [userVideoPage, Paging.firstPage, mapSavedVideo, Paging.vidmemRemap, Paging.entries,
    PageFlags.userRw]

end Kernel

end Ece391Os
