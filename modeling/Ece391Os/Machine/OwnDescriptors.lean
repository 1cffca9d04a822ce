import Ece391Os.Machine.Frames

/-!
# Calls on the caller's own descriptors

The descriptor calls assign to the PCB that `get_pcb_ptr` gives and there to the
descriptors only.  The other calls and the keyboard leave the PCBs as they are.
-/

namespace Ece391Os

namespace Kernel

/-- At most the descriptors of one process differ in the PCBs. -/
def ChangesFds (p : ProcId) (k k' : Kernel) : Prop :=
  ∃ fds, k'.pcb = (k.setFds p fds).pcb

namespace ChangesFds

variable {p : ProcId} {k k' k'' : Kernel}

theorem of_eq (same : k'.pcb = k.pcb) : ChangesFds p k k' := by
  refine ⟨(k.pcb p).fds, ?_⟩
  rw [same]
  simp [setFds, modifyPcb]

theorem trans (first : ChangesFds p k k') (second : ChangesFds p k' k'') :
    ChangesFds p k k'' := by
  rcases first with ⟨fds, first⟩
  rcases second with ⟨fds', second⟩
  refine ⟨fds', ?_⟩
  simp only [setFds, modifyPcb] at first second ⊢
  rw [second, first]
  simp

theorem pcb_of_ne (changes : ChangesFds p k k') {q : ProcId} (differs : q ≠ p) :
    k'.pcb q = k.pcb q := by
  rcases changes with ⟨fds, changed⟩
  rw [changed]
  simp [setFds, modifyPcb, differs]

theorem pcb_self (changes : ChangesFds p k k') :
    ∃ fds, k'.pcb p = { k.pcb p with fds := fds } := by
  rcases changes with ⟨fds, changed⟩
  refine ⟨fds, ?_⟩
  rw [changed]
  simp [setFds, modifyPcb]

end ChangesFds

theorem pcb_untouchedByKeys : UntouchedByKeys pcb where
  console := fun _ _ => rfl
  screen := fun _ _ _ _ => rfl
  rtcInterruptOccurred := fun _ _ => rfl
  cmos := fun _ _ => rfl
  memory := fun _ _ => rfl
  cpu := fun _ _ => rfl
  keyboard := fun _ _ => rfl
  keyLog := fun _ _ => rfl
  input := fun _ _ _ _ => rfl

section Own

variable {p : ProcId} {k k' : Kernel} (current : k.getPcbPtr = some p)
include current

theorem changesFds_sysOpen {img : Image} {filename : List UInt8} {n : Int}
    (called : k.sysOpen img filename = some (n, k')) : ChangesFds p k k' := by
  unfold sysOpen at called
  split at called
  · cases called
    exact .of_eq rfl
  · rename_i d _
    rw [current] at called
    simp only [Option.bind_eq_bind, Option.bind_some] at called
    split at called
    · cases called
      exact .of_eq rfl
    · rename_i index fds _
      cases called
      refine ⟨fds.bind index d, ?_⟩
      split <;> rfl

/-- `sys_close` returns, and the caller stays the same. -/
theorem sysClose_own (fd : Int) :
    ∃ n k', k.sysClose fd = some (n, k') ∧ ChangesFds p k k' ∧ k'.getPcbPtr = some p := by
  unfold sysClose
  rw [current]
  simp only [Option.bind_eq_bind, Option.bind_some]
  split
  · exact ⟨_, _, rfl, .of_eq rfl, current⟩
  · rename_i i _
    refine ⟨_, _, rfl, ⟨(k.pcb p).fds.modify i fun d => { d with flags := .fdOccup }, ?_⟩, ?_⟩
    · generalize ((k.pcb p).fds.modify i fun d => { d with flags := .fdOccup }) i = d
      cases d.fopsPtr <;> rfl
    · generalize ((k.pcb p).fds.modify i fun d => { d with flags := .fdOccup }) i = d
      cases d.fopsPtr <;> exact current

theorem changesFds_sysClose {fd n : Int} (called : k.sysClose fd = some (n, k')) :
    ChangesFds p k k' := by
  rcases sysClose_own current fd with ⟨m, closed, call, changes, _⟩
  cases called.symm.trans call
  exact changes

theorem changesFds_returns {env : Env} {event : Event} {n : Int}
    (returns : Returns env k event n k') : ChangesFds p k (k'.returnToUser n) := by
  have returned : ChangesFds p k' (k'.returnToUser n) := .of_eq rfl
  apply ChangesFds.trans _ returned
  cases returns with
  | write _ _ _ _ _ _ _ called => exact .of_eq (pcb_untouchedByKeys.sysWrite called)
  | openFile _ _ _ called => exact changesFds_sysOpen current called
  | closeFile _ _ _ called => exact changesFds_sysClose current called
  | getargs _ _ _ _ called => exact .of_eq (pcb_untouchedByKeys.getargs called)

theorem changesFds_beginRead {env : Env} {fd nbytes : Int} {buf : Nat}
    (called : k.beginRead env fd buf nbytes = some k') : ChangesFds p k k' := by
  unfold beginRead at called
  rw [current] at called
  simp only [Option.bind_eq_bind, Option.bind_some] at called
  split at called
  · cases called
    exact .of_eq rfl
  · rename_i i _
    split at called
    · cases called
      exact .of_eq rfl
    · cases called
      exact .of_eq rfl
    · rename_i notStdin notRtc
      rcases Option.bind_eq_some_iff.mp called with ⟨r, read, done⟩
      cases done
      have changes : ChangesFds p k r.kernel := by
        unfold fopsRead at read
        split at read
        · rename_i stdin
          exact absurd stdin notStdin
        · rename_i rtc
          exact absurd rtc notRtc
        · cases read
          unfold directoryRead
          split <;> exact .of_eq rfl
        · cases read
          exact ⟨_, rfl⟩
        · cases read
          exact .of_eq rfl
        · cases read
          exact .of_eq rfl
      apply changes.trans
      apply ChangesFds.of_eq
      rw [pcb_untouchedByKeys.returnToUser, pcb_untouchedByKeys.storeUser]

/-- The loop of `halt` over the descriptors of the caller ends. -/
theorem releaseFds_own (slots : List (Fin 8)) :
    ∃ k', slots.foldlM (releaseFd p) k = some k' ∧ ChangesFds p k k' ∧
      k'.getPcbPtr = some p := by
  induction slots generalizing k with
  | nil => exact ⟨k, rfl, .of_eq rfl, current⟩
  | cons i slots ih =>
      have round : ∃ k', releaseFd p k i = some k' ∧ ChangesFds p k k' ∧
          k'.getPcbPtr = some p := by
        unfold releaseFd
        dsimp only
        split
        · rcases sysClose_own current i.val with ⟨n, closed, call, changes, same⟩
          rw [call]
          exact ⟨_, rfl, changes.trans ⟨_, rfl⟩, same⟩
        · exact ⟨_, rfl, ⟨_, rfl⟩, current⟩
      rcases round with ⟨next, first, changes, same⟩
      rcases ih same with ⟨last, rest, changes', same'⟩
      refine ⟨last, ?_, changes.trans changes', same'⟩
      rw [List.foldlM_cons, first]
      exact rest

end Own

end Kernel

end Ece391Os
