import Ece391Os.Machine.TerminalRead
import Ece391Os.Process.StartsExecutables

/-!
# The argument of a program

`getargs` copies the argument that `execute` stored in the PCB, up to and with its NUL.
It does not look at the size of the caller's buffer.
-/

namespace Ece391Os

open Memory Transition

/-- What `getargs` promises for a buffer of `numBytes` bytes: the argument and its NUL when
there is one and they fit, and a failure without a store otherwise. -/
structure HonoursSize (argbuf : List UInt8) (numBytes : Int) (outcome : Int × Stores Nat) :
    Prop where
  success_iff : (outcome.1 = 0 ∧ ∀ old, (List.range (argbuf.length + 1)).map
      (applyStores old outcome.2) = argbuf ++ [0]) ↔
    argbuf ≠ [] ∧ argbuf.length + 1 ≤ numBytes
  failure : ¬ (argbuf ≠ [] ∧ argbuf.length + 1 ≤ numBytes) → outcome = (-1, [])
  inside : ∀ store ∈ outcome.2, (store.1 : Int) < numBytes

namespace Kernel

/-- `getargs(buf, num_bytes)` as its return value and its stores at offsets from `buf`. -/
def getargsLog (k : Kernel) (buf : Nat) : Option (Int × Stores Nat) :=
  if buf = 0 then
    some (-1, [])
  else do
    let p ← k.getPcbPtr
    let argbuf := (k.pcb p).argbuf
    if argbuf = [] then
      some (-1, [])
    else
      some (0, storeRange 0 (argbuf.length + 1) fun i => argbuf.getD i 0)

/-- The log is that of `getargs`. -/
theorem getargs_eq_log (k : Kernel) (buf : Nat) :
    k.getargs buf = (k.getargsLog buf).map fun outcome =>
      (outcome.1, k.storeUser buf outcome.2) := by
  unfold getargs getargsLog
  split
  · simp [storeUser_nil]
  · cases k.getPcbPtr with
    | none => rfl
    | some p =>
        simp only [Option.bind_eq_bind, Option.bind_some]
        split
        · simp [storeUser_nil]
        · rfl

/-- The stores leave the argument and its NUL in the buffer. -/
theorem applyStores_argument (argbuf : List UInt8) (old : Nat → UInt8) :
    (List.range (argbuf.length + 1)).map (applyStores old
      (storeRange 0 (argbuf.length + 1) fun i => argbuf.getD i 0)) = argbuf ++ [0] := by
  apply List.ext_getElem
  · simp
  · intro i inside _
    have below : i < argbuf.length + 1 := by simpa using inside
    rw [List.getElem_map, List.getElem_range, applyStores_storeRange, if_pos (by omega),
      List.getElem_append]
    split
    · rename_i char
      simp [char]
    · rename_i last
      have nul : i = argbuf.length := by omega
      simp [nul]

/-- A failure without a store is right when there is no argument or it does not fit. -/
theorem honoursSize_failed {argbuf : List UInt8} {numBytes : Int}
    (fails : ¬ (argbuf ≠ [] ∧ argbuf.length + 1 ≤ numBytes)) :
    HonoursSize argbuf numBytes (-1, []) where
  success_iff := by
    apply iff_of_false _ fails
    rintro ⟨success, _⟩
    cases success
  failure _ := rfl
  inside := by
    intro store member
    cases member

/-- A copy of the whole argument is right when it fits. -/
theorem honoursSize_copied {argbuf : List UInt8} {numBytes : Int} (argument : argbuf ≠ [])
    (fits : argbuf.length + 1 ≤ numBytes) :
    HonoursSize argbuf numBytes
      (0, storeRange 0 (argbuf.length + 1) fun i => argbuf.getD i 0) where
  success_iff := iff_of_true ⟨rfl, applyStores_argument argbuf⟩ ⟨argument, fits⟩
  failure := fun fails => absurd ⟨argument, fits⟩ fails
  inside := by
    intro store member
    rcases mem_storeRange.mp member with ⟨i, below, rfl⟩
    dsimp only
    omega

/-- `getargs` honours the size of the caller's buffer exactly when there is no argument or
it fits with its NUL. -/
theorem getargs_honours_iff {k : Kernel} {p : ProcId} {buf : Nat} (running : k.getPcbPtr = some p)
    (notNull : buf ≠ 0) (numBytes : Int) :
    (k.getargs buf = (k.getargsLog buf).map fun outcome =>
        (outcome.1, k.storeUser buf outcome.2)) ∧
      ((∃ outcome, k.getargsLog buf = some outcome ∧
          HonoursSize (k.pcb p).argbuf numBytes outcome) ↔
        (k.pcb p).argbuf = [] ∨ (k.pcb p).argbuf.length + 1 ≤ numBytes) := by
  refine ⟨k.getargs_eq_log buf, ?_⟩
  rw [getargsLog, if_neg notNull, running]
  simp only [Option.bind_eq_bind, Option.bind_some]
  by_cases none : (k.pcb p).argbuf = []
  · rw [if_pos none]
    refine iff_of_true ⟨_, rfl, ?_⟩ (.inl none)
    exact honoursSize_failed fun both => both.1 none
  · rw [if_neg none]
    constructor
    · rintro ⟨outcome, returns, honours⟩
      cases returns
      by_cases fits : (k.pcb p).argbuf.length + 1 ≤ numBytes
      · exact .inr fits
      · cases honours.failure fun both => fits both.2
    · intro condition
      have fits := condition.resolve_left none
      exact ⟨_, rfl, honoursSize_copied none fits⟩

/-- The command `shell ab`. -/
def argumentCommand : Command :=
  Command.plain [0x73, 0x68, 0x65, 0x6C, 0x6C, 0x20, 0x61, 0x62]

/-- The first shell starts a second one with the argument `ab`. -/
def argumentRun : BootRun Env.sample [.execute argumentCommand]
    (fun k => (k.getPcbPtr, (k.pcb 1).argbuf)) (some 1, [0x61, 0x62]) :=
  .of (by decide +kernel)

theorem getargs_honours_sample :
    ∃ outcome, argumentRun.final.getargsLog 0x8048000 = some outcome ∧
      HonoursSize [0x61, 0x62] 3 outcome := by
  rcases argumentRun with ⟨start, final, booted, reached, saw⟩
  simp only [Prod.mk.injEq] at saw
  rcases saw with ⟨running, argbuf⟩
  have notNull : 0x8048000 ≠ 0 := by decide
  have honours := (getargs_honours_iff running notNull 3).2.mpr
  rw [argbuf] at honours
  exact honours (.inr (by decide))

/-- With a buffer of one byte, three are stored. -/
theorem getargs_overruns :
    ∃ start final, boot Env.sample default = some start ∧
      run (Kernel.step Env.sample) start [.execute argumentCommand] = some final ∧
      final.getPcbPtr = some 1 ∧ (final.pcb 1).argbuf = [0x61, 0x62] ∧
      final.getargsLog 0x8048000 = some (0, [(0, 0x61), (1, 0x62), (2, 0)]) ∧
      ¬ HonoursSize (final.pcb 1).argbuf 1 (0, [(0, 0x61), (1, 0x62), (2, 0)]) := by
  rcases argumentRun with ⟨start, final, booted, reached, saw⟩
  simp only [Prod.mk.injEq] at saw
  rcases saw with ⟨running, argbuf⟩
  have copies : final.getargsLog 0x8048000 = some (0, [(0, 0x61), (1, 0x62), (2, 0)]) := by
    rw [getargsLog, if_neg (by decide), running]
    simp only [Option.bind_eq_bind, Option.bind_some, argbuf]
    rfl
  refine ⟨start, final, booted, reached, running, argbuf, copies, fun honours => ?_⟩
  have inside := honours.inside (2, 0) (by decide)
  exact absurd inside (by decide)

end Kernel

end Ece391Os
