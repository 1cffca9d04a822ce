import Ece391Os.Machine.Step

/-!
# Reads and the caller's buffer

The contract of a read of `nbytes` bytes: it returns -1 or at most `nbytes`, and
stores nothing at or behind `buf + nbytes`.  The routines of terminals, files and
the RTC meet it; `directory_read` ignores `nbytes` and clears 33 bytes.  The routines that
wait are read step by step, with a log of their stores, and between two steps the kernel may
become any other.
-/

namespace Ece391Os

open Memory

/-- A read of `nbytes` bytes that respects the caller's buffer. -/
def ReadResult.Respects (r : ReadResult) (nbytes : Int) : Prop :=
  (r.value = -1 ∨ 0 ≤ r.value ∧ r.value ≤ nbytes) ∧ ∀ store ∈ r.stores, (store.1 : Int) < nbytes

/-- A read that stores nothing and returns -1 or 0. -/
theorem ReadResult.respects_of_stores_nil {r : ReadResult} {nbytes : Int}
    (value : r.value = -1 ∨ r.value = 0) (stores : r.stores = []) (nonneg : 0 ≤ nbytes) :
    r.Respects nbytes := by
  refine ⟨value.imp id fun zero => ⟨by omega, by omega⟩, ?_⟩
  simp [stores]

theorem ReadResult.respects_failed (k : Kernel) {nbytes : Int} (nonneg : 0 ≤ nbytes) :
    ReadResult.Respects { value := -1, stores := [], kernel := k } nbytes :=
  respects_of_stores_nil (.inl rfl) rfl nonneg

namespace Kernel

variable (img : Image)

theorem terminalRead_respects {k : Kernel} {nbytes : Int} {r : ReadResult}
    (nonneg : 0 ≤ nbytes) (returns : k.terminalRead nbytes = some r) : r.Respects nbytes := by
  obtain ⟨t, rfl⟩ := terminalRead_eq_some returns
  have counted : (copyCount nbytes : Int) ≤ nbytes ∧
      ((copyCount nbytes : Int) < nbytes ∨ copyCount nbytes = 0) := by
    unfold copyCount
    omega
  refine ⟨.inr ⟨by simp, counted.1⟩, fun store member => ?_⟩
  obtain ⟨i, inside, rfl⟩ := mem_storeRange.mp member
  simp only
  omega

theorem rtcRead_respects {k : Kernel} {nbytes : Int} {r : ReadResult} (nonneg : 0 ≤ nbytes)
    (returns : k.rtcRead = some r) : r.Respects nbytes := by
  unfold rtcRead at returns
  split at returns
  · cases returns
    exact ReadResult.respects_of_stores_nil (.inr rfl) rfl nonneg
  · cases returns

theorem fileRead_respects (k : Kernel) (p : ProcId) (i : Fin 8) {nbytes : Int}
    (nonneg : 0 ≤ nbytes) (small : nbytes < 2 ^ 31) :
    (k.fileRead img p i nbytes).Respects nbytes := by
  obtain ⟨n, rfl⟩ := Int.eq_ofNat_of_zero_le nonneg
  have length : ((n : Int) % 2 ^ 32).toNat = n := by omega
  unfold fileRead
  simp only [length]
  obtain ⟨value, inside⟩ := img.readData_bounded ((k.pcb p).fds i).inode.toNat
    ((k.pcb p).fds i).filePosition.toNat n (by omega)
  exact ⟨value, fun store member => by exact_mod_cast inside store member⟩

/-- A directory read respects the buffer when no entry is left or the buffer holds
the 33 bytes it clears, and in no other case. -/
theorem directoryRead_respects_iff (k : Kernel) {nbytes : Int} (nonneg : 0 ≤ nbytes) :
    (k.directoryRead img).Respects nbytes ↔
      ¬ (k.directoryLoc.toNat < img.numDirectories ∧ nbytes < 33) := by
  unfold directoryRead Image.readDentryByIndex
  by_cases entry : k.directoryLoc.toNat < img.numDirectories
  · simp only [ge_iff_le, Nat.not_le.mpr entry, if_false, entry, true_and, not_lt]
    constructor
    · rintro ⟨_, inside⟩
      have last := inside (32, 0) (List.mem_append_left _ (mem_storeRange.mpr ⟨32, by decide, rfl⟩))
      dsimp only at last
      omega
    · intro large
      have short : (cString (img.dentry k.directoryLoc.toNat).fileName).length ≤ 32 :=
        img.length_name_le k.directoryLoc.toNat
      refine ⟨.inr ⟨by simp, by simp only; omega⟩, fun store member => ?_⟩
      rcases List.mem_append.mp member with cleared | copied
      · obtain ⟨i, inside, rfl⟩ := mem_storeRange.mp cleared
        simp only
        omega
      · obtain ⟨i, inside, rfl⟩ := mem_storeRange.mp copied
        simp only
        omega
  · simp only [ge_iff_le, Nat.le_of_not_lt entry, if_true, entry, false_and, not_false_iff,
      iff_true]
    exact ReadResult.respects_of_stores_nil (.inr rfl) rfl nonneg

/-! ## Reads that wait, step by step -/

/-- The stores of one step of a running `terminal_read`, at offsets from its buffer. -/
def terminalReadLog (k : Kernel) (numBytes : Int) : ReadPoint → Stores Nat
  | .copy i => if i < numBytes - 1 ∧ i < 127 then [(i, k.keyByte i)] else []
  | .spin | .take | .clear _ _ | .finish _ => []

/-- The stores of one step of a call that waits. -/
def waitLog (k : Kernel) : Stores Nat :=
  match k.cpu.activity with
  | .terminalRead _ numBytes point => k.terminalReadLog numBytes point
  | .user _ | .rtcRead _ | .launch _ _ => []

/-- The stores of the first step of `sys_read`: a routine that waits has stored nothing yet. -/
def beginReadLog (k : Kernel) (fd : Int) (buf : Nat) (nbytes : Int) : Stores Nat :=
  match k.getPcbPtr with
  | none => []
  | some p =>
      match (k.pcb p).fds.opened fd buf with
      | none => []
      | some i =>
          match ((k.pcb p).fds i).fopsPtr with
          | .stdin | .rtc => []
          | _ => ((k.fopsRead img p i nbytes).map ReadResult.stores).getD []

/-- Where a call of `sys_read` can be, and what it has stored so far at offsets from its
buffer, when each of its steps after the first finds any kernel in which it is at the point
that the step before has left. -/
inductive Reading (env : Env) (k : Kernel) (fd : Int) (buf : Nat) (nbytes : Int) :
    Stores Nat → Activity → Prop where
  | called (k' : Kernel) (begins : k.beginRead env fd buf nbytes = some k') :
      Reading env k fd buf nbytes (k.beginReadLog env.image fd buf nbytes) k'.cpu.activity
  | goesOn (found left : Kernel) (stores : Stores Nat)
      (here : Reading env k fd buf nbytes stores found.cpu.activity)
      (steps : found.waitStep env = some left) :
      Reading env k fd buf nbytes (stores ++ found.waitLog) left.cpu.activity

/-- `sys_read` respects the caller's buffer, as the C function that nothing interrupts and in
its steps among those of other processes and of interrupts. -/
structure ReadRespects (env : Env) (k : Kernel) (fd : Int) (buf : Nat) (nbytes : Int) : Prop where
  atOnce : ∀ r, k.sysRead env.image fd buf nbytes = some r → r.Respects nbytes
  stores : ∀ stores activity, Reading env k fd buf nbytes stores activity →
    ∀ store ∈ stores, (store.1 : Int) < nbytes
  value : ∀ stores value, Reading env k fd buf nbytes stores (.user value) →
    value = -1 ∨ 0 ≤ value ∧ value ≤ nbytes

section Stepwise

variable {env : Env} {k k' : Kernel} {buf : Nat} {nbytes : Int}

/-- A running `terminal_read` stores what its log says, and nothing else. -/
theorem memory_terminalReadLog {point : ReadPoint}
    (stepped : k.terminalReadStep buf nbytes point = some k') :
    k'.memory = (k.storeUser buf (k.terminalReadLog nbytes point)).memory := by
  have same : (k.storeUser buf []).memory = k.memory := by
    unfold storeUser
    split
    · rfl
    · exact Function.update_eq_self _ _
  cases point with
  | spin =>
      rcases Option.bind_eq_some_iff.mp stepped with ⟨p, _, done⟩
      cases done
      exact same.symm
  | take =>
      rcases Option.bind_eq_some_iff.mp stepped with ⟨p, _, done⟩
      cases done
      exact same.symm
  | copy i =>
      simp only [terminalReadStep, terminalReadLog] at stepped ⊢
      split at stepped
      · rename_i room
        cases stepped
        rw [if_pos room]
        rfl
      · rename_i room
        cases stepped
        rw [if_neg room]
        exact same.symm
  | clear i count =>
      simp only [terminalReadStep] at stepped
      split at stepped <;> cases stepped <;> exact same.symm
  | finish count =>
      cases stepped
      exact same.symm

/-- What a `terminal_read` has counted at a point of its loops is what it may return. -/
def Counts (nbytes : Int) : ReadPoint → Prop
  | .spin | .take => True
  | .copy i => i ≤ copyCount nbytes
  | .clear _ count | .finish count => count ≤ copyCount nbytes

/-- A call of `sys_read` waits within its bounds, or has returned a value in them. -/
def ReadsWithin (nbytes : Int) : Activity → Prop
  | .user value => value = -1 ∨ 0 ≤ value ∧ value ≤ nbytes
  | .terminalRead _ numBytes point => numBytes = nbytes ∧ Counts nbytes point
  | .rtcRead _ => True
  | .launch _ _ => False

/-- A round of the copy loop stores in front of the last byte of the buffer. -/
theorem terminalReadLog_within (k : Kernel) (nbytes : Int) (point : ReadPoint) :
    ∀ store ∈ k.terminalReadLog nbytes point, (store.1 : Int) < nbytes := by
  intro store member
  cases point with
  | copy i =>
      rw [terminalReadLog] at member
      split at member
      · rename_i room
        rw [List.mem_singleton.mp member]
        dsimp only
        omega
      · cases member
  | _ => cases member

theorem readsWithin_terminalReadStep {point : ReadPoint} (nonneg : 0 ≤ nbytes)
    (counts : Counts nbytes point) (stepped : k.terminalReadStep buf nbytes point = some k') :
    ReadsWithin nbytes k'.cpu.activity := by
  cases point with
  | spin =>
      rcases Option.bind_eq_some_iff.mp stepped with ⟨p, _, done⟩
      cases done
      refine ⟨rfl, ?_⟩
      split <;> trivial
  | take =>
      rcases Option.bind_eq_some_iff.mp stepped with ⟨p, _, done⟩
      cases done
      exact ⟨rfl, Nat.zero_le _⟩
  | copy i =>
      simp only [terminalReadStep] at stepped
      split at stepped
      · rename_i room
        cases stepped
        refine ⟨rfl, ?_⟩
        change i + 1 ≤ copyCount nbytes
        unfold copyCount
        omega
      · cases stepped
        exact ⟨rfl, counts⟩
  | clear i count =>
      simp only [terminalReadStep] at stepped
      split at stepped <;> cases stepped <;> exact ⟨rfl, counts⟩
  | finish count =>
      cases stepped
      have returned : count ≤ copyCount nbytes := counts
      unfold copyCount at returned
      refine .inr ⟨by omega, by omega⟩

theorem readsWithin_waitStep (nonneg : 0 ≤ nbytes) (within : ReadsWithin nbytes k.cpu.activity)
    (steps : k.waitStep env = some k') :
    ReadsWithin nbytes k'.cpu.activity ∧ ∀ store ∈ k.waitLog, (store.1 : Int) < nbytes := by
  unfold waitStep at steps
  unfold waitLog
  cases activity : k.cpu.activity with
  | user value =>
      rw [activity] at steps
      cases steps
  | terminalRead buf numBytes point =>
      rw [activity] at within steps
      rcases within with ⟨rfl, counts⟩
      exact ⟨readsWithin_terminalReadStep nonneg counts steps, k.terminalReadLog_within _ _⟩
  | rtcRead seen =>
      rw [activity] at steps
      cases steps
      refine ⟨?_, fun store member => by cases member⟩
      unfold rtcReadStep
      split
      · exact .inr ⟨le_refl _, nonneg⟩
      · trivial
  | launch old interrupted =>
      rw [activity] at within
      exact within.elim

end Stepwise

/-- The descriptor of a call is an open directory with an entry left, and the buffer
is smaller than the 33 bytes that `directory_read` clears. -/
def ShortDirectoryRead (k : Kernel) (fd : Int) (buf : Nat) (nbytes : Int) : Prop :=
  ∃ p i, k.getPcbPtr = some p ∧ (k.pcb p).fds.opened fd buf = some i ∧
    ((k.pcb p).fds i).fopsPtr = .dir ∧
    k.directoryLoc.toNat < img.numDirectories ∧ nbytes < 33

/-- The C function respects the caller's buffer exactly when it is no directory read into
fewer than 33 bytes. -/
theorem sysRead_atOnce_iff (k : Kernel) (fd : Int) (buf : Nat) (nbytes : Int)
    (nonneg : 0 ≤ nbytes) (small : nbytes < 2 ^ 31) :
    (∀ r, k.sysRead img fd buf nbytes = some r → r.Respects nbytes) ↔
      ¬ k.ShortDirectoryRead img fd buf nbytes := by
  unfold ShortDirectoryRead sysRead
  cases running : k.getPcbPtr with
  | none => simp
  | some p =>
      cases slot : (k.pcb p).fds.opened fd buf with
      | none =>
          simp only [Option.bind_eq_bind, Option.bind_some, slot]
          simpa [slot] using ReadResult.respects_failed k nonneg
      | some i =>
          have target : (∃ p' i', some p = some p' ∧ (k.pcb p').fds.opened fd buf = some i' ∧
              ((k.pcb p').fds i').fopsPtr = .dir ∧
              k.directoryLoc.toNat < img.numDirectories ∧ nbytes < 33) ↔
              ((k.pcb p).fds i).fopsPtr = .dir ∧
                k.directoryLoc.toNat < img.numDirectories ∧ nbytes < 33 := by
            simp [slot]
          simp only [Option.bind_eq_bind, Option.bind_some, slot, target, fopsRead]
          cases ops : ((k.pcb p).fds i).fopsPtr with
          | stdin => simpa using fun r => terminalRead_respects nonneg
          | rtc => simpa using fun r => rtcRead_respects nonneg
          | dir => simpa using k.directoryRead_respects_iff img nonneg
          | file => simpa using k.fileRead_respects img p i nonneg small
          | stdout => simpa using ReadResult.respects_failed k nonneg
          | error => simpa using ReadResult.respects_failed k nonneg

/-- The first step of a read: it returns what the C function does, or waits and has stored
nothing. -/
theorem beginRead_returns {env : Env} {k k' : Kernel} {fd : Int} {buf : Nat} {nbytes : Int}
    (begins : k.beginRead env fd buf nbytes = some k') :
    (∃ r, k.sysRead env.image fd buf nbytes = some r ∧
        k' = (r.kernel.storeUser buf r.stores).returnToUser r.value ∧
        k.beginReadLog env.image fd buf nbytes = r.stores) ∨
      (k' = k.beginWait env (.terminalRead buf nbytes .spin) ∨
        k' = k.beginWait env (.rtcRead false)) ∧
        k.beginReadLog env.image fd buf nbytes = [] := by
  unfold beginRead at begins
  rcases Option.bind_eq_some_iff.mp begins with ⟨p, running, rest⟩
  unfold sysRead beginReadLog
  simp only [running, Option.bind_eq_bind, Option.bind_some]
  cases slot : (k.pcb p).fds.opened fd buf with
  | none =>
      rw [slot] at rest
      cases rest
      refine .inl ⟨_, rfl, ?_, rfl⟩
      unfold storeUser
      split
      · rfl
      · dsimp only
        rw [List.map_nil, applyStores_nil, Function.update_eq_self]
  | some i =>
      rw [slot] at rest
      cases ops : ((k.pcb p).fds i).fopsPtr with
      | stdin =>
          simp only [ops] at rest ⊢
          cases rest
          exact .inr ⟨.inl rfl, trivial⟩
      | rtc =>
          simp only [ops] at rest ⊢
          cases rest
          exact .inr ⟨.inr rfl, trivial⟩
      | _ =>
          simp only [ops] at rest ⊢
          rcases Option.bind_eq_some_iff.mp rest with ⟨r, read, done⟩
          cases done
          exact .inl ⟨r, read, rfl, by rw [read]; rfl⟩

/-- In its steps too. -/
theorem reading_within {env : Env} {k : Kernel} {fd : Int} {buf : Nat} {nbytes : Int}
    (nonneg : 0 ≤ nbytes)
    (atOnce : ∀ r, k.sysRead env.image fd buf nbytes = some r → r.Respects nbytes)
    {stores : Stores Nat} {activity : Activity}
    (reading : Reading env k fd buf nbytes stores activity) :
    ReadsWithin nbytes activity ∧ ∀ store ∈ stores, (store.1 : Int) < nbytes := by
  induction reading with
  | called k' begins =>
      rcases beginRead_returns begins with ⟨r, read, rfl, log⟩ | ⟨rfl | rfl, log⟩
      · rw [log]
        exact atOnce r read
      all_goals
        rw [log]
        refine ⟨?_, fun store member => by cases member⟩
      · exact ⟨rfl, trivial⟩
      · trivial
  | goesOn found left stores _ steps ih =>
      rcases readsWithin_waitStep nonneg ih.1 steps with ⟨within, inside⟩
      refine ⟨within, fun store member => ?_⟩
      rcases List.mem_append.mp member with earlier | now
      · exact ih.2 store earlier
      · exact inside store now

/-- `sys_read` respects the caller's buffer, at once and step by step, exactly when it is no
directory read into fewer than 33 bytes.  The log of a step of `terminal_read` has all that the
step changes in memory. -/
theorem sysRead_respects_iff (env : Env) (k : Kernel) (fd : Int) (buf : Nat) (nbytes : Int)
    (nonneg : 0 ≤ nbytes) (small : nbytes < 2 ^ 31) :
    (∀ (found left : Kernel) (point : ReadPoint),
        found.cpu.activity = .terminalRead buf nbytes point → found.waitStep env = some left →
        left.memory = (found.storeUser buf found.waitLog).memory) ∧
      (ReadRespects env k fd buf nbytes ↔ ¬ k.ShortDirectoryRead env.image fd buf nbytes) := by
  refine ⟨fun found left point activity steps => ?_, ?_⟩
  · rw [waitStep, activity] at steps
    rw [waitLog, activity]
    exact memory_terminalReadLog steps
  rw [← sysRead_atOnce_iff env.image k fd buf nbytes nonneg small]
  constructor
  · intro respects
    exact respects.atOnce
  · intro atOnce
    refine ⟨atOnce, fun stores activity reading => ?_, fun stores value reading => ?_⟩
    · exact (reading_within nonneg atOnce reading).2
    · exact (reading_within nonneg atOnce reading).1

/-- Process 0 in user mode, with a directory open as descriptor 2. -/
def readingDirectory : Kernel :=
  { (default : Kernel) with
    tssEsp0 := kernelStackTop 0
    pcb := fun _ =>
      { (default : Pcb) with
        fds := fun i =>
          { (default : FileDesc) with
            fopsPtr := .dir, flags := if i = 2 then .fdAvail else .fdOccup } } }

/-- Process 0 in user mode, with the standard descriptors. -/
def readingTerminal : Kernel :=
  { readingDirectory with pcb := fun _ => { (default : Pcb) with fds := FileTable.initial } }

/-- A read of 10 bytes from a directory clears 33 bytes of the caller's memory. -/
theorem directoryRead_overrun : ¬ ReadRespects Env.sample readingDirectory 2 0x8048000 10 := by
  intro respects
  have inside := (respects.atOnce _ rfl).2 (32, 0) (by decide)
  exact absurd inside (by decide)

/-- A read of 33 bytes from a directory respects its buffer, and so does a read of 10 bytes
from the terminal, which waits. -/
theorem sysRead_respects_small :
    ReadRespects Env.sample readingDirectory 2 0x8048000 33 ∧
      ReadRespects Env.sample readingTerminal 0 0x8048000 10 := by
  constructor
  · apply (sysRead_respects_iff _ _ _ _ _ (by decide) (by decide)).2.mpr
    rintro ⟨_, _, _, _, _, _, short⟩
    exact absurd short (by decide)
  · apply (sysRead_respects_iff _ _ _ _ _ (by decide) (by decide)).2.mpr
    rintro ⟨p, i, running, slot, directory, _⟩
    cases running
    cases slot
    cases directory

end Kernel

end Ece391Os
