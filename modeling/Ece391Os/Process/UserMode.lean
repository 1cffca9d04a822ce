import Ece391Os.Process.Refines

/-!
# Return to user mode

A system call ends with its caller or a started program in user mode, except for the reads
that wait.
-/

namespace Ece391Os.Kernel

variable {env : Env} {k k' : Kernel}

theorem inUserMode_startProcess {caller : ExecCaller} {p : ProcId} {program : Command.Program}
    (starts : k.startProcess env caller p program = some k') : k'.inUserMode = true := by
  rcases Option.map_eq_some_iff.mp starts with ⟨parent, _, rfl⟩
  rfl

theorem inUserMode_halt {status : UInt8} (halts : k.halt env status = some k') :
    k'.inUserMode = true := by
  cases halt_cases halts with
  | relaunched _ _ _ _ _ _ _ _ _ _ starts => exact inUserMode_startProcess starts
  | resumed _ _ _ _ _ _ resumes =>
      rw [resumeParent_eq resumes]
      rfl

theorem inUserMode_executeCall {command : Command}
    (called : k.executeCall env command = some k') : k'.inUserMode = true := by
  cases executeCall_cases called with
  | exited _ _ halts => exact inUserMode_halt halts
  | failed => rfl
  | started _ _ _ _ _ starts => exact inUserMode_startProcess starts

/-- A `read` returns, or waits for the keyboard or the clock. -/
theorem beginRead_cases {fd nbytes : Int} {buf : Nat}
    (called : k.beginRead env fd buf nbytes = some k') :
    k'.inUserMode = true ∨ k' = k.beginWait env (.terminalRead buf nbytes .spin) ∨
      k' = k.beginWait env (.rtcRead false) := by
  unfold beginRead at called
  rcases Option.bind_eq_some_iff.mp called with ⟨p, _, rest⟩
  split at rest
  · cases rest
    exact .inl rfl
  · split at rest
    · cases rest
      exact .inr (.inl rfl)
    · cases rest
      exact .inr (.inr rfl)
    · rcases Option.bind_eq_some_iff.mp rest with ⟨r, _, done⟩
      cases done
      exact .inl rfl

theorem inUserMode_boot {start : Kernel} (booted : boot env k = some start) :
    start.inUserMode = true := by
  rcases boot_cases booted with ⟨_, _, _, _, starts⟩
  exact inUserMode_startProcess starts

/-- A step of a read continues it, or returns at its end. -/
theorem terminalReadStep_continues {buf : Nat} {numBytes : Int} {point : ReadPoint}
    (stepped : k.terminalReadStep buf numBytes point = some k') :
    (∃ next, k'.cpu = { k.cpu with activity := .terminalRead buf numBytes next }) ∨
      ∃ count, point = .finish count ∧ k'.inUserMode = true := by
  cases point with
  | spin =>
      rcases Option.bind_eq_some_iff.mp stepped with ⟨p, _, done⟩
      cases done
      exact .inl ⟨_, rfl⟩
  | take =>
      rcases Option.bind_eq_some_iff.mp stepped with ⟨p, _, done⟩
      cases done
      exact .inl ⟨_, rfl⟩
  | copy i =>
      simp only [terminalReadStep] at stepped
      split at stepped
      · cases stepped
        refine .inl ⟨.copy (i + 1), ?_⟩
        unfold setReadPoint storeUser
        split <;> rfl
      · cases stepped
        exact .inl ⟨_, rfl⟩
  | clear i count =>
      simp only [terminalReadStep] at stepped
      split at stepped <;> cases stepped <;> exact .inl ⟨_, rfl⟩
  | finish count =>
      cases stepped
      exact .inr ⟨count, rfl, rfl⟩

end Ece391Os.Kernel
