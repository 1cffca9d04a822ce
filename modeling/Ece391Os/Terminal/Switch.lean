import Ece391Os.Keyboard.Keys
import Ece391Os.Process.Execute

/-!
# Switching terminals

`vidmap`, `switch_terminal`, and the keyboard interrupt, from which a terminal is
switched.
-/

namespace Ece391Os.Kernel

/-- The bytes of the pointer that `vidmap` stores. -/
def userVideoBytes : Memory.Stores Nat :=
  [(0, 0x00), (1, 0x00), (2, 0x80), (3, 0x08)]

/-- `vidmap(screen_start)`. -/
def vidmap (k : Kernel) (screenStart : Nat) : Int × Kernel :=
  if screenStart = 0 ∨ screenStart = 0x400000 then
    (-1, k)
  else
    (userVideoAddr, k.mapUserVideo.storeUser screenStart userVideoBytes)

/-- `switch_terminal(term_num)`, up to the `sti` for a terminal that is not active. -/
def switchTerminal (k : Kernel) (termNum : Nat) : Option Kernel :=
  if inRange : termNum > 2 then
    some k
  else
    let t : TermId := ⟨termNum, by omega⟩
    if t = k.curTerm then
      some k
    else if (k.terminal t).active then
      let k := (k.showTerminal t).mapUserVideo
      some (if k.curActiveTerminal = k.curTerm then k else k.mapSavedVideo k.curActiveTerminal)
    else do
      let old ← (k.terminal k.curActiveTerminal).apn
      let context := { activity := k.cpu.activity, esp := k.kernelEsp }
      let cpu := { activity := .launch old k.cpu.activity, esp := k.kernelEsp }
      let k := (k.showTerminal t).modifyPcb old fun pcb => { pcb with saved := some context }
      some { k with cpu := cpu }

/-- `switch_terminal` has made `t` the displayed terminal and is about to start its shell. -/
def awaitShell (k : Kernel) (t : TermId) (old : ProcId) : Kernel :=
  let context := { activity := k.cpu.activity, esp := k.kernelEsp }
  { (k.showTerminal t).modifyPcb old fun pcb => { pcb with saved := some context } with
    cpu := { activity := .launch old k.cpu.activity, esp := k.kernelEsp } }

/-- Everything that `switch_terminal` can do up to its call of `execute`. -/
inductive SwitchedTerminal (k : Kernel) (termNum : Nat) : Kernel → Prop where
  /-- No such terminal, or the displayed one. -/
  | kept (same : ∀ t : TermId, termNum = t.val → t = k.curTerm) : SwitchedTerminal k termNum k
  /-- An active terminal. -/
  | displayed (t : TermId) (target : termNum = t.val) (differs : t ≠ k.curTerm)
      (active : (k.terminal t).active = true) :
      SwitchedTerminal k termNum
        (if k.curActiveTerminal = t then (k.showTerminal t).mapUserVideo
          else (k.showTerminal t).mapUserVideo.mapSavedVideo k.curActiveTerminal)
  /-- A terminal that is not active. -/
  | awaits (t : TermId) (target : termNum = t.val) (differs : t ≠ k.curTerm)
      (inactive : (k.terminal t).active = false) (old : ProcId)
      (apn : (k.terminal k.curActiveTerminal).apn = some old) :
      SwitchedTerminal k termNum (k.awaitShell t old)

theorem switchTerminal_cases {k k' : Kernel} {termNum : Nat}
    (switches : k.switchTerminal termNum = some k') : SwitchedTerminal k termNum k' := by
  unfold switchTerminal at switches
  split at switches
  · rename_i outside
    cases switches
    exact .kept fun t target => absurd t.isLt (by omega)
  rename_i inRange
  dsimp only at switches
  have target : termNum = (⟨termNum, by omega⟩ : TermId).val := rfl
  generalize (⟨termNum, by omega⟩ : TermId) = t at switches target
  split at switches
  · rename_i here
    cases switches
    exact .kept fun u same => (Fin.ext (same.symm.trans target)).trans here
  rename_i differs
  split at switches
  · rename_i active
    cases switches
    exact .displayed t target differs active
  · rename_i inactive
    rcases Option.bind_eq_some_iff.mp switches with ⟨old, apn, done⟩
    cases done
    exact .awaits t target differs (Bool.eq_false_iff.mpr inactive) old apn

theorem switchTerminal_awaits {k : Kernel} {t : TermId} {old : ProcId} (differs : t ≠ k.curTerm)
    (inactive : (k.terminal t).active = false)
    (apn : (k.terminal k.curActiveTerminal).apn = some old) :
    k.switchTerminal t.val = some (k.awaitShell t old) := by
  have inRange : ¬ t.val > 2 := by omega
  simp only [switchTerminal, dif_neg inRange, if_neg differs, inactive, apn]
  rfl

/-- `switch_terminal` from its call of `execute` on.  The context saved for the
interrupted process is used up when the shell cannot be started, since
`switch_terminal` then returns. -/
def launchStep (env : Env) (k : Kernel) (old : ProcId) (interrupted : Activity) :
    Option Kernel := do
  match ← k.execute env .switchTerminal env.shell with
  | .running k => some k
  | .failed k =>
      let k := k.modifyPcb old fun pcb => { pcb with saved := none }
      some { k with cpu := { k.cpu with activity := interrupted } }

/-- `keyboard_interrupt_handler()` with the scancode read. -/
def keyboardInterruptHandler (k : Kernel) (scancode : UInt8) : Option Kernel :=
  let decoded := k.keyboard.decode scancode
  let k := { k with keyboard := decoded.1 }
  match decoded.2 with
  | .nothing => some k
  | .press keycode => k.handleKeyPress keycode
  | .switchTerminal termNum => k.switchTerminal termNum

end Ece391Os.Kernel
