import Ece391Os.Keyboard.Refines
import Ece391Os.Process.Coherence

/-!
# The bounds of the key buffer

Backspace and the printable keys check the index of the key buffer, Enter does not.
Along a run in which Enter is pressed with room for the newline, every store is inside
the array of the displayed terminal.
-/

namespace Ece391Os

open Transition

namespace Kernel

/-! ## The first shell -/

/-- The key buffers that `init_terminal` leaves: empty, except for the last byte of each
array, which it does not write. -/
theorem keys_initTerminals (k : Kernel) :
    ∃ array, (∀ t (i : Fin 128), i.val < 127 → array t i = 0) ∧
      k.startup.initTerminals.keys =
        { index := 0, buffer := 0, shown := 0, saved := fun _ => 0, array := array,
          log := [] } := by
  refine ⟨k.startup.initTerminals.keys.array, fun t i inside => ?_, ?_⟩
  · match t with
    | 0 => exact if_pos inside
    | 1 => exact if_pos inside
    | 2 => exact if_pos inside
  · ext1
    case saved =>
      funext t
      match t with
      | 0 => rfl
      | 1 => rfl
      | 2 => rfl
    all_goals rfl

/-! ## Bounds -/

/-- The index is at most `KEY_BUFFER_SIZE + 1`, and every store through `key_buffer` was
inside the array of the terminal displayed then. -/
def KeyBufferInBounds (k : Kernel) : Prop :=
  k.keyboard.keyBufferIdx.toNat ≤ 128 ∧ ∀ s ∈ k.keyLog, s.index < 128 ∧ s.buffer = s.shown

/-- Enter is pressed with room for the newline in the array. -/
def EnterFits (k : Kernel) : Event → Prop
  | .keyboard scancode =>
      (k.keyboard.decode scancode).2 = .press 0x0D → k.keyboard.keyBufferIdx < 128
  | _ => True

theorem Buffers.fits {k : Kernel} {event : Event} {action : BufferAction}
    (buffers : Buffers k event action) (fits : k.EnterFits event) : k.keys.Fits action := by
  cases buffers with
  | stay => trivial
  | press scancode keycode _ decoded pressed =>
      cases pressed with
      | stay => trivial
      | erase => trivial
      | enter isEnter =>
          subst isEnter
          exact fits decoded
      | type => trivial
  | display => trivial
  | clear => trivial
  | reset => trivial

theorem bounded_step {env : Env} {k k' : Kernel} {event : Event} (bounded : k.keys.Bounded)
    (fits : k.EnterFits event) (step : k.step env event = some k') : k'.keys.Bounded := by
  obtain ⟨action, buffers, table⟩ := step_keys step
  rw [table]
  exact bounded.act buffers.enabled (buffers.fits fits)

theorem bounded_of_boot {env : Env} {k start : Kernel} (booted : boot env k = some start) :
    start.keys.Bounded := by
  obtain ⟨array, _, initial⟩ := k.keys_initTerminals
  rw [keys_untouched.boot booted, initial]
  refine ⟨⟨Nat.zero_le 128, fun s member => ?_⟩, rfl, fun _ => Nat.zero_le 128⟩
  cases member

/-- In every run from the first shell in which Enter is pressed with room for the
newline, the key buffer does not overflow. -/
theorem key_buffer_in_bounds {env : Env} {k start final : Kernel} {events : List Event}
    (ran : UserRun env k start events)
    (fits : EachStep (Kernel.step env) EnterFits start events)
    (reached : run (Kernel.step env) start events = some final) : final.KeyBufferInBounds := by
  have bounded : final.keys.Bounded :=
    run_invariant (fun k => k.keys.Bounded)
      (fun _ _ _ bounded fits step => bounded_step bounded fits step)
      (bounded_of_boot ran.booted) fits reached
  exact ⟨bounded.index, bounded.stores⟩

/-- Enter is pressed once. -/
def enterRun : BootRun Env.sample [.keyboard 0x1C, .timer, .clock]
    (fun k => k.keyboard.keyBufferIdx) 1 :=
  .of (by decide +kernel)

theorem key_buffer_in_bounds_sample :
    enterRun.final.keyboard.keyBufferIdx = 1 ∧ enterRun.final.KeyBufferInBounds := by
  obtain ⟨start, final, booted, reached, index⟩ := enterRun
  refine ⟨index, key_buffer_in_bounds ⟨booted, by decide⟩ ?_ reached⟩
  refine ⟨fun _ => ?_, fun _ _ => ⟨trivial, fun _ _ => ⟨trivial, fun _ _ => trivial⟩⟩⟩
  obtain ⟨array, _, initial⟩ := Kernel.keys_initTerminals default
  have empty : start.keyboard.keyBufferIdx = 0 :=
    congrArg KeyTable.index ((keys_untouched.boot booted).trans initial)
  rw [empty]
  decide

/-- Enter pressed 129 times with no reader stores a newline behind the array. -/
def enterManyRun : BootRun Env.sample (List.replicate 129 (.keyboard 0x1C))
    (fun k => k.keyboard.keyBufferIdx) 129 :=
  .of (by decide +kernel)

theorem enter_overflows :
    ∃ start final, boot Env.sample default = some start ∧
      run (Kernel.step Env.sample) start (List.replicate 129 (.keyboard 0x1C)) = some final ∧
      ¬ final.KeyBufferInBounds := by
  obtain ⟨start, final, booted, reached, index⟩ := enterManyRun
  refine ⟨start, final, booted, reached, fun bounds => ?_⟩
  have most := bounds.1
  rw [index] at most
  exact absurd most (by decide)

end Kernel

end Ece391Os
