import Ece391Os.Keyboard.Table
import Ece391Os.Process.Frames

/-!
# The machine on the key buffers

Each step of the machine changes the key buffers by one action.  Key presses, switches
of the displayed terminal and the rounds of `clear_buf` are the only ones that do.
-/

namespace Ece391Os

namespace Kernel

/-- The key buffers of a kernel state. -/
def keys (k : Kernel) : KeyTable where
  index := k.keyboard.keyBufferIdx
  buffer := k.keyboard.keyBuffer
  shown := k.curTerm
  saved := fun t => (k.terminal t).keyBufferIdx
  array := fun t => (k.terminal t).keyBuffer
  log := k.keyLog

/-! ## What leaves the key buffers unchanged -/

/-- An assignment to terminal fields other than the key buffer and its index. -/
theorem keys_modifyTerm (k : Kernel) (t : TermId) (change : Term → Term)
    (buffer : ∀ term, (change term).keyBuffer = term.keyBuffer)
    (index : ∀ term, (change term).keyBufferIdx = term.keyBufferIdx) :
    (k.modifyTerm t change).keys = k.keys := by
  ext1
  case saved => exact field_modifyTerm_of_eq Term.keyBufferIdx k t index
  case array => exact field_modifyTerm_of_eq Term.keyBuffer k t buffer
  all_goals rfl

/-- Output, the descriptor calls and the process routines do not touch the key buffers. -/
theorem keys_untouched : UntouchedByProcesses keys where
  console := fun _ _ => rfl
  screen := fun k t change outputOnly => by
    apply k.keys_modifyTerm t change
    · intro term
      rcases outputOnly term with ⟨x, y, screen, changed⟩
      rw [changed]
    · intro term
      rcases outputOnly term with ⟨x, y, screen, changed⟩
      rw [changed]
  fds := fun _ _ _ => rfl
  rtcInterruptOccurred := fun _ _ => rfl
  cmos := fun _ _ => rfl
  memory := fun _ _ => rfl
  cpu := fun _ _ => rfl
  owner := fun k t change ownerOnly => by
    apply k.keys_modifyTerm t change
    · intro term
      rcases ownerOnly term with ⟨active, apn, changed⟩
      rw [changed]
    · intro term
      rcases ownerOnly term with ⟨active, apn, changed⟩
      rw [changed]
  pcb := fun _ _ => rfl
  pidArray := fun _ _ => rfl
  procLog := fun _ _ => rfl
  paging := fun _ _ => rfl
  tssEsp0 := fun _ _ => rfl
  curActiveTerminal := fun _ _ => rfl
  nextSchedTerminal := fun _ _ => rfl

/-- The position in the directory is apart from the key buffers. -/
theorem keys_untouchedByDirectories : Untouched keys where
  toUntouchedByCalls := keys_untouched.toUntouchedByCalls
  directoryLoc := fun _ _ => rfl

theorem keys_setEflag (k : Kernel) (t : TermId) (flag : Bool) :
    (k.setEflag t flag).keys = k.keys :=
  k.keys_modifyTerm t _ (fun _ => rfl) fun _ => rfl

/-! ## Key presses and switches -/

theorem keys_setKey (k : Kernel) (index : Fin 128) (byte : UInt8) :
    (k.setKey index byte).keys = k.keys.store (UInt8.ofNat index) byte := by
  have value : (UInt8.ofNat index).toNat = index.val := UInt8.toNat_ofNat_of_lt' (by
    simp only [UInt8.size]
    omega)
  have inside : UInt8.ofNat index ≠ 128 := by
    intro behind
    rw [behind] at value
    exact absurd value (by simp only [UInt8.reduceToNat]; omega)
  have fields : ∀ u, ((k.setKey index byte).terminal u).keyBufferIdx =
      (k.terminal u).keyBufferIdx ∧
      ∀ i, ((k.setKey index byte).terminal u).keyBuffer i =
        if u = k.keyboard.keyBuffer ∧ i.val = index.val then byte
        else (k.terminal u).keyBuffer i := by
    intro u
    by_cases here : u = k.keyboard.keyBuffer
    · subst u
      refine ⟨by simp [setKey, modifyTerm], fun i => ?_⟩
      by_cases same : i = index
      · simp [setKey, modifyTerm, same]
      · have apart : i.val ≠ index.val := fun equal => same (Fin.ext equal)
        simp [setKey, modifyTerm, same, apart]
    · exact ⟨by simp [setKey, modifyTerm, here], fun i => by simp [setKey, modifyTerm, here]⟩
  ext1
  case saved =>
    rw [KeyTable.store, if_neg inside]
    exact funext fun u => (fields u).1
  case array =>
    funext u i
    rw [KeyTable.store, value]
    exact (fields u).2 i
  case log =>
    rw [KeyTable.store, value]
    rfl
  all_goals rfl

theorem keys_storeKey {k k' : Kernel} {index byte : UInt8}
    (stored : k.storeKey index byte = some k') : k'.keys = k.keys.store index byte := by
  unfold storeKey at stored
  split at stored
  · rename_i inside
    cases stored
    rw [keys_setKey]
    simp
  rename_i outside
  have array : (k.keys.store index byte).array = k.keys.array := by
    funext u i
    have apart : ¬ (u = k.keys.buffer ∧ i.val = index.toNat) := by omega
    rw [KeyTable.store]
    exact if_neg apart
  dsimp only at stored
  split at stored
  · rename_i first
    cases stored
    ext1
    case saved =>
      rw [KeyTable.store, if_pos first]
      exact field_modifyTerm Term.keyBufferIdx _ _ _
    case array =>
      rw [array]
      exact field_modifyTerm_of_eq Term.keyBuffer _ _ fun _ => rfl
    all_goals rfl
  rename_i notFirst
  split at stored
  · cases stored
    refine (keys_modifyTerm _ _ (fun t => { t with eflag := decide (byte ≠ 0) })
      (fun _ => rfl) fun _ => rfl).trans ?_
    ext1
    case saved =>
      rw [KeyTable.store, if_neg notFirst]
      rfl
    case array => exact array.symm
    all_goals rfl
  · cases stored

theorem keys_showTerminal (k : Kernel) (t : TermId) :
    (k.showTerminal t).keys = k.keys.act (.display t) := by
  have saved : (fun u => ((k.saveRestore k.curTerm 0).terminal u).keyBufferIdx) =
      Function.update k.keys.saved k.curTerm k.keyboard.keyBufferIdx := by
    rw [saveRestore, if_pos rfl]
    exact field_modifyTerm Term.keyBufferIdx k k.curTerm _
  have array : (fun u => ((k.saveRestore k.curTerm 0).terminal u).keyBuffer) = k.keys.array := by
    rw [saveRestore, if_pos rfl]
    exact field_modifyTerm_of_eq Term.keyBuffer k k.curTerm fun _ => rfl
  ext1
  case index => exact congrFun saved t
  case saved => exact saved
  case array => exact array
  all_goals rfl

/-! ## The machine -/

/-- What a key press does to the key buffers. -/
inductive Pressed (v : KeyTable) (keycode : UInt8) : BufferAction → Prop where
  | stay : Pressed v keycode .stay
  | erase (enabled : v.Enabled .erase) : Pressed v keycode .erase
  | enter (isEnter : keycode = 0x0D) : Pressed v keycode .enter
  | type (enabled : v.Enabled (.type keycode)) : Pressed v keycode (.type keycode)

theorem handleKeyPress_keys {k k' : Kernel} {keycode : UInt8}
    (handled : k.handleKeyPress keycode = some k') :
    ∃ action, Pressed k.keys keycode action ∧ k'.keys = k.keys.act action := by
  cases handleKeyPress_cases handled with
  | silent console => exact ⟨.stay, .stay, rfl⟩
  | erased console stored positive store =>
      have kept := keys_storeKey store
      exact ⟨.erase, .erase positive, kept⟩
  | entered p stored isEnter apn store =>
      have kept := keys_storeKey store
      rw [keys_setEflag] at kept
      have index : stored.keyboard.keyBufferIdx = k.keyboard.keyBufferIdx :=
        congrArg KeyTable.index kept
      refine ⟨.enter, .enter isEnter, ?_⟩
      have moved : ∀ (k : Kernel) (console : Console) (index : UInt8),
          Kernel.keys { k.setKeyIdx index with console := console } =
            { k.keys with index := index } := fun _ _ _ => rfl
      rw [moved, kept, index]
      rfl
  | typed stored room store =>
      have kept := keys_storeKey store
      refine ⟨.type keycode, .type room, ?_⟩
      have moved : ∀ (k : Kernel) (char index : UInt8), ((k.setKeyIdx index).putc char).keys =
          { k.keys with index := index } := fun _ _ _ => rfl
      rw [moved, kept]
      rfl

/-- The kernel performs an action on the key buffers on an event. -/
inductive Buffers (k : Kernel) : Event → BufferAction → Prop where
  | stay (event : Event) : Buffers k event .stay
  | press (scancode keycode : UInt8) (action : BufferAction)
      (decoded : (k.keyboard.decode scancode).2 = .press keycode)
      (pressed : Pressed k.keys keycode action) : Buffers k (.keyboard scancode) action
  | display (scancode : UInt8) (t : TermId) (enabled : k.keys.Enabled (.display t)) :
      Buffers k (.keyboard scancode) (.display t)
  | clear (i : Fin 127) : Buffers k .wait (.clear i)
  | reset : Buffers k .wait .reset

theorem Buffers.enabled {k : Kernel} {event : Event} {action : BufferAction}
    (buffers : Buffers k event action) : k.keys.Enabled action := by
  cases buffers with
  | stay => trivial
  | press _ _ _ _ pressed =>
      cases pressed with
      | stay => trivial
      | erase enabled => exact enabled
      | enter => trivial
      | type enabled => exact enabled
  | display _ _ enabled => exact enabled
  | clear => trivial
  | reset => trivial

theorem switchTerminal_keys {k k' : Kernel} {termNum : Nat}
    (switches : k.switchTerminal termNum = some k') :
    k'.keys = k.keys ∨
      ∃ t, k.keys.Enabled (.display t) ∧ k'.keys = k.keys.act (.display t) := by
  cases switchTerminal_cases switches with
  | kept => exact .inl rfl
  | displayed t _ differs _ =>
      refine .inr ⟨t, differs, ?_⟩
      split <;> exact k.keys_showTerminal t
  | awaits t _ differs _ old _ => exact .inr ⟨t, differs, k.keys_showTerminal t⟩

theorem terminalReadStep_keys {k k' : Kernel} {buf : Nat} {nbytes : Int} {point : ReadPoint}
    (stepped : k.terminalReadStep buf nbytes point = some k') :
    ∃ action, Buffers k .wait action ∧ k'.keys = k.keys.act action := by
  cases point with
  | spin =>
      obtain ⟨p, _, done⟩ := Option.bind_eq_some_iff.mp stepped
      cases done
      exact ⟨.stay, .stay _, rfl⟩
  | take =>
      obtain ⟨p, _, done⟩ := Option.bind_eq_some_iff.mp stepped
      cases done
      exact ⟨.stay, .stay _, k.keys_setEflag _ _⟩
  | copy i =>
      simp only [terminalReadStep] at stepped
      split at stepped
      · cases stepped
        exact ⟨.stay, .stay _, keys_untouched.storeUser _ _⟩
      · cases stepped
        exact ⟨.stay, .stay _, rfl⟩
  | clear i count =>
      simp only [terminalReadStep] at stepped
      split at stepped
      · rename_i inside
        cases stepped
        exact ⟨.clear ⟨i, inside⟩, .clear _, k.keys_setKey _ _⟩
      · cases stepped
        exact ⟨.stay, .stay _, rfl⟩
  | finish count =>
      cases stepped
      exact ⟨.reset, .reset, rfl⟩

/-- Every step of the machine is an action on the key buffers. -/
theorem step_keys {env : Env} {k k' : Kernel} {event : Event}
    (step : k.step env event = some k') :
    ∃ action, Buffers k event action ∧ k'.keys = k.keys.act action := by
  have stays : k'.keys = k.keys → ∃ action, Buffers k event action ∧
      k'.keys = k.keys.act action := fun same => ⟨.stay, .stay event, same⟩
  have decoded : ∀ scancode,
      Kernel.keys { k with keyboard := (k.keyboard.decode scancode).1 } = k.keys := by
    intro scancode
    ext1
    case index => exact k.keyboard.decode_keyBufferIdx scancode
    case buffer => exact k.keyboard.decode_keyBuffer scancode
    all_goals rfl
  cases step_cases step with
  | scheduled _ schedules => exact stays (keys_untouched.pitScheduling schedules)
  | ignored scancode => exact stays (decoded scancode)
  | pressed scancode keycode _ key handled =>
      rcases handleKeyPress_keys handled with ⟨action, pressed, table⟩
      rw [decoded] at pressed table
      exact ⟨action, .press scancode keycode action key pressed, table⟩
  | switched scancode termNum _ key switches =>
      rcases switchTerminal_keys switches with same | ⟨t, enabled, table⟩
      · exact stays (same.trans (decoded scancode))
      · rw [decoded] at enabled table
        exact ⟨.display t, .display scancode t enabled, table⟩
  | ticked => exact stays keys_untouched.rtcInterruptHandler
  | halted _ _ _ halts => exact stays (keys_untouched.halt halts)
  | executed _ _ _ executes => exact stays (keys_untouched.executeCall executes)
  | begun _ _ _ _ _ begins => exact stays (keys_untouchedByDirectories.beginRead begins)
  | returned _ _ _ _ returns => exact stays (keys_untouched.returns returns)
  | mapped screenStart =>
      exact stays ((keys_untouched.returnToUser _).trans (keys_untouched.vidmap screenStart))
  | readOn _ _ _ _ _ stepped => exact terminalReadStep_keys stepped
  | rtcReadOn seen => exact stays (keys_untouched.rtcReadStep seen)
  | launched _ _ _ _ launches => exact stays (keys_untouched.launchStep launches)

end Kernel

end Ece391Os
