import Ece391Os.Kernel.State

/-!
# The key buffers of the terminals

An abstract view of the kernel: the arrays of the three terminals, the index that
belongs to the displayed terminal, and the saved indices of the others.  Every kernel
event is one action on this view.  The first invariant relates what an array holds to
the stores made into it, the second bounds the index.
-/

namespace Ece391Os

/-- What the kernel state says about key buffers. -/
@[ext]
structure KeyTable where
  index : UInt8
  buffer : TermId
  shown : TermId
  saved : TermId → UInt8
  array : TermId → Fin 128 → UInt8
  log : List KeyStore

/-- The actions of the kernel on the key buffers. -/
inductive BufferAction where
  /-- No change. -/
  | stay
  /-- Backspace removes a character. -/
  | erase
  /-- Enter adds a newline. -/
  | enter
  /-- A key adds its character. -/
  | type (keycode : UInt8)
  /-- One round of `clear_buf`. -/
  | clear (i : Fin 127)
  /-- The index goes back to 0. -/
  | reset
  /-- Another terminal is displayed. -/
  | display (t : TermId)

namespace KeyTable

/-- A store through `key_buffer`; the saved index lies behind the array. -/
def store (v : KeyTable) (index byte : UInt8) : KeyTable :=
  { v with
    array := fun t i => if t = v.buffer ∧ i.val = index.toNat then byte else v.array t i
    saved := if index = 128 then Function.update v.saved v.buffer byte else v.saved
    log := ⟨v.buffer, index.toNat, byte, v.shown⟩ :: v.log }

/-- The effect of an action. -/
def act (v : KeyTable) : BufferAction → KeyTable
  | .stay => v
  | .erase => { v with index := v.index - 1 }.store (v.index - 1) 0
  | .enter => { v.store v.index 0x0A with index := v.index + 1 }
  | .type keycode => { v.store v.index keycode with index := v.index + 1 }
  | .clear i => v.store (UInt8.ofNat i) 0
  | .reset => { v with index := 0 }
  | .display t =>
      let saved := Function.update v.saved v.shown v.index
      { v with saved := saved, index := saved t, buffer := t, shown := t }

/-- What the kernel has checked when it performs an action. -/
def Enabled (v : KeyTable) : BufferAction → Prop
  | .erase => 0 < v.index
  | .type _ => v.index < 127
  | .display t => t ≠ v.shown
  | _ => True

/-! ## Contents -/

/-- The last store into a cell. -/
def lastStore (v : KeyTable) (t : TermId) (i : Nat) : Option KeyStore :=
  v.log.find? fun s => decide (s.buffer = t ∧ s.index = i)

/-- An array holds what was stored last, and every store goes into the array of the
displayed terminal. -/
structure Owned (v : KeyTable) : Prop where
  buffer : v.buffer = v.shown
  stores : ∀ s ∈ v.log, s.buffer = s.shown
  content : ∀ t (i : Fin 128), i.val < 127 →
    v.array t i = ((v.lastStore t i).map KeyStore.byte).getD 0

variable {v : KeyTable}

theorem lastStore_store (v : KeyTable) (index byte : UInt8) (t : TermId) (i : Nat) :
    (v.store index byte).lastStore t i =
      if t = v.buffer ∧ i = index.toNat then some ⟨v.buffer, index.toNat, byte, v.shown⟩
      else v.lastStore t i := by
  simp only [lastStore, store, List.find?_cons]
  by_cases here : t = v.buffer ∧ i = index.toNat
  · obtain ⟨rfl, rfl⟩ := here
    simp
  · rw [if_neg here]
    have other : ¬ (v.buffer = t ∧ index.toNat = i) := fun same =>
      here ⟨same.1.symm, same.2.symm⟩
    simp [other]

namespace Owned

theorem store (owned : v.Owned) (index byte : UInt8) : (v.store index byte).Owned where
  buffer := owned.buffer
  stores := by
    intro s member
    rcases List.mem_cons.mp member with rfl | old
    · exact owned.buffer
    · exact owned.stores s old
  content := by
    intro t i inside
    rw [lastStore_store]
    by_cases here : t = v.buffer ∧ i.val = index.toNat
    · simp [KeyTable.store, here]
    · simpa [KeyTable.store, here] using owned.content t i inside

theorem setIndex (owned : v.Owned) (index : UInt8) : Owned { v with index := index } :=
  ⟨owned.buffer, owned.stores, owned.content⟩

/-- Every action keeps the arrays related to the stores made into them. -/
theorem act (owned : v.Owned) (action : BufferAction) : (v.act action).Owned := by
  cases action with
  | stay => exact owned
  | erase => exact (owned.setIndex _).store _ _
  | enter => exact (owned.store _ _).setIndex _
  | type keycode => exact (owned.store _ _).setIndex _
  | clear i => exact owned.store _ _
  | reset => exact owned.setIndex _
  | display t => exact ⟨rfl, owned.stores, owned.content⟩

/-- What a cell holds was stored while the terminal of the array was displayed. -/
theorem shown_of_ne_zero (owned : v.Owned) {t : TermId} {i : Fin 128} (inside : i.val < 127)
    (holds : v.array t i ≠ 0) :
    ∃ s, v.lastStore t i = some s ∧ s.byte = v.array t i ∧ s.shown = t := by
  have content := owned.content t i inside
  cases last : v.lastStore t i with
  | none =>
      rw [last] at content
      exact absurd content holds
  | some s =>
      rw [last] at content
      have here : s.buffer = t ∧ s.index = i.val := by simpa using List.find?_some last
      have shown := owned.stores s (List.mem_of_find?_eq_some last)
      exact ⟨s, rfl, content.symm, shown.symm.trans here.1⟩

end Owned

/-! ## Bounds -/

/-- The index and every store made so far are within bounds. -/
structure InBounds (v : KeyTable) : Prop where
  index : v.index.toNat ≤ 128
  stores : ∀ s ∈ v.log, s.index < 128 ∧ s.buffer = s.shown

/-- The bounds, with the saved indices. -/
structure Bounded (v : KeyTable) : Prop extends v.InBounds where
  buffer : v.buffer = v.shown
  saved : ∀ t, (v.saved t).toNat ≤ 128

/-- Enter is pressed with room for the newline in the array. -/
def Fits (v : KeyTable) : BufferAction → Prop
  | .enter => v.index < 128
  | _ => True

namespace Bounded

theorem store (bounded : v.Bounded) {index : UInt8} (byte : UInt8) (inside : index.toNat < 128) :
    (v.store index byte).Bounded where
  index := bounded.index
  stores := by
    intro s member
    rcases List.mem_cons.mp member with rfl | old
    · exact ⟨inside, bounded.buffer⟩
    · exact bounded.stores s old
  buffer := bounded.buffer
  saved := by
    have notSaved : index ≠ 128 := by
      rintro rfl
      exact absurd inside (by decide)
    simpa [KeyTable.store, notSaved] using bounded.saved

theorem setIndex (bounded : v.Bounded) {index : UInt8} (inside : index.toNat ≤ 128) :
    Bounded { v with index := index } :=
  ⟨⟨inside, bounded.stores⟩, bounded.buffer, bounded.saved⟩

/-- Every action that fits keeps the bounds. -/
theorem act (bounded : v.Bounded) {action : BufferAction} (enabled : v.Enabled action)
    (fits : v.Fits action) : (v.act action).Bounded := by
  have index := bounded.index
  cases action with
  | stay => exact bounded
  | erase =>
      have positive : 0 < v.index.toNat := UInt8.lt_iff_toNat_lt.mp enabled
      have previous : (v.index - 1).toNat = v.index.toNat - 1 :=
        UInt8.toNat_sub_of_le _ _ (UInt8.le_iff_toNat_le.mpr positive)
      exact (bounded.setIndex (by omega)).store 0 (by omega)
  | enter =>
      have room : v.index.toNat < 128 := UInt8.lt_iff_toNat_lt.mp fits
      have next : (v.index + 1).toNat = v.index.toNat + 1 := by
        rw [UInt8.toNat_add]
        exact Nat.mod_eq_of_lt (by simp only [UInt8.toNat_one]; omega)
      exact (bounded.store 0x0A room).setIndex (by omega)
  | type keycode =>
      have room : v.index.toNat < 127 := UInt8.lt_iff_toNat_lt.mp enabled
      have next : (v.index + 1).toNat = v.index.toNat + 1 := by
        rw [UInt8.toNat_add]
        exact Nat.mod_eq_of_lt (by simp only [UInt8.toNat_one]; omega)
      exact (bounded.store keycode (by omega)).setIndex (by omega)
  | clear i =>
      have inside : (UInt8.ofNat i).toNat = i.val := UInt8.toNat_ofNat_of_lt' (by
        simp only [UInt8.size]
        omega)
      exact bounded.store 0 (by omega)
  | reset => exact bounded.setIndex (by decide)
  | display t =>
      have savedBound : ∀ u, (Function.update v.saved v.shown v.index u).toNat ≤ 128 := by
        intro u
        by_cases same : u = v.shown
        · rw [same, Function.update_self]
          exact index
        · rw [Function.update_of_ne same]
          exact bounded.saved u
      exact ⟨⟨savedBound t, bounded.stores⟩, rfl, savedBound⟩

end Bounded

end KeyTable

end Ece391Os
