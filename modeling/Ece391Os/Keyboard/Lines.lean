import Ece391Os.Keyboard.Table
import Ece391Os.Memory.Stores

/-!
# Lines of input

What is typed on a terminal and what its reads return, as lines: those finished by Enter,
the one being typed, and the reads that are complete.  Read number `n` is to deliver line
number `n`, and the key buffer to hold what no read has delivered.
-/

namespace Ece391Os

open Memory

/-- A complete `terminal_read`: its arguments, its return value, and the memory of the
program before and after it. -/
structure CompletedRead where
  buf : Nat
  numBytes : Int
  value : Int
  before : Nat → UInt8
  after : Nat → UInt8

/-- The read stores the first `num_bytes` bytes of a line, or all of a shorter one, and
returns their number. -/
def CompletedRead.Delivers (r : CompletedRead) (line : List UInt8) : Prop :=
  r.value = min r.numBytes line.length ∧
    r.after = applyStores r.before
      (storeRange r.buf r.value.toNat fun i => line.getD i 0)

/-- The key codes that `handle_key_press` adds to the buffer as they are. -/
def IsCharacter (keycode : UInt8) : Prop :=
  keycode < 0x80 ∧ keycode ≠ 0x0C ∧ keycode ≠ 0x03 ∧ keycode ≠ 0x08 ∧ keycode ≠ 0x0D

instance (keycode : UInt8) : Decidable (IsCharacter keycode) :=
  inferInstanceAs (Decidable (_ ∧ _))

/-- The lines that were finished, with their newlines, the line being typed, the complete
reads, and the memory of the program at the call of the last read. -/
structure LineHistory where
  finished : List (List UInt8)
  current : List UInt8
  reads : List CompletedRead
  before : Nat → UInt8

namespace LineHistory

/-- Nothing has been typed. -/
def empty : LineHistory where
  finished := []
  current := []
  reads := []
  before _ := 0

/-- The lines that no read has delivered. -/
def waiting (h : LineHistory) : List (List UInt8) :=
  h.finished.drop h.reads.length

/-- What was typed and not delivered. -/
def content (h : LineHistory) : List UInt8 :=
  h.waiting.flatten ++ h.current

/-- A key is pressed: Backspace and characters edit the line being typed, which has at most
127 characters, and Enter finishes it. -/
def press (h : LineHistory) (keycode : UInt8) : LineHistory :=
  if keycode = 0x08 then
    { h with current := h.current.dropLast }
  else if keycode = 0x0D then
    { h with finished := h.finished ++ [h.current ++ [0x0A]], current := [] }
  else if IsCharacter keycode ∧ h.current.length < 127 then
    { h with current := h.current ++ [keycode] }
  else
    h

/-- A read is complete. -/
def complete (h : LineHistory) (r : CompletedRead) : LineHistory :=
  { h with reads := h.reads ++ [r] }

/-- Each complete read has delivered the line of its number. -/
def Delivered (h : LineHistory) : Prop :=
  ∀ (n : Nat) (r : CompletedRead), h.reads[n]? = some r →
    ∃ line, h.finished[n]? = some line ∧ r.Delivers line

variable {h : LineHistory}

namespace Delivered

theorem reads_le (delivered : h.Delivered) : h.reads.length ≤ h.finished.length := by
  by_contra more
  have last : h.finished.length < h.reads.length := Nat.lt_of_not_le more
  rcases delivered _ _ (List.getElem?_eq_getElem last) with ⟨line, found, _⟩
  rw [List.getElem?_eq_none (le_refl _)] at found
  cases found

theorem press (delivered : h.Delivered) (keycode : UInt8) : (h.press keycode).Delivered := by
  unfold LineHistory.press
  split
  · exact delivered
  split
  · intro n r read
    rcases delivered n r read with ⟨line, found, delivers⟩
    have inside := (List.getElem?_eq_some_iff.mp found).1
    exact ⟨line, (List.getElem?_append_left inside).trans found, delivers⟩
  split
  · exact delivered
  · exact delivered

/-- A read that delivers the first of the waiting lines. -/
theorem complete (delivered : h.Delivered) {r : CompletedRead} {line : List UInt8}
    {rest : List (List UInt8)} (first : h.waiting = line :: rest) (delivers : r.Delivers line) :
    (h.complete r).Delivered ∧ (h.complete r).waiting = rest := by
  constructor
  · intro n other read
    change (h.reads ++ [r])[n]? = some other at read
    by_cases old : n < h.reads.length
    · rw [List.getElem?_append_left old] at read
      exact delivered n other read
    · have last : n = h.reads.length := by
        have inside := (List.getElem?_eq_some_iff.mp read).1
        rw [List.length_append, List.length_singleton] at inside
        exact Nat.le_antisymm (Nat.lt_succ_iff.mp inside) (Nat.le_of_not_lt old)
      subst last
      rw [List.getElem?_concat_length] at read
      cases read
      refine ⟨line, ?_, delivers⟩
      have head : h.waiting[0]? = some line := by rw [first, List.getElem?_cons_zero]
      rwa [waiting, List.getElem?_drop] at head
  · have next : (h.complete r).waiting = h.waiting.drop 1 := by
      unfold waiting
      rw [List.drop_drop]
      simp [LineHistory.complete]
    rw [next, first, List.drop_one, List.tail_cons]

end Delivered

/-! ## Keys -/

theorem press_backspace (h : LineHistory) :
    h.press 0x08 = { h with current := h.current.dropLast } :=
  rfl

theorem press_enter (h : LineHistory) :
    h.press 0x0D = { h with finished := h.finished ++ [h.current ++ [0x0A]], current := [] } :=
  rfl

theorem press_character {keycode : UInt8} (character : IsCharacter keycode)
    (room : h.current.length < 127) :
    h.press keycode = { h with current := h.current ++ [keycode] } := by
  rcases character with ⟨low, formFeed, ctrlC, backspace, enter⟩
  rw [press, if_neg backspace, if_neg enter,
    if_pos ⟨⟨low, formFeed, ctrlC, backspace, enter⟩, room⟩]

theorem press_other {keycode : UInt8} (backspace : keycode ≠ 0x08) (enter : keycode ≠ 0x0D)
    (noRoom : ¬ (IsCharacter keycode ∧ h.current.length < 127)) : h.press keycode = h := by
  rw [press, if_neg backspace, if_neg enter, if_neg noRoom]

theorem before_press (h : LineHistory) (keycode : UInt8) :
    (h.press keycode).before = h.before := by
  unfold press
  split
  · rfl
  split
  · rfl
  split <;> rfl

/-- Enter adds a waiting line, the other keys none. -/
theorem waiting_press (delivered : h.Delivered) (keycode : UInt8) :
    (h.press keycode).waiting =
      if keycode = 0x0D then h.waiting ++ [h.current ++ [0x0A]] else h.waiting := by
  by_cases enter : keycode = 0x0D
  · subst enter
    rw [if_pos rfl, press_enter]
    exact List.drop_append_of_le_length delivered.reads_le
  · rw [if_neg enter]
    unfold press
    split
    · rfl
    · split <;> rfl

end LineHistory

/-! ## The key buffer -/

namespace KeyTable

/-- The buffer holds a list of bytes. -/
structure Holds (v : KeyTable) (content : List UInt8) : Prop where
  index : v.index.toNat = content.length
  room : content.length ≤ 128
  bytes : ∀ (i : Fin 128) byte, content[i.val]? = some byte → v.array v.buffer i = byte

/-- What a key does to the buffer. -/
def pressAction (v : KeyTable) (keycode : UInt8) : BufferAction :=
  if keycode = 0x08 then
    if 0 < v.index then .erase else .stay
  else if keycode = 0x0D then
    .enter
  else if IsCharacter keycode ∧ v.index < 127 then
    .type keycode
  else
    .stay

/-- The key edits the line being typed: Backspace finds a character of it or an empty
buffer, and Enter and the characters of a line find room. -/
def EditsLine (v : KeyTable) (h : LineHistory) (keycode : UInt8) : Prop :=
  (keycode = 0x08 → h.current ≠ [] ∨ v.index = 0) ∧ (keycode = 0x0D → v.index < 128) ∧
    (IsCharacter keycode → h.current.length < 127 → v.index < 127)

/-- An empty buffer. -/
theorem holds_nil {v : KeyTable} (index : v.index = 0) : v.Holds [] where
  index := by
    rw [index]
    rfl
  room := Nat.zero_le 128
  bytes := by
    intro i byte read
    rw [List.getElem?_nil] at read
    cases read

instance (v : KeyTable) (h : LineHistory) (keycode : UInt8) :
    Decidable (v.EditsLine h keycode) :=
  inferInstanceAs (Decidable (_ ∧ _))

namespace Holds

variable {v : KeyTable} {content : List UInt8}

/-- A byte is added behind the content. -/
theorem add (holds : v.Holds content) (byte : UInt8) (inside : v.index.toNat < 128) :
    Holds { v.store v.index byte with index := v.index + 1 } (content ++ [byte]) where
  index := by
    have next : (v.index + 1).toNat = v.index.toNat + 1 := by
      rw [UInt8.toNat_add]
      exact Nat.mod_eq_of_lt (by simp only [UInt8.toNat_one]; omega)
    rw [List.length_append, List.length_singleton, ← holds.index]
    exact next
  room := by
    rw [List.length_append, List.length_singleton, ← holds.index]
    exact inside
  bytes := by
    intro i found read
    by_cases last : i.val = content.length
    · rw [last, List.getElem?_concat_length] at read
      cases read
      have here : v.buffer = v.buffer ∧ i.val = v.index.toNat := ⟨rfl, last.trans holds.index.symm⟩
      exact if_pos here
    · have other : ¬ (v.buffer = v.buffer ∧ i.val = v.index.toNat) :=
        fun same => last (same.2.trans holds.index)
      have old : content[i.val]? = some found := by
        rw [← read, List.getElem?_append_left]
        have inside := (List.getElem?_eq_some_iff.mp read).1
        rw [List.length_append, List.length_singleton] at inside
        exact Nat.lt_of_le_of_ne (Nat.lt_succ_iff.mp inside) last
      exact (if_neg other).trans (holds.bytes i found old)

theorem previous (holds : v.Holds content) (nonempty : content ≠ []) :
    (v.index - 1).toNat = content.length - 1 := by
  have positive : 0 < v.index.toNat := by
    rw [holds.index]
    exact List.length_pos_iff.mpr nonempty
  rw [← holds.index]
  exact UInt8.toNat_sub_of_le _ _ (UInt8.le_iff_toNat_le.mpr positive)

/-- The last byte of the content is removed. -/
theorem erase (holds : v.Holds content) (nonempty : content ≠ []) :
    (v.act .erase).Holds content.dropLast where
  index := by
    rw [List.length_dropLast]
    exact holds.previous nonempty
  room := by
    rw [List.length_dropLast]
    exact (Nat.sub_le _ _).trans holds.room
  bytes := by
    intro i found read
    rw [List.getElem?_dropLast] at read
    split at read
    · rename_i before
      have other : ¬ (v.buffer = v.buffer ∧ i.val = (v.index - 1).toNat) := by
        rw [holds.previous nonempty]
        exact fun same => Nat.ne_of_lt before same.2
      exact (if_neg other).trans (holds.bytes i found read)
    · cases read

/-- A key that edits the line being typed leaves the buffer with what is then typed and not
delivered. -/
theorem press {h : LineHistory} (holds : v.Holds h.content) (delivered : h.Delivered)
    {keycode : UInt8} (edits : v.EditsLine h keycode) :
    (v.act (v.pressAction keycode)).Holds (h.press keycode).content := by
  rcases edits with ⟨backspace, enter, character⟩
  have length : v.index.toNat = h.waiting.flatten.length + h.current.length := by
    rw [holds.index, LineHistory.content, List.length_append]
  by_cases isBackspace : keycode = 0x08
  · subst isBackspace
    rw [pressAction, if_pos rfl, LineHistory.press_backspace]
    by_cases nothing : h.current = []
    · have zero : v.index = 0 := (backspace rfl).resolve_left (not_not_intro nothing)
      have same : h.current.dropLast = h.current := by
        rw [nothing]
        rfl
      rw [zero, if_neg (by decide), same]
      exact holds
    · have positive : (0 : UInt8).toNat < v.index.toNat := by
        have typed := List.length_pos_iff.mpr nothing
        change 0 < v.index.toNat
        omega
      have content : h.content ≠ [] := by simp [LineHistory.content, nothing]
      rw [if_pos (UInt8.lt_iff_toNat_lt.mpr positive)]
      have erased := holds.erase content
      rw [LineHistory.content, List.dropLast_append_of_ne_nil nothing] at erased
      exact erased
  by_cases isEnter : keycode = 0x0D
  · subst isEnter
    have added := holds.add 0x0A (UInt8.lt_iff_toNat_lt.mp (enter rfl))
    have after : (h.press 0x0D).content = h.content ++ [0x0A] := by
      rw [LineHistory.content, LineHistory.waiting_press delivered, if_pos rfl,
        LineHistory.press_enter, LineHistory.content]
      simp
    rw [after]
    exact added
  rw [pressAction, if_neg isBackspace, if_neg isEnter]
  by_cases isCharacter : IsCharacter keycode
  · by_cases short : h.current.length < 127
    · have room : v.index < 127 := character isCharacter short
      have inside : v.index.toNat < 128 := (UInt8.lt_iff_toNat_lt.mp room).trans (by decide)
      rw [if_pos ⟨isCharacter, room⟩, LineHistory.press_character isCharacter short]
      have added := holds.add keycode inside
      rw [LineHistory.content, List.append_assoc] at added
      exact added
    · have full : ¬ (IsCharacter keycode ∧ v.index < 127) := by
        rintro ⟨_, room⟩
        have inside : v.index.toNat < 127 := UInt8.lt_iff_toNat_lt.mp room
        omega
      rw [if_neg full, LineHistory.press_other isBackspace isEnter fun both => short both.2]
      exact holds
  · rw [if_neg fun both => isCharacter both.1,
      LineHistory.press_other isBackspace isEnter fun both => isCharacter both.1]
    exact holds

end Holds

end KeyTable

end Ece391Os
