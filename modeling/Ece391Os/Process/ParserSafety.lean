import Ece391Os.Process.CommandLine

/-!
# Memory safety of the parser

The accesses that the parser of `execute` makes to the command, to its arrays and to the
argument in the PCB.  Its indices are 8-bit words: a loop that finds no end among the first
256 bytes goes on at the start of the command.
-/

namespace Ece391Os

open Memory

namespace Command

variable (c : Command)

/-! ## The accesses -/

/-- The number of steps of a loop of the parser; `none` when it does not end. -/
def scanSteps (stops : UInt8 → Bool) (start : Nat) : Option Nat :=
  (List.range 256).find? fun j => stops (c.byte ((start + j) % 256))

/-- The 8-bit indices that a loop visits. -/
def visited (start count : Nat) : List Nat :=
  (List.range count).map fun j => (start + j) % 256

/-- The accesses of the parser: the indices at which it reads the command and stores into
`parsed_cmd` and `arg`, and the two arrays that it leaves. -/
structure Accesses where
  reads : List Nat
  nameStores : List Int
  argStores : List Int
  nameArray : Nat → UInt8
  argArray : Nat → UInt8

/-- The accesses for the indices and the numbers of steps that the loops find. -/
def accessesAt (nameStart nameSteps nameEnd argStart argSteps argEnd : Nat) : Accesses where
  reads := visited 0 (nameStart + 1) ++ visited nameStart (nameSteps + 1) ++
    List.range' nameStart (nameEnd - nameStart) ++ visited argStart (argSteps + 1) ++
    List.range' argStart (argEnd - argStart)
  nameStores :=
    (List.range (nameEnd - nameStart)).map (fun j : Nat => (j : Int)) ++ [(nameEnd : Int)]
  argStores := (List.range (argEnd - argStart)).map (fun j : Nat => (j : Int)) ++
    [(argEnd : Int) - argStart]
  nameArray := c.copied c.parsedCmd nameStart nameEnd nameEnd
  argArray := c.copied c.arg argStart argEnd (argEnd - argStart)

/-- The parser with its accesses; `none` when a loop does not end. -/
def accesses : Option Accesses := do
  let nameStart ← c.scanSteps (· ≠ 0x20) 0
  let nameSteps ← c.scanSteps isEnd nameStart
  let nameEnd := (nameStart + nameSteps) % 256
  let argStart := (nameEnd + 1) % 256
  let argSteps ← c.scanSteps isEnd argStart
  let argEnd := (argStart + argSteps) % 256
  some (c.accessesAt nameStart nameSteps nameEnd argStart argSteps argEnd)

/-- `strcpy(dest, src)` stores at an index. -/
def StrcpyStores (src : Nat → UInt8) (i : Nat) : Prop :=
  ∀ j < i, src j ≠ 0

/-- No access leaves the command, `parsed_cmd`, `arg` or `argbuf`. -/
structure Accesses.Safe (a : Accesses) (length : Nat) : Prop where
  command : ∀ i ∈ a.reads, i ≤ length
  parsedCmd : ∀ i ∈ a.nameStores, 0 ≤ i ∧ i < 256
  arg : ∀ i ∈ a.argStores, 0 ≤ i ∧ i < 100
  argbuf : ∀ i, StrcpyStores a.argArray i → i < 100

variable {c}

theorem scan_eq_scanSteps (stops : UInt8 → Bool) (start : Nat) :
    c.scan stops start = (c.scanSteps stops start).map fun j => (start + j) % 256 := by
  rw [scan, scanSteps, List.find?_map]
  rfl

theorem scanSteps_eq_some_iff {stops : UInt8 → Bool} {start steps : Nat} :
    c.scanSteps stops start = some steps ↔
      steps < 256 ∧ stops (c.byte ((start + steps) % 256)) = true ∧
        ∀ j < steps, stops (c.byte ((start + j) % 256)) = false := by
  rw [scanSteps, List.find?_range_eq_some]
  constructor
  · rintro ⟨stop, member, before⟩
    exact ⟨List.mem_range.mp member, stop, fun j below => by simpa using before j below⟩
  · rintro ⟨small, stop, before⟩
    exact ⟨stop, List.mem_range.mpr small, fun j below => by simp [before j below]⟩

theorem scanSteps_eq_none_iff {stops : UInt8 → Bool} {start : Nat} :
    c.scanSteps stops start = none ↔ ∀ j < 256, stops (c.byte ((start + j) % 256)) = false := by
  rw [scanSteps, List.find?_eq_none]
  constructor
  · intro never j below
    simpa using never j (List.mem_range.mpr below)
  · intro never j member
    simp [never j (List.mem_range.mp member)]

theorem scanSteps_lt {stops : UInt8 → Bool} {start steps : Nat}
    (found : c.scanSteps stops start = some steps) : steps < 256 :=
  (scanSteps_eq_some_iff.mp found).1

/-- The accesses are those of the parser. -/
theorem parse_eq_accesses : c.parse = c.accesses.map fun a =>
    ⟨cString ((List.range 256).map a.nameArray), cString ((List.range 256).map a.argArray)⟩ := by
  simp only [parse, accesses, scan_eq_scanSteps, Option.bind_eq_bind]
  cases start : c.scanSteps (· ≠ 0x20) 0 with
  | none => rfl
  | some nameStart =>
      have small : (0 + nameStart) % 256 = nameStart := by
        have below := scanSteps_lt start
        omega
      simp only [Option.map_some, Option.bind_some, small]
      cases c.scanSteps isEnd nameStart with
      | none => rfl
      | some nameSteps =>
          simp only [Option.map_some, Option.bind_some]
          cases c.scanSteps isEnd (((nameStart + nameSteps) % 256 + 1) % 256) with
          | none => rfl
          | some argSteps => rfl

/-- A loop that comes to a byte without wrapping around. -/
theorem scanSteps_of_index {stops : UInt8 → Bool} {start index : Nat} (from_ : start ≤ index)
    (small : index < 256) (stop : stops (c.byte index) = true)
    (before : ∀ i, start ≤ i → i < index → stops (c.byte i) = false) :
    c.scanSteps stops start = some (index - start) := by
  apply scanSteps_eq_some_iff.mpr
  refine ⟨by omega, ?_, ?_⟩
  · have there : (start + (index - start)) % 256 = index := by omega
    rw [there]
    exact stop
  · intro j below
    have there : (start + j) % 256 = start + j := by omega
    rw [there]
    exact before _ (Nat.le_add_right _ _) (by omega)

/-- A loop that wraps around comes to the first byte of the command. -/
theorem scanSteps_of_wrap {stops : UInt8 → Bool} {start : Nat} (positive : 0 < start)
    (small : start < 256) (stop : stops (c.byte 0) = true)
    (before : ∀ i, start ≤ i → i < 256 → stops (c.byte i) = false) :
    c.scanSteps stops start = some (256 - start) := by
  apply scanSteps_eq_some_iff.mpr
  refine ⟨by omega, ?_, ?_⟩
  · have there : (start + (256 - start)) % 256 = 0 := by omega
    rw [there]
    exact stop
  · intro j below
    have there : (start + j) % 256 = start + j := by omega
    rw [there]
    exact before _ (Nat.le_add_right _ _) (by omega)

/-! ## Landmarks of a command -/

/-- The number of spaces at the start of a text. -/
def leadingSpaces (text : List UInt8) : Nat :=
  (text.takeWhile (· = 0x20)).length

/-- The first index from `start` on at which a name or an argument ends, if only at the NUL
behind the text. -/
def firstEnd (text : List UInt8) (start : Nat) : Nat :=
  start + ((text.drop start).takeWhile fun char => !isEnd char).length

/-- The name ends at `nameEnd` behind `spaces` spaces, and the first end behind it is
`argEnd`. -/
structure Landmarks (byte : Nat → UInt8) (length spaces nameEnd argEnd : Nat) : Prop where
  leading : ∀ i < spaces, byte i = 0x20
  notSpace : byte spaces ≠ 0x20
  nameFrom : spaces ≤ nameEnd
  nameLe : nameEnd ≤ length
  name : ∀ i, spaces ≤ i → i < nameEnd → isEnd (byte i) = false
  nameEnds : isEnd (byte nameEnd) = true
  argFrom : nameEnd < argEnd
  argLe : nameEnd < length → argEnd ≤ length
  arg : nameEnd < length → ∀ i, nameEnd < i → i < argEnd → isEnd (byte i) = false
  argEnds : nameEnd < length → isEnd (byte argEnd) = true

/-- A loop over a string stops behind the bytes that it passes, at the latest at the NUL. -/
theorem stops_behind_takeWhile (passes : UInt8 → Bool) {byte : Nat → UInt8} {start : Nat}
    (stopsNul : passes 0 = false) {text : List UInt8} (holds : Holds byte start (text ++ [0])) :
    (∀ i, start ≤ i → i < start + (text.takeWhile passes).length → passes (byte i) = true) ∧
      passes (byte (start + (text.takeWhile passes).length)) = false := by
  induction text generalizing start with
  | nil =>
      rw [List.nil_append, holds_cons] at holds
      constructor
      · intro i from_ below
        exact absurd below (Nat.not_lt.mpr from_)
      · rw [List.takeWhile_nil, List.length_nil, Nat.add_zero, holds.1]
        exact stopsNul
  | cons char text ih =>
      rw [List.cons_append, holds_cons] at holds
      rcases holds with ⟨first, others⟩
      rw [List.takeWhile_cons]
      cases passed : passes char with
      | false =>
          rw [if_neg (by decide)]
          constructor
          · intro i from_ below
            exact absurd below (Nat.not_lt.mpr from_)
          · rw [List.length_nil, Nat.add_zero, first]
            exact passed
      | true =>
          rcases ih others with ⟨inside, stop⟩
          rw [if_pos rfl, List.length_cons]
          constructor
          · intro i from_ below
            by_cases here : i = start
            · rw [here, first]
              exact passed
            · exact inside i (by omega) (by omega)
          · rwa [Nat.add_assoc, Nat.add_comm 1] at stop

theorem length_takeWhile_drop_le (passes : UInt8 → Bool) (text : List UInt8) {start : Nat}
    (inside : start ≤ text.length) :
    start + ((text.drop start).takeWhile passes).length ≤ text.length := by
  have short := (List.takeWhile_prefix passes (l := text.drop start)).length_le
  rw [List.length_drop] at short
  omega

/-- The landmarks of a NUL-terminated text. -/
theorem landmarks_of_holds {byte : Nat → UInt8} {text : List UInt8}
    (holds : Holds byte 0 (text ++ [0])) :
    Landmarks byte text.length (leadingSpaces text) (firstEnd text (leadingSpaces text))
      (firstEnd text (firstEnd text (leadingSpaces text) + 1)) := by
  have from_ : ∀ start ≤ text.length, Holds byte start (text.drop start ++ [0]) := by
    intro start inside
    have split : text ++ [0] = text.take start ++ (text.drop start ++ [0]) := by
      rw [← List.append_assoc, List.take_append_drop]
    rw [split] at holds
    have behind := (holds_append.mp holds).2
    rwa [List.length_take_of_le inside, Nat.zero_add] at behind
  have spaces := stops_behind_takeWhile (· = 0x20) (by decide) holds
  have spacesLe : leadingSpaces text ≤ text.length :=
    (List.takeWhile_prefix _).length_le
  have name := stops_behind_takeWhile (fun char => !isEnd char) (by decide)
    (from_ _ spacesLe)
  have nameLe : firstEnd text (leadingSpaces text) ≤ text.length :=
    length_takeWhile_drop_le _ text spacesLe
  simp only [Nat.zero_add, decide_eq_true_eq, decide_eq_false_iff_not] at spaces
  simp only [Bool.not_eq_true', Bool.not_eq_false'] at name
  have arg : firstEnd text (leadingSpaces text) < text.length →
      (∀ i, firstEnd text (leadingSpaces text) + 1 ≤ i →
        i < firstEnd text (firstEnd text (leadingSpaces text) + 1) → isEnd (byte i) = false) ∧
        isEnd (byte (firstEnd text (firstEnd text (leadingSpaces text) + 1))) = true := by
    intro inside
    have stops := stops_behind_takeWhile (fun char => !isEnd char) (by decide)
      (from_ _ inside)
    simp only [Bool.not_eq_true', Bool.not_eq_false'] at stops
    exact stops
  constructor
  · intro i below
    exact spaces.1 i (Nat.zero_le i) below
  · exact spaces.2
  · exact Nat.le_add_right _ _
  · exact nameLe
  · exact name.1
  · exact name.2
  · exact Nat.lt_of_lt_of_le (Nat.lt_succ_self _) (Nat.le_add_right _ _)
  · exact fun inside => length_takeWhile_drop_le _ text inside
  · exact fun inside => (arg inside).1
  · exact fun inside => (arg inside).2

/-! ## The loops at the landmarks -/

section Loops

variable {c : Command} {length spaces nameEnd argEnd : Nat}
  (marks : Landmarks c.byte length spaces nameEnd argEnd)

include marks

theorem scan_spaces (small : spaces < 256) : c.scanSteps (· ≠ 0x20) 0 = some spaces := by
  apply scanSteps_of_index (Nat.zero_le _) small
  · exact decide_eq_true marks.notSpace
  · intro i _ below
    rw [marks.leading i below]
    decide

/-- A command of spaces only: the first loop does not end. -/
theorem scan_spaces_none (long : 256 ≤ spaces) : c.scanSteps (· ≠ 0x20) 0 = none := by
  apply scanSteps_eq_none_iff.mpr
  intro j below
  have there : (0 + j) % 256 = j := by omega
  rw [there, marks.leading j (by omega)]
  decide

theorem scan_name (small : nameEnd < 256) :
    c.scanSteps isEnd spaces = some (nameEnd - spaces) :=
  scanSteps_of_index marks.nameFrom small marks.nameEnds marks.name

/-- A long name behind spaces: the loop ends at the first of them. -/
theorem scan_name_wrap (positive : 0 < spaces) (small : spaces < 256) (long : 256 ≤ nameEnd) :
    c.scanSteps isEnd spaces = some (256 - spaces) := by
  apply scanSteps_of_wrap positive small
  · rw [marks.leading 0 positive]
    decide
  · intro i from_ below
    exact marks.name i from_ (by omega)

/-- A long name without spaces: the loop does not end. -/
theorem scan_name_none (none : spaces = 0) (long : 256 ≤ nameEnd) :
    c.scanSteps isEnd spaces = Option.none := by
  subst none
  apply scanSteps_eq_none_iff.mpr
  intro j below
  have there : (0 + j) % 256 = j := by omega
  rw [there]
  exact marks.name j (Nat.zero_le j) (by omega)

/-- The loop for the argument ends at the first end behind the name, unless it wraps around. -/
theorem scan_arg (inside : nameEnd < length) {argSteps : Nat}
    (scanned : c.scanSteps isEnd (nameEnd + 1) = some argSteps)
    (small : nameEnd + 1 + argSteps < 256) : argEnd = nameEnd + 1 + argSteps := by
  have argFrom := marks.argFrom
  rcases scanSteps_eq_some_iff.mp scanned with ⟨_, stop, before⟩
  rw [Nat.mod_eq_of_lt small] at stop
  rcases Nat.lt_trichotomy argEnd (nameEnd + 1 + argSteps) with early | same | late
  · have passed := before (argEnd - (nameEnd + 1)) (by omega)
    have there : (nameEnd + 1 + (argEnd - (nameEnd + 1))) % 256 = argEnd := by omega
    rw [there, marks.argEnds inside] at passed
    cases passed
  · exact same
  · have passed := marks.arg inside _ (by omega) late
    rw [passed] at stop
    cases stop

end Loops

/-! ## Which accesses are safe -/

section Accesses

variable {c : Command} {length nameStart nameSteps nameEnd argStart argSteps argEnd : Nat}

theorem mem_visited {start count i : Nat} :
    i ∈ visited start count ↔ ∃ j < count, (start + j) % 256 = i := by
  simp [visited]

/-- What the third loop finds decides what the accesses are. -/
theorem accesses_eq (nameEnd argStart : Nat) (start : c.scanSteps (· ≠ 0x20) 0 = some nameStart)
    (name : c.scanSteps isEnd nameStart = some nameSteps)
    (nameEndEq : (nameStart + nameSteps) % 256 = nameEnd)
    (argStartEq : (nameEnd + 1) % 256 = argStart) :
    c.accesses = (c.scanSteps isEnd argStart).map fun argSteps =>
      c.accessesAt nameStart nameSteps nameEnd argStart argSteps ((argStart + argSteps) % 256) := by
  simp only [accesses, start, name, Option.bind_eq_bind, Option.bind_some, nameEndEq, argStartEq,
    Option.map_eq_bind]
  rfl

/-- An argument between its indices, in the command and short enough. -/
theorem safe_accessesAt (startLe : nameStart ≤ length) (startLt : nameStart < 256)
    (nameRead : ∀ j ≤ nameSteps, (nameStart + j) % 256 ≤ length) (nameEndLe : nameEnd ≤ length)
    (nameEndLt : nameEnd < 256) (argRead : ∀ j ≤ argSteps, (argStart + j) % 256 ≤ length)
    (ordered : argStart ≤ argEnd) (argEndLe : argEnd ≤ length) (fits : argEnd ≤ argStart + 99) :
    (c.accessesAt nameStart nameSteps nameEnd argStart argSteps argEnd).Safe length where
  command := by
    intro i member
    simp only [accessesAt, List.mem_append, mem_visited, List.mem_range'_1] at member
    rcases member with (((⟨j, below, rfl⟩ | ⟨j, below, rfl⟩) | copied) | ⟨j, below, rfl⟩) | copied
    · omega
    · exact nameRead j (Nat.le_of_lt_succ below)
    · omega
    · exact argRead j (Nat.le_of_lt_succ below)
    · omega
  parsedCmd := by
    intro i member
    simp only [accessesAt, List.mem_append, List.mem_map, List.mem_range, List.mem_singleton]
      at member
    rcases member with ⟨j, below, rfl⟩ | rfl <;> omega
  arg := by
    intro i member
    simp only [accessesAt, List.mem_append, List.mem_map, List.mem_range, List.mem_singleton]
      at member
    rcases member with ⟨j, below, rfl⟩ | rfl <;> omega
  argbuf := by
    intro i stores
    by_contra beyond
    have nul : c.copied c.arg argStart argEnd (argEnd - argStart) (argEnd - argStart) = 0 := by
      rw [copied, if_pos (by omega)]
    exact stores (argEnd - argStart) (by omega) nul

/-- A NUL stored outside `arg` is not safe. -/
theorem not_safe_of_nul (outside : argEnd < argStart ∨ argStart + 100 ≤ argEnd) :
    ¬ (c.accessesAt nameStart nameSteps nameEnd argStart argSteps argEnd).Safe length := by
  intro safe
  have inside := safe.arg ((argEnd : Int) - argStart)
    (List.mem_append_right _ (List.mem_singleton.mpr rfl))
  omega

/-- A loop that starts behind the NUL is not safe. -/
theorem not_safe_of_start (behind : length < argStart) (small : argStart < 256) :
    ¬ (c.accessesAt nameStart nameSteps nameEnd argStart argSteps argEnd).Safe length := by
  intro safe
  have member : argStart ∈
      (c.accessesAt nameStart nameSteps nameEnd argStart argSteps argEnd).reads := by
    apply List.mem_append_left
    apply List.mem_append_right
    exact mem_visited.mpr ⟨0, Nat.zero_lt_succ _, by omega⟩
  exact absurd (safe.command argStart member) (Nat.not_le.mpr behind)

end Accesses

/-! ## Which commands are parsed safely -/

/-- The parser ends, and its accesses are safe for a command of this length. -/
def SafelyParsed (c : Command) (length : Nat) : Prop :=
  ∃ a, c.accesses = some a ∧ a.Safe length

/-- The landmarks of a command that is parsed safely: there is something behind the name, and
what ends there is among the first 256 bytes and at most 99 bytes long; or the indices wrap
around behind the name, and the loop for the argument starts at a leading space. -/
def FitsAt (length spaces nameEnd argEnd : Nat) : Prop :=
  (nameEnd < length ∧ argEnd < 256 ∧ argEnd ≤ nameEnd + 100) ∨ (nameEnd = 255 ∧ 1 ≤ spaces) ∨
    (255 < nameEnd ∧ 2 ≤ spaces ∧ spaces < 256)

section Cases

variable {c : Command} {length spaces nameEnd argEnd : Nat}
  (marks : Landmarks c.byte length spaces nameEnd argEnd)

include marks

/-- A name that ends in front of the last index: the loop for the argument starts behind it. -/
theorem safelyParsed_iff_of_short (short : nameEnd < 255) :
    c.SafelyParsed length ↔ nameEnd < length ∧ argEnd < 256 ∧ argEnd ≤ nameEnd + 100 := by
  have nameFrom := marks.nameFrom
  have nameLe := marks.nameLe
  have accesses := accesses_eq nameEnd (nameEnd + 1) (scan_spaces marks (by omega))
    (scan_name marks (by omega)) (by omega) (by omega)
  constructor
  · rintro ⟨a, found, safe⟩
    rw [accesses] at found
    rcases Option.map_eq_some_iff.mp found with ⟨argSteps, scanned, rfl⟩
    have inside : nameEnd < length := by
      by_contra outside
      exact not_safe_of_start (by omega) (by omega) safe
    -- the loop that finds no end before it wraps around leaves a negative index
    have below := scanSteps_lt scanned
    by_cases ordered : nameEnd + 1 ≤ (nameEnd + 1 + argSteps) % 256
    · have found := scan_arg marks inside scanned (by omega)
      refine ⟨inside, by omega, ?_⟩
      by_contra long
      exact not_safe_of_nul (.inr (by omega)) safe
    · exact absurd safe (not_safe_of_nul (.inl (Nat.lt_of_not_le ordered)))
  · rintro ⟨inside, small, fits⟩
    have argFrom := marks.argFrom
    have argLe := marks.argLe inside
    have scanned : c.scanSteps isEnd (nameEnd + 1) = some (argEnd - (nameEnd + 1)) :=
      scanSteps_of_index argFrom small (marks.argEnds inside)
        fun i from_ below => marks.arg inside i from_ below
    refine ⟨_, by rw [accesses, scanned, Option.map_some], ?_⟩
    have last : (nameEnd + 1 + (argEnd - (nameEnd + 1))) % 256 = argEnd := by omega
    rw [last]
    apply safe_accessesAt <;> intros <;> omega

/-- A name that ends at the last index: the loop for the argument starts at the command's first
byte. -/
theorem safelyParsed_iff_of_last (last : nameEnd = 255) : c.SafelyParsed length ↔ 1 ≤ spaces := by
  subst last
  have nameFrom := marks.nameFrom
  have nameLe := marks.nameLe
  have accesses := accesses_eq 255 0 (scan_spaces marks (by omega)) (scan_name marks (by omega))
    (by omega) (by omega)
  cases spaces with
  | zero =>
      refine iff_of_false ?_ (by decide)
      rintro ⟨a, found, safe⟩
      rw [accesses, scan_name marks (by decide)] at found
      cases found
      exact not_safe_of_nul (.inr (by decide)) safe
  | succ more =>
      refine iff_of_true ?_ (Nat.succ_le_succ (Nat.zero_le _))
      have scanned : c.scanSteps isEnd 0 = some 0 := by
        apply scanSteps_of_index (le_refl 0) (by decide)
        · rw [marks.leading 0 (Nat.zero_lt_succ _)]
          decide
        · intro i _ below
          cases below
      refine ⟨_, by rw [accesses, scanned, Option.map_some], ?_⟩
      apply safe_accessesAt <;> intros <;> omega

/-- A name that ends behind the last index: its loop wraps around to the first leading space,
and the loop for the argument starts at the second byte. -/
theorem safelyParsed_iff_of_long (long : 255 < nameEnd) :
    c.SafelyParsed length ↔ 2 ≤ spaces ∧ spaces < 256 := by
  have nameLe := marks.nameLe
  by_cases small : spaces < 256
  · rcases Nat.eq_zero_or_pos spaces with none | positive
    · refine iff_of_false ?_ (by omega)
      rintro ⟨a, found, _⟩
      have start := scan_spaces marks small
      simp only [accesses, start, scan_name_none marks none long, Option.bind_eq_bind,
        Option.bind_some, Option.bind_none] at found
      cases found
    · have accesses := accesses_eq 0 1 (scan_spaces marks small)
        (scan_name_wrap marks positive small long) (by omega) (by omega)
      by_cases two : 2 ≤ spaces
      · refine iff_of_true ?_ ⟨two, small⟩
        have scanned : c.scanSteps isEnd 1 = some 0 := by
          apply scanSteps_of_index (le_refl 1) (by decide)
          · rw [marks.leading 1 two]
            decide
          · intro i from_ below
            exact absurd below (Nat.not_lt.mpr from_)
        refine ⟨_, by rw [accesses, scanned, Option.map_some], ?_⟩
        apply safe_accessesAt <;> intros <;> omega
      · refine iff_of_false ?_ (by omega)
        rintro ⟨a, found, safe⟩
        have one : spaces = 1 := by omega
        subst one
        have wraps : c.scanSteps isEnd 1 = some (256 - 1) :=
          scan_name_wrap marks positive small long
        rw [accesses, wraps] at found
        cases found
        exact not_safe_of_nul (.inl (by decide)) safe
  · refine iff_of_false ?_ fun both => small both.2
    rintro ⟨a, found, _⟩
    have start := scan_spaces_none marks (Nat.le_of_not_lt small)
    simp only [accesses, start, Option.bind_eq_bind, Option.bind_none] at found
    cases found

theorem safelyParsed_iff : c.SafelyParsed length ↔ FitsAt length spaces nameEnd argEnd := by
  have argFrom := marks.argFrom
  unfold FitsAt
  rcases Nat.lt_trichotomy nameEnd 255 with short | last | long
  · rw [safelyParsed_iff_of_short marks short]
    omega
  · rw [safelyParsed_iff_of_last marks last]
    omega
  · rw [safelyParsed_iff_of_long marks long]
    omega

end Cases

/-- A NUL-terminated text in memory. -/
theorem holds_bytesOf (text : List UInt8) (after : Nat → UInt8) :
    Holds (bytesOf text after) 0 (text ++ [0]) := by
  intro i inside
  rw [List.length_append, List.length_singleton] at inside
  rw [Nat.zero_add, bytesOf, List.getElem_append]
  split
  · rename_i below
    rw [List.getD_eq_getElem?_getD, List.getElem?_eq_getElem below, Option.getD_some]
  · rename_i behind
    have nul : i = text.length := by omega
    rw [if_pos nul, List.getElem_singleton]

/-- The parser is memory-safe and ends exactly for commands that fit: something follows the
name, and the argument behind it ends among the first 256 bytes and has at most 99 bytes; or
the index of the name's end wraps around to leading spaces. -/
theorem safelyParsed_text_iff {c : Command} (text : List UInt8) (after : Nat → UInt8)
    (bytes : c.byte = bytesOf text after) :
    (c.parse = c.accesses.map fun a =>
        ⟨cString ((List.range 256).map a.nameArray), cString ((List.range 256).map a.argArray)⟩) ∧
      (c.SafelyParsed text.length ↔
        FitsAt text.length (leadingSpaces text) (firstEnd text (leadingSpaces text))
          (firstEnd text (firstEnd text (leadingSpaces text) + 1))) := by
  refine ⟨parse_eq_accesses, safelyParsed_iff (landmarks_of_holds ?_)⟩
  rw [bytes]
  exact holds_bytesOf text after

theorem safelyParsed_text_sample :
    (plain [0x73, 0x68, 0x65, 0x6C, 0x6C, 0x20, 0x61, 0x62]).SafelyParsed 8 :=
  (safelyParsed_text_iff [0x73, 0x68, 0x65, 0x6C, 0x6C, 0x20, 0x61, 0x62] (fun _ => 0) rfl).2.mpr
    (.inl (by decide))

/-- The command `ls` is read behind its NUL, at index 3. -/
theorem bare_reads_outside :
    ∃ a, (plain [0x6C, 0x73]).accesses = some a ∧ 3 ∈ a.reads ∧
      ¬ (plain [0x6C, 0x73]).SafelyParsed 2 := by
  have start : (plain [0x6C, 0x73]).scanSteps (· ≠ 0x20) 0 = some 0 := by decide +kernel
  have name : (plain [0x6C, 0x73]).scanSteps isEnd 0 = some 2 := by decide +kernel
  have arg : (plain [0x6C, 0x73]).scanSteps isEnd 3 = some 0 := by decide +kernel
  have found := accesses_eq 2 3 start name rfl rfl
  rw [arg, Option.map_some] at found
  refine ⟨_, found, by decide, ?_⟩
  rintro ⟨a, found', safe⟩
  cases found.symm.trans found'
  exact not_safe_of_start (by decide) (by decide) safe

end Command

end Ece391Os
