import Ece391Os.FileSys.ReadData
import Ece391Os.Memory.Contents
import Ece391Os.Transition.Bounded

/-!
# The search of `grep`

`do_one_file` of the program `grep`: it reads a file through a buffer of 1024 bytes, cuts it into
lines in place, and moves a line that is not complete to the front.
-/

namespace Ece391Os

open Memory Transition

namespace Grep

def BUFSIZE : Nat := 1024

/-- `ece391_strncmp(data + i, s, n)` for a string. -/
def strncmp (data : Nat → UInt8) : Nat → Nat → List UInt8 → Int
  | 0, _, _ => 0
  | n + 1, i, s =>
      if data i = s.headD 0 then
        if data i = 0 then 0 else strncmp data n (i + 1) s.tail
      else
        (data i).toNat - (s.headD 0).toNat

/-- `ece391_strcpy(data + dst, data + src)`. -/
def strcpy : Nat → (Nat → UInt8) → Nat → Nat → Option (Nat → UInt8)
  | 0, _, _, _ => none
  | bound + 1, data, dst, src =>
      let copied := Function.update data dst (data src)
      if data src = 0 then some copied else strcpy bound copied (dst + 1) (src + 1)

/-- The string of so many bytes that `ece391_fdputs` writes. -/
def stringAt (data : Nat → UInt8) : Nat → Nat → List UInt8
  | 0, _ => []
  | n + 1, i => if data i = 0 then [] else data i :: stringAt data n (i + 1)

/-- `line_end`, so many bytes in front of `last`. -/
def lineEnd (data : Nat → UInt8) : Nat → Nat → Nat
  | 0, i => i
  | n + 1, i => if data i = 0x0A then i else lineEnd data n (i + 1)

/-- The loop over `check`, so many bytes in front of `line_end`.  `s[0]` is a signed `char`, and
`data[check]` is not. -/
def found (data : Nat → UInt8) (s : List UInt8) : Nat → Nat → Bool
  | 0, _ => false
  | n + 1, check =>
      if (s.headD 0).toInt8.toInt = (data check).toNat ∧ strncmp data s.length check s = 0 then
        true
      else found data s n (check + 1)

/-- The variables of `do_one_file`, the position of its file and the strings that it has put. -/
structure Search where
  data : Nat → UInt8
  last : Nat
  position : Nat
  put : List (List UInt8)

/-- What is put for a line that matches. -/
def lineText (fname line : List UInt8) : List (List UInt8) :=
  [fname, [0x3A], line, [0x0A]]

/-- `"file open failed\n"`. -/
def openFailed : List UInt8 :=
  [0x66, 0x69, 0x6C, 0x65, 0x20, 0x6F, 0x70, 0x65, 0x6E, 0x20, 0x66, 0x61, 0x69, 0x6C, 0x65, 0x64,
    0x0A]

/-- `"file read failed\n"`. -/
def readFailed : List UInt8 :=
  [0x66, 0x69, 0x6C, 0x65, 0x20, 0x72, 0x65, 0x61, 0x64, 0x20, 0x66, 0x61, 0x69, 0x6C, 0x65, 0x64,
    0x0A]

/-- `"file close failed\n"`. -/
def closeFailed : List UInt8 :=
  [0x66, 0x69, 0x6C, 0x65, 0x20, 0x63, 0x6C, 0x6F, 0x73, 0x65, 0x20, 0x66, 0x61, 0x69, 0x6C, 0x65,
    0x64, 0x0A]

/-- The loop over the lines in the buffer. -/
def lines (cnt : Int) (s fname : List UInt8) : Nat → Nat → Search → Option Search
  | 0, _, _ => none
  | bound + 1, lineStart, g =>
      let lineEnd := lineEnd g.data (g.last - lineStart) lineStart
      let data := Function.update g.data lineEnd 0
      if g.data lineEnd ≠ 0x0A ∧ cnt ≠ 0 ∧ lineStart ≠ 0 then
        (strcpy bound data 0 lineStart).map fun data =>
          { g with data := data, last := g.last - lineStart }
      else
        let put :=
          if found data s (lineEnd - lineStart) lineStart then
            g.put ++ lineText fname (stringAt data (lineEnd - lineStart) lineStart)
          else g.put
        if lineEnd + 1 ≥ g.last then
          some { g with data := data, put := put, last := 0 }
        else
          lines cnt s fname bound (lineEnd + 1) { g with data := data, put := put }

/-- `ece391_read(fd, data + last, BUFSIZE - last)` of a regular file, with the bytes it stores. -/
def read (img : Image) (inode : Nat) (g : Search) : Int × Search :=
  let (cnt, stores) := img.readData inode g.position (BUFSIZE - g.last)
  let stored := applyStores (fun i => g.data (g.last + i)) stores
  (cnt, { g with
    data := fun i => if i < g.last then g.data i else stored (i - g.last)
    position := g.position + cnt.toNat })

/-- The loop over the reads. -/
def chunks (img : Image) (inode : Nat) (s fname : List UInt8) :
    Nat → Search → Option (Int × Search)
  | 0, _ => none
  | bound + 1, g =>
      let (cnt, g) := read img inode g
      if cnt = -1 then
        some (-1, { g with put := g.put ++ [readFailed] })
      else
        (lines cnt s fname bound 0 { g with last := g.last + cnt.toNat }).bind fun g =>
          if cnt = 0 then some (0, g) else chunks img inode s fname bound g

/-- `ece391_close(fd)` at the end of `do_one_file`. -/
def finish (closed : Int) (put : List (List UInt8)) : Int × List (List UInt8) :=
  if closed = -1 then (-1, put ++ [closeFailed]) else (0, put)

/-- `do_one_file`, with the inode of the regular file that `ece391_open` finds, what
`ece391_close` returns and what is in `data` before. -/
def doOneFile (img : Image) (opened : Option Nat) (closed : Int) (data : Nat → UInt8)
    (s fname : List UInt8) (bound : Nat) : Option (Int × List (List UInt8)) :=
  match opened with
  | none => some (-1, [openFailed])
  | some inode =>
      (chunks img inode s fname bound { data := data, last := 0, position := 0, put := [] }).map
        fun (code, g) => if code = -1 then (-1, g.put) else finish closed g.put

/-- The search string is in the line.  `do_one_file` finds no string that begins with a byte
which is negative as a `char`. -/
def Matches (s line : List UInt8) : Prop :=
  s ≠ [] ∧ (s.headD 0).toNat < 128 ∧ s <:+: line

/-! ## The strings -/

variable {data : Nat → UInt8} {s line : List UInt8}

/-- A signed character equals an unsigned byte when it is that byte and not negative. -/
theorem toInt8_eq_toNat_iff (c d : UInt8) :
    c.toInt8.toInt = (d.toNat : Int) ↔ c = d ∧ c.toNat < 128 := by
  have signed : c.toInt8.toInt = if 2 * c.toNat < 2 ^ 8 then (c.toNat : Int)
      else c.toNat - 2 ^ 8 :=
    BitVec.toInt_eq_toNat_cond c.toBitVec
  have inRange := c.toNat_lt
  rw [signed, ← UInt8.toNat_inj]
  split <;> omega

theorem strncmp_eq_zero_iff (noNul : 0 ∉ s) (i : Nat) :
    strncmp data s.length i s = 0 ↔ Holds data i s := by
  induction s generalizing i with
  | nil => simp [strncmp, Holds]
  | cons c s ih =>
      rw [List.mem_cons, not_or] at noNul
      rw [List.length_cons, strncmp, holds_cons, List.headD_cons, List.tail_cons, ← ih noNul.2]
      by_cases same : data i = c
      · have nonzero : data i ≠ 0 := fun zero => noNul.1 (zero.symm.trans same)
        rw [if_pos same, if_neg nonzero]
        exact (and_iff_right same).symm
      · rw [if_neg same]
        constructor
        · intro equal
          exact absurd (UInt8.toNat_inj.mp (by omega)) same
        · exact fun both => absurd both.1 same

/-- In front of a NUL, a string is where it is a prefix. -/
theorem holds_iff_prefix {i : Nat} (holds : Holds data i line) (nul : data (i + line.length) = 0)
    (noNul : 0 ∉ s) : Holds data i s ↔ s <+: line := by
  induction s generalizing i line with
  | nil => simp [Holds]
  | cons c s ih =>
      rw [List.mem_cons, not_or] at noNul
      rw [holds_cons]
      cases line with
      | nil =>
          have zero : data i = 0 := nul
          rw [zero]
          simp [noNul.1]
      | cons a line =>
          rcases holds_cons.mp holds with ⟨first, rest⟩
          have behind : data (i + 1 + line.length) = 0 := by
            rw [← nul, List.length_cons]
            congr 1
            omega
          rw [ih rest behind noNul.2, first, List.cons_prefix_cons, eq_comm]

/-- The search of a line. -/
theorem found_iff {i : Nat} (holds : Holds data i line) (nul : data (i + line.length) = 0)
    (noNul : 0 ∉ s) (lineNoNul : 0 ∉ line) :
    found data s line.length i = true ↔ Matches s line := by
  unfold Matches
  induction line generalizing i with
  | nil =>
      apply iff_of_false (by simp [found])
      rintro ⟨some, _, inside⟩
      exact some (List.infix_nil.mp inside)
  | cons a line ih =>
      rcases holds_cons.mp holds with ⟨first, rest⟩
      rw [List.mem_cons, not_or] at lineNoNul
      have behind : data (i + 1 + line.length) = 0 := by
        rw [← nul, List.length_cons]
        congr 1
        omega
      have here : ((s.headD 0).toInt8.toInt = (data i).toNat ∧
          strncmp data s.length i s = 0) ↔
            s ≠ [] ∧ (s.headD 0).toNat < 128 ∧ s <+: a :: line := by
        rw [strncmp_eq_zero_iff noNul, holds_iff_prefix holds nul noNul, toInt8_eq_toNat_iff]
        cases s with
        | nil => simp [first, lineNoNul.1]
        | cons c s =>
            rw [List.headD_cons, first, List.cons_prefix_cons]
            constructor
            · exact fun both => ⟨List.cons_ne_nil c s, both.1.2, both.2⟩
            · exact fun all => ⟨⟨all.2.2.1, all.2.1⟩, all.2.2⟩
      rw [List.length_cons, found, List.infix_cons_iff]
      by_cases now : (s.headD 0).toInt8.toInt = (data i).toNat ∧ strncmp data s.length i s = 0
      · rw [if_pos now]
        have both := here.mp now
        exact ⟨fun _ => ⟨both.1, both.2.1, .inl both.2.2⟩, fun _ => rfl⟩
      · rw [if_neg now, ih rest behind lineNoNul.2]
        constructor
        · exact fun all => ⟨all.1, all.2.1, .inr all.2.2⟩
        · rintro ⟨some, positive, inside⟩
          have notHere : ¬ s <+: a :: line := fun starts => now (here.mpr ⟨some, positive, starts⟩)
          exact ⟨some, positive, inside.resolve_left notHere⟩

theorem stringAt_eq {i : Nat} (holds : Holds data i line) (noNul : 0 ∉ line) :
    stringAt data line.length i = line := by
  induction line generalizing i with
  | nil => rfl
  | cons a line ih =>
      rcases holds_cons.mp holds with ⟨first, rest⟩
      rw [List.mem_cons, not_or] at noNul
      have nonzero : a ≠ 0 := Ne.symm noNul.1
      rw [List.length_cons, stringAt, first, if_neg nonzero, ih rest noNul.2]

theorem lineEnd_eq {i : Nat} (holds : Holds data i line) :
    lineEnd data line.length i = i + (line.takeWhile (· ≠ 0x0A)).length := by
  induction line generalizing i with
  | nil => rfl
  | cons a line ih =>
      rcases holds_cons.mp holds with ⟨first, rest⟩
      rw [List.length_cons, lineEnd, first, List.takeWhile_cons]
      by_cases newline : a = 0x0A
      · simp [newline]
      · simp only [newline, if_false, ih rest, ne_eq, not_false_eq_true, decide_true, if_true,
          List.length_cons]
        omega

/-- A string is copied to the front of itself. -/
theorem strcpy_returns {dst src : Nat} (holds : Holds data src (line ++ [0])) (noNul : 0 ∉ line)
    (front : dst < src) :
    ∃ copied, Returns (fun bound => strcpy bound data dst src) copied ∧
      Holds copied dst (line ++ [0]) ∧
      ∀ i, i < dst ∨ dst + line.length < i → copied i = data i := by
  induction line generalizing data dst src with
  | nil =>
      have zero : data src = 0 := (holds_cons.mp holds).1
      refine ⟨Function.update data dst 0, Returns.round ?_, ?_, ?_⟩
      · simpa [strcpy, zero] using Returns.pure (Function.update data dst 0)
      · exact holds_cons.mpr ⟨Function.update_self _ _ _, fun _ none => nomatch none⟩
      · intro i outside
        refine Function.update_of_ne ?_ _ _
        simp only [List.length_nil] at outside
        omega
  | cons a line ih =>
      rcases holds_cons.mp holds with ⟨first, rest⟩
      rw [List.mem_cons, not_or] at noNul
      have nonzero : data src ≠ 0 := fun zero => noNul.1 (zero.symm.trans first)
      have later : Holds (Function.update data dst (data src)) (src + 1) (line ++ [0]) := by
        intro i inside
        have differs : src + 1 + i ≠ dst := by omega
        rw [Function.update_of_ne differs]
        exact rest i inside
      rcases ih later noNul.2 (Nat.succ_lt_succ front) with ⟨copied, returns, there, same⟩
      refine ⟨copied, Returns.round ?_, holds_cons.mpr ⟨?_, there⟩, ?_⟩
      · simpa [strcpy, nonzero] using returns
      · rw [same dst (.inl (Nat.lt_succ_self dst)), Function.update_self, first]
      · intro i outside
        rw [List.length_cons] at outside
        rw [same i (by omega), Function.update_of_ne (by omega)]

end Grep

end Ece391Os
