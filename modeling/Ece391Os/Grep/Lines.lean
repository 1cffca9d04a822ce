import Mathlib.Data.List.Infix
import Ece391Os.Descriptor.FileReads
import Ece391Os.Grep.Search

/-!
# What `grep` puts for a file

The lines of a text, as the buffer of `do_one_file` cuts them, and the strings that are put for
those that match.  The loops of the search carry them over the reads.
-/

namespace Ece391Os

open Memory Transition

namespace Grep

/-! ## The lines of the file -/

instance (s line : List UInt8) : Decidable (Matches s line) :=
  inferInstanceAs (Decidable (_ ∧ _ ∧ _))

/-- What is put for a line. -/
def lineOutput (s fname line : List UInt8) : List (List UInt8) :=
  if Matches s line then lineText fname line else []

/-- The lines of a text behind the bytes of a line; a line that fills the buffer ends there. -/
def pieces : List UInt8 → List UInt8 → List (List UInt8)
  | line, [] => [line]
  | line, byte :: text =>
      if byte = 0x0A then line :: pieces [] text
      else if line.length + 1 = BUFSIZE then (line ++ [byte]) :: pieces [] text
      else pieces (line ++ [byte]) text

/-- What is put for a text. -/
def outputs (s fname text : List UInt8) : List (List UInt8) :=
  (pieces [] text).flatMap (lineOutput s fname)

variable {data : Nat → UInt8} {s fname line front text rest : List UInt8}

theorem pieces_append (front line rest : List UInt8)
    (short : front.length + line.length < BUFSIZE) (one : 0x0A ∉ line) :
    pieces front (line ++ rest) = pieces (front ++ line) rest := by
  induction line generalizing front with
  | nil => simp
  | cons byte line ih =>
      rw [List.mem_cons, not_or] at one
      rw [List.length_cons] at short
      have count : (front ++ [byte]).length + line.length < BUFSIZE := by
        rw [List.length_append, List.length_singleton]
        omega
      have later := ih (front ++ [byte]) count one.2
      rw [List.cons_append, pieces, if_neg (Ne.symm one.1), if_neg (by omega), later,
        List.append_assoc, List.singleton_append]

/-- A line that a newline ends. -/
theorem outputs_newline (short : line.length < BUFSIZE) (one : 0x0A ∉ line) :
    outputs s fname (line ++ 0x0A :: rest) =
      lineOutput s fname line ++ outputs s fname rest := by
  have passes := pieces_append [] line (0x0A :: rest) (by simpa using short) one
  rw [outputs, passes, pieces, if_pos rfl, List.flatMap_cons, List.nil_append, outputs]

/-- A line that fills the buffer. -/
theorem outputs_full (full : line.length = BUFSIZE) (one : 0x0A ∉ line) :
    outputs s fname (line ++ rest) = lineOutput s fname line ++ outputs s fname rest := by
  have some : line ≠ [] := fun none => by simp [none, BUFSIZE] at full
  have parts := List.dropLast_append_getLast some
  have count : line.dropLast.length + 1 = BUFSIZE := by
    rw [List.length_dropLast, full]
    rfl
  have shorter : ([] : List UInt8).length + line.dropLast.length < BUFSIZE := by
    rw [List.length_nil]
    omega
  have oneLast : line.getLast some ≠ 0x0A := fun same => one (same ▸ List.getLast_mem some)
  have passes := pieces_append [] line.dropLast (line.getLast some :: rest) shorter
    fun inside => one (List.dropLast_subset line inside)
  have whole : line ++ rest = line.dropLast ++ line.getLast some :: rest := by
    rw [← List.singleton_append, ← List.append_assoc, parts]
  rw [outputs, whole, passes, pieces, if_neg oneLast, List.nil_append, if_pos count, parts,
    List.flatMap_cons, outputs]

/-- The last line. -/
theorem outputs_last (short : line.length < BUFSIZE) (one : 0x0A ∉ line) :
    outputs s fname line = lineOutput s fname line := by
  have passes := pieces_append [] line [] (by simpa using short) one
  rw [List.append_nil] at passes
  rw [outputs, passes, List.nil_append, pieces, List.flatMap_cons, List.flatMap_nil,
    List.append_nil]

theorem outputs_nil : outputs s fname [] = [] := by
  rw [outputs_last (by decide) List.not_mem_nil, lineOutput, if_neg]
  rintro ⟨some, _, inside⟩
  exact some (List.infix_nil.mp inside)

/-- Where every line fits into the buffer, what is put is put for the text between the newlines. -/
theorem outputs_eq_splitOn (short : ∀ line ∈ text.splitOn 0x0A, line.length < BUFSIZE) :
    outputs s fname text = (text.splitOn 0x0A).flatMap (lineOutput s fname) := by
  induction size : text.length using Nat.strongRecOn generalizing text with
  | ind n ih =>
      by_cases newline : 0x0A ∈ text
      · rcases List.eq_append_cons_of_mem newline with ⟨line, more, rfl, one⟩
        rw [List.splitOn_append_cons_self_of_not_mem one, List.forall_mem_cons] at short
        have fewer : more.length < n := by
          rw [← size, List.length_append, List.length_cons]
          omega
        rw [outputs_newline short.1 one, List.splitOn_append_cons_self_of_not_mem one,
          List.flatMap_cons, ih more.length fewer short.2 rfl]
      · rw [List.splitOn_eq_singleton newline] at short ⊢
        rw [outputs_last (short text List.mem_cons_self) newline, List.flatMap_singleton]

/-! ## The loops -/

variable {cnt : Int} {g : Search} {lineStart : Nat}

/-- The part of the buffer that is not searched yet holds the next bytes of the text; a buffer
that is not full holds the last ones. -/
structure Buffered (g : Search) (lineStart : Nat) (text rest : List UInt8) : Prop where
  holds : Holds g.data lineStart text
  last : lineStart + text.length = g.last
  room : g.last ≤ BUFSIZE
  clean : g.data BUFSIZE ≠ 0x0A
  full : g.last < BUFSIZE → rest = []
  noNul : 0 ∉ text

/-- In front of a read, the buffer holds the start of a line. -/
structure Waits (g : Search) (text : List UInt8) : Prop where
  holds : Holds g.data 0 text
  last : g.last = text.length
  room : g.last < BUFSIZE
  clean : g.data BUFSIZE ≠ 0x0A
  noNul : 0 ∉ text

/-- The loop over the lines leaves the start of a line at the front, and has put what the lines in
front of it put. -/
structure Leaves (cnt : Int) (s fname text rest : List UInt8) (g left : Search)
    (kept : List UInt8) : Prop where
  waits : Waits left kept
  position : left.position = g.position
  empty : cnt = 0 → kept = []
  put : left.put ++ outputs s fname (kept ++ rest) = g.put ++ outputs s fname (text ++ rest)

theorem holds_update {value : UInt8} {i j : Nat} (holds : Holds data i line)
    (outside : j < i ∨ i + line.length ≤ j) : Holds (Function.update data j value) i line := by
  intro k inside
  rw [Function.update_of_ne (by omega)]
  exact holds k inside

theorem clean_update {i : Nat} (clean : data BUFSIZE ≠ 0x0A) :
    Function.update data i 0 BUFSIZE ≠ 0x0A := by
  rw [Function.update_apply]
  split
  · decide
  · exact clean

/-- The round of a line that ends in the buffer or at its end. -/
theorem lines_succ (cnt : Int) (fname : List UInt8) (noNul : 0 ∉ s)
    (holds : Holds g.data lineStart line) (lineNoNul : 0 ∉ line)
    (stop : lineEnd g.data (g.last - lineStart) lineStart = lineStart + line.length)
    (bound : Nat) :
    lines cnt s fname (bound + 1) lineStart g =
      let data := Function.update g.data (lineStart + line.length) 0
      if g.data (lineStart + line.length) ≠ 0x0A ∧ cnt ≠ 0 ∧ lineStart ≠ 0 then
        (strcpy bound data 0 lineStart).map fun data =>
          { g with data := data, last := g.last - lineStart }
      else if lineStart + line.length + 1 ≥ g.last then
        some { g with data := data, put := g.put ++ lineOutput s fname line, last := 0 }
      else
        lines cnt s fname bound (lineStart + line.length + 1)
          { g with data := data, put := g.put ++ lineOutput s fname line } := by
  have inBuffer : Holds (Function.update g.data (lineStart + line.length) 0) lineStart line :=
    holds_update holds (.inr (Nat.le_refl _))
  have nul := Function.update_self (lineStart + line.length) (0 : UInt8) g.data
  have search := found_iff inBuffer nul noNul lineNoNul
  have putLine :
      (if found (Function.update g.data (lineStart + line.length) 0) s line.length lineStart then
        g.put ++ lineText fname
          (stringAt (Function.update g.data (lineStart + line.length) 0) line.length lineStart)
      else g.put) = g.put ++ lineOutput s fname line := by
    rw [stringAt_eq inBuffer lineNoNul, lineOutput]
    by_cases matched : Matches s line
    · rw [if_pos matched, if_pos (search.mpr matched)]
    · rw [if_neg matched, if_neg (fun yes => matched (search.mp yes)), List.append_nil]
  rw [lines]
  dsimp only
  rw [stop, Nat.add_sub_cancel_left, putLine]

/-- The round of a line that no newline ends: it is moved to the front, or it is searched. -/
theorem lines_unfinished (noNul : 0 ∉ s) (buffered : Buffered g lineStart text rest)
    (ends : cnt = 0 → rest = []) (newline : 0x0A ∉ text) :
    ∃ left kept, Returns (fun bound => lines cnt s fname bound lineStart g) left ∧
      Leaves cnt s fname text rest g left kept := by
  rcases buffered with ⟨holds, last, room, clean, full, textNoNul⟩
  have count : g.last - lineStart = text.length := by omega
  have upTo : text.takeWhile (· ≠ 0x0A) = text :=
    List.takeWhile_eq_self_iff.mpr fun byte inside =>
      decide_eq_true fun same => newline (same ▸ inside)
  have stop := lineEnd_eq holds
  rw [← count, upTo] at stop
  have unfolds := lines_succ cnt fname noNul holds textNoNul stop
  by_cases copies : g.data (lineStart + text.length) ≠ 0x0A ∧ cnt ≠ 0 ∧ lineStart ≠ 0
  · have source : Holds (Function.update g.data (lineStart + text.length) 0) lineStart
        (text ++ [0]) :=
      holds_append.mpr ⟨holds_update holds (.inr (Nat.le_refl _)),
        holds_cons.mpr ⟨Function.update_self _ _ _, nofun⟩⟩
    rcases strcpy_returns source textNoNul (Nat.pos_of_ne_zero copies.2.2) with
      ⟨copied, returns, there, outside⟩
    have waits : Waits { g with data := copied, last := g.last - lineStart } text :=
      { holds := (holds_append.mp there).1
        last := count
        room := by dsimp only; omega
        clean := by
          dsimp only
          rw [outside BUFSIZE (.inr (by omega))]
          exact clean_update clean
        noNul := textNoNul }
    refine ⟨_, text, Returns.round ?_, waits, rfl, fun zero => absurd zero copies.2.1, rfl⟩
    simp only [unfolds, if_pos copies]
    exact returns.map
  · have isLast : lineStart + text.length + 1 ≥ g.last := by omega
    -- a line that does not fill the buffer is the last one of the text
    have puts : (g.put ++ lineOutput s fname text) ++ outputs s fname ([] ++ rest) =
        g.put ++ outputs s fname (text ++ rest) := by
      by_cases fills : text.length = BUFSIZE
      · rw [outputs_full fills newline, List.append_assoc, List.nil_append]
      · have none : rest = [] := by
          by_cases short : g.last < BUFSIZE
          · exact full short
          · have whole : g.last = BUFSIZE := by omega
            rw [last, whole] at copies
            have final : cnt = 0 := by
              by_contra more
              exact copies ⟨clean, more, by omega⟩
            exact ends final
        subst none
        rw [List.append_nil, List.append_nil, outputs_last (by omega) newline, outputs_nil,
          List.append_nil]
    have waits : Waits { g with
        data := Function.update g.data (lineStart + text.length) 0
        put := g.put ++ lineOutput s fname text
        last := 0 } [] :=
      ⟨nofun, rfl, Nat.zero_lt_succ _, clean_update clean, List.not_mem_nil⟩
    refine ⟨_, [], Returns.round ?_, waits, rfl, fun _ => rfl, puts⟩
    simp only [unfolds, if_neg copies, if_pos isLast]
    exact Returns.pure _

/-- The loop over the lines of the buffer, line after line. -/
theorem lines_returns (fname : List UInt8) (noNul : 0 ∉ s)
    (buffered : Buffered g lineStart text rest) (ends : cnt = 0 → rest = []) :
    ∃ left kept, Returns (fun bound => lines cnt s fname bound lineStart g) left ∧
      Leaves cnt s fname text rest g left kept := by
  induction size : text.length using Nat.strongRecOn generalizing lineStart text g with
  | ind n ih =>
      by_cases newline : 0x0A ∈ text
      · rcases List.eq_append_cons_of_mem newline with ⟨line, more, rfl, one⟩
        rcases buffered with ⟨holds, last, room, clean, full, textNoNul⟩
        have count : g.last - lineStart = (line ++ 0x0A :: more).length := by omega
        have upTo : (line ++ 0x0A :: more).takeWhile (· ≠ 0x0A) = line := by
          rw [List.takeWhile_append_of_pos]
          · simp
          · exact fun byte inside => decide_eq_true fun same => one (same ▸ inside)
        have stop := lineEnd_eq holds
        rw [← count, upTo] at stop
        rw [List.mem_append, List.mem_cons, not_or, not_or] at textNoNul
        rw [List.length_append, List.length_cons] at last size
        rcases holds_append.mp holds with ⟨lineHolds, restHolds⟩
        rcases holds_cons.mp restHolds with ⟨atEnd, moreHolds⟩
        have unfolds := lines_succ cnt fname noNul lineHolds textNoNul.1 stop
        have searches :
            ¬ (g.data (lineStart + line.length) ≠ 0x0A ∧ cnt ≠ 0 ∧ lineStart ≠ 0) :=
          fun copies => copies.1 atEnd
        have puts : (g.put ++ lineOutput s fname line) ++ outputs s fname (more ++ rest) =
            g.put ++ outputs s fname (line ++ 0x0A :: more ++ rest) := by
          rw [List.append_assoc, List.append_assoc, List.cons_append,
            outputs_newline (by omega) one]
        by_cases isLast : lineStart + line.length + 1 ≥ g.last
        · have none : more = [] := List.length_eq_zero_iff.mp (by omega)
          subst none
          have waits : Waits { g with
              data := Function.update g.data (lineStart + line.length) 0
              put := g.put ++ lineOutput s fname line
              last := 0 } [] :=
            ⟨nofun, rfl, Nat.zero_lt_succ _, clean_update clean, List.not_mem_nil⟩
          refine ⟨_, [], Returns.round ?_, waits, rfl, fun _ => rfl, puts⟩
          simp only [unfolds, if_neg searches, if_pos isLast]
          exact Returns.pure _
        · have inner : Buffered { g with
              data := Function.update g.data (lineStart + line.length) 0
              put := g.put ++ lineOutput s fname line } (lineStart + line.length + 1) more rest :=
            { holds := holds_update moreHolds (.inl (Nat.lt_succ_self _))
              last := by dsimp only; omega
              room := room
              clean := clean_update clean
              full := full
              noNul := textNoNul.2.2 }
          rcases ih more.length (by omega) inner rfl with ⟨left, kept, returns, leaves⟩
          refine ⟨left, kept, Returns.round ?_, leaves.waits, leaves.position, leaves.empty,
            leaves.put.trans puts⟩
          simp only [unfolds, if_neg searches, if_neg isLast]
          exact returns
      · exact lines_unfinished noNul buffered ends newline

/-! ## The file -/

variable {img : Image} {inode : Nat} {k : Kernel} {p : ProcId} {i : Fin 8}

theorem content_length : (img.content inode).length = img.fileSize inode := by
  rw [Image.content, List.length_map, List.length_range]

/-- The read fills the buffer, or reaches the end of the file. -/
theorem read_eq (wellFormed : img.WellFormedFile inode) (waits : Waits g front)
    (noNul : 0 ∉ img.content inode) :
    ∃ count : Nat, (read img inode g).1 = count ∧
      (read img inode g).2.position = g.position + count ∧
      (read img inode g).2.put = g.put ∧
      count ≤ ((img.content inode).drop g.position).length ∧
      (count = 0 → (img.content inode).drop g.position = []) ∧
      Buffered { (read img inode g).2 with last := (read img inode g).2.last + count } 0
        (front ++ ((img.content inode).drop g.position).take count)
        ((img.content inode).drop (g.position + count)) := by
  have room := waits.room
  have last := waits.last
  have data := Image.readData_eq wellFormed g.position (BUFSIZE - g.last) (by
    simp only [BUFSIZE]
    omega)
  refine ⟨min (BUFSIZE - g.last) (img.fileSize inode - g.position), ?_, ?_, rfl, ?_, ?_, ?_⟩
  · rw [read, data]
  · rw [read, data]
    rfl
  · rw [List.length_drop, content_length]
    exact Nat.min_le_right _ _
  · intro none
    rw [List.drop_eq_nil_iff, content_length]
    omega
  · generalize delivers : min (BUFSIZE - g.last) (img.fileSize inode - g.position) = count
      at data ⊢
    have bytes : ∀ i, (read img inode g).2.data i =
        if i < g.last then g.data i
        else if i < g.last + count then img.fileByte inode (g.position + (i - g.last))
        else g.data i := by
      intro i
      rw [read, data]
      dsimp only
      by_cases before : i < g.last
      · rw [if_pos before, if_pos before]
      · rw [if_neg before, if_neg before, applyStores_storeRange]
        have back : g.last + (i - g.last) = i := by omega
        simp only [Nat.zero_le, true_and, Nat.zero_add, Nat.sub_zero, back]
        by_cases inside : i < g.last + count
        · rw [if_pos inside, if_pos (by omega)]
        · rw [if_neg inside, if_neg (by omega)]
    have taken : (((img.content inode).drop g.position).take count).length = count := by
      rw [List.length_take, List.length_drop, content_length]
      omega
    refine ⟨holds_append.mpr ⟨?_, ?_⟩, ?_, ?_, ?_, ?_, ?_⟩
    · intro i inside
      dsimp only
      rw [bytes, if_pos (by omega)]
      exact waits.holds i inside
    · intro i inside
      dsimp only
      rw [taken] at inside
      rw [bytes, if_neg (by omega), if_pos (by omega), List.getElem_take, List.getElem_drop]
      simp only [Image.content, List.getElem_map, List.getElem_range]
      congr 1
      omega
    · dsimp only
      rw [List.length_append, taken, Nat.zero_add, ← last]
      rfl
    · change g.last + count ≤ BUFSIZE
      omega
    · dsimp only
      rw [bytes, if_neg (by omega), if_neg (by omega)]
      exact waits.clean
    · intro short
      have below : g.last + count < BUFSIZE := short
      rw [List.drop_eq_nil_iff, content_length]
      omega
    · rw [List.mem_append, not_or]
      exact ⟨waits.noNul, fun inside => noNul (List.mem_of_mem_drop (List.mem_of_mem_take inside))⟩

/-- The read is the system call on the descriptor of the file. -/
theorem sysRead_read (file : k.FileOpen p i inode g.position)
    (wellFormed : img.WellFormedFile inode) (inFile : g.position ≤ img.fileSize inode) {buf : Nat}
    (notNull : buf ≠ 0) :
    ∃ r, k.sysRead img i buf ((BUFSIZE - g.last : Nat) : Int) = some r ∧
      r.value = (read img inode g).1 ∧
      r.stores = (img.readData inode g.position (BUFSIZE - g.last)).2 ∧
      r.kernel.FileOpen p i inode (read img inode g).2.position := by
  have count : BUFSIZE - g.last < 2 ^ 31 := by
    simp only [BUFSIZE]
    omega
  have valid : ReadCall.Valid ⟨buf, ((BUFSIZE - g.last : Nat) : Int)⟩ :=
    ⟨notNull, Int.natCast_nonneg _, by dsimp only; omega⟩
  have result : k.sysRead img i buf ((BUFSIZE - g.last : Nat) : Int) =
      some (k.fileRead img p i ((BUFSIZE - g.last : Nat) : Int)) :=
    file.sysRead_eq notNull _
  rcases file.sysRead wellFormed inFile valid with ⟨r, returns, delivers, bytes, next⟩
  have same : k.fileRead img p i ((BUFSIZE - g.last : Nat) : Int) = r :=
    Option.some.inj (result.symm.trans returns)
  have small : (((BUFSIZE - g.last : Nat) : Int) % 2 ^ 32).toNat = BUFSIZE - g.last := by omega
  have value : r.value = (read img inode g).1 := by
    rw [← same]
    simp only [Kernel.fileRead, file.inode, file.position, small, read]
  refine ⟨r, returns, value, ?_, ?_⟩
  · rw [← same]
    simp only [Kernel.fileRead, file.inode, file.position, small]
  · have position : (read img inode g).2.position = g.position + r.bytes.length := by
      have moved : (read img inode g).2.position = g.position + (read img inode g).1.toNat := rfl
      rw [moved, ← value, delivers.value, Int.toNat_natCast]
    rw [position]
    exact next

/-- The reads put what the bytes in the buffer and the rest of the file put. -/
theorem chunks_returns (fname : List UInt8) (wellFormed : img.WellFormedFile inode) (noNul : 0 ∉ s)
    (contentNoNul : 0 ∉ img.content inode) (waits : Waits g front) :
    ∃ left, Returns (fun bound => chunks img inode s fname bound g) (0, left) ∧
      left.put = g.put ++ outputs s fname (front ++ (img.content inode).drop g.position) := by
  induction size : ((img.content inode).drop g.position).length using Nat.strongRecOn
      generalizing g front with
  | ind n ih =>
      rcases read_eq wellFormed waits contentNoNul with
        ⟨count, cnt, position, put, inFile, ends, buffered⟩
      have succeeds : (read img inode g).1 ≠ -1 := by
        rw [cnt]
        omega
      have atEnd : (read img inode g).1 = 0 →
          (img.content inode).drop (g.position + count) = [] := by
        intro zero
        have none : count = 0 := by omega
        rw [none, Nat.add_zero]
        exact ends none
      have whole : ((img.content inode).drop g.position).take count ++
          (img.content inode).drop (g.position + count) =
            (img.content inode).drop g.position := by
        rw [← List.drop_drop, List.take_append_drop]
      rcases lines_returns fname noNul buffered atEnd with
        ⟨later, kept, returns, leaves⟩
      have puts := leaves.put
      rw [List.append_assoc, whole] at puts
      have samePut : later.put ++ outputs s fname
          (kept ++ (img.content inode).drop (g.position + count)) =
            g.put ++ outputs s fname (front ++ (img.content inode).drop g.position) := by
        rw [puts]
        dsimp only
        rw [put]
      have samePosition : later.position = g.position + count := leaves.position.trans position
      have counted : (read img inode g).1.toNat = count := by
        rw [cnt, Int.toNat_natCast]
      by_cases zero : (read img inode g).1 = 0
      · refine ⟨later, Returns.round ?_, ?_⟩
        · simp only [chunks, if_neg succeeds, counted]
          refine Returns.bind returns ?_
          simpa only [if_pos zero] using Returns.pure _
        · rw [← samePut, leaves.empty zero, atEnd zero, List.nil_append, outputs_nil,
            List.append_nil]
      · have shorter : ((img.content inode).drop later.position).length < n := by
          rw [samePosition, ← size, List.length_drop, List.length_drop]
          rw [List.length_drop] at inFile
          omega
        rcases ih _ shorter leaves.waits rfl with ⟨left, goesOn, leftPut⟩
        refine ⟨left, Returns.round ?_, ?_⟩
        · simp only [chunks, if_neg succeeds, counted]
          refine Returns.bind returns ?_
          simpa only [if_neg zero] using goesOn
        · rw [leftPut, samePosition, samePut]

/-- The search of a file puts what the lines of its contents put, and returns 0 when the file
can be closed. -/
theorem puts_matches (wellFormed : img.WellFormedFile inode) (noNul : 0 ∉ s)
    (contentNoNul : 0 ∉ img.content inode) (clean : data BUFSIZE ≠ 0x0A) (closed : Int) :
    Returns (fun bound => doOneFile img (some inode) closed data s fname bound)
      (finish closed (outputs s fname (img.content inode))) := by
  have waits : Waits { data := data, last := 0, position := 0, put := [] } [] :=
    ⟨nofun, rfl, Nat.zero_lt_succ _, clean, List.not_mem_nil⟩
  rcases chunks_returns fname wellFormed noNul contentNoNul waits with
    ⟨left, returns, put⟩
  rw [List.nil_append, List.nil_append, List.drop_zero] at put
  rw [← put]
  exact returns.map

/-- A file of the three lines `ab`, `cab` and `x`. -/
def sampleText : Image :=
  Image.ofBytes
    [(0, [1, 0, 0, 0, 1, 0, 0, 0, 1]), (4096, [8]),
      (8192, [0x61, 0x62, 0x0A, 0x63, 0x61, 0x62, 0x0A, 0x78])]

theorem sampleText_wellFormed : sampleText.WellFormedFile 0 where
  inodeLt := by decide
  sizeLe := by decide
  blockLt := by
    intro block needed
    have size : sampleText.fileSize 0 = 8 := by decide
    have first : block = 0 := by omega
    subst first
    decide

theorem puts_matches_sample :
    Returns (fun bound => doOneFile sampleText (some 0) 0 (fun _ => 0) [0x61, 0x62] [0x66] bound)
      (0, lineText [0x66] [0x61, 0x62] ++ lineText [0x66] [0x63, 0x61, 0x62]) := by
  have puts : outputs [0x61, 0x62] [0x66] (sampleText.content 0) =
      lineText [0x66] [0x61, 0x62] ++ lineText [0x66] [0x63, 0x61, 0x62] := by
    decide
  rw [← puts]
  exact puts_matches sampleText_wellFormed (by decide) (by decide) (by decide) 0

end Grep

end Ece391Os
