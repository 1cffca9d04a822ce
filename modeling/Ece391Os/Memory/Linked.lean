import Ece391Os.Transition.Bounded
import Mathlib.Data.List.Basic
import Mathlib.Logic.Function.Basic

/-!
# Linked lists

Lists through a table of successors, from a head to the null pointer: what stores to the table
leave of them, and the loops that go along them.
-/

namespace Ece391Os.Memory

open Transition

variable {P : Type} {next : P → Option P} {head : Option P} {ps : List P}

/-- The pointers from a head on, up to the null pointer. -/
inductive LinkedList (next : P → Option P) : Option P → List P → Prop where
  | nil : LinkedList next none []
  | cons {p : P} {ps : List P} (rest : LinkedList next (next p) ps) :
      LinkedList next (some p) (p :: ps)

namespace LinkedList

/-- There is one list from a head on. -/
theorem unique {others : List P} (linked : LinkedList next head ps)
    (again : LinkedList next head others) : ps = others := by
  induction linked generalizing others with
  | nil =>
      cases again
      rfl
  | cons rest ih =>
      cases again with
      | cons later => rw [ih later]

theorem tail {p : P} (linked : LinkedList next head (p :: ps)) :
    head = some p ∧ LinkedList next (next p) ps := by
  cases linked with
  | cons rest => exact ⟨rfl, rest⟩

/-- A list from the middle on. -/
theorem drop {p : P} {before after : List P}
    (linked : LinkedList next head (before ++ p :: after)) :
    LinkedList next (some p) (p :: after) := by
  induction before generalizing head with
  | nil =>
      cases linked.tail.1
      exact linked
  | cons q before ih => exact ih linked.tail.2

/-- No pointer is twice on a list. -/
theorem nodup (linked : LinkedList next head ps) : ps.Nodup := by
  induction linked with
  | nil => exact List.nodup_nil
  | @cons p ps rest ih =>
      refine List.nodup_cons.mpr ⟨fun twice => ?_, ih⟩
      -- The list from the second time on would be the whole list, and shorter.
      rcases List.append_of_mem twice with ⟨before, after, same⟩
      subst same
      have whole := (LinkedList.cons rest).unique rest.drop
      have lengths := congrArg List.length whole
      simp only [List.length_cons, List.length_append] at lengths
      omega

/-- Stores outside of a list. -/
theorem congr {other : P → Option P} (linked : LinkedList next head ps)
    (same : ∀ p ∈ ps, other p = next p) : LinkedList other head ps := by
  induction linked with
  | nil => exact .nil
  | cons rest ih =>
      apply LinkedList.cons
      rw [same _ List.mem_cons_self]
      exact ih fun q inside => same q (List.mem_cons_of_mem _ inside)

section Stores

variable [DecidableEq P]

/-- A new first element. -/
theorem push {p : P} (linked : LinkedList next head ps) (outside : p ∉ ps) :
    LinkedList (Function.update next p head) (some p) (p :: ps) := by
  apply LinkedList.cons
  rw [Function.update_self]
  refine linked.congr fun q inside => Function.update_of_ne ?_ _ _
  rintro rfl
  exact outside inside

/-- The successor of an element is taken out. -/
theorem unlink {p q : P} {before after : List P}
    (linked : LinkedList next head (before ++ q :: p :: after)) :
    LinkedList (Function.update next q (next p)) head (before ++ q :: after) := by
  induction before generalizing head with
  | nil =>
      rcases linked.tail with ⟨rfl, rest⟩
      rcases rest.tail with ⟨_, later⟩
      have outside : q ∉ after := fun inside =>
        (List.nodup_cons.mp linked.nodup).1 (List.mem_cons_of_mem _ inside)
      exact later.push outside
  | cons r before ih =>
      rcases linked.tail with ⟨rfl, rest⟩
      have differs : r ≠ q := by
        rintro rfl
        exact (List.nodup_cons.mp linked.nodup).1 (by simp)
      apply LinkedList.cons
      rw [Function.update_of_ne differs]
      exact ih rest

end Stores

/-! ## Loops -/

/-- Visit the element at a cursor, and go on to its successor. -/
def round {σ : Type} (successor : σ → P → Option P) (visit : P → σ → σ)
    (cursor : Option P × σ) : Option P × σ :=
  match cursor.1 with
  | some p => (successor (visit p cursor.2) p, visit p cursor.2)
  | none => cursor

/-- A loop that visits the elements one after the other. -/
theorem visits {σ : Type} {successor : σ → P → Option P} {visit : P → σ → σ} {s : σ}
    (keeps : ∀ p q s, successor (visit p s) q = successor s q)
    (linked : LinkedList (successor s) head ps) :
    Returns (fun bound => whileLoop (fun cursor : Option P × σ => cursor.1.isSome)
        (round successor visit) bound (head, s))
      (none, ps.foldl (fun s p => visit p s) s) := by
  induction ps generalizing head s with
  | nil =>
      cases linked
      exact Returns.round (.pure _)
  | cons p ps ih =>
      rcases linked.tail with ⟨rfl, rest⟩
      have same : successor (visit p s) = successor s := funext fun q => keeps p q s
      exact Returns.round (ih (by rw [same]; exact rest))

/-- A loop that looks for an element. -/
theorem search (found : P → Bool) (linked : LinkedList next head ps) :
    Returns (fun bound => whileLoop (fun cursor : Option P => cursor.any fun p => !found p)
      (fun cursor => cursor.bind next) bound head) (ps.find? found) := by
  induction linked with
  | nil => exact Returns.round (.pure _)
  | @cons p ps rest ih =>
      apply Returns.round
      rw [List.find?_cons]
      cases here : found p with
      | true => simpa [whileLoop, here] using Returns.pure (some p)
      | false => simpa [whileLoop, here] using ih

/-- The pointer in a place: in the head, or in an element. -/
def deref (next : P → Option P) (head : Option P) : Option P → Option P
  | none => head
  | some p => next p

/-- A loop from place to place, up to the one that holds a pointer. -/
theorem place [DecidableEq P] {p : P} {before after : List P} {cursor : Option P}
    (linked : LinkedList next (deref next head cursor) (before ++ p :: after)) :
    Returns (fun bound => whileLoop (fun cursor : Option P =>
        decide (deref next head cursor ≠ some p))
      (fun cursor => deref next head cursor) bound cursor) (before.getLast?.or cursor) := by
  induction before generalizing cursor with
  | nil =>
      have here : deref next head cursor = some p := linked.tail.1
      apply Returns.round
      simpa [whileLoop, here] using Returns.pure cursor
  | cons q before ih =>
      rcases linked.tail with ⟨here, rest⟩
      have differs : q ≠ p := by
        rintro rfl
        exact (List.nodup_cons.mp linked.nodup).1 (by simp)
      have last : (q :: before).getLast?.or cursor = before.getLast?.or (some q) := by
        cases before with
        | nil => rfl
        | cons r before => simp [List.getLast?_cons]
      apply Returns.round
      rw [last]
      have later := @ih (some q) rest
      simpa [whileLoop, here, differs] using later

end LinkedList

end Ece391Os.Memory
