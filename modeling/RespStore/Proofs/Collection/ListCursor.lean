import RespStore.Proofs.Collection.LinkedList
import RespStore.Proofs.History

/-!
# Traversals of a linked list

A cursor stands for the values that it has yet to meet, a part of the sequence between those taken
from the front and those taken from the back.
-/

namespace RespStore.LinkedList

variable {l : LinkedList} {c : Cursor} {xs : List Bytes}

inductive End
  | front
  | back

/-- Takes a value from an end of what is left of a traversal. -/
def Cursor.take (l : LinkedList) (c : Cursor) : End → Option Bytes × Cursor
  | .front => c.next l
  | .back => c.nextBack l

def takeEnd (xs : List Bytes) : End → Option Bytes × List Bytes
  | .front => (xs.head?, xs.tail)
  | .back => (xs.getLast?, xs.dropLast)

/-- A traversal has yet to meet these values: those of the middle one of three parts of a list. -/
def Cursor.Meets (l : LinkedList) (c : Cursor) (xs : List Bytes) : Prop :=
  ∃ a mid b, l.Represents (a ++ (mid ++ b)) ∧ c.front = (mid ++ b).head? ∧
    c.back = (a ++ mid).getLast? ∧ c.remaining = mid.length ∧ mid.map l.get? = xs.map some

theorem Cursor.Meets.remaining (h : c.Meets l xs) :
    c.remaining = xs.length := by
  obtain ⟨a, mid, b, -, -, -, hremaining, hvalues⟩ := h
  rw [hremaining, ← List.length_map l.get?, hvalues, List.length_map]

theorem Cursor.Meets.next (h : c.Meets l xs) :
    (c.next l).1 = xs.head? ∧ (c.next l).2.Meets l xs.tail := by
  obtain ⟨a, mid, b, hrep, hfront, hback, hremaining, hvalues⟩ := h
  cases mid with
  | nil =>
    obtain rfl : xs = [] := by simpa using hvalues.symm
    have hnext : c.next l = (none, c) := by simp [Cursor.next, hremaining]
    exact hnext ▸ ⟨rfl, a, [], b, hrep, hfront, hback, hremaining, rfl⟩
  | cons id mid =>
    obtain ⟨w, hw⟩ := hrep.node?
    have hnext : c.next l = (some w, ⟨(mid ++ b).head?, c.back, mid.length⟩) := by
      rw [List.cons_append, List.head?_cons] at hfront
      simp [Cursor.next, hremaining, hfront, hw]
    cases xs with
    | nil => cases hvalues
    | cons v xs =>
      obtain ⟨hv, hrest⟩ := List.cons.inj hvalues
      obtain rfl : w = v := by simpa [get?, hw] using hv
      rw [hnext]
      exact ⟨rfl, a ++ [id], mid, b, by simpa using hrep, rfl, by simpa using hback, rfl, hrest⟩

theorem Cursor.Meets.nextBack (h : c.Meets l xs) :
    (c.nextBack l).1 = xs.getLast? ∧ (c.nextBack l).2.Meets l xs.dropLast := by
  obtain ⟨a, mid, b, hrep, hfront, hback, hremaining, hvalues⟩ := h
  cases mid using List.reverseRecOn with
  | nil =>
    obtain rfl : xs = [] := by simpa using hvalues.symm
    have hnext : c.nextBack l = (none, c) := by simp [Cursor.nextBack, hremaining]
    exact hnext ▸ ⟨rfl, a, [], b, hrep, hfront, hback, hremaining, rfl⟩
  | append_singleton mid id =>
    have hrep' : l.Represents ((a ++ mid) ++ id :: b) := by simpa using hrep
    obtain ⟨w, hw⟩ := hrep'.node?
    have hnext : c.nextBack l = (some w, ⟨c.front, (a ++ mid).getLast?, mid.length⟩) := by
      rw [← List.append_assoc, List.getLast?_concat] at hback
      simp [Cursor.nextBack, hremaining, hback, hw]
    cases xs using List.reverseRecOn with
    | nil => simp at hvalues
    | append_singleton xs v =>
      rw [List.map_append, List.map_append] at hvalues
      obtain ⟨hrest, hv⟩ := List.append_inj' hvalues rfl
      obtain rfl : w = v := by simpa [get?, hw] using hv
      rw [hnext, List.getLast?_concat, List.dropLast_concat]
      exact ⟨rfl, a, mid, id :: b, by simpa using hrep, by simpa using hfront, rfl, rfl, hrest⟩

theorem Cursor.Meets.take (h : c.Meets l xs) (e : End) :
    (c.take l e).1 = (takeEnd xs e).1 ∧ (c.take l e).2.Meets l (takeEnd xs e).2 := by
  cases e with
  | front => exact h.next
  | back => exact h.nextBack

theorem meets_cursor {ids : List Nat} (h : l.Represents ids) (hvalues : ids.map l.get? = xs.map some) :
    l.cursor.Meets l xs :=
  ⟨[], ids, [], by simpa using h, by simpa [cursor] using h.head, h.tail, h.size, hvalues⟩

/-- Values taken from both ends, in any order, are those taken from the sequence. -/
theorem Cursor.Meets.run (h : c.Meets l xs) (ends : List End) :
    let taken := History.run (Cursor.take l) c ends
    let ended := History.run takeEnd xs ends
    taken.1 = ended.1 ∧ taken.2.remaining = ended.2.length := by
  obtain ⟨hvalues, hmeets⟩ :=
    History.run_simulates (R := Cursor.Meets l) (fun _ _ e hc => hc.take e) h ends
  exact ⟨hvalues, hmeets.remaining⟩

end RespStore.LinkedList
