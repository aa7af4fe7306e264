import RespStore.Proofs.Bytes

/-!
# Checked indices

Indices as a machine computes them: a sum has to go into a word, a difference must not fall below zero,
and a slice has to lie in its buffer. Each is `none` where that fails.
-/

namespace RespStore.Checked

variable {word a b start : Nat} {bs xs ys line rest : Bytes}

def sum? (word a b : Nat) : Option Nat := if a + b ≤ word then some (a + b) else none

def difference? (a b : Nat) : Option Nat := if b ≤ a then some (a - b) else none

/-- The bytes from `start` up to `stop`. -/
def slice? (bs : Bytes) (start stop : Nat) : Option Bytes :=
  if start ≤ stop ∧ stop ≤ bs.length then some ((bs.drop start).take (stop - start)) else none

theorem sum?_eq (h : a + b ≤ word) : sum? word a b = some (a + b) := if_pos h

theorem difference?_eq (h : b ≤ a) : difference? a b = some (a - b) := if_pos h

/-- What stands behind `start` can be cut out. -/
theorem slice?_of_drop (hstart : start ≤ bs.length) (h : bs.drop start = xs ++ ys) :
    slice? bs start (start + xs.length) = some xs := by
  have hlen := congrArg List.length h
  rw [List.length_drop, List.length_append] at hlen
  rw [slice?, if_pos (by omega), h, Nat.add_sub_cancel_left, List.take_left]

theorem slice?_length (h : start ≤ bs.length) : slice? bs start bs.length = some (bs.drop start) := by
  rw [slice?, if_pos ⟨h, Nat.le_refl _⟩, List.take_of_length_le (List.length_drop ▸ Nat.le_refl _)]

/-- The end of a line that is found behind `start` lies in the buffer, and can be counted up to. -/
theorem sums_of_splitLine? (h : Bytes.splitLine? (bs.drop start) = some (line, rest))
    (hstart : start ≤ bs.length) (hword : bs.length ≤ word) :
    bs.drop start = line ++ (Bytes.crlf ++ rest) ∧ start + line.length + 2 ≤ bs.length ∧
      sum? word start line.length = some (start + line.length) ∧
      sum? word (start + line.length) 2 = some (start + line.length + 2) := by
  obtain ⟨-, hdrop⟩ := Bytes.splitLine?_eq_some_iff.mp h
  have hlen := Bytes.length_splitLine? h
  rw [List.length_drop] at hlen
  have hstop : start + line.length + 2 ≤ bs.length := by omega
  exact ⟨hdrop.trans (List.append_assoc _ _ _), hstop, sum?_eq (by omega), sum?_eq (by omega)⟩

end RespStore.Checked
