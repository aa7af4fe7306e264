/-!
# Index ranges

Positions in a collection, of which the negative ones count from the end.
-/

namespace RespStore

/-- The first and last position that a range selects of `size` elements, if it selects any. -/
def resolveRange? (start stop : Int) (size : Nat) : Option (Nat × Nat) :=
  let start := if start < 0 then max (size + start) 0 else start
  let stop := if stop < 0 then size + stop else min stop (size - 1)
  if stop < start ∨ size ≤ start ∨ stop < 0 then none else some (start.toNat, stop.toNat)

/-- The elements at the positions of a range. -/
def sliceRange {α : Type} (start stop : Int) (xs : List α) : List α :=
  match resolveRange? start stop xs.length with
  | some (first, last) => (xs.drop first).take (last - first + 1)
  | none => []

end RespStore
