import RespStore.Number.Binary64.Round

/-!
# The shortest decimal of a double

The decimal with the fewest digits that reads back, and of those the nearest to the value.
A decimal grid of step `10 ^ p` is tried for one `p` after the other, from coarse to fine; on
each only the two neighbours of the value can read back.
-/

namespace RespStore

/-- The number `coefficient * 10 ^ exponent`. -/
structure Scientific where
  coefficient : Nat
  exponent : Int
  deriving DecidableEq, Repr

namespace Scientific

/-- Divides by ten while that leaves no remainder, at most `fuel` times. -/
def trimWith : Nat → Scientific → Scientific
  | 0, s => s
  | fuel + 1, s =>
    if s.coefficient % 10 = 0 then trimWith fuel ⟨s.coefficient / 10, s.exponent + 1⟩ else s

end Scientific

namespace Binary64

/-- Whether `c * 10 ^ p` rounds to the absolute value of `x`. -/
def readsBack (x : Binary64) (c : Nat) (p : Int) : Bool :=
  ofDecimal false c p == ofMagnitude false x.magnitude

/-- The neighbour of the value on the grid of step `10 ^ p` that reads back; of two the nearer,
and the upper one at equal distance. -/
def onGrid? (x : Binary64) (p : Int) : Option Nat :=
  let n := x.significand <<< x.exponent.toNat * Nat.pow 10 (-p).toNat
  let d := 1 <<< (-x.exponent).toNat * Nat.pow 10 p.toNat
  let below := n / d
  let upper := d ≤ 2 * (n % d)
  match x.readsBack below p, x.readsBack (below + 1) p with
  | true, true => if upper then some (below + 1) else some below
  | true, false => some below
  | false, true => some (below + 1)
  | false, false => none

def searchGrids (x : Binary64) : Nat → Int → Option Scientific
  | 0, _ => none
  | steps + 1, p =>
    match x.onGrid? p with
    | some c => some ⟨c, p⟩
    | none => searchGrids x steps (p - 1)

/-- The value without any rounding. -/
def exactDecimal (x : Binary64) : Scientific :=
  let c := x.significand <<< x.exponent.toNat * Nat.pow 5 (-x.exponent).toNat
  Scientific.trimWith c.log2 ⟨c, -(-x.exponent).toNat⟩

/-- A power of ten from which the search starts: at least the value, and little more. -/
def coarsest (x : Binary64) : Int :=
  ((x.significand.log2 + x.exponent + 1) * 30103).fdiv 100000 + 1

/-- Seventeen digits always read back, so the search ends before its steps do. -/
def shortest (x : Binary64) : Scientific :=
  (x.searchGrids 22 x.coarsest).getD x.exactDecimal

end Binary64

end RespStore
