import RespStore.Number.Binary64.Round

/-!
# Single-precision numbers

Every single-precision number is a double; widening is exact.
-/

namespace RespStore

structure Binary32 where
  bits : UInt32
  deriving DecidableEq, Repr

namespace Binary32

/-- The weight of the lowest exponent bit, and the hidden bit of a normal significand. -/
def hiddenBit : Nat := 1 <<< 23

def widen (x : Binary32) : Binary64 :=
  let n := x.bits.toNat
  let negative := decide (256 * hiddenBit ≤ n)
  let field : Nat := n / hiddenBit % 256
  let fraction : Nat := n % hiddenBit
  if field = 0xFF then
    if fraction = 0 then .ofMagnitude negative Binary64.infinite else .nan
  else if field = 0 then .ofDyadic negative fraction (-149)
  else .ofDyadic negative (fraction + hiddenBit) ((field : Int) - 150)

end Binary32

end RespStore
