import RespStore.Number.Binary64.Basic

/-!
# Rounding to double precision

Exact values are rounded once, to the nearest double, and a value half-way between two doubles
goes to the one with the even significand.
-/

namespace RespStore.Binary64

/-- The integer nearest to `n / d`, the even one of two. -/
def roundDiv (n d : Nat) : Nat :=
  if 2 * (n % d) < d then n / d
  else if d < 2 * (n % d) then n / d + 1
  else n / d + n / d % 2

/-- The greatest `e` with `2 ^ e ≤ n / d`. -/
def log2Ratio (n d : Nat) : Int :=
  let e : Int := n.log2 - d.log2
  if n <<< (-e).toNat < d <<< e.toNat then e - 1 else e

/-- The double nearest to `n / d`; the least normal exponent bounds the step from below. -/
def ofRatio (negative : Bool) (n d : Nat) : Binary64 :=
  if n = 0 then ofMagnitude negative 0
  else
    let e := max (log2Ratio n d - 52) (-1074)
    let m := roundDiv (n <<< (-e).toNat) (d <<< e.toNat)
    ofMagnitude negative (min (m + (e + 1074).toNat * hiddenBit) infinite)

/-- The double nearest to `n * 2 ^ e`. -/
def ofDyadic (negative : Bool) (n : Nat) (e : Int) : Binary64 :=
  ofRatio negative (n <<< e.toNat) (1 <<< (-e).toNat)

/-- The double nearest to `n * 10 ^ e`. The first two cases keep the powers small: from
`10 ^ 400` on everything overflows, and below `2 ^ -1100` everything vanishes. -/
def ofDecimal (negative : Bool) (n : Nat) (e : Int) : Binary64 :=
  if n = 0 then ofMagnitude negative 0
  else if 400 < e then ofMagnitude negative infinite
  else if (n.log2 : Int) + 1 + 3 * e < -1100 then ofMagnitude negative 0
  else ofRatio negative (n * Nat.pow 10 e.toNat) (Nat.pow 10 (-e).toNat)

/-- The value as a multiple of `2 ^ e`, for an `e` that is at most the exponent. -/
def scaled (x : Binary64) (e : Int) : Int :=
  let n : Nat := x.significand <<< (x.exponent - e).toNat
  if x.isNegative then -(n : Int) else n

def add (x y : Binary64) : Binary64 :=
  if x.isNaN || y.isNaN then nan
  else if x.isInfinite then
    if y.isInfinite && x.isNegative != y.isNegative then nan else x
  else if y.isInfinite then y
  else
    let e := min x.exponent y.exponent
    let sum := x.scaled e + y.scaled e
    if sum = 0 then ofMagnitude (x.isNegative && y.isNegative) 0
    else ofDyadic (sum < 0) sum.natAbs e

instance : Add Binary64 := ⟨add⟩

end RespStore.Binary64
