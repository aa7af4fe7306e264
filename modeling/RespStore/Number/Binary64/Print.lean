import RespStore.Number.Binary64.Shortest

/-!
# Writing doubles

The shortest decimal, in positional notation for zero and from `1e-5` up to `1e17`, and else with
a signed exponent of at least two digits.
-/

namespace RespStore

namespace Scientific

/-- The place of the point, counted from the first digit. -/
def point (s : Scientific) : Int := (Decimal.ofNat s.coefficient).length + s.exponent

def positional (s : Scientific) : Bytes :=
  let digits := Decimal.ofNat s.coefficient
  if 0 ≤ s.exponent then digits ++ List.replicate s.exponent.toNat Ascii.zero
  else if 0 < s.point then
    digits.take s.point.toNat ++ Ascii.dot :: digits.drop s.point.toNat
  else Ascii.zero :: Ascii.dot :: List.replicate (-s.point).toNat Ascii.zero ++ digits

/-- At least two digits. -/
def paddedExponent (e : Nat) : Bytes :=
  if e < 10 then Ascii.zero :: Decimal.ofNat e else Decimal.ofNat e

def withExponent (s : Scientific) : Bytes :=
  let e := s.point - 1
  let sign := if e < 0 then Ascii.minus else Ascii.plus
  let mantissa := match Decimal.ofNat s.coefficient with
    | [] => []
    | [d] => [d]
    | d :: more => d :: Ascii.dot :: more
  mantissa ++ 101 :: sign :: paddedExponent e.natAbs

end Scientific

namespace Binary64

/-- Positional notation starts here, at `1e-5`, … -/
def positionalFrom : Binary64 := ofDecimal false 1 (-5)

/-- … and ends before this, `1e17`. -/
def positionalBelow : Binary64 := ofDecimal false 1 17

def isPositional (x : Binary64) : Bool :=
  x.isZero || (positionalFrom.le x.abs && x.abs.lt positionalBelow)

def unsignedText (x : Binary64) : Bytes :=
  if x.isInfinite then [105, 110, 102]
  else if x.isZero then [Ascii.zero]
  else if x.isPositional then x.shortest.positional
  else x.shortest.withExponent

def text (x : Binary64) : Bytes :=
  if x.isNaN then [78, 97, 78]
  else if x.isNegative then Ascii.minus :: x.unsignedText
  else x.unsignedText

end Binary64

end RespStore
