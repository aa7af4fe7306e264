import RespStore.Number.Decimal

/-!
# Double-precision numbers

A number is its bit pattern: a sign bit over a magnitude, whose order as an integer is the order
of the absolute values. A finite magnitude stands for `significand * 2 ^ exponent`.
-/

namespace RespStore

structure Binary64 where
  bits : UInt64
  deriving DecidableEq, Repr, Inhabited

namespace Binary64

/-- The weight of the sign bit. -/
def signWeight : Nat := 1 <<< 63

/-- The weight of the lowest exponent bit, and the hidden bit of a normal significand. -/
def hiddenBit : Nat := 1 <<< 52

def magnitude (x : Binary64) : Nat := x.bits.toNat % signWeight

def isNegative (x : Binary64) : Bool := signWeight ≤ x.bits.toNat

def ofMagnitude (negative : Bool) (m : Nat) : Binary64 :=
  ⟨UInt64.ofNat (if negative then signWeight + m else m)⟩

/-- The magnitude of the infinities; every NaN has a greater one. -/
def infinite : Nat := 0x7FF * hiddenBit

def zero : Binary64 := ofMagnitude false 0
def infinity : Binary64 := ofMagnitude false infinite
def negInfinity : Binary64 := ofMagnitude true infinite
def nan : Binary64 := ofMagnitude false (infinite + hiddenBit / 2)

def isNaN (x : Binary64) : Bool := infinite < x.magnitude
def isInfinite (x : Binary64) : Bool := x.magnitude == infinite
def isFinite (x : Binary64) : Bool := x.magnitude < infinite
def isZero (x : Binary64) : Bool := x.magnitude == 0

def abs (x : Binary64) : Binary64 := ofMagnitude false x.magnitude

def significand (x : Binary64) : Nat :=
  x.magnitude % hiddenBit + if x.magnitude < hiddenBit then 0 else hiddenBit

def exponent (x : Binary64) : Int := (max (x.magnitude / hiddenBit) 1 : Nat) - 1075

/-- The place of a number in the numeric order; both zeros have the same. -/
def key (x : Binary64) : Int := if x.isNegative then -(x.magnitude : Int) else x.magnitude

/-! Comparisons are numeric: the zeros are equal and a NaN compares with nothing. -/

def lt (x y : Binary64) : Bool := !x.isNaN && !y.isNaN && decide (x.key < y.key)

def le (x y : Binary64) : Bool := !x.isNaN && !y.isNaN && decide (x.key ≤ y.key)

def equal (x y : Binary64) : Bool := !x.isNaN && !y.isNaN && decide (x.key = y.key)

end Binary64

end RespStore
