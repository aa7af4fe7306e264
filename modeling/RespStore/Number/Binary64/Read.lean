import RespStore.Number.Binary64.Round

/-!
# Reading doubles

An optional sign, then `inf`, `infinity` or `nan` in letters of either case, or digits with an
optional point, at least one digit beside it, and an optional exponent. An exponent stops growing at
a size that is out of reach unless there are as many digits to make up for it.
-/

namespace RespStore.Binary64

def isDigit (b : UInt8) : Bool := Ascii.zero ≤ b && b ≤ Ascii.nine

def takeSign : Bytes → Bool × Bytes
  | Ascii.plus :: rest => (false, rest)
  | Ascii.minus :: rest => (true, rest)
  | bs => (false, bs)

/-- The digits after a point, if there is one, and what follows. -/
def takeFraction : Bytes → Bytes × Bytes
  | Ascii.dot :: rest => rest.span isDigit
  | bs => ([], bs)

/-- The digits that follow once an exponent has come to this do not count. -/
def exponentCap : Nat := 0x10000

def exponent? : Bytes → Option Int
  | [] => some 0
  | e :: rest => if Ascii.toLower e = 101 then Decimal.cappedInt? exponentCap rest else none

def numeral? (negative : Bool) (bs : Bytes) : Option Binary64 :=
  let (whole, rest) := bs.span isDigit
  let (fraction, rest) := takeFraction rest
  match Decimal.nat? (whole ++ fraction), exponent? rest with
  | some n, some e => some (ofDecimal negative n (e - fraction.length))
  | _, _ => none

/-- The names of the values that have no digits. -/
def named? (negative : Bool) (name : Bytes) : Option Binary64 :=
  if name = [105, 110, 102] ∨ name = [105, 110, 102, 105, 110, 105, 116, 121] then
    some (ofMagnitude negative infinite)
  else if name = [110, 97, 110] then some nan
  else none

def read? (bs : Bytes) : Option Binary64 :=
  let (negative, rest) := takeSign bs
  named? negative (Bytes.lower rest) <|> numeral? negative rest

/-- Scores and increments: any double but a NaN. -/
def readNumber? (bs : Bytes) : Option Binary64 := (read? bs).filter fun x => !x.isNaN

end RespStore.Binary64
