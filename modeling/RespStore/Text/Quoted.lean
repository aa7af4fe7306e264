import RespStore.Text.Quoted.Table

/-!
# Quoted text

Text between double quotes, in which quotes, backslashes and the characters without a visible form
of their own are escaped.
-/

namespace RespStore.Quoted

def hexDigits (n : Nat) : List Char := Nat.toDigits 16 n

def isVisible (c : Char) : Bool :=
  !escapedRanges.any fun r => r.1 ≤ c.toNat && c.toNat ≤ r.2

def escape (c : Char) : List Char :=
  if c = '"' ∨ c = '\\' then ['\\', c]
  else if c = '\n' then ['\\', 'n']
  else if c = '\r' then ['\\', 'r']
  else if c = '\t' then ['\\', 't']
  else if c.toNat = 0 then ['\\', '0']
  else if isVisible c then [c]
  else ['\\', 'u', Char.ofNat 0x7B] ++ hexDigits c.toNat ++ [Char.ofNat 0x7D]

def encode (s : String) : String := String.ofList ('"' :: s.toList.flatMap escape ++ ['"'])

end RespStore.Quoted
