import RespStore.Number.Decimal

/-!
# Fixed-width integers

A format is a width and a sign; counters of any format add without wrapping, or not at all.
-/

namespace RespStore

structure IntFormat where
  bits : Nat
  signed : Bool
  deriving DecidableEq, Repr

namespace IntFormat

def int8 : IntFormat := ⟨8, true⟩
def int16 : IntFormat := ⟨16, true⟩
def int32 : IntFormat := ⟨32, true⟩
def int64 : IntFormat := ⟨64, true⟩
def uint8 : IntFormat := ⟨8, false⟩
def uint16 : IntFormat := ⟨16, false⟩
def uint32 : IntFormat := ⟨32, false⟩
def uint64 : IntFormat := ⟨64, false⟩

def least (f : IntFormat) : Int := if f.signed then -(1 <<< (f.bits - 1) : Nat) else 0

def greatest (f : IntFormat) : Int :=
  (1 <<< (if f.signed then f.bits - 1 else f.bits) : Nat) - 1

def Fits (f : IntFormat) (n : Int) : Prop := f.least ≤ n ∧ n ≤ f.greatest

instance (f : IntFormat) (n : Int) : Decidable (f.Fits n) := inferInstanceAs (Decidable (_ ∧ _))

def check? (f : IntFormat) (n : Int) : Option Int := if f.Fits n then some n else none

def parse? (f : IntFormat) (bs : Bytes) : Option Int := (Decimal.int? f.signed bs).bind f.check?

def add? (f : IntFormat) (a b : Int) : Option Int := f.check? (a + b)

theorem check?_eq_some_iff {f : IntFormat} {n m : Int} :
    f.check? n = some m ↔ n = m ∧ f.Fits n := by
  unfold check?
  split <;> simp_all

theorem add?_eq_some_iff {f : IntFormat} {a b c : Int} :
    f.add? a b = some c ↔ a + b = c ∧ f.Fits (a + b) := check?_eq_some_iff

end IntFormat

/-- Reads a signed 64-bit integer. -/
def readInt64? (bs : Bytes) : Option Int64 := (IntFormat.int64.parse? bs).map Int64.ofInt

end RespStore
