import RespStore.Frame.Basic

/-!
# The wire form of frames

A type byte, then one line, or a length line followed by a payload or by the items.
-/

namespace RespStore

/-- How an array without items is written. -/
inductive EmptyArrays where
  | array
  | error
  deriving DecidableEq, Repr

namespace Frame

def emptyCollection : String := "ERR empty collection"

def line (type : UInt8) (content : Bytes) : Bytes := type :: content ++ Bytes.crlf

mutual

def encode (empty : EmptyArrays) : Frame → Bytes
  | simple s => line Ascii.plus (Utf8.encode s)
  | error s => line Ascii.minus (Utf8.encode s)
  | integer n => line Ascii.colon (Decimal.ofInt n.toInt)
  | bulk payload =>
    line Ascii.dollar (Decimal.ofNat payload.length) ++ payload ++ Bytes.crlf
  | null => line Ascii.dollar [Ascii.minus, 49]
  | array [] =>
    match empty with
    | .array => line Ascii.star [Ascii.zero]
    | .error => line Ascii.minus (Utf8.encode emptyCollection)
  | array (item :: items) =>
    line Ascii.star (Decimal.ofNat (items.length + 1)) ++
      (encode empty item ++ encodeAll empty items)

def encodeAll (empty : EmptyArrays) : List Frame → Bytes
  | [] => []
  | item :: items => encode empty item ++ encodeAll empty items

end

/-- The wire form under the default policy. -/
def serialize (f : Frame) : Bytes := f.encode .array

theorem encodeAll_eq_flatMap (empty : EmptyArrays) (items : List Frame) :
    encodeAll empty items = items.flatMap (encode empty) := by
  induction items with
  | nil => simp [encodeAll]
  | cons item items ih => simp [encodeAll, ih]

end Frame

end RespStore
