import RespStore.Number.IntFormat
import RespStore.Number.Binary64.Print
import RespStore.Text.Utf8

/-!
# Frames

The values of the wire format, and how plain data become frames.
-/

namespace RespStore

inductive Frame where
  | simple (text : String)
  | error (text : String)
  | integer (n : Int64)
  | bulk (payload : Bytes)
  | null
  | array (items : List Frame)
  deriving BEq, Inhabited, Repr

namespace Frame

def ok : Frame := .simple "OK"

def text (s : String) : Frame := .bulk (Utf8.encode s)

/-- An integer frame, or the decimal text of a number that 64 bits do not hold. -/
def ofInt (n : Int) : Frame :=
  if IntFormat.int64.Fits n then .integer (Int64.ofInt n) else .bulk (Decimal.ofInt n)

def count (n : Nat) : Frame := .integer (Int64.ofNat n)

def ofBool (b : Bool) : Frame := .integer (if b then 1 else 0)

def number (x : Binary64) : Frame := .bulk x.text

def ofOption {α : Type} (f : α → Frame) (x : Option α) : Frame := x.elim .null f

def ofList {α : Type} (f : α → Frame) (xs : List α) : Frame := .array (xs.map f)

/-- Keys and values in turn. -/
def ofPairs {α β : Type} (f : α → Frame) (g : β → Frame) (ps : List (α × β)) : Frame :=
  .array (ps.flatMap fun p => [f p.1, g p.2])

/-- The shape that requests have: an array of bulk strings. -/
def ofArguments (args : List Bytes) : Frame := ofList bulk args

end Frame

end RespStore
