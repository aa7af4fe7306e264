import RespStore.Log.Record
import RespStore.Frame.Wire

/-!
# Writing the log

The log is a file of requests in wire form. A request that selects a database comes before a
record whenever the database is another than that of the record before, and first of all.
-/

namespace RespStore.Log

/-- When records are forced to disk. -/
inductive SyncPolicy where
  | always
  | everySecond
  | never
  deriving DecidableEq, Repr

structure Writer where
  policy : SyncPolicy
  /-- The file, or what was added to it since it was last handed over. -/
  contents : Bytes
  /-- The database of the last record. -/
  selected : Option Nat

namespace Writer

/-- Appends to what a file holds. -/
def openFile (contents : Bytes) (policy : SyncPolicy) : Writer := ⟨policy, contents, none⟩

def encode (r : Request) : Bytes := r.toFrame.serialize

def selectRecord (db : Nat) : Request := [word "SELECT", Decimal.ofNat db]

/-- The bytes that a record adds to the file. -/
def entry (w : Writer) (db : Nat) (r : Request) : Bytes :=
  if w.selected = some db then encode r else encode (selectRecord db) ++ encode r

def append (w : Writer) (db : Nat) (r : Request) : Writer :=
  { w with contents := w.contents ++ w.entry db r, selected := some db }

def appendAll (w : Writer) (db : Nat) (rs : List Request) : Writer :=
  rs.foldl (fun w r => w.append db r) w

/-- Hands over the contents, so that what is appended next is all that is new. -/
def handOver (w : Writer) : Bytes × Writer := (w.contents, { w with contents := [] })

end Writer

end RespStore.Log
