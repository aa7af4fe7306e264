import RespStore.Command.Hash.Basic
import RespStore.Command.Outcome

/-!
# Running commands on hashes
-/

namespace RespStore.HashCommand

variable [Digest String]

def runSet (now : Nat) (db : Db) (key : String) (pairs : List (String × Bytes)) : Frame × Db :=
  db.replying now key fun slot => do
    let (n, h) := (← slot.elim (pure .empty) Value.asHash).putAll pairs
    return (.count n, Value.store slot (.hash h))

def runDel (now : Nat) (db : Db) (key : String) (fields : List String) : Frame × Db :=
  db.replying now key fun slot =>
    match slot with
    | none => return (.count 0, none)
    | some v => do
      let (n, h) := (← v.asHash).removeAll fields
      return (.count n, Value.storeUnless h.isEmpty slot (.hash h))

/-- The sum of a field, which starts from zero, and `delta`. -/
def incremented (current : Option Bytes) (delta : Int) : Except StoreError Int := do
  let n ← match current with
    | none => pure 0
    | some bytes =>
      match IntFormat.int64.parse? bytes with
      | some n => pure n
      | none => throw .hashNotInteger
  match IntFormat.int64.add? n delta with
  | some n => return n
  | none => throw .overflow

def runIncrBy (now : Nat) (db : Db) (key field : String) (delta : Int) : Frame × Db :=
  db.replying now key fun slot => do
    let h ← slot.elim (pure .empty) Value.asHash
    let n ← incremented (h.get? field) delta
    let (_, h) := h.put field (Decimal.ofInt n)
    return (.integer (Int64.ofInt n), Value.store slot (.hash h))

def listingReply (h : Dict String Bytes) : HashPart → Frame
  | .both => .ofPairs .text .bulk h.toList
  | .fields => .ofList (fun e => .text e.1) h.toList
  | .values => .ofList (fun e => .bulk e.2) h.toList

def run (now : Nat) (db : Db) (g : Draws) (c : HashCommand) : Outcome :=
  let (reply, db) := match c with
    | set key pairs => runSet now db key pairs
    | get key field => db.reading now key .null fun v =>
      v.asHash.map fun h => .ofOption .bulk (h.get? field)
    | del key fields => runDel now db key fields
    | .exists key field => db.reading now key (.count 0) fun v =>
      v.asHash.map fun h => .ofBool (h.contains field)
    | length key => db.reading now key (.count 0) fun v => v.asHash.map fun h => .count h.size
    | listing part key => db.reading now key (.array []) fun v =>
      v.asHash.map fun h => listingReply h part
    | incrBy key field delta => runIncrBy now db key field delta.toInt
  ⟨reply, db, g⟩

end RespStore.HashCommand
