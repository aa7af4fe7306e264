import RespStore.Command.String.Basic
import RespStore.Command.Outcome

/-!
# Running commands on strings
-/

namespace RespStore.StringCommand

variable [Digest String]

def SetCondition.allows (condition : SetCondition) (slot : Option Value) : Bool :=
  match condition with
  | .always => true
  | .ifAbsent => slot.isNone
  | .ifPresent => slot.isSome

/-- The deadline of an expiry, unless 64 bits do not hold it. -/
def Expiry.deadline? (e : Expiry) (now : Nat) : Option Nat :=
  (e.unit.deadline? .uint64 e.amount now).map Int.toNat

def runSet (now : Nat) (db : Db) (key : String) (value : Bytes) (condition : SetCondition)
    (deadline : Option Nat) : Frame × Db :=
  let (stored, db) := db.compute now key fun slot =>
    if SetCondition.allows condition slot then
      (true, some (Value.withExpiry (.string value) deadline))
    else (false, slot)
  (if stored then .ok else .null, db)

/-- The strings under keys; other values read as null. -/
def readAll (now : Nat) : List String → Db → List Frame × Db
  | [], db => ([], db)
  | key :: keys, db =>
    let (v, db) := db.get now key
    let (frames, db) := readAll now keys db
    (.ofOption .bulk (v.bind fun v => v.asString.toOption) :: frames, db)

def runIncr (now : Nat) (db : Db) (key : String) (delta : Int) : Frame × Db :=
  let (r, db) := db.incrBy now key .int64 delta
  (.ofExcept (r.map fun n => .integer (Int64.ofInt n)), db)

def runAppend (now : Nat) (db : Db) (key : String) (value : Bytes) : Frame × Db :=
  db.replying now key fun slot => do
    let current ← slot.elim (pure []) Value.asString
    let value := current ++ value
    return (.count value.length, Value.store slot (.string value))

def run (now : Nat) (db : Db) (g : Draws) : StringCommand → Outcome
  | get key =>
    let (reply, db) := db.reading now key .null fun v => v.asString.map .bulk
    ⟨reply, db, g⟩
  | set key value condition none =>
    let (reply, db) := runSet now db key value condition none
    ⟨reply, db, g⟩
  | set key value condition (some expiry) =>
    match Expiry.deadline? expiry now with
    | none => ⟨.error (CommandError.badExpireTime "set").message, db, g⟩
    | some t =>
      let (reply, db) := runSet now db key value condition (some t)
      ⟨reply, db, g⟩
  | setnx key value =>
    let (stored, db) := db.setIfAbsent now key (.string value)
    ⟨.ofBool stored, db, g⟩
  | getdel key =>
    let (reply, db) := db.replying now key fun slot =>
      match slot with
      | none => return (.null, none)
      | some v => return (.bulk (← v.asString), none)
    ⟨reply, db, g⟩
  | mget keys =>
    let (frames, db) := readAll now keys db
    ⟨.array frames, db, g⟩
  | mset pairs => ⟨.ok, pairs.foldl (fun db p => db.set p.1 (.string p.2)) db, g⟩
  | incr key =>
    let (reply, db) := runIncr now db key 1
    ⟨reply, db, g⟩
  | decr key =>
    let (reply, db) := runIncr now db key (-1)
    ⟨reply, db, g⟩
  | incrBy key delta =>
    let (reply, db) := runIncr now db key delta.toInt
    ⟨reply, db, g⟩
  | decrBy key delta =>
    if delta = Int64.minValue then ⟨.error StoreError.overflow.message, db, g⟩
    else
      let (reply, db) := runIncr now db key (-delta.toInt)
      ⟨reply, db, g⟩
  | incrByFloat key delta =>
    let (r, db) := db.incrByFloat now key delta
    ⟨.ofExcept (r.map .number), db, g⟩
  | append key value =>
    let (reply, db) := runAppend now db key value
    ⟨reply, db, g⟩
  | strlen key =>
    let (reply, db) := db.reading now key (.count 0) fun v =>
      v.asString.map fun bytes => .count bytes.length
    ⟨reply, db, g⟩

end RespStore.StringCommand
