import RespStore.Command.Run
import RespStore.Protocol.Decoder

/-!
# Log records

The requests that reproduce a write. A record neither depends on the clock nor on random draws:
deadlines are written out, and a random removal names the members that it removed.
-/

namespace RespStore.Log

variable [Digest String]

/-- The arguments of a request whose parts are all texts. -/
def arguments? : Frame → Option Request
  | .array parts => parts.mapM fun part =>
    match part with
    | .bulk bytes => some bytes
    | .simple s => some (Utf8.encode s)
    | _ => none
  | _ => none

/-- The deadline of a live key. -/
def deadline? (now : Nat) (db : Db) (key : Bytes) : Option Nat × Db :=
  match Utf8.decode? key with
  | none => (none, db)
  | some key =>
    let (v, db) := db.get now key
    (v.bind (·.expiresAt), db)

def word (s : String) : Bytes := Utf8.encode s

/-- Sets the deadline that a key has, or deletes the key if it has none left. -/
def deadlineRecord (now : Nat) (db : Db) (key : Bytes) : Request × Db :=
  match deadline? now db key with
  | (some t, db) => ([word "PEXPIREAT", key, Decimal.ofNat t], db)
  | (none, db) => ([word "DEL", key], db)

/-- Stores a string with the deadline that it has, or deletes the key if that has passed. -/
def storeRecord (now : Nat) (db : Db) (key value : Bytes) : Request × Db :=
  match deadline? now db key with
  | (some t, db) => ([word "SET", key, value, word "PXAT", Decimal.ofNat t], db)
  | (none, db) => ([word "DEL", key], db)

def isExpiryOption (arg : Bytes) : Bool :=
  [word "ex", word "px", word "exat", word "pxat"].contains (Bytes.lower arg)

def isDeadlineCommand (name : Bytes) : Bool :=
  [word "expire", word "pexpire", word "expireat", word "pexpireat"].contains name

/-- The members that a reply names. -/
def poppedMembers : Frame → List Bytes
  | .bulk member => [member]
  | .array members => members.filterMap fun f =>
    match f with
    | .bulk member => some member
    | _ => none
  | _ => []

/-- The records of a write that got `reply`, in the database as it is right afterwards. -/
def records (now : Nat) (db : Db) (args : Request) (reply : Frame) : List Request × Db :=
  match reply, args with
  | .error _, _ => ([], db)
  | _, [] => ([], db)
  | _, name :: rest =>
    let key := rest.headD []
    let name := Bytes.lower name
    if isDeadlineCommand name then
      match reply with
      | .integer 1 =>
        let (record, db) := deadlineRecord now db key
        ([record], db)
      | _ => ([], db)
    else if name = word "set" then
      match reply with
      | .null => ([], db)
      | _ =>
        if (rest.drop 2).any isExpiryOption then
          let (record, db) := storeRecord now db key ((rest[1]?).getD [])
          ([record], db)
        else ([args], db)
    else if name = word "spop" then
      match poppedMembers reply with
      | [] => ([], db)
      | members => ([word "SREM" :: key :: members], db)
    else ([args], db)

end RespStore.Log
