import RespStore.Keyspace.Store

/-!
# Outcomes of commands

What a command leaves behind in one database, and how reads and edits of a key become replies.
-/

namespace RespStore

structure Outcome where
  reply : Frame
  db : Db
  draws : Draws

namespace Db

variable [Digest String]

/-- Replies with what `f` makes of the value of a key, or with `absent`. -/
def reading (db : Db) (now : Nat) (key : String) (absent : Frame)
    (f : Value → Except StoreError Frame) : Frame × Db :=
  match db.get now key with
  | (none, db) => (absent, db)
  | (some v, db) => (.ofExcept (f v), db)

/-- Replaces the value of a key and replies; an error leaves it as it is. -/
def replying (db : Db) (now : Nat) (key : String)
    (f : Option Value → Except StoreError (Frame × Option Value)) : Frame × Db :=
  let (r, db) := db.edit now key f
  (.ofExcept r, db)

end Db

namespace Value

/-- New data in the place of a value, under its deadline. -/
def store (slot : Option Value) (data : Data) : Option Value :=
  some ⟨data, slot.bind (·.expiresAt)⟩

/-- The same, or nothing where the data are an empty collection. -/
def storeUnless (isEmpty : Bool) (slot : Option Value) (data : Data) : Option Value :=
  if isEmpty then none else store slot data

end Value

end RespStore
