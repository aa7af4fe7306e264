import RespStore.Keyspace.Value
import RespStore.Number.Binary64.Read
import RespStore.Text.Pattern

/-!
# Databases

One keyspace. A value whose deadline has passed is invisible to every reading and is dropped when
it is met. The clock is an argument: an operation sees one reading of it.
-/

namespace RespStore

structure Db where
  entries : Dict String Value

/-- What is left of a key's life. -/
inductive Lifetime where
  | missing
  | persistent
  | expiresIn (milliseconds : Nat)
  deriving DecidableEq, Repr

namespace Db

variable [Digest String] {α : Type}

def empty : Db := ⟨.empty⟩

instance : Inhabited Db := ⟨empty⟩

/-- Looks a key up and drops it if its deadline has passed. -/
def get (db : Db) (now : Nat) (key : String) : Option Value × Db :=
  match db.entries.get? key with
  | none => (none, db)
  | some v => if v.isExpired now then (none, ⟨(db.entries.remove key).2⟩) else (some v, db)

/-- Looks keys up one after the other and keeps those that are there. -/
def getAll (db : Db) (now : Nat) : List String → List (String × Value) × Db
  | [] => ([], db)
  | key :: keys =>
    let (v, db) := db.get now key
    let (found, db) := db.getAll now keys
    (v.toList.map (key, ·) ++ found, db)

def set (db : Db) (key : String) (v : Value) : Db := ⟨(db.entries.put key v).2⟩

/-- Removes a key, and hands its value back if it was live. -/
def take (db : Db) (now : Nat) (key : String) : Option Value × Db :=
  let (v, entries) := db.entries.remove key
  (v.filter (·.isLive now), ⟨entries⟩)

/-- Removes keys and counts the live ones. -/
def delete (db : Db) (now : Nat) : List String → Nat × Db
  | [] => (0, db)
  | key :: keys =>
    let (v, db) := db.take now key
    let (n, db) := db.delete now keys
    ((if v.isSome then 1 else 0) + n, db)

/-- The number of keys, those included whose deadline has passed unnoticed. -/
def size (db : Db) : Nat := db.entries.size

def flush (db : Db) : Db := ⟨db.entries.clear⟩

/-- Reads and replaces the value of a key; an empty slot deletes the key. -/
def compute (db : Db) (now : Nat) (key : String) (f : Option Value → α × Option Value) : α × Db :=
  let (result, entries) := db.entries.compute key fun slot => f (slot.filter (·.isLive now))
  (result, ⟨entries⟩)

/-- Reads and replaces the values of two distinct keys at once. -/
def computePair (db : Db) (now : Nat) (a b : String)
    (f : Option Value → Option Value → α × Option Value × Option Value) : α × Db :=
  let (result, entries) := db.entries.computePair a b fun x y =>
    f (x.filter (·.isLive now)) (y.filter (·.isLive now))
  (result, ⟨entries⟩)

/-- Replaces the value of a key, unless that fails. -/
def edit (db : Db) (now : Nat) (key : String)
    (f : Option Value → Except StoreError (α × Option Value)) : Except StoreError α × Db :=
  db.compute now key fun slot =>
    match f slot with
    | .ok (result, slot) => (.ok result, slot)
    | .error e => (.error e, slot)

/-- Stores a value unless the key has one; answers whether it did. -/
def setIfAbsent (db : Db) (now : Nat) (key : String) (v : Value) : Bool × Db :=
  db.compute now key fun slot => if slot.isSome then (false, slot) else (true, some v)

/-- The live keys that match a pattern; a lone star matches every key. -/
def keys [Matcher] (db : Db) (now : Nat) (pattern : String) : List String :=
  let asked := fun key => pattern == "*" || Matcher.isMatch pattern key
  (db.entries.toList.filter fun e => e.2.isLive now && asked e.1).map (·.1)

/-- Every live key with its value. -/
def live (db : Db) (now : Nat) : List (String × Value) :=
  db.entries.toList.filter fun e => e.2.isLive now

/-- Draws keys until one is live, at most `attempts` times. -/
def randomKeyWith (now : Nat) : Nat → Db → Draws → Option String × Db × Draws
  | 0, db, g => (none, db, g)
  | attempts + 1, db, g =>
    match db.entries.randomKey g with
    | (none, g) => (none, db, g)
    | (some key, g) =>
      match db.get now key with
      | (some _, db) => (some key, db, g)
      | (none, db) => randomKeyWith now attempts db g

/-- Draws made before a search for a live key is given up. -/
def randomAttempts : Nat := 100

def randomKey (db : Db) (now : Nat) (g : Draws) : Option String × Db × Draws :=
  randomKeyWith now randomAttempts db g

def lifetime (db : Db) (now : Nat) (key : String) : Lifetime × Db :=
  match db.get now key with
  | (none, db) => (.missing, db)
  | (some v, db) => (v.expiresAt.elim .persistent fun t => .expiresIn (t - now), db)

/-- Sets a deadline, or deletes the key if it has passed; answers whether the key was there. -/
def expireAt (db : Db) (now : Nat) (key : String) (t : Nat) : Bool × Db :=
  db.compute now key fun slot =>
    match slot with
    | none => (false, none)
    | some v => (true, if t ≤ now then none else some (v.setExpiresAt (some t)))

/-- Lifts the deadline; answers whether there was one. -/
def persist (db : Db) (now : Nat) (key : String) : Bool × Db :=
  db.compute now key fun slot =>
    match slot with
    | none => (false, none)
    | some v => (v.expiresAt.isSome, some (v.setExpiresAt none))

/-- Adds to the integer under a key, which starts from zero; the deadline is kept. -/
def incrBy (db : Db) (now : Nat) (key : String) (format : IntFormat) (delta : Int) :
    Except StoreError Int × Db :=
  db.edit now key fun slot => do
    let current ← match slot with
      | none => pure 0
      | some v =>
        match format.parse? (← v.asString) with
        | some n => pure n
        | none => .error .notInteger
    match format.add? current delta with
    | none => .error .overflow
    | some n => .ok (n, some ⟨.string (Decimal.ofInt n), slot.bind (·.expiresAt)⟩)

/-- Adds to the float under a key, which starts from zero; both the float there and the result
are finite. The deadline is kept. -/
def incrByFloat (db : Db) (now : Nat) (key : String) (delta : Binary64) :
    Except StoreError Binary64 × Db :=
  db.edit now key fun slot => do
    let current ← match slot with
      | none => pure Binary64.zero
      | some v =>
        match (Binary64.read? (← v.asString)).filter (·.isFinite) with
        | some x => pure x
        | none => .error .notFloat
    let x := current + delta
    if x.isFinite then .ok (x, some ⟨.string x.text, slot.bind (·.expiresAt)⟩)
    else .error .notFinite

/-- Draws keys and drops those whose deadline has passed; answers how many did. -/
def expireSample (now : Nat) : Nat → Db → Draws → Nat × Db × Draws
  | 0, db, g => (0, db, g)
  | samples + 1, db, g =>
    match db.entries.randomKey g with
    | (none, g) => (0, db, g)
    | (some key, g) =>
      let (old, entries) := db.entries.removeIf key (·.isExpired now)
      let (n, db, g) := expireSample now samples ⟨entries⟩ g
      ((if old.isSome then 1 else 0) + n, db, g)

end Db

end RespStore
