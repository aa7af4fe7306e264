import RespStore.Keyspace.Db

/-!
# The store

Numbered databases, of which there is at least one, and the active expiry that goes over them.
-/

namespace RespStore

structure Store where
  databases : Array Db

namespace Store

variable [Digest String]

def defaultDatabases : Nat := 16

def new (databases : Nat) : Store := ⟨Array.replicate (max databases 1) Db.empty⟩

def db? (s : Store) (i : Nat) : Option Db := s.databases[i]?

/-- A database, or an empty one where there is none. -/
def db (s : Store) (i : Nat) : Db := (s.db? i).getD Db.empty

def setDb (s : Store) (i : Nat) (db : Db) : Store :=
  { s with databases := s.databases.setIfInBounds i db }

def flushAll (s : Store) : Store := { s with databases := s.databases.map Db.flush }

/-- Keys drawn per round of active expiry. -/
def expirySamples : Nat := 20

def expiryRounds : Nat := 16

/-- Samples a database while more than a quarter of a sample has expired, at most `rounds`
times. -/
def expireRounds (now : Nat) : Nat → Db → Draws → Nat × Db × Draws
  | 0, db, g => (0, db, g)
  | rounds + 1, db, g =>
    let (n, db, g) := Db.expireSample now expirySamples db g
    if n * 4 ≤ expirySamples then (n, db, g)
    else
      let (more, db, g) := expireRounds now rounds db g
      (n + more, db, g)

def expireAll (now : Nat) : List Db → Draws → Nat × List Db × Draws
  | [], g => (0, [], g)
  | db :: dbs, g =>
    let (n, db, g) := expireRounds now expiryRounds db g
    let (more, dbs, g) := expireAll now dbs g
    (n + more, db :: dbs, g)

/-- One pass of active expiry over every database; answers how many keys it dropped. -/
def expireCycle (s : Store) (now : Nat) (g : Draws) : Nat × Store × Draws :=
  let (n, dbs, g) := expireAll now s.databases.toList g
  (n, ⟨dbs.toArray⟩, g)

/-- The database that a session may select. -/
def select? (s : Store) (i : Int) : Except StoreError Nat :=
  if 0 ≤ i ∧ i < s.databases.size then .ok i.toNat else .error .dbIndexOutOfRange

end Store

end RespStore
