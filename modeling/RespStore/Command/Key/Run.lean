import RespStore.Command.Key.Basic
import RespStore.Command.Outcome

/-!
# Running commands on keys
-/

namespace RespStore.KeyCommand

variable [Digest String] [Matcher]

/-- The command that sets a deadline in a unit. -/
def expireName : TimeUnit → String
  | .seconds => "expire"
  | .milliseconds => "pexpire"
  | .unixSeconds => "expireat"
  | .unixMilliseconds => "pexpireat"

/-- Counts the keys that are there, repeated ones as often as they are named. -/
def countPresent (now : Nat) : List String → Db → Nat × Db
  | [], db => (0, db)
  | key :: keys, db =>
    let (v, db) := db.get now key
    let (n, db) := countPresent now keys db
    ((if v.isSome then 1 else 0) + n, db)

/-- The remaining life in milliseconds or what stands for it: -2 without the key and -1 without a
deadline. -/
def lifetimeReply (scale : Nat → Nat) : Lifetime → Int64
  | .missing => -2
  | .persistent => -1
  | .expiresIn ms => Int64.ofNat (scale ms)

/-- Milliseconds in seconds, rounded in unsigned 64 bits, where the sum may wrap around. -/
def roundToSeconds (ms : Nat) : Nat := ((UInt64.ofNat ms + 500) / 1000).toNat

def run (now : Nat) (db : Db) (g : Draws) : KeyCommand → Outcome
  | del keys =>
    let (n, db) := db.delete now keys
    ⟨.count n, db, g⟩
  | .exists keys =>
    let (n, db) := countPresent now keys db
    ⟨.count n, db, g⟩
  | type key =>
    let (v, db) := db.get now key
    ⟨.simple (v.elim "none" Value.typeName), db, g⟩
  | matching pattern => ⟨.ofList .text (db.keys now pattern), db, g⟩
  | randomKey =>
    let (key, db, g) := db.randomKey now g
    ⟨.ofOption .text key, db, g⟩
  | expire unit key amount =>
    match unit.deadline? .int64 amount.toInt now with
    | none => ⟨.error (CommandError.badExpireTime (expireName unit)).message, db, g⟩
    | some t =>
      let (found, db) := db.expireAt now key t.toNat
      ⟨.ofBool found, db, g⟩
  | ttl key =>
    let (life, db) := db.lifetime now key
    ⟨.integer (lifetimeReply roundToSeconds life), db, g⟩
  | pttl key =>
    let (life, db) := db.lifetime now key
    ⟨.integer (lifetimeReply id life), db, g⟩
  | persist key =>
    let (found, db) := db.persist now key
    ⟨.ofBool found, db, g⟩

end RespStore.KeyCommand
