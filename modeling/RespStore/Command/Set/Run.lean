import RespStore.Command.Set.Basic
import RespStore.Command.Outcome

/-!
# Running commands on sets
-/

namespace RespStore.SetCommand

variable [Digest String]

/-- Takes random members out until the set is empty, at most `count` of them. -/
def popMany : Nat → Dict String Unit → Draws → List String × Dict String Unit × Draws
  | 0, s, g => ([], s, g)
  | count + 1, s, g =>
    match s.randomKey g with
    | (none, g) => ([], s, g)
    | (some member, g) =>
      let (old, s) := s.remove member
      let (popped, s, g) := popMany count s g
      (if old.isSome then (member :: popped, s, g) else (popped, s, g))

/-- Random members without repetition, at most `count` of them. It stands for every way to choose them:
what is meant is that the outcome is any of these choices, not how a generator comes to it. -/
def sample {α : Type} : Nat → List α → Draws → List α × Draws
  | 0, _, g => ([], g)
  | count + 1, xs, g =>
    if xs.isEmpty then ([], g)
    else
      let (i, g) := g.below xs.length
      let (chosen, g) := sample count (xs.eraseIdx i) g
      ((xs[i]?).toList ++ chosen, g)

/-- `count` random members, any of them more than once. -/
def choices {α : Type} (xs : List α) : Nat → Draws → List α × Draws
  | 0, g => ([], g)
  | count + 1, g =>
    if xs.isEmpty then ([], g)
    else
      let (i, g) := g.below xs.length
      let (chosen, g) := choices xs count g
      ((xs[i]?).toList ++ chosen, g)

def runAdd (now : Nat) (db : Db) (key : String) (members : List String) : Frame × Db :=
  db.replying now key fun slot => do
    let (n, s) := (← slot.elim (pure .empty) Value.asSet).addAll (members.map (·, ()))
    return (.count n, Value.store slot (.set s))

def runRemove (now : Nat) (db : Db) (key : String) (members : List String) : Frame × Db :=
  db.replying now key fun slot =>
    match slot with
    | none => return (.count 0, none)
    | some v => do
      let (n, s) := (← v.asSet).removeAll members
      return (.count n, Value.storeUnless s.isEmpty slot (.set s))

/-- With a count the reply is an array, without one it is a member or null. -/
def popReply (count : Option Nat) (popped : List String) : Frame :=
  match count with
  | some _ => .ofList .text popped
  | none => .ofOption .text popped.head?

def runPop (now : Nat) (db : Db) (g : Draws) (key : String) (count : Option Nat) : Outcome :=
  let (r, db) := db.edit now key fun slot =>
    match slot with
    | none => return (([], g), none)
    | some v => do
      let (popped, s, g) := popMany (count.getD 1) (← v.asSet) g
      return ((popped, g), Value.storeUnless s.isEmpty slot (.set s))
  match r with
  | .ok (popped, g) => ⟨popReply count popped, db, g⟩
  | .error e => ⟨.error e.message, db, g⟩

/-- A positive count asks for that many distinct members, a negative one for as many members with
repetition. -/
def chosen (s : Dict String Unit) (count : Option Int64) (g : Draws) : Frame × Draws :=
  match count with
  | none =>
    let (member, g) := s.randomKey g
    (.ofOption .text member, g)
  | some n =>
    let (members, g) :=
      if 0 ≤ n then sample n.toInt.toNat s.keys g else choices s.keys n.toInt.natAbs g
    (.ofList .text members, g)

def runRandom (now : Nat) (db : Db) (g : Draws) (key : String) (count : Option Int64) : Outcome :=
  match db.get now key with
  | (none, db) => ⟨if count.isSome then .array [] else .null, db, g⟩
  | (some v, db) =>
    match v.asSet with
    | .error e => ⟨.error e.message, db, g⟩
    | .ok s =>
      let (reply, g) := chosen s count g
      ⟨reply, db, g⟩

def run (now : Nat) (db : Db) (g : Draws) : SetCommand → Outcome
  | add key members =>
    let (reply, db) := runAdd now db key members
    ⟨reply, db, g⟩
  | remove key members =>
    let (reply, db) := runRemove now db key members
    ⟨reply, db, g⟩
  | contains key member =>
    let (reply, db) := db.reading now key (.count 0) fun v =>
      v.asSet.map fun s => .ofBool (s.contains member)
    ⟨reply, db, g⟩
  | size key =>
    let (reply, db) := db.reading now key (.count 0) fun v =>
      v.asSet.map fun s => .count s.size
    ⟨reply, db, g⟩
  | listing key =>
    let (reply, db) := db.reading now key (.array []) fun v =>
      v.asSet.map fun s => .ofList .text s.keys
    ⟨reply, db, g⟩
  | pop key count => runPop now db g key count
  | random key count => runRandom now db g key count

end RespStore.SetCommand
