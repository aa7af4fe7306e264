import RespStore.Command.SortedSet.Basic
import RespStore.Command.Outcome
import RespStore.Collection.IndexRange

/-!
# Running commands on sorted sets
-/

namespace RespStore.SortedSetCommand

variable [Digest String]

/-- A sorted set in the middle of an insertion, with the members added and moved so far. -/
structure Insertion where
  members : SortedSet
  added : Nat
  moved : Nat
  draws : Draws

def Insertion.step (options : InsertOptions) (i : Insertion) (entry : Binary64 × String) :
    Insertion :=
  let (x, member) := entry
  match i.members.score? member with
  | some current =>
    if options.onlyNew || current.equal x then i
    else
      let (height, g) := i.draws.height
      ⟨(i.members.insert member x height).2, i.added, i.moved + 1, g⟩
  | none =>
    if options.onlyExisting then i
    else
      let (height, g) := i.draws.height
      ⟨(i.members.insert member x height).2, i.added + 1, i.moved, g⟩

/-- The sorted set in a slot, a new one where there is none. -/
def members (slot : Option Value) : Except StoreError SortedSet :=
  slot.elim (pure .empty) Value.asSortedSet

def runAdd (now : Nat) (db : Db) (g : Draws) (key : String) (options : InsertOptions)
    (entries : List (Binary64 × String)) : Outcome :=
  let (r, db) := db.edit now key fun slot => do
    if slot.isNone && options.onlyExisting then return ((0, g), none)
    else
      let i := entries.foldl (Insertion.step options) ⟨← members slot, 0, 0, g⟩
      let n := if options.changed then i.added + i.moved else i.added
      return ((n, i.draws), Value.storeUnless i.members.isEmpty slot (.sortedSet i.members))
  match r with
  | .ok (n, g) => ⟨.count n, db, g⟩
  | .error e => ⟨.error e.message, db, g⟩

def runIncrBy (now : Nat) (db : Db) (g : Draws) (key : String) (delta : Binary64)
    (member : String) : Outcome :=
  let (height, g) := g.height
  let (reply, db) := db.replying now key fun slot => do
    match (← members slot).incr member delta height with
    | (none, _) => throw .scoreNaN
    | (some x, s) => return (.number x, Value.store slot (.sortedSet s))
  ⟨reply, db, g⟩

/-- Removes members one after the other and counts those that were there. -/
def removeAll : List String → SortedSet → Nat × SortedSet
  | [], s => (0, s)
  | member :: rest, s =>
    let (found, s) := s.remove member
    let (n, s) := removeAll rest s
    ((if found then 1 else 0) + n, s)

/-- Removes with `f`, which counts, and deletes the key when nothing is left. -/
def removing (now : Nat) (db : Db) (key : String) (f : SortedSet → Nat × SortedSet) :
    Frame × Db :=
  db.replying now key fun slot =>
    match slot with
    | none => return (.count 0, none)
    | some v => do
      let (n, s) := f (← v.asSortedSet)
      return (.count n, Value.storeUnless s.isEmpty slot (.sortedSet s))

def removeByRankFrom (start stop : Int) (s : SortedSet) : Nat × SortedSet :=
  match resolveRange? start stop s.size with
  | some (first, last) => s.removeRangeByRank first last
  | none => (0, s)

def elementsReply (withScores : Bool) (elements : List (String × Binary64)) : Frame :=
  if withScores then .ofPairs .text .number elements else .ofList (fun e => .text e.1) elements

def rangeElements (s : SortedSet) (reverse : Bool) (start stop : Int) :
    List (String × Binary64) :=
  match resolveRange? start stop s.size with
  | some (first, last) => s.rangeByRank first last reverse
  | none => []

/-- Skips and takes elements; a negative offset skips all and a negative count takes all. -/
def limited {α : Type} (limit : Option (Int64 × Int64)) (xs : List α) : List α :=
  match limit with
  | none => xs
  | some (offset, most) =>
    let rest := if offset < 0 then [] else xs.drop offset.toInt.toNat
    if most < 0 then rest else rest.take most.toInt.toNat

def run (now : Nat) (db : Db) (g : Draws) : SortedSetCommand → Outcome
  | add key options entries => runAdd now db g key options entries
  | incrBy key delta member => runIncrBy now db g key delta member
  | score key member =>
    let (reply, db) := db.reading now key .null fun v =>
      v.asSortedSet.map fun s => .ofOption .number (s.score? member)
    ⟨reply, db, g⟩
  | remove key names =>
    let (reply, db) := removing now db key (removeAll names)
    ⟨reply, db, g⟩
  | size key =>
    let (reply, db) := db.reading now key (.count 0) fun v =>
      v.asSortedSet.map fun s => .count s.size
    ⟨reply, db, g⟩
  | rank reverse key member =>
    let (reply, db) := db.reading now key .null fun v =>
      v.asSortedSet.map fun s => .ofOption .count (s.rank? member reverse)
    ⟨reply, db, g⟩
  | range reverse key start stop withScores =>
    let (reply, db) := db.reading now key (.array []) fun v =>
      v.asSortedSet.map fun s =>
        elementsReply withScores (rangeElements s reverse start.toInt stop.toInt)
    ⟨reply, db, g⟩
  | rangeByScore key r withScores limit =>
    let (reply, db) := db.reading now key (.array []) fun v =>
      v.asSortedSet.map fun s => elementsReply withScores (limited limit (s.rangeByScore r))
    ⟨reply, db, g⟩
  | count key r =>
    let (reply, db) := db.reading now key (.count 0) fun v =>
      v.asSortedSet.map fun s => .count (s.count r)
    ⟨reply, db, g⟩
  | removeByScore key r =>
    let (reply, db) := removing now db key (·.removeRangeByScore r)
    ⟨reply, db, g⟩
  | removeByRank key start stop =>
    let (reply, db) := removing now db key (removeByRankFrom start.toInt stop.toInt)
    ⟨reply, db, g⟩

end RespStore.SortedSetCommand
