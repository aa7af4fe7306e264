import RespStore.Command.List.Basic
import RespStore.Command.Outcome
import RespStore.Collection.IndexRange

/-!
# Running commands on lists
-/

namespace RespStore

namespace ListEnd

def push (place : ListEnd) (l : LinkedList) (value : Bytes) : LinkedList :=
  match place with
  | left => (l.pushFront value).2
  | right => (l.pushBack value).2

def pop (place : ListEnd) (l : LinkedList) : Option Bytes × LinkedList :=
  match place with
  | left => l.popFront
  | right => l.popBack

/-- Pops until the list is empty, at most `count` times. -/
def popMany (place : ListEnd) : Nat → LinkedList → List Bytes × LinkedList
  | 0, l => ([], l)
  | count + 1, l =>
    match place.pop l with
    | (none, l) => ([], l)
    | (some value, l) =>
      let (values, l) := popMany place count l
      (value :: values, l)

end ListEnd

namespace ListCommand

variable [Digest String]

def runPush (now : Nat) (db : Db) (place : ListEnd) (key : String) (values : List Bytes) :
    Frame × Db :=
  db.replying now key fun slot => do
    let l ← slot.elim (pure .empty) Value.asList
    let l := values.foldl place.push l
    return (.count l.size, Value.store slot (.list l))

def runPop (now : Nat) (db : Db) (place : ListEnd) (key : String) (count : Option Nat) :
    Frame × Db :=
  db.replying now key fun slot =>
    match slot with
    | none => return (.null, none)
    | some v => do
      let l ← v.asList
      let (reply, l) := match count with
        | none =>
          let (value, l) := place.pop l
          (Frame.ofOption .bulk value, l)
        | some count =>
          let (values, l) := place.popMany count l
          (Frame.ofList .bulk values, l)
      return (reply, Value.storeUnless l.isEmpty slot (.list l))

def runSet (now : Nat) (db : Db) (key : String) (i : Int) (value : Bytes) : Frame × Db :=
  db.replying now key fun slot =>
    match slot with
    | none => throw .noSuchKey
    | some v => do
      let l ← v.asList
      match l.index? i with
      | none => throw .indexOutOfRange
      | some id => return (.ok, Value.store slot (.list (l.set id value).2))

/-- Zero stands for a key that is absent and -1 for a pivot that is. -/
def runInsert (now : Nat) (db : Db) (side : Side) (key : String) (pivot value : Bytes) :
    Frame × Db :=
  db.replying now key fun slot =>
    match slot with
    | none => return (.integer 0, none)
    | some v => do
      let l ← v.asList
      let inserted := (l.find? pivot).bind fun id =>
        match side with
        | .before => l.insertBefore? id value
        | .after => l.insertAfter? id value
      match inserted with
      | none => return (.integer (-1), slot)
      | some (_, l) => return (.count l.size, Value.store slot (.list l))

def runRemove (now : Nat) (db : Db) (key : String) (count : Int) (value : Bytes) : Frame × Db :=
  db.replying now key fun slot =>
    match slot with
    | none => return (.count 0, none)
    | some v => do
      let (n, l) := (← v.asList).removeValues value count
      return (.count n, Value.storeUnless l.isEmpty slot (.list l))

/-- Moves the last element of a list to its front. -/
def runRotate (now : Nat) (db : Db) (key : String) : Frame × Db :=
  db.replying now key fun slot =>
    match slot with
    | none => return (.null, none)
    | some v => do
      let l := (← v.asList).rotate
      return (.ofOption .bulk (l.head.bind l.get?), Value.store slot (.list l))

/-- What moving an element does to the values of the source and the destination. -/
def moveTail (source destination : Option Value) :
    Except StoreError (Frame × Option Value × Option Value) :=
  match source with
  | none => return (.null, source, destination)
  | some v => do
    let src ← v.asList
    let dst ← destination.elim (pure .empty) Value.asList
    let (value, src) := src.popBack
    let source := Value.storeUnless src.isEmpty source (.list src)
    match value with
    | none => return (.null, source, destination)
    | some value =>
      return (.bulk value, source, Value.store destination (.list (dst.pushFront value).2))

def runMove (now : Nat) (db : Db) (source destination : String) : Frame × Db :=
  let (r, db) := db.computePair now source destination fun x y =>
    match moveTail x y with
    | .ok (reply, x, y) => (.ok reply, x, y)
    | .error e => (.error e, x, y)
  (.ofExcept r, db)

def run (now : Nat) (db : Db) (g : Draws) (c : ListCommand) : Outcome :=
  let (reply, db) := match c with
    | push place key values => runPush now db place key values
    | pop place key count => runPop now db place key count
    | length key => db.reading now key (.count 0) fun v => v.asList.map fun l => .count l.size
    | range key start stop => db.reading now key (.array []) fun v =>
      v.asList.map fun l => .ofList .bulk (sliceRange start.toInt stop.toInt l.toList)
    | index key i => db.reading now key .null fun v =>
      v.asList.map fun l => .ofOption .bulk ((l.index? i.toInt).bind l.get?)
    | set key i value => runSet now db key i.toInt value
    | insert side key pivot value => runInsert now db side key pivot value
    | remove key count value => runRemove now db key count.toInt value
    | popPush source destination =>
      if source = destination then runRotate now db source
      else runMove now db source destination
  ⟨reply, db, g⟩

end ListCommand

end RespStore
