import RespStore.Command.Arguments

/-!
# Commands on lists
-/

namespace RespStore

inductive ListEnd where
  | left
  | right
  deriving DecidableEq, Repr

/-- On which side of a pivot an element is inserted. -/
inductive Side where
  | before
  | after
  deriving DecidableEq, Repr

inductive ListCommand where
  | push (place : ListEnd) (key : String) (values : List Bytes)
  | pop (place : ListEnd) (key : String) (count : Option Nat)
  | length (key : String)
  | range (key : String) (start stop : Int64)
  | index (key : String) (i : Int64)
  | set (key : String) (i : Int64) (value : Bytes)
  | insert (side : Side) (key : String) (pivot value : Bytes)
  | remove (key : String) (count : Int64) (value : Bytes)
  | popPush (source destination : String)

namespace ListCommand

open ArgReader

def readPush (place : ListEnd) : ArgReader ListCommand := do
  let key ← text
  return push place key (← times bytes (← remaining))

def readPop (place : ListEnd) : ArgReader ListCommand := do
  let key ← text
  return pop place key (← optional natural)

def readLength : ArgReader ListCommand := return length (← text)

def readRange : ArgReader ListCommand := return range (← text) (← integer) (← integer)

def readIndex : ArgReader ListCommand := return index (← text) (← integer)

def readSet : ArgReader ListCommand := return set (← text) (← integer) (← bytes)

def side? (s : String) : Option Side :=
  if sameLetters s "before" then some .before
  else if sameLetters s "after" then some .after
  else none

def readInsert : ArgReader ListCommand := do
  let key ← text
  match side? (← text) with
  | some side => return insert side key (← bytes) (← bytes)
  | none => fail .badOptions

def readRemove : ArgReader ListCommand := return remove (← text) (← integer) (← bytes)

def readPopPush : ArgReader ListCommand := return popPush (← text) (← text)

end ListCommand

end RespStore
