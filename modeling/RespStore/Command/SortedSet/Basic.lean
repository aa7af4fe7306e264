import RespStore.Command.Arguments

/-!
# Commands on sorted sets
-/

namespace RespStore

/-- Which members an insertion may touch, and whether it counts moved ones. -/
structure InsertOptions where
  onlyNew : Bool
  onlyExisting : Bool
  changed : Bool
  deriving DecidableEq, Repr

inductive SortedSetCommand where
  | add (key : String) (options : InsertOptions) (members : List (Binary64 × String))
  | incrBy (key : String) (delta : Binary64) (member : String)
  | score (key member : String)
  | remove (key : String) (members : List String)
  | size (key : String)
  | rank (reverse : Bool) (key member : String)
  | range (reverse : Bool) (key : String) (start stop : Int64) (withScores : Bool)
  | rangeByScore (key : String) (range : ScoreRange) (withScores : Bool)
      (limit : Option (Int64 × Int64))
  | count (key : String) (range : ScoreRange)
  | removeByScore (key : String) (range : ScoreRange)
  | removeByRank (key : String) (start stop : Int64)

namespace SortedSetCommand

open ArgReader

/-- Takes the options off the front of an insertion's arguments. -/
def takeOptions (o : InsertOptions) : List String → InsertOptions × List String
  | [] => (o, [])
  | s :: rest =>
    if sameLetters s "nx" then takeOptions { o with onlyNew := true } rest
    else if sameLetters s "xx" then takeOptions { o with onlyExisting := true } rest
    else if sameLetters s "ch" then takeOptions { o with changed := true } rest
    else (o, s :: rest)

def scoredMembers : List String → ArgReader (List (Binary64 × String))
  | number :: member :: rest => do
    match Binary64.readNumber? (Utf8.encode number) with
    | some x => return (x, member) :: (← scoredMembers rest)
    | none => fail .notFloat
  | _ => return []

def readAdd : ArgReader SortedSetCommand := do
  let key ← text
  let (options, rest) := takeOptions ⟨false, false, false⟩ (← texts)
  if options.onlyNew && options.onlyExisting then
    fail (.incompatibleOptions "XX and NX options at the same time are not compatible")
  else if rest.isEmpty || rest.length % 2 = 1 then fail .badOptions
  else return add key options (← scoredMembers rest)

def readIncrBy : ArgReader SortedSetCommand := return incrBy (← text) (← float) (← text)

def readScore : ArgReader SortedSetCommand := return score (← text) (← text)

def readRemove : ArgReader SortedSetCommand := return remove (← text) (← texts)

def readSize : ArgReader SortedSetCommand := return size (← text)

def readRank (reverse : Bool) : ArgReader SortedSetCommand :=
  return rank reverse (← text) (← text)

def readRange (reverse : Bool) : ArgReader SortedSetCommand := do
  let key ← text
  let start ← integer
  let stop ← integer
  let withScores ← hasNext
  if withScores then
    if (← keyword) ≠ "withscores" then fail .badOptions
  finish
  return range reverse key start stop withScores

/-- Reads options in any order and number. An option takes up an argument or more, so that `fuel`
arguments hold no more than `fuel` options. -/
def readRangeOptions : Nat → Bool → Option (Int64 × Int64) →
    ArgReader (Bool × Option (Int64 × Int64))
  | 0, withScores, limit => return (withScores, limit)
  | fuel + 1, withScores, limit => do
    if ← hasNext then
      let option ← keyword
      if option = "withscores" then readRangeOptions fuel true limit
      else if option = "limit" ∧ 2 ≤ (← remaining) then
        readRangeOptions fuel withScores (some (← integer, ← integer))
      else fail .badOptions
    else return (withScores, limit)

def readRangeByScore : ArgReader SortedSetCommand := do
  let key ← text
  let range ← scoreRange
  let (withScores, limit) ← readRangeOptions (← remaining) false none
  return rangeByScore key range withScores limit

def readCount : ArgReader SortedSetCommand := return count (← text) (← scoreRange)

def readRemoveByScore : ArgReader SortedSetCommand := return removeByScore (← text) (← scoreRange)

def readRemoveByRank : ArgReader SortedSetCommand :=
  return removeByRank (← text) (← integer) (← integer)

end SortedSetCommand

end RespStore
