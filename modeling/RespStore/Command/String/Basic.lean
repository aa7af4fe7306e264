import RespStore.Command.Arguments
import RespStore.Command.Deadline

/-!
# Commands on strings
-/

namespace RespStore

/-- When a string is stored. -/
inductive SetCondition where
  | always
  | ifAbsent
  | ifPresent
  deriving DecidableEq, Repr

structure Expiry where
  unit : TimeUnit
  amount : Nat
  deriving DecidableEq, Repr

inductive StringCommand where
  | get (key : String)
  | set (key : String) (value : Bytes) (condition : SetCondition) (expiry : Option Expiry)
  | setnx (key : String) (value : Bytes)
  | getdel (key : String)
  | mget (keys : List String)
  | mset (pairs : List (String × Bytes))
  | incr (key : String)
  | decr (key : String)
  | incrBy (key : String) (delta : Int64)
  | decrBy (key : String) (delta : Int64)
  | incrByFloat (key : String) (delta : Binary64)
  | append (key : String) (value : Bytes)
  | strlen (key : String)

namespace StringCommand

open ArgReader

inductive SetOption where
  | condition (c : SetCondition)
  | expiry (unit : TimeUnit)
  deriving DecidableEq, Repr

def setOption? (s : String) : Option SetOption :=
  if sameLetters s "ex" then some (.expiry .seconds)
  else if sameLetters s "px" then some (.expiry .milliseconds)
  else if sameLetters s "exat" then some (.expiry .unixSeconds)
  else if sameLetters s "pxat" then some (.expiry .unixMilliseconds)
  else if sameLetters s "nx" then some (.condition .ifAbsent)
  else if sameLetters s "xx" then some (.condition .ifPresent)
  else none

/-- The amount of an expiry, which is positive. -/
def readAmount : ArgReader Nat := do
  let n ← integer
  if 0 < n then return n.toInt.toNat else fail (.badExpireTime "set")

/-- Reads options, at most one condition and one expiry. An option takes up an argument or more,
so that `fuel` arguments hold no more than `fuel` options. -/
def readSetOptions : Nat → SetCondition → Option Expiry →
    ArgReader (SetCondition × Option Expiry)
  | 0, condition, expiry => return (condition, expiry)
  | fuel + 1, condition, expiry => do
    if ← hasNext then
      match setOption? (← text) with
      | none => fail .badOptions
      | some (.condition c) =>
        if condition ≠ .always then fail .badOptions else readSetOptions fuel c expiry
      | some (.expiry unit) =>
        if expiry.isSome || !(← hasNext) then fail .badOptions
        else readSetOptions fuel condition (some ⟨unit, ← readAmount⟩)
    else return (condition, expiry)

def readSet : ArgReader StringCommand := do
  let key ← text
  let value ← bytes
  let (condition, expiry) ← readSetOptions (← remaining) .always none
  return set key value condition expiry

def readGet : ArgReader StringCommand := return get (← text)

def readSetnx : ArgReader StringCommand := return setnx (← text) (← bytes)

def readGetdel : ArgReader StringCommand := return getdel (← text)

def readMget : ArgReader StringCommand := return mget (← texts)

/-- The keys are looked at once all arguments are read. -/
def textKeys : List (Bytes × Bytes) → ArgReader (List (String × Bytes))
  | [] => return []
  | (key, value) :: rest => do
    match Utf8.decode? key with
    | some key => return (key, value) :: (← textKeys rest)
    | none => fail .invalidUtf8

def readMset : ArgReader StringCommand := do
  let pairs ← pairs "mset" bytes bytes
  return mset (← textKeys pairs)

def readIncr : ArgReader StringCommand := return incr (← text)

def readDecr : ArgReader StringCommand := return decr (← text)

def readIncrBy : ArgReader StringCommand := return incrBy (← text) (← integer)

def readDecrBy : ArgReader StringCommand := return decrBy (← text) (← integer)

def readIncrByFloat : ArgReader StringCommand := return incrByFloat (← text) (← float)

def readAppend : ArgReader StringCommand := return append (← text) (← bytes)

def readStrlen : ArgReader StringCommand := return strlen (← text)

end StringCommand

end RespStore
