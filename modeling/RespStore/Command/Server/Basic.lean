import RespStore.Command.Arguments

/-!
# Commands on the connection and the server
-/

namespace RespStore

inductive ServerCommand where
  | ping (payload : Option Bytes)
  | echo (payload : Bytes)
  | select (index : Nat)
  | quit
  | dbSize
  | flushDb
  | flushAll
  | commandList
  | commandCount
  | commandInfo (names : List String)
  | commandDocs
  | objectEncoding (key : String)

namespace ServerCommand

open ArgReader

def readPing : ArgReader ServerCommand := do
  if 1 < (← remaining) then fail (.wrongArity "ping")
  else if ← hasNext then return ping (some (← bytes))
  else return ping none

def readEcho : ArgReader ServerCommand := return echo (← bytes)

def readSelect : ArgReader ServerCommand := do
  let n ← integer
  if 0 ≤ n then return select n.toInt.toNat else fail .notInteger

/-- A mode that may be named makes no difference. -/
def readMode : ArgReader Unit := do
  if ← hasNext then
    let mode ← keyword
    if mode ≠ "async" ∧ mode ≠ "sync" then fail .badOptions
  finish

def readFlushDb : ArgReader ServerCommand := do
  readMode
  return flushDb

def readFlushAll : ArgReader ServerCommand := do
  readMode
  return flushAll

def readCommand : ArgReader ServerCommand := do
  if ← hasNext then
    let sub ← keyword
    if sub = "count" then
      finish
      return commandCount
    else if sub = "docs" then
      let _ ← texts
      return commandDocs
    else if sub = "info" then return commandInfo (← texts)
    else fail (.unknownSubcommand "COMMAND" sub)
  else return commandList

def readObject : ArgReader ServerCommand := do
  let sub ← keyword
  if sub = "encoding" then
    let key ← text
    finish
    return objectEncoding key
  else fail (.unknownSubcommand "OBJECT" sub)

end ServerCommand

end RespStore
