import RespStore.Command.Run
import RespStore.Proofs.Command.Hash
import RespStore.Proofs.Command.Key
import RespStore.Proofs.Command.List
import RespStore.Proofs.Command.Set
import RespStore.Proofs.Command.SortedSet
import RespStore.Proofs.Command.String

/-!
# Writes of commands

What a command writes to the database that its session has selected. Clearing every database is the
only command that reaches further.
-/

namespace RespStore

/-- How a command is put down in a log: as it came, or in words of its own. -/
inductive Rewriting where
  | none
  | deadline
  | store
  | removal
  deriving DecidableEq

/-- How the log treats a command name. -/
def Rewriting.ofName (name : String) : Rewriting :=
  if name = "expire" ∨ name = "pexpire" ∨ name = "expireat" ∨ name = "pexpireat" then .deadline
  else if name = "set" then .store
  else if name = "spop" then .removal
  else .none

namespace Command

/-- What a command writes, where `popped` are the members that a random removal took. -/
def write (now : Nat) (popped : List String) : Command → Write
  | server .flushDb => .clear
  | server _ => .nothing
  | key c => c.write now
  | string c => c.write now
  | list c => c.write
  | hash c => c.write
  | set c => c.write popped
  | sortedSet c => c.write

/-- The greatest signed 64-bit integer. -/
def maxInteger : Nat := 9223372036854775807

/-- What the arguments of a command keep to. -/
def Proper : Command → Prop
  | server (.select i) => i ≤ maxInteger
  | list c => c.Proper
  | hash c => c.Proper
  | set c => c.Proper
  | sortedSet c => c.Proper
  | _ => True

/-- Which commands a log puts in words of its own. -/
def rewriting : Command → Rewriting
  | key (.expire _ _ _) => .deadline
  | string (.set _ _ _ _) => .store
  | set (.pop _ _) => .removal
  | _ => .none

def isSelect : Command → Bool
  | server (.select _) => true
  | _ => false

/-- Whether a command clears every database. -/
def isFlushAll : Command → Bool
  | server .flushAll => true
  | _ => false

/-- A command that leaves every database as it is. -/
structure ReadsOnly (c : Command) : Prop where
  keeps : c.isFlushAll = false
  nothing : ∀ now popped, c.write now popped = .nothing

end Command

/-- What a command has in common with the entry of the table under which it was read. -/
structure CommandSpec.Fits (spec : CommandSpec) (c : Command) : Prop where
  proper : c.Proper
  readsOnly : spec.write = false → c.ReadsOnly
  stays : spec.write = true → c.isSelect = false
  rewriting : c.rewriting = Rewriting.ofName spec.name

end RespStore
