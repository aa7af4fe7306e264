import RespStore.Command.Arguments

/-!
# Commands on sets
-/

namespace RespStore

inductive SetCommand where
  | add (key : String) (members : List String)
  | remove (key : String) (members : List String)
  | contains (key member : String)
  | size (key : String)
  | listing (key : String)
  | pop (key : String) (count : Option Nat)
  | random (key : String) (count : Option Int64)

namespace SetCommand

open ArgReader

def readAdd : ArgReader SetCommand := return add (← text) (← texts)

def readRemove : ArgReader SetCommand := return remove (← text) (← texts)

def readContains : ArgReader SetCommand := return contains (← text) (← text)

def readSize : ArgReader SetCommand := return size (← text)

def readListing : ArgReader SetCommand := return listing (← text)

def readPop : ArgReader SetCommand := return pop (← text) (← optional natural)

def readRandom : ArgReader SetCommand := return random (← text) (← optional integer)

end SetCommand

end RespStore
