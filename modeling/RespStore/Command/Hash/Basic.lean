import RespStore.Command.Arguments

/-!
# Commands on hashes
-/

namespace RespStore

/-- What a listing of a hash shows. -/
inductive HashPart where
  | both
  | fields
  | values
  deriving DecidableEq, Repr

inductive HashCommand where
  | set (key : String) (pairs : List (String × Bytes))
  | get (key field : String)
  | del (key : String) (fields : List String)
  | exists (key field : String)
  | length (key : String)
  | listing (part : HashPart) (key : String)
  | incrBy (key field : String) (delta : Int64)

namespace HashCommand

open ArgReader

def readSet : ArgReader HashCommand := return set (← text) (← pairs "hset" text bytes)

def readGet : ArgReader HashCommand := return get (← text) (← text)

def readDel : ArgReader HashCommand := return del (← text) (← texts)

def readExists : ArgReader HashCommand := return .exists (← text) (← text)

def readLength : ArgReader HashCommand := return length (← text)

def readListing (part : HashPart) : ArgReader HashCommand := return listing part (← text)

def readIncrBy : ArgReader HashCommand := return incrBy (← text) (← text) (← integer)

end HashCommand

end RespStore
