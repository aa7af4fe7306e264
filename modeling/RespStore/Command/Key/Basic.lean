import RespStore.Command.Arguments
import RespStore.Command.Deadline

/-!
# Commands on keys
-/

namespace RespStore

inductive KeyCommand where
  | del (keys : List String)
  | exists (keys : List String)
  | type (key : String)
  | matching (pattern : String)
  | randomKey
  | expire (unit : TimeUnit) (key : String) (amount : Int64)
  | ttl (key : String)
  | pttl (key : String)
  | persist (key : String)

namespace KeyCommand

open ArgReader

def readDel : ArgReader KeyCommand := return del (← texts)

def readExists : ArgReader KeyCommand := return .exists (← texts)

def readType : ArgReader KeyCommand := return type (← text)

def readMatching : ArgReader KeyCommand := return matching (← text)

def readExpire (unit : TimeUnit) : ArgReader KeyCommand := do
  let key ← text
  return expire unit key (← integer)

def readTtl : ArgReader KeyCommand := return ttl (← text)

def readPttl : ArgReader KeyCommand := return pttl (← text)

def readPersist : ArgReader KeyCommand := return persist (← text)

end KeyCommand

end RespStore
