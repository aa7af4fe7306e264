import RespStore.Collection.LinkedList
import RespStore.Collection.SortedSet
import RespStore.Keyspace.Error

/-!
# Values

What a key holds: data of one of five kinds and perhaps a deadline, in milliseconds since the
epoch. Deadline zero is not told apart from the next one.
-/

namespace RespStore

inductive Data where
  | string (bytes : Bytes)
  | list (items : LinkedList)
  | hash (fields : Dict String Bytes)
  | set (members : Dict String Unit)
  | sortedSet (members : SortedSet)

structure Value where
  data : Data
  expiresAt : Option Nat

namespace Value

def withExpiry (data : Data) (at? : Option Nat) : Value := ⟨data, at?.map (max 1)⟩

def string (bytes : Bytes) : Value := ⟨.string bytes, none⟩

def setExpiresAt (v : Value) (at? : Option Nat) : Value := withExpiry v.data at?

def isExpired (v : Value) (now : Nat) : Bool := v.expiresAt.any fun t => t ≤ now

def isLive (v : Value) (now : Nat) : Bool := !v.isExpired now

def typeName (v : Value) : String :=
  match v.data with
  | .string _ => "string"
  | .list _ => "list"
  | .hash _ => "hash"
  | .set _ => "set"
  | .sortedSet _ => "zset"

/-- Strings up to this length count as embedded. -/
def embeddedLimit : Nat := 44

/-- The name of the representation. -/
def encoding (v : Value) : String :=
  match v.data with
  | .string bytes =>
    if (readInt64? bytes).isSome then "int"
    else if bytes.length ≤ embeddedLimit then "embstr"
    else "raw"
  | .list _ => "linkedlist"
  | .hash _ => "hashtable"
  | .set _ => "hashtable"
  | .sortedSet _ => "skiplist"

def asString (v : Value) : Except StoreError Bytes :=
  match v.data with
  | .string bytes => .ok bytes
  | _ => .error .wrongType

def asList (v : Value) : Except StoreError LinkedList :=
  match v.data with
  | .list items => .ok items
  | _ => .error .wrongType

def asHash (v : Value) : Except StoreError (Dict String Bytes) :=
  match v.data with
  | .hash fields => .ok fields
  | _ => .error .wrongType

def asSet (v : Value) : Except StoreError (Dict String Unit) :=
  match v.data with
  | .set members => .ok members
  | _ => .error .wrongType

def asSortedSet (v : Value) : Except StoreError SortedSet :=
  match v.data with
  | .sortedSet members => .ok members
  | _ => .error .wrongType

end Value

end RespStore
