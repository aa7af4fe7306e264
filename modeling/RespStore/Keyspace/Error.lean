import RespStore.Frame.Basic

/-!
# Errors of the keyspace

What can go wrong while a command works on the keyspace. Each is one error reply.
-/

namespace RespStore

inductive StoreError where
  | wrongType
  | notInteger
  | notFloat
  | hashNotInteger
  | overflow
  | notFinite
  | scoreNaN
  | indexOutOfRange
  | noSuchKey
  | dbIndexOutOfRange
  deriving DecidableEq, Repr

def StoreError.message : StoreError → String
  | wrongType => "WRONGTYPE Operation against a key holding the wrong kind of value"
  | notInteger => "ERR value is not an integer or out of range"
  | notFloat => "ERR value is not a valid float"
  | hashNotInteger => "ERR hash value is not an integer"
  | overflow => "ERR increment or decrement would overflow"
  | notFinite => "ERR increment would produce NaN or Infinity"
  | scoreNaN => "ERR resulting score is not a number (NaN)"
  | indexOutOfRange => "ERR index out of range"
  | noSuchKey => "ERR no such key"
  | dbIndexOutOfRange => "ERR DB index is out of range"

/-- A result as a reply: an error becomes an error frame. -/
def Frame.ofExcept (r : Except StoreError Frame) : Frame :=
  match r with
  | .ok f => f
  | .error e => .error e.message

end RespStore
