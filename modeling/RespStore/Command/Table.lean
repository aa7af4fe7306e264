import RespStore.Command.Server.Basic
import RespStore.Command.Key.Basic
import RespStore.Command.String.Basic
import RespStore.Command.List.Basic
import RespStore.Command.Hash.Basic
import RespStore.Command.Set.Basic
import RespStore.Command.SortedSet.Basic

/-!
# The command table

Every command with its name, the number of its arguments, whether it may change a database, and
how its arguments are read.
-/

namespace RespStore

inductive Command where
  | server (c : ServerCommand)
  | key (c : KeyCommand)
  | string (c : StringCommand)
  | list (c : ListCommand)
  | hash (c : HashCommand)
  | set (c : SetCommand)
  | sortedSet (c : SortedSetCommand)

/-- How many arguments a command takes beside its name. -/
inductive Arity where
  | exact (n : Nat)
  | atLeast (n : Nat)
  deriving DecidableEq, Repr

namespace Arity

def accepts (args : Nat) : Arity → Bool
  | exact n => args == n
  | atLeast n => n ≤ args

/-- The name counts as an argument, and a negative number is a lower bound. -/
def signed : Arity → Int
  | exact n => n + 1
  | atLeast n => -(n + 1)

end Arity

structure CommandSpec where
  name : String
  arity : Arity
  /-- May change a database, and goes into the log. -/
  write : Bool
  /-- Names a key as its first argument. -/
  keyed : Bool
  read : ArgReader Command

namespace CommandSpec

private def reads (name : String) (arity : Arity) (read : ArgReader Command) : CommandSpec :=
  ⟨name, arity, false, true, read⟩

private def writes (name : String) (arity : Arity) (read : ArgReader Command) : CommandSpec :=
  ⟨name, arity, true, true, read⟩

private def keyless (spec : CommandSpec) : CommandSpec := { spec with keyed := false }

open Arity

def serverCommands : List CommandSpec := [
  keyless (reads "ping" (atLeast 0) (.server <$> ServerCommand.readPing)),
  keyless (reads "echo" (exact 1) (.server <$> ServerCommand.readEcho)),
  keyless (reads "select" (exact 1) (.server <$> ServerCommand.readSelect)),
  keyless (reads "quit" (atLeast 0) (pure (.server .quit))),
  keyless (reads "dbsize" (exact 0) (pure (.server .dbSize))),
  keyless (writes "flushdb" (atLeast 0) (.server <$> ServerCommand.readFlushDb)),
  keyless (writes "flushall" (atLeast 0) (.server <$> ServerCommand.readFlushAll)),
  keyless (reads "command" (atLeast 0) (.server <$> ServerCommand.readCommand)),
  reads "object" (atLeast 1) (.server <$> ServerCommand.readObject)]

def keyCommands : List CommandSpec := [
  writes "del" (atLeast 1) (.key <$> KeyCommand.readDel),
  reads "exists" (atLeast 1) (.key <$> KeyCommand.readExists),
  reads "type" (exact 1) (.key <$> KeyCommand.readType),
  reads "keys" (exact 1) (.key <$> KeyCommand.readMatching),
  keyless (reads "randomkey" (exact 0) (pure (.key .randomKey))),
  writes "expire" (exact 2) (.key <$> KeyCommand.readExpire .seconds),
  writes "pexpire" (exact 2) (.key <$> KeyCommand.readExpire .milliseconds),
  writes "expireat" (exact 2) (.key <$> KeyCommand.readExpire .unixSeconds),
  writes "pexpireat" (exact 2) (.key <$> KeyCommand.readExpire .unixMilliseconds),
  reads "ttl" (exact 1) (.key <$> KeyCommand.readTtl),
  reads "pttl" (exact 1) (.key <$> KeyCommand.readPttl),
  writes "persist" (exact 1) (.key <$> KeyCommand.readPersist)]

def stringCommands : List CommandSpec := [
  reads "get" (exact 1) (.string <$> StringCommand.readGet),
  writes "set" (atLeast 2) (.string <$> StringCommand.readSet),
  writes "setnx" (exact 2) (.string <$> StringCommand.readSetnx),
  writes "getdel" (exact 1) (.string <$> StringCommand.readGetdel),
  reads "mget" (atLeast 1) (.string <$> StringCommand.readMget),
  writes "mset" (atLeast 2) (.string <$> StringCommand.readMset),
  writes "incr" (exact 1) (.string <$> StringCommand.readIncr),
  writes "decr" (exact 1) (.string <$> StringCommand.readDecr),
  writes "incrby" (exact 2) (.string <$> StringCommand.readIncrBy),
  writes "decrby" (exact 2) (.string <$> StringCommand.readDecrBy),
  writes "incrbyfloat" (exact 2) (.string <$> StringCommand.readIncrByFloat),
  writes "append" (exact 2) (.string <$> StringCommand.readAppend),
  reads "strlen" (exact 1) (.string <$> StringCommand.readStrlen)]

def listCommands : List CommandSpec := [
  writes "lpush" (atLeast 2) (.list <$> ListCommand.readPush .left),
  writes "rpush" (atLeast 2) (.list <$> ListCommand.readPush .right),
  writes "lpop" (atLeast 1) (.list <$> ListCommand.readPop .left),
  writes "rpop" (atLeast 1) (.list <$> ListCommand.readPop .right),
  reads "llen" (exact 1) (.list <$> ListCommand.readLength),
  reads "lrange" (exact 3) (.list <$> ListCommand.readRange),
  reads "lindex" (exact 2) (.list <$> ListCommand.readIndex),
  writes "lset" (exact 3) (.list <$> ListCommand.readSet),
  writes "linsert" (exact 4) (.list <$> ListCommand.readInsert),
  writes "lrem" (exact 3) (.list <$> ListCommand.readRemove),
  writes "rpoplpush" (exact 2) (.list <$> ListCommand.readPopPush)]

def hashCommands : List CommandSpec := [
  writes "hset" (atLeast 3) (.hash <$> HashCommand.readSet),
  reads "hget" (exact 2) (.hash <$> HashCommand.readGet),
  writes "hdel" (atLeast 2) (.hash <$> HashCommand.readDel),
  reads "hexists" (exact 2) (.hash <$> HashCommand.readExists),
  reads "hlen" (exact 1) (.hash <$> HashCommand.readLength),
  reads "hgetall" (exact 1) (.hash <$> HashCommand.readListing .both),
  reads "hkeys" (exact 1) (.hash <$> HashCommand.readListing .fields),
  reads "hvals" (exact 1) (.hash <$> HashCommand.readListing .values),
  writes "hincrby" (exact 3) (.hash <$> HashCommand.readIncrBy)]

def setCommands : List CommandSpec := [
  writes "sadd" (atLeast 2) (.set <$> SetCommand.readAdd),
  writes "srem" (atLeast 2) (.set <$> SetCommand.readRemove),
  reads "sismember" (exact 2) (.set <$> SetCommand.readContains),
  reads "scard" (exact 1) (.set <$> SetCommand.readSize),
  reads "smembers" (exact 1) (.set <$> SetCommand.readListing),
  writes "spop" (atLeast 1) (.set <$> SetCommand.readPop),
  reads "srandmember" (atLeast 1) (.set <$> SetCommand.readRandom)]

def sortedSetCommands : List CommandSpec := [
  writes "zadd" (atLeast 3) (.sortedSet <$> SortedSetCommand.readAdd),
  writes "zincrby" (exact 3) (.sortedSet <$> SortedSetCommand.readIncrBy),
  reads "zscore" (exact 2) (.sortedSet <$> SortedSetCommand.readScore),
  writes "zrem" (atLeast 2) (.sortedSet <$> SortedSetCommand.readRemove),
  reads "zcard" (exact 1) (.sortedSet <$> SortedSetCommand.readSize),
  reads "zrank" (exact 2) (.sortedSet <$> SortedSetCommand.readRank false),
  reads "zrevrank" (exact 2) (.sortedSet <$> SortedSetCommand.readRank true),
  reads "zrange" (atLeast 3) (.sortedSet <$> SortedSetCommand.readRange false),
  reads "zrevrange" (atLeast 3) (.sortedSet <$> SortedSetCommand.readRange true),
  reads "zrangebyscore" (atLeast 3) (.sortedSet <$> SortedSetCommand.readRangeByScore),
  reads "zcount" (exact 3) (.sortedSet <$> SortedSetCommand.readCount),
  writes "zremrangebyscore" (exact 3) (.sortedSet <$> SortedSetCommand.readRemoveByScore),
  writes "zremrangebyrank" (exact 3) (.sortedSet <$> SortedSetCommand.readRemoveByRank)]

/-- All commands, in the order in which they are listed. -/
def table : List CommandSpec :=
  serverCommands ++ keyCommands ++ stringCommands ++ listCommands ++ hashCommands ++
    setCommands ++ sortedSetCommands

/-- Looks a command up by its name in lower case. -/
def lookup? (name : String) : Option CommandSpec := table.find? fun spec => spec.name == name

/-- Looks up the command that a request names. -/
def ofRequest? : Frame → Option CommandSpec
  | .array (.simple name :: _) => lookup? (LetterCase.lower name)
  | .array (.bulk bytes :: _) =>
    (Utf8.decode? bytes).bind fun name => lookup? (LetterCase.lower name)
  | _ => none

/-- The entry of a command in a listing. -/
def describe (spec : CommandSpec) : Frame :=
  let position := if spec.keyed then 1 else 0
  .array [
    .text spec.name, .integer (Int64.ofInt spec.arity.signed),
    .array [.simple (if spec.write then "write" else "readonly")],
    .integer position, .integer position, .integer position]

end CommandSpec

namespace Command

open ArgReader

def readName : ArgReader String := do
  match ← next with
  | .simple s => return LetterCase.lower s
  | .bulk bs =>
    match Utf8.decode? bs with
    | some s => return LetterCase.lower s
    | none => fail .invalidUtf8
  | f => fail (.unexpectedFrame "simple string" f)

def read : ArgReader Command := do
  let name ← readName
  match CommandSpec.lookup? name with
  | none => fail (.unknownCommand name)
  | some spec =>
    if spec.arity.accepts (← remaining) then spec.read else fail (.wrongArity name)

/-- Reads the command that a request holds. -/
def ofFrame : Frame → Except CommandError Command
  | .array parts => (read.run parts).map (·.1)
  | f => .error (.unexpectedFrame "array" f)

end Command

end RespStore
