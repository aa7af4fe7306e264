import RespStore.Log.Replay

/-!
# The server

Connections send requests and get one reply for each. They share the keyspace and the log, and
each has a session and a decoder of its own. A quit command or a protocol error ends a connection;
what follows it is not looked at.
-/

namespace RespStore

structure ServerConfig where
  databases : Nat
  /-- Whether writes are logged, and the log is replayed at the start. -/
  logging : Bool
  policy : Log.SyncPolicy
  emptyArrays : EmptyArrays
  maxFrame : Nat

def ServerConfig.default : ServerConfig :=
  ⟨Store.defaultDatabases, false, .everySecond, .array, Limits.bulk⟩

structure Server where
  keyspace : Keyspace
  log : Option Log.Writer

namespace Server

variable [Digest String] [Matcher]

/-- Starts on what the log file holds, if there is one; the file comes back without a cut-off
record. Without logging the file is left alone. -/
def start (config : ServerConfig) (now : Nat) (g : Draws) (file : Option Bytes) :
    Except Log.ReplayError Server × Option Bytes :=
  let k : Keyspace := ⟨.new config.databases, g⟩
  if config.logging then
    let contents := file.getD []
    let r := Log.replay now k contents
    match r.result with
    | .error e => (.error e, file)
    | .ok _ =>
      let kept := r.keep contents
      (.ok ⟨r.keyspace, some (.openFile kept config.policy)⟩, some kept)
  else (.ok ⟨k, none⟩, file)

/-- One pass of active expiry. -/
def tick (sv : Server) (now : Nat) : Server :=
  let (_, store, g) := sv.keyspace.store.expireCycle now sv.keyspace.draws
  { sv with keyspace := ⟨store, g⟩ }

/-- Hands over what the log gained since the last time. -/
def takeLog (sv : Server) : Bytes × Server :=
  match sv.log with
  | none => ([], sv)
  | some w =>
    let (added, w) := w.handOver
    (added, { sv with log := some w })

structure Executed where
  reply : Frame
  quit : Bool
  session : Session
  server : Server

/-- The arguments to log if a request turns out to change something. -/
def loggable? (sv : Server) (request : Frame) : Option (Log.Writer × Request) :=
  match sv.log with
  | none => none
  | some w =>
    if (CommandSpec.ofRequest? request).any (·.write) then (Log.arguments? request).map (w, ·)
    else none

/-- Runs one request and logs what it changed. -/
def execute (sv : Server) (now : Nat) (s : Session) (request : Frame) : Executed :=
  match Command.ofFrame request with
  | .error e => ⟨.error e.message, false, s, sv⟩
  | .ok c =>
    let quit := c matches .server .quit
    let e := c.run now s sv.keyspace
    match sv.loggable? request with
    | none => ⟨e.reply, quit, e.session, { sv with keyspace := e.keyspace }⟩
    | some (w, args) =>
      let selected := e.session.selected
      let (records, db) := Log.records now (e.keyspace.store.db selected) args e.reply
      let k := { e.keyspace with store := e.keyspace.store.setDb selected db }
      ⟨e.reply, quit, e.session, ⟨k, some (w.appendAll selected records)⟩⟩

/-- One client: what it sent and is not yet decoded, and whether it is still listened to. -/
structure Connection where
  decoder : Decoder
  buffer : Bytes
  session : Session
  isOpen : Bool

def connect (config : ServerConfig) : Connection := ⟨.new config.maxFrame, [], .new, true⟩

structure Served where
  server : Server
  connection : Connection
  /-- The replies in wire form, in order. -/
  replies : List Bytes

/-- Answers the requests in a buffer until none is whole. -/
def serve (config : ServerConfig) (now : Nat) (sv : Server) (d : Decoder) (s : Session)
    (buf : Bytes) : Served :=
  let o := d.decode buf
  match _ : o.result with
  | .ok none => ⟨sv, ⟨o.decoder, o.buffer, s, true⟩, []⟩
  | .error e =>
    ⟨sv, ⟨o.decoder, o.buffer, s, false⟩, [(Frame.error e.message).encode config.emptyArrays]⟩
  | .ok (some r) =>
    let x := sv.execute now s r.toFrame
    let reply := x.reply.encode config.emptyArrays
    if x.quit then ⟨x.server, ⟨o.decoder, o.buffer, x.session, false⟩, [reply]⟩
    else
      let later := serve config now x.server o.decoder x.session o.buffer
      { later with replies := reply :: later.replies }
termination_by buf.length
decreasing_by exact Decoder.decode_length_lt ‹_›

/-- Takes in what a client sends at a time; a closed connection takes in nothing. -/
def receive (config : ServerConfig) (now : Nat) (sv : Server) (c : Connection) (chunk : Bytes) :
    Served :=
  if c.isOpen then serve config now sv c.decoder c.session (c.buffer ++ chunk)
  else ⟨sv, c, []⟩

/-- Takes in one chunk after the other. -/
def receiveAll (config : ServerConfig) (now : Nat) (sv : Server) (c : Connection) :
    List Bytes → Served
  | [] => ⟨sv, c, []⟩
  | chunk :: chunks =>
    let first := receive config now sv c chunk
    let later := receiveAll config now first.server first.connection chunks
    { later with replies := first.replies ++ later.replies }

/-- Serves clients one after the other, each with a connection of its own. -/
def serveClients (config : ServerConfig) (now : Nat) (sv : Server) :
    List (List Bytes) → List Bytes × Server
  | [] => ([], sv)
  | chunks :: clients =>
    let served := receiveAll config now sv (connect config) chunks
    let (replies, sv) := serveClients config now served.server clients
    (served.replies.flatten :: replies, sv)

end Server

end RespStore
