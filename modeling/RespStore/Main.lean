import RespStore.Options
import RespStore.Text.Fingerprint
import Std.Async.TCP
import Std.Async.Timer
import Std.Sync.Mutex
import Std.Time.DateTime.Timestamp

/-!
# The server program

Listens on a socket and passes what clients send to the server, one chunk at a time and under a
lock. What the log gains goes to its file before the replies go out.
-/

namespace RespStore

open Std.Async

/-- Milliseconds since the epoch. -/
def clock : IO Nat := do
  return (← Std.Time.Timestamp.now).toMillisecondsSinceUnixEpoch.val.toNat

def toByteArray (bs : Bytes) : ByteArray := ⟨bs.toArray⟩

/-- What all connections have in common. -/
structure Shared where
  options : Options
  server : Std.Mutex Server
  logFile : Option IO.FS.Handle

namespace Shared

def appendLog (sh : Shared) (added : Bytes) : IO Unit := do
  if let some file := sh.logFile then
    unless added.isEmpty do
      file.write (toByteArray added)
      file.flush

/-- Lets the server take in a chunk, and answers the replies in wire form. -/
def receive (sh : Shared) (c : Server.Connection) (chunk : ByteArray) :
    IO (Bytes × Server.Connection) :=
  sh.server.atomically do
    let served := (← get).receive sh.options.server (← clock) c chunk.data.toList
    let (added, sv) := served.server.takeLog
    set sv
    sh.appendLog added
    return (served.replies.flatten, served.connection)

def chunkSize : UInt64 := 65536

/-- The next chunk, or none once the client is done or has been silent for too long. -/
def read? (sh : Shared) (client : TCP.Socket.Client) : Async (Option ByteArray) := do
  if sh.options.idleSeconds = 0 then client.recv? chunkSize
  else
    let silence ← Selector.sleep (Std.Time.Millisecond.Offset.ofNat (1000 * sh.options.idleSeconds))
    Selectable.one #[.case (client.recvSelector chunkSize) pure, .case silence fun _ => pure none]

partial def converse (sh : Shared) (client : TCP.Socket.Client) (c : Server.Connection) :
    Async Unit := do
  match ← sh.read? client with
  | none => client.shutdown
  | some chunk =>
    let (replies, c) ← sh.receive c chunk
    unless replies.isEmpty do client.send (toByteArray replies)
    if c.isOpen then sh.converse client c else client.shutdown

/-- Talks to a client until one side hangs up or the connection fails. -/
def handle (sh : Shared) (client : TCP.Socket.Client) : Async Unit := do
  try sh.converse client (Server.connect sh.options.server)
  catch e => IO.eprintln s!"connection failed: {e}"

partial def acceptAll (sh : Shared) (listener : TCP.Socket.Server) : Async Unit := do
  let client ← listener.accept
  background (sh.handle client)
  sh.acceptAll listener

/-- Milliseconds between two passes of active expiry. -/
def tickInterval : Std.Time.Millisecond.Offset := 100

def tick (sh : Shared) : IO Unit :=
  sh.server.atomically do
    let now ← clock
    modify fun sv => sv.tick now

partial def tickAll (sh : Shared) : Async Unit := do
  sleep tickInterval
  sh.tick
  sh.tickAll

end Shared

/-- The bytes of a file, if it is there. -/
def readFile? (path : String) : IO (Option Bytes) := do
  try return some (← IO.FS.readBinFile path).data.toList
  catch
    | .noFileOrDirectory .. => return none
    | e => throw e

/-- Starts the server on its log file, which loses a cut-off record. -/
def startShared (options : Options) : IO (Except Log.ReplayError Shared) := do
  let now ← clock
  let file ← if options.server.logging then readFile? options.logFile else pure none
  match Server.start options.server now (.ofSeed now) file with
  | (.error e, _) => return .error e
  | (.ok sv, kept) =>
    if options.server.logging then
      if kept ≠ file then IO.FS.writeBinFile options.logFile (toByteArray (kept.getD []))
      let handle ← IO.FS.Handle.mk options.logFile .append
      return .ok ⟨options, ← Std.Mutex.new sv.takeLog.2, some handle⟩
    else return .ok ⟨options, ← Std.Mutex.new sv, none⟩

def listen (options : Options) : IO TCP.Socket.Server := do
  match Std.Net.IPv4Addr.ofString options.address with
  | none => throw (IO.userError ("not an address: " ++ options.address))
  | some address =>
    let listener ← TCP.Socket.Server.mk
    listener.bind (.v4 ⟨address, options.port⟩)
    listener.listen 128
    return listener

def runServer (options : Options) : IO UInt32 := do
  match ← startShared options with
  | .error e =>
    IO.eprintln e.message
    return 1
  | .ok sh =>
    let listener ← listen options
    Async.block (do
      background sh.tickAll
      sh.acceptAll listener)
    return 0

end RespStore

def main (args : List String) : IO UInt32 := do
  match RespStore.Options.read .default args with
  | .error e =>
    IO.eprintln e.message
    return 2
  | .ok options => RespStore.runServer options
