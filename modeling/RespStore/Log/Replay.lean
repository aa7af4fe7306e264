import RespStore.Log.Writer

/-!
# Replaying the log

The requests of a file run one after the other in a session of their own. What a crash has cut
off at the end is dropped from the file; anything else that is no request stops the replay.
-/

namespace RespStore.Log

variable [Digest String] [Matcher]

inductive ReplayError where
  | corrupt (offset : Nat) (cause : ProtocolError)
  | refused (index : Nat) (cause : CommandError)

def ReplayError.message : ReplayError → String
  | corrupt offset cause =>
    s!"append-only file is corrupt after {offset} bytes: " ++ cause.message
  | refused index cause =>
    s!"append-only file record {index} cannot be replayed: " ++ cause.message

/-- What a replay leaves: the keyspace, how many bytes of the file were not read, and how many
records were run. -/
structure Replayed where
  keyspace : Keyspace
  unread : Nat
  result : Except ReplayError Nat

/-- Replays a buffer that is the rest of a file of `total` bytes, after `index` records. -/
def replayFrom (total now : Nat) (d : Decoder) (s : Session) (k : Keyspace) (index : Nat)
    (buf : Bytes) : Replayed :=
  let o := d.decode buf
  match _ : o.result with
  | .ok none => ⟨k, o.buffer.length, .ok index⟩
  | .error e => ⟨k, 0, .error (.corrupt (total - o.buffer.length) e)⟩
  | .ok (some r) =>
    match Command.ofFrame r.toFrame with
    | .error e => ⟨k, 0, .error (.refused index e)⟩
    | .ok c =>
      let e := c.run now s k
      replayFrom total now o.decoder e.session e.keyspace (index + 1) o.buffer
termination_by buf.length
decreasing_by exact Decoder.decode_length_lt ‹_›

def replay (now : Nat) (k : Keyspace) (contents : Bytes) : Replayed :=
  replayFrom contents.length now .default .new k 0 contents

/-- The file after a replay: without the part of a record at its end. -/
def Replayed.keep (r : Replayed) (contents : Bytes) : Bytes :=
  contents.take (contents.length - r.unread)

end RespStore.Log
