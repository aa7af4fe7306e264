import RespStore.Command.Table
import RespStore.Command.Key.Run
import RespStore.Command.String.Run
import RespStore.Command.List.Run
import RespStore.Command.Hash.Run
import RespStore.Command.Set.Run
import RespStore.Command.SortedSet.Run

/-!
# Running commands

A command runs in a session, which has selected a database, on a keyspace, which all sessions
share.
-/

namespace RespStore

structure Session where
  selected : Nat
  deriving DecidableEq, Repr

def Session.new : Session := ⟨0⟩

/-- The databases and the random draws that commands make. -/
structure Keyspace where
  store : Store
  draws : Draws

namespace Command

variable [Digest String] [Matcher]

structure Effect where
  reply : Frame
  session : Session
  keyspace : Keyspace

/-- Runs in the selected database. -/
def inDb (s : Session) (k : Keyspace) (f : Db → Draws → Outcome) : Effect :=
  let o := f (k.store.db s.selected) k.draws
  ⟨o.reply, s, ⟨k.store.setDb s.selected o.db, o.draws⟩⟩

def runServer (now : Nat) (s : Session) (k : Keyspace) : ServerCommand → Effect
  | .ping payload => ⟨payload.elim (.simple "PONG") .bulk, s, k⟩
  | .echo payload => ⟨.bulk payload, s, k⟩
  | .select index =>
    match k.store.select? index with
    | .ok i => ⟨.ok, ⟨i⟩, k⟩
    | .error e => ⟨.error e.message, s, k⟩
  | .quit => ⟨.ok, s, k⟩
  | .dbSize => inDb s k fun db g => ⟨.count db.size, db, g⟩
  | .flushDb => inDb s k fun db g => ⟨.ok, db.flush, g⟩
  | .flushAll => ⟨.ok, s, { k with store := k.store.flushAll }⟩
  | .commandList => ⟨.ofList CommandSpec.describe CommandSpec.table, s, k⟩
  | .commandCount => ⟨.count CommandSpec.table.length, s, k⟩
  | .commandInfo names =>
    let entry := fun name =>
      Frame.ofOption CommandSpec.describe (CommandSpec.lookup? (LetterCase.lower name))
    ⟨.ofList entry names, s, k⟩
  | .commandDocs => ⟨.array [], s, k⟩
  | .objectEncoding name => inDb s k fun db g =>
    let (v, db) := db.get now name
    ⟨.ofOption (fun v => .text v.encoding) v, db, g⟩

def run (c : Command) (now : Nat) (s : Session) (k : Keyspace) : Effect :=
  match c with
  | server c => runServer now s k c
  | key c => inDb s k fun db g => c.run now db g
  | string c => inDb s k fun db g => c.run now db g
  | list c => inDb s k fun db g => c.run now db g
  | hash c => inDb s k fun db g => c.run now db g
  | set c => inDb s k fun db g => c.run now db g
  | sortedSet c => inDb s k fun db g => c.run now db g

end Command

end RespStore
