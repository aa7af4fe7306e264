import RespStore.Proofs.Command.Run
import RespStore.Proofs.Command.Table

/-!
# Clients of a keyspace

Clients run commands on a keyspace that they share, each in a session of its own and in any order.
Whatever they send, the databases keep their invariants, and no session selects a database that
there is not.
-/

namespace RespStore

/-- A keyspace and the sessions of its clients, by their numbers. -/
structure Clients where
  keyspace : Keyspace
  sessions : Nat → Session

namespace Clients

variable [Digest String] {n : Nat} {x : Clients}

/-- `n` databases with nothing in them, or one if `n` is zero. -/
def new (n : Nat) (g : Draws) : Clients := ⟨⟨.new n, g⟩, fun _ => .new⟩

/-- Runs the command that a frame of a client holds, if it holds one. -/
def request [Matcher] (x : Clients) (client now : Nat) (frame : Frame) : Clients :=
  match Command.ofFrame frame with
  | .ok c =>
    let e := c.run now (x.sessions client) x.keyspace
    ⟨e.keyspace, Function.update x.sessions client e.session⟩
  | .error _ => x

/-- A pass of active expiry. -/
def expire (x : Clients) (now : Nat) : Clients :=
  let (_, store, draws) := x.keyspace.store.expireCycle now x.keyspace.draws
  { x with keyspace := ⟨store, draws⟩ }

/-- A client leaves, and another one takes its place. -/
def connect (x : Clients) (client : Nat) : Clients :=
  { x with sessions := Function.update x.sessions client .new }

/-- The states that clients of `n` databases come to, at any times and for any draws. -/
inductive Reachable [Matcher] (n : Nat) : Clients → Prop where
  | new (g : Draws) : Reachable n (new n g)
  | request {x : Clients} (h : Reachable n x) (client now : Nat) (frame : Frame) :
      Reachable n (x.request client now frame)
  | expire {x : Clients} (h : Reachable n x) (now : Nat) : Reachable n (x.expire now)
  | connect {x : Clients} (h : Reachable n x) (client : Nat) : Reachable n (x.connect client)

/-! ## The invariant -/

structure Sound (n : Nat) (x : Clients) : Prop where
  wf : x.keyspace.store.WF
  size : x.keyspace.store.size = max n 1
  selected : ∀ client, (x.sessions client).selected < max n 1

theorem Sound.selected_lt (h : x.Sound n) (client : Nat) :
    (x.sessions client).selected < x.keyspace.store.size := by
  rw [h.size]
  exact h.selected client

/-- What a command of a client leaves behind. -/
theorem Sound.exists_ran [Matcher] (h : x.Sound n) (client now : Nat) {frame : Frame} {c : Command}
    (hc : Command.ofFrame frame = .ok c) :
    ∃ popped, Command.Ran now (x.sessions client) x.keyspace c popped
      (c.run now (x.sessions client) x.keyspace) := by
  obtain ⟨spec, -, hfits⟩ := Command.exists_fits_of_ofFrame hc
  exact Command.exists_ran now h.wf (h.selected_lt client) hfits.proper

theorem sound_new (n : Nat) (g : Draws) : (new n g).Sound n where
  wf := Store.wf_new n
  size := Store.size_new n
  selected := fun _ => Nat.lt_of_lt_of_le Nat.one_pos (Nat.le_max_right n 1)

/-- The session of one client and the keyspace may change. -/
theorem Sound.update (h : x.Sound n) {k : Keyspace} {s : Session} (hwf : k.store.WF)
    (hsize : k.store.size = max n 1) (hs : s.selected < max n 1) (client : Nat) :
    Sound n ⟨k, Function.update x.sessions client s⟩ where
  wf := hwf
  size := hsize
  selected := fun other => by
    show (Function.update x.sessions client s other).selected < _
    rw [Function.update_apply]
    split
    · exact hs
    · exact h.selected other

theorem Sound.request [Matcher] (h : x.Sound n) (client now : Nat) (frame : Frame) :
    (x.request client now frame).Sound n := by
  unfold Clients.request
  cases hc : Command.ofFrame frame with
  | error e => exact h
  | ok c =>
    obtain ⟨popped, hran⟩ := h.exists_ran client now hc
    exact h.update hran.wf (Command.run_size.trans h.size) (h.size ▸ hran.selected) client

theorem Sound.expire (h : x.Sound n) (now : Nat) : (x.expire now).Sound n := by
  obtain ⟨hwf, -, hsize⟩ := Store.expireCycle_spec h.wf now x.keyspace.draws
  exact ⟨hwf, hsize.trans h.size, h.selected⟩

theorem Sound.connect (h : x.Sound n) (client : Nat) : (x.connect client).Sound n :=
  h.update h.wf h.size (Nat.lt_of_lt_of_le Nat.one_pos (Nat.le_max_right n 1)) client

theorem Reachable.sound [Matcher] (h : Reachable n x) : x.Sound n := by
  induction h with
  | new g => exact sound_new n g
  | request h client now frame ih => exact ih.request client now frame
  | expire h now ih => exact ih.expire now
  | connect h client ih => exact ih.connect client

end Clients

end RespStore
