import RespStore.Proofs.Serving
import RespStore.Text.Fingerprint

/-!
# Failed requests

A request that is answered with an error, because no command is read from it or because the command
fails, leaves what shows of the databases, the session and the log as they were.
-/

namespace RespStore

open Log

theorem Frame.exists_error {f : Frame} (h : f matches .error _) : ∃ m, f = .error m := by
  cases f with
  | error m => exact ⟨m, rfl⟩
  | _ => cases h

namespace Serving

variable [Digest String] [Matcher] {n : Nat} {x : Serving}

/-- Runs what a client has sent, whatever frame it is. -/
def drive (x : Serving) (client now : Nat) (request : Frame) : Serving :=
  let e := x.server.execute now (x.sessions client) request
  ⟨e.server, Function.update x.sessions client e.session⟩

/-- The states of a server of `n` databases whose clients come and go and send any frames. -/
inductive Driven (n : Nat) : Serving → Prop where
  | start {config : ServerConfig} {now : Nat} {g : Draws} {file : Option Bytes} {sv : Server}
      (hn : config.databases = n) (h : (Server.start config now g file).1 = .ok sv) :
      Driven n ⟨sv, fun _ => .new⟩
  | drive {x : Serving} (h : Driven n x) (client now : Nat) (request : Frame) :
      Driven n (x.drive client now request)
  | connect {x : Serving} (h : Driven n x) (client : Nat) :
      Driven n ⟨x.server, Function.update x.sessions client .new⟩
  | tick {x : Serving} (h : Driven n x) (now : Nat) : Driven n ⟨x.server.tick now, x.sessions⟩
  | takeLog {x : Serving} (h : Driven n x) : Driven n ⟨x.server.takeLog.2, x.sessions⟩

/-- Requests whose parts are bulk strings are frames like any other. -/
theorem Reachable.driven (h : Reachable n x) : Driven n x := by
  induction h with
  | start hn h => exact .start hn h
  | step h i ih => exact ih.drive i.client i.now i.request.toFrame
  | tick h now ih => exact ih.tick now

theorem Sound.handles (h : x.Sound n) (client now : Nat) (request : Frame) :
    Server.Handles now (x.sessions client) x.server
      (x.server.execute now (x.sessions client) request) := by
  refine Server.execute_handles h.wf ?_ now request
  rw [h.size]
  exact h.selected client

theorem Sound.drive (h : x.Sound n) (client now : Nat) (request : Frame) :
    (x.drive client now request).Sound n := by
  have hx := h.handles client now request
  have hselected := hx.selected
  rw [h.size] at hselected
  have hle := hx.selected_le (h.selected_le client)
  exact h.update hx.wf (hx.size.trans h.size) hselected hle client

omit [Digest String] [Matcher] in
theorem keyspace_takeLog (sv : Server) : sv.takeLog.2.keyspace = sv.keyspace := by
  unfold Server.takeLog
  split <;> rfl

theorem Driven.sound (h : Driven n x) : x.Sound n := by
  induction h with
  | start hn h => exact hn ▸ sound_of_start h
  | drive h client now request ih => exact ih.drive client now request
  | connect h client ih =>
    have hpos : 0 < max n 1 := by omega
    exact ih.update ih.wf ih.size hpos (Nat.zero_le _) client
  | tick h now ih => exact ih.tick now
  | @takeLog x h ih =>
    have hkeyspace := keyspace_takeLog x.server
    exact ⟨hkeyspace ▸ ih.wf, hkeyspace ▸ ih.size, ih.selected, ih.selected_le⟩

/-- Nothing that shows in any database from then on, and neither the session nor the log, tells a
frame that is answered with an error from one that was never sent. -/
theorem refused_leaves_all (h : Driven n x) (client now : Nat) (request : Frame)
    (hreply : (x.server.execute now (x.sessions client) request).reply matches .error _) :
    let e := x.server.execute now (x.sessions client) request
    (∀ i t, now ≤ t →
      (e.server.keyspace.store.db i).view t = (x.server.keyspace.store.db i).view t) ∧
      e.session = x.sessions client ∧ e.server.log = x.server.log := by
  obtain ⟨m, hm⟩ := Frame.exists_error hreply
  obtain ⟨hview, hsession, hlog⟩ := (h.sound.handles client now request).refused m hm
  refine ⟨fun i t ht => ?_, hsession, hlog⟩
  rw [← Db.cut_view ht, ← Db.cut_view ht]
  exact congrArg (View.cut t) (congrFun hview i)

end Serving

namespace Serving

/-- A string that is no number, of the first of two clients. -/
def stored : Serving :=
  (start 1 ⟨fun _ => 0, 0⟩ .always).drive 0 5 (Request.toFrame (["SET", "k", "v"].map word))

theorem incr_refused :
    let e := stored.server.execute 6 (stored.sessions 1) (Request.toFrame (["INCR", "k"].map word))
    e.reply matches .error _ ∧
      (∀ i t, 6 ≤ t →
        (e.server.keyspace.store.db i).view t = (stored.server.keyspace.store.db i).view t) ∧
      e.session = stored.sessions 1 ∧ e.server.log = stored.server.log := by
  have hdriven : Driven 1 stored := ((reachable_start 1 _ _).driven).drive 0 5 _
  have hreply : (stored.server.execute 6 (stored.sessions 1)
      (Request.toFrame (["INCR", "k"].map word))).reply matches .error _ := by decide +kernel
  exact ⟨hreply, refused_leaves_all hdriven 1 6 _ hreply⟩

end Serving

end RespStore
