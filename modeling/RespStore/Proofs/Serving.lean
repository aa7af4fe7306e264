import RespStore.Proofs.Server

/-!
# Servers and their clients

A server with the sessions of its clients, who issue requests in any order. What every state that
they come to has in common is an invariant of single requests.
-/

namespace RespStore

open Log

/-- A request of a client, and what the clock says when it is run. -/
structure Issued where
  client : Nat
  now : Nat
  request : Request

/-- A server and the sessions of its clients, by their numbers. -/
structure Serving where
  server : Server
  sessions : Nat → Session

namespace Serving

/-- What the databases of a server have in common with the sessions. -/
structure Sound [Digest String] (n : Nat) (x : Serving) : Prop where
  wf : x.server.keyspace.store.WF
  size : x.server.keyspace.store.size = max n 1
  selected : ∀ client, (x.sessions client).selected < max n 1
  selected_le : ∀ client, (x.sessions client).selected ≤ Command.maxInteger

variable [Digest String] [Matcher] {n : Nat} {x : Serving}

/-- The records that a request adds to the log, with their databases. -/
def written (x : Serving) (i : Issued) : List (Nat × Request) :=
  x.server.written i.now (x.sessions i.client) i.request.toFrame

def step (x : Serving) (i : Issued) : Serving :=
  let e := x.server.execute i.now (x.sessions i.client) i.request.toFrame
  ⟨e.server, Function.update x.sessions i.client e.session⟩

/-- Runs requests whole, one after the other. -/
def run (x : Serving) (is : List Issued) : Serving := is.foldl step x

@[simp] theorem run_nil : x.run [] = x := rfl

theorem run_snoc (is : List Issued) (i : Issued) : x.run (is ++ [i]) = (x.run is).step i :=
  List.foldl_concat ..

theorem Sound.executes (h : x.Sound n) (i : Issued) :
    Server.Executes i.now (x.sessions i.client) x.server
      (x.server.execute i.now (x.sessions i.client) i.request.toFrame) (x.written i) := by
  refine Server.execute_spec h.wf ?_ i.now i.request
  rw [h.size]
  exact h.selected i.client

omit [Matcher] in
/-- The session of one client and the server may change. -/
theorem Sound.update (h : x.Sound n) {sv : Server} {s : Session} (hwf : sv.keyspace.store.WF)
    (hsize : sv.keyspace.store.size = max n 1) (hs : s.selected < max n 1)
    (hle : s.selected ≤ Command.maxInteger) (client : Nat) :
    Sound n ⟨sv, Function.update x.sessions client s⟩ := by
  refine ⟨hwf, hsize, fun client' => ?_, fun client' => ?_⟩
  · show (Function.update x.sessions client s client').selected < _
    rw [Function.update_apply]
    split
    · exact hs
    · exact h.selected client'
  · show (Function.update x.sessions client s client').selected ≤ _
    rw [Function.update_apply]
    split
    · exact hle
    · exact h.selected_le client'

theorem Sound.step (h : x.Sound n) (i : Issued) : (x.step i).Sound n := by
  have hx := h.executes i
  have hselected := hx.selected
  rw [h.size] at hselected
  exact h.update hx.wf (hx.size.trans h.size) hselected (hx.selected_le (h.selected_le i.client)) _

omit [Matcher] in
theorem Sound.tick (h : x.Sound n) (now : Nat) : Sound n ⟨x.server.tick now, x.sessions⟩ := by
  obtain ⟨hwf, -, hsize⟩ := Store.expireCycle_spec h.wf now x.server.keyspace.draws
  exact ⟨hwf, hsize.trans h.size, h.selected, h.selected_le⟩

/-- Where a server starts is sound, whatever log it replays. -/
theorem sound_of_start {config : ServerConfig} {now : Nat} {g : Draws} {file : Option Bytes}
    {sv : Server} (h : (Server.start config now g file).1 = .ok sv) :
    Sound config.databases ⟨sv, fun _ => .new⟩ := by
  have hpos : 0 < max config.databases 1 := by omega
  have hstore : sv.keyspace.store.WF ∧ sv.keyspace.store.size = max config.databases 1 := by
    have hnew := Store.size_new config.databases
    have hreplay := replay_wf now (k := ⟨.new config.databases, g⟩) (Store.wf_new _)
      (by rw [hnew]; exact hpos) (file.getD [])
    simp only [Server.start] at h
    split at h
    · split at h
      · cases h
      · cases h
        exact ⟨hreplay.1, hreplay.2.trans hnew⟩
    · cases h
      exact ⟨Store.wf_new _, hnew⟩
  exact ⟨hstore.1, hstore.2, fun _ => hpos, fun _ => Nat.zero_le _⟩

/-- The states of a server of `n` databases and of its clients. -/
inductive Reachable (n : Nat) : Serving → Prop where
  | start {config : ServerConfig} {now : Nat} {g : Draws} {file : Option Bytes} {sv : Server}
      (hn : config.databases = n) (h : (Server.start config now g file).1 = .ok sv) :
      Reachable n ⟨sv, fun _ => .new⟩
  | step {x : Serving} (h : Reachable n x) (i : Issued) : Reachable n (x.step i)
  | tick {x : Serving} (h : Reachable n x) (now : Nat) :
      Reachable n ⟨x.server.tick now, x.sessions⟩

theorem Reachable.sound (h : Reachable n x) : x.Sound n := by
  induction h with
  | start hn h => exact hn ▸ sound_of_start h
  | step h i ih => exact ih.step i
  | tick h now ih => exact ih.tick now

/-- A server with nothing in its databases and nothing in its log. -/
def start (n : Nat) (g : Draws) (policy : SyncPolicy) : Serving :=
  ⟨⟨⟨.new n, g⟩, some (.openFile [] policy)⟩, fun _ => .new⟩

/-- A server that keeps a log and finds no file starts like this. -/
theorem reachable_start (n : Nat) (g : Draws) (policy : SyncPolicy) :
    Reachable n (start n g policy) := by
  have hreplay : Log.replay 0 ⟨.new n, g⟩ [] = ⟨⟨.new n, g⟩, 0, .ok 0⟩ := replayFrom_nil
  have hstart : (Server.start ⟨n, true, policy, .array, Limits.bulk⟩ 0 g none).1 =
      .ok ⟨⟨.new n, g⟩, some (.openFile [] policy)⟩ := by
    simp only [Server.start, if_true, Option.getD_none, hreplay]
    rfl
  exact .start rfl hstart

theorem Reachable.run (h : Reachable n x) (is : List Issued) : Reachable n (x.run is) := by
  induction is generalizing x with
  | nil => exact h
  | cons i is ih => exact ih (h.step i)

/-- The records that a server of `n` databases may log, with their databases. -/
def MayLog (n : Nat) (p : Nat × Request) : Prop := ∃ x i, Reachable n x ∧ p ∈ x.written i

variable {p : Nat × Request}

theorem MayLog.reproduces (h : MayLog n p) :
    (∃ now vs vs' c, Reproduces now p.1 vs vs' p.2 c) ∧ p.1 < max n 1 ∧
      p.1 ≤ Command.maxInteger := by
  obtain ⟨x, i, hx, hp⟩ := h
  have hsound := hx.sound
  cases hlog : x.server.log with
  | none =>
    rw [show x.written i = [] from Server.written_of_log_none hlog] at hp
    cases hp
  | some w =>
    have hlogged := (hsound.executes i).logged (by rw [hlog]; rfl)
    rcases hlogged with ⟨hnone, -⟩ | ⟨r, c, hone, hr⟩
    · rw [hnone] at hp
      cases hp
    · rw [hone, List.mem_singleton] at hp
      rw [hp]
      exact ⟨⟨i.now, _, _, c, hr⟩, hsound.selected i.client, hsound.selected_le i.client⟩

theorem MayLog.isRecord (h : MayLog n p) : IsRecord p.2 ∧ p.1 ≤ Command.maxInteger := by
  obtain ⟨⟨_, _, _, _, hr⟩, -, hle⟩ := h.reproduces
  exact ⟨hr.isRecord, hle⟩

end Serving

end RespStore
