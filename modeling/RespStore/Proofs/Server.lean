import RespStore.Server
import RespStore.Proofs.Log.Replay

/-!
# Requests to the server

What one request does to the databases and to the log, and what holds of every state that a server
comes to.
-/

namespace RespStore

open Log

namespace Log

theorem arguments?_toFrame (r : Request) : arguments? r.toFrame = some r := by
  induction r with
  | nil => rfl
  | cons a args ih =>
    have htail : (args.map Frame.bulk).mapM _ = some args := ih
    show ((Frame.bulk a :: args.map Frame.bulk).mapM _) = _
    rw [List.mapM_cons]
    simp only [htail]
    rfl

end Log

namespace Server

variable [Digest String] [Matcher] {now : Nat} {sv : Server} {s : Session} {r : Request}
  {request : Frame} {c : Command}

omit [Digest String] [Matcher] in
/-- A request to a server that keeps a log is logged if its command is a write. -/
theorem loggable?_eq_some {w : Writer} {args : Request}
    (h : sv.loggable? request = some (w, args)) :
    sv.log = some w ∧ (CommandSpec.ofRequest? request).any (·.write) = true ∧
      arguments? request = some args := by
  unfold loggable? at h
  cases hw : sv.log with
  | none => simp [hw] at h
  | some w' =>
    simp only [hw] at h
    split at h
    · next hwrite =>
      obtain ⟨args', hargs, hp⟩ := Option.map_eq_some_iff.mp h
      cases hp
      exact ⟨rfl, hwrite, hargs⟩
    · cases h

omit [Digest String] [Matcher] in
theorem loggable?_eq_none {w : Writer} (hw : sv.log = some w) (h : sv.loggable? r.toFrame = none) :
    (CommandSpec.ofRequest? r.toFrame).any (·.write) = false := by
  unfold loggable? at h
  simp only [hw, arguments?_toFrame] at h
  split at h
  · cases h
  · next hwrite => exact Bool.eq_false_iff.mpr hwrite

/-- The records that a request adds to the log, with their databases. -/
def written (sv : Server) (now : Nat) (s : Session) (request : Frame) : List (Nat × Request) :=
  match Command.ofFrame request, sv.loggable? request with
  | .ok c, some (_, args) =>
    let e := c.run now s sv.keyspace
    (Log.records now (e.keyspace.store.db e.session.selected) args e.reply).1.map
      (e.session.selected, ·)
  | _, _ => []

theorem written_of_log_none (h : sv.log = none) : sv.written now s request = [] := by
  have hl : sv.loggable? request = none := by
    unfold loggable?
    rw [h]
  unfold written
  rw [hl]
  cases Command.ofFrame request <;> rfl

/-- Nothing else is added to the log. -/
theorem execute_log : (sv.execute now s request).server.log =
    sv.log.map fun w => w.appendEach (sv.written now s request) := by
  have hnone : sv.log.map (fun w => w.appendEach []) = sv.log := Option.map_id'
  unfold execute written
  cases Command.ofFrame request with
  | error e => exact hnone.symm
  | ok c =>
    dsimp only
    cases hl : sv.loggable? request with
    | none => exact hnone.symm
    | some p =>
      obtain ⟨w, args⟩ := p
      rw [(loggable?_eq_some hl).1]
      dsimp only
      rw [Writer.appendAll_eq]
      rfl

/-- What a request to a server leaves behind, and what it adds to the log. -/
structure Executes (now : Nat) (s : Session) (sv : Server) (x : Executed)
    (ps : List (Nat × Request)) : Prop where
  wf : x.server.keyspace.store.WF
  size : x.server.keyspace.store.size = sv.keyspace.store.size
  selected : x.session.selected < sv.keyspace.store.size
  selected_le : s.selected ≤ Command.maxInteger → x.session.selected ≤ Command.maxInteger
  logged : sv.log.isSome →
    (ps = [] ∧ x.server.keyspace.store.view now = sv.keyspace.store.view now) ∨
      ∃ r c, ps = [(s.selected, r)] ∧ Reproduces now s.selected (sv.keyspace.store.view now)
        (x.server.keyspace.store.view now) r c

/-- What a request that is not logged comes to. -/
theorem execute_unlogged (hc : Command.ofFrame request = .ok c)
    (hl : sv.loggable? request = none) (now : Nat) (s : Session) :
    sv.written now s request = [] ∧ ∃ quit, sv.execute now s request =
      ⟨(c.run now s sv.keyspace).reply, quit, (c.run now s sv.keyspace).session,
        { sv with keyspace := (c.run now s sv.keyspace).keyspace }⟩ := by
  constructor
  · simp only [written, hc, hl]
  · simp only [execute, hc, hl]
    exact ⟨_, rfl⟩

/-- What a request that is logged comes to. -/
theorem execute_logged (hc : Command.ofFrame request = .ok c) {w : Writer} {args : Request}
    (hl : sv.loggable? request = some (w, args)) (hs : (c.run now s sv.keyspace).session = s) :
    let db := (c.run now s sv.keyspace).keyspace.store.db s.selected
    let p := Log.records now db args (c.run now s sv.keyspace).reply
    sv.written now s request = p.1.map (s.selected, ·) ∧
      (sv.execute now s request).server.keyspace.store =
        (c.run now s sv.keyspace).keyspace.store.setDb s.selected p.2 := by
  constructor
  · simp only [written, hc, hl, hs]
  · simp only [execute, hc, hl, hs]

/-- What any frame leaves behind, be it a request or not. -/
structure Handles (now : Nat) (s : Session) (sv : Server) (x : Executed) : Prop where
  wf : x.server.keyspace.store.WF
  size : x.server.keyspace.store.size = sv.keyspace.store.size
  selected : x.session.selected < sv.keyspace.store.size
  selected_le : s.selected ≤ Command.maxInteger → x.session.selected ≤ Command.maxInteger
  refused : ∀ m, x.reply = .error m →
    x.server.keyspace.store.view now = sv.keyspace.store.view now ∧ x.session = s ∧
      x.server.log = sv.log

/-- A command that is run for a frame and logged under some arguments. -/
theorem handles_logged (hc : Command.ofFrame request = .ok c) (hp : c.Proper) {popped : List String}
    (hran : Command.Ran now s sv.keyspace c popped (c.run now s sv.keyspace)) {w : Writer}
    {args : Request} (hl : sv.loggable? request = some (w, args)) :
    Handles now s sv (sv.execute now s request) := by
  have hsize : (c.run now s sv.keyspace).keyspace.store.size = sv.keyspace.store.size :=
    Command.run_size
  have hselected := hran.selected
  rw [← hsize] at hselected
  obtain ⟨hdb, hview⟩ := records_unchanged now
    ((c.run now s sv.keyspace).keyspace.store.db (c.run now s sv.keyspace).session.selected) args
    (c.run now s sv.keyspace).reply (hran.wf _)
  simp only [execute, hc, hl]
  refine ⟨hran.wf.setDb hselected hdb, (Store.size_setDb ..).trans hsize, hran.selected,
    Command.run_selected_le hp, fun m hm => ?_⟩
  obtain ⟨hsame, hsession⟩ := hran.refused m hm
  refine ⟨?_, hsession, ?_⟩
  · rw [Store.view_setDb hselected, hview, ← hsame]
    exact Function.update_eq_self ..
  · have hreply : (c.run now s sv.keyspace).reply = .error m := hm
    dsimp only
    rw [hreply, records_of_error, (loggable?_eq_some hl).1]
    rfl

theorem execute_handles (hk : sv.keyspace.store.WF) (hs : s.selected < sv.keyspace.store.size)
    (now : Nat) (request : Frame) : Handles now s sv (sv.execute now s request) := by
  cases hc : Command.ofFrame request with
  | error e =>
    simp only [execute, hc]
    exact ⟨hk, rfl, hs, id, fun _ _ => ⟨rfl, rfl, rfl⟩⟩
  | ok c =>
    obtain ⟨spec, -, hfits⟩ := Command.exists_fits_of_ofFrame hc
    obtain ⟨popped, hran⟩ := Command.exists_ran now hk hs hfits.proper
    cases hl : sv.loggable? request with
    | none =>
      obtain ⟨-, quit, hexecute⟩ := execute_unlogged hc hl now s
      rw [hexecute]
      refine ⟨hran.wf, Command.run_size, hran.selected, Command.run_selected_le hfits.proper,
        fun m hm => ?_⟩
      exact ⟨(hran.refused m hm).1, (hran.refused m hm).2, rfl⟩
    | some p => exact handles_logged hc hfits.proper hran hl

/-- A request that is not logged: either no log is kept, or its command writes nothing. -/
theorem executes_unlogged (hk : sv.keyspace.store.WF) (hs : s.selected < sv.keyspace.store.size)
    (hc : Command.ofFrame r.toFrame = .ok c) (hl : sv.loggable? r.toFrame = none) :
    Executes now s sv (sv.execute now s r.toFrame) (sv.written now s r.toFrame) := by
  obtain ⟨spec, name, args, hread⟩ := Command.exists_readAs hc
  obtain ⟨popped, hran⟩ := Command.exists_ran now hk hs hread.fits.proper
  obtain ⟨hwf, hsize, hselected, hle, -⟩ := execute_handles hk hs now r.toFrame
  refine ⟨hwf, hsize, hselected, hle, fun hlog => .inl ?_⟩
  obtain ⟨hwritten, quit, hexecute⟩ := execute_unlogged hc hl now s
  rw [hwritten, hexecute]
  obtain ⟨w, hw⟩ := Option.isSome_iff_exists.mp hlog
  have hwrite := loggable?_eq_none hw hl
  rw [hread.ofRequest?] at hwrite
  have hreads := hread.fits.readsOnly hwrite
  exact ⟨rfl, hran.view.trans (Command.effect_of_nothing hreads.keeps (hreads.nothing now popped))⟩

theorem executes_logged (hk : sv.keyspace.store.WF) (hs : s.selected < sv.keyspace.store.size)
    (hc : Command.ofFrame r.toFrame = .ok c) {w : Writer} {args : Request}
    (hl : sv.loggable? r.toFrame = some (w, args)) :
    Executes now s sv (sv.execute now s r.toFrame) (sv.written now s r.toFrame) := by
  obtain ⟨spec, name, args', hread⟩ := Command.exists_readAs hc
  obtain ⟨-, hwrite, hargs⟩ := loggable?_eq_some hl
  rw [arguments?_toFrame] at hargs
  cases hargs
  rw [hread.ofRequest?] at hwrite
  have hstays := hread.fits.stays hwrite
  obtain ⟨popped, hran, hlogs⟩ := logs_of_run now hk hs hread
  have hselected : s.selected < (c.run now s sv.keyspace).keyspace.store.size := by
    rw [Command.run_size]
    exact hs
  obtain ⟨hwritten, hstore⟩ := execute_logged hc hl (Command.run_session hstays)
  have hviews : (sv.execute now s r.toFrame).server.keyspace.store.view now =
      (c.run now s sv.keyspace).keyspace.store.view now := by
    rw [hstore, Store.view_setDb hselected, (hlogs.unchanged (hran.wf s.selected)).2]
    exact Function.update_eq_self ..
  obtain ⟨hwf, hsize, hselected, hle, -⟩ := execute_handles hk hs now r.toFrame
  refine ⟨hwf, hsize, hselected, hle, fun _ => ?_⟩
  rw [hwritten, hviews]
  rcases hlogs.reproduces hran hread hc hstays with ⟨hnone, hkept⟩ | ⟨r', c', hone, hr'⟩
  · rw [hnone]
    exact .inl ⟨rfl, hkept⟩
  · rw [hone]
    exact .inr ⟨r', c', rfl, hr'⟩

theorem execute_spec (hk : sv.keyspace.store.WF) (hs : s.selected < sv.keyspace.store.size)
    (now : Nat) (r : Request) :
    Executes now s sv (sv.execute now s r.toFrame) (sv.written now s r.toFrame) := by
  cases hc : Command.ofFrame r.toFrame with
  | error e =>
    have hwritten : sv.written now s r.toFrame = [] := by
      simp only [written, hc]
    have hexecute : sv.execute now s r.toFrame = ⟨.error e.message, false, s, sv⟩ := by
      simp only [execute, hc]
    rw [hwritten, hexecute]
    exact ⟨hk, rfl, hs, id, fun _ => .inl ⟨rfl, rfl⟩⟩
  | ok c =>
    cases hl : sv.loggable? r.toFrame with
    | none => exact executes_unlogged hk hs hc hl
    | some p => exact executes_logged hk hs hc hl

end Server

end RespStore
