import RespStore.Proofs.Serving
import RespStore.Text.Fingerprint

/-!
# Restoring databases from the log

A replay of the log shows the same as the server whose requests were logged, at any time that no
stored deadline separates from the times at which they ran.
-/

namespace RespStore

open Log

namespace Store

variable [Digest String] {s : Store} {i d t t' : Nat} {key : String} {v : Value}

/-- Every deadline that is stored, whether or not it has passed. -/
def deadlines (s : Store) : List Nat :=
  s.databases.toList.flatMap fun db => db.entries.toList.filterMap (·.2.expiresAt)

theorem mem_deadlines (h : s.WF) (hv : (s.db i).entries.get? key = some v)
    (hd : v.expiresAt = some d) : d ∈ s.deadlines := by
  have hmem : (key, v) ∈ (s.db i).entries.toList := (Dict.mem_toList_iff (h i).entries).mpr hv
  unfold deadlines
  refine List.mem_flatMap.mpr ⟨s.db i, ?_, List.mem_filterMap.mpr ⟨(key, v), hmem, hd⟩⟩
  unfold db db? at hv ⊢
  cases hdb : s.databases[i]? with
  | none =>
    rw [hdb, Option.getD_none, show Db.empty.entries.get? key = none from Dict.get?_empty key] at hv
    cases hv
  | some db => exact Array.mem_toList_iff.mpr (Array.mem_of_getElem? hdb)

theorem mem_deadlines_of_view (h : s.WF) {e : Entry} (he : s.view t i key = some e)
    (hd : e.expiresAt = some d) : d ∈ s.deadlines := by
  obtain ⟨v, hv, rfl⟩ := Option.map_eq_some_iff.mp he
  exact mem_deadlines h (Option.filter_eq_some_iff.mp hv).1 hd

/-- No stored deadline lies between two readings of the clock. -/
def Uncrossed (s : Store) (t t' : Nat) : Prop := ∀ d ∈ s.deadlines, t < d ↔ t' < d

instance : Decidable (s.Uncrossed t t') := inferInstanceAs (Decidable (∀ d ∈ _, _))

theorem Uncrossed.view_uncrossed (h : s.Uncrossed t t') (hs : s.WF) (i : Nat) :
    (s.view t i).Uncrossed t t' :=
  fun _ _ he d hd => h d (mem_deadlines_of_view hs he hd)

/-- What shows at two times with no deadline in between is the same. -/
theorem Uncrossed.view_eq (h : s.Uncrossed t t') (hs : s.WF) : s.view t = s.view t' := by
  funext i key
  show ((s.db i).slot t key).map Value.entry = ((s.db i).slot t' key).map Value.entry
  unfold Db.slot
  cases hv : (s.db i).entries.get? key with
  | none => rfl
  | some v =>
    have hlive : v.isLive t = v.isLive t' :=
      Entry.isLive_eq (e := v.entry) fun d hd => h d (mem_deadlines hs hv hd)
    simp only [Option.filter, hlive]

end Store

namespace Serving

variable [Digest String] [Matcher] {n t : Nat} {x : Serving} {i : Issued} {k₀ : Keyspace} {w₀ : Writer}
  {ps : List (Nat × Request)} {g g' : Draws} {policy : SyncPolicy}

/-- What the log file holds. -/
def contents (x : Serving) : Bytes := x.server.log.elim [] (·.contents)

/-- A request after which a replay at a time restores the databases if it did before. -/
structure Restorable (t : Nat) (x : Serving) (i : Issued) : Prop where
  before : x.server.keyspace.store.Uncrossed i.now t
  after : (x.step i).server.keyspace.store.Uncrossed i.now t
  deadlines : ∀ d ∈ (x.step i).server.keyspace.store.deadlines, d ≤ Command.maxInteger
  limits : ∀ p ∈ x.written i, p.2.WithinLimits

instance : Decidable (Restorable t x i) :=
  decidable_of_iff (_ ∧ _ ∧ _ ∧ _)
    ⟨fun ⟨h₁, h₂, h₃, h₄⟩ => ⟨h₁, h₂, h₃, h₄⟩, fun ⟨h₁, h₂, h₃, h₄⟩ => ⟨h₁, h₂, h₃, h₄⟩⟩

/-- How the records so far and a run of them at a time follow a server. -/
structure Follows (n t : Nat) (k₀ : Keyspace) (w₀ : Writer) (x : Serving)
    (ps : List (Nat × Request)) : Prop where
  sound : x.Sound n
  log : x.server.log = some (w₀.appendEach ps)
  records : ∀ p ∈ ps, IsRecord p.2 ∧ p.2.WithinLimits
  places : ∀ p ∈ ps, p.1 < max n 1 ∧ p.1 ≤ Command.maxInteger
  replayed : ∃ k, runRecords t ps k₀ = some k ∧ k.store.WF ∧ k.store.size = max n 1 ∧
    k.store.view t = x.server.keyspace.store.view t

/-- A record that reproduces a request keeps the replay at the server's heels. -/
theorem Follows.record (h : Follows n t k₀ w₀ x ps) (hi : Restorable t x i) {r : Request}
    {c : Command} (hwritten : x.written i = [((x.sessions i.client).selected, r)])
    (hr : Reproduces i.now (x.sessions i.client).selected (x.server.keyspace.store.view i.now)
      ((x.step i).server.keyspace.store.view i.now) r c) :
    ∃ k, runRecords t (ps ++ x.written i) k₀ = some k ∧ k.store.WF ∧ k.store.size = max n 1 ∧
      k.store.view t = (x.step i).server.keyspace.store.view t := by
  obtain ⟨k, hrun, hwf, hsize, hview⟩ := h.replayed
  have hearly : ¬TooLate r := by
    intro hlate
    obtain ⟨key, e, d, he, hd, hlt⟩ := hr.late hlate
    have hmem := Store.mem_deadlines_of_view (h.sound.step i).wf he hd
    exact Nat.not_le_of_lt hlt (hi.deadlines d hmem)
  have hread := hr.read hearly
  have hselected : (x.sessions i.client).selected < k.store.size := by
    rw [hsize]
    exact h.sound.selected i.client
  have hran := ran_of_read t hread hr.loggable hwf hselected
  refine ⟨(c.run t ⟨(x.sessions i.client).selected⟩ k).keyspace, ?_, hran.wf,
    Command.run_size.trans hsize, ?_⟩
  · rw [hwritten, runRecords_append, hrun, Option.bind_some, runRecords_cons hread]
    rfl
  · have hwf' := (h.sound.step i).wf
    rw [hran.view, hview, ← hi.before.view_eq h.sound.wf, ← hi.after.view_eq hwf']
    exact hr.effect t (hi.before.view_uncrossed h.sound.wf _) (hi.after.view_uncrossed hwf' _)

theorem Follows.step (h : Follows n t k₀ w₀ x ps) (hi : Restorable t x i) :
    Follows n t k₀ w₀ (x.step i) (ps ++ x.written i) := by
  have hx := h.sound.executes i
  have hlog : (x.step i).server.log = some (w₀.appendEach (ps ++ x.written i)) := by
    rw [Writer.appendEach_append]
    show (x.server.execute _ _ _).server.log = _
    rw [Server.execute_log, h.log]
    rfl
  have hsome : x.server.log.isSome = true := by
    rw [h.log]
    rfl
  rcases hx.logged hsome with ⟨hwritten, hview⟩ | ⟨r, c, hwritten, hr⟩
  · refine ⟨h.sound.step i, hlog, ?_, ?_, ?_⟩
    · rw [hwritten, List.append_nil]
      exact h.records
    · rw [hwritten, List.append_nil]
      exact h.places
    · obtain ⟨k, hrun, hwf, hsize, hk⟩ := h.replayed
      rw [hwritten, List.append_nil]
      refine ⟨k, hrun, hwf, hsize, hk.trans ?_⟩
      rw [← hi.before.view_eq h.sound.wf, ← hi.after.view_eq (h.sound.step i).wf]
      exact hview.symm
  · refine ⟨h.sound.step i, hlog, ?_, ?_, h.record hi hwritten hr⟩
    · intro p hp
      rcases List.mem_append.mp hp with hp | hp
      · exact h.records p hp
      · refine ⟨?_, hi.limits p hp⟩
        rw [hwritten, List.mem_singleton] at hp
        rw [hp]
        exact hr.isRecord
    · intro p hp
      rcases List.mem_append.mp hp with hp | hp
      · exact h.places p hp
      · rw [hwritten, List.mem_singleton] at hp
        rw [hp]
        exact ⟨h.sound.selected i.client, h.sound.selected_le i.client⟩

theorem follows_start (n t : Nat) (g g' : Draws) (policy : SyncPolicy) :
    Follows n t ⟨.new n, g'⟩ (.openFile [] policy) (start n g policy) [] where
  sound := ⟨Store.wf_new n, Store.size_new n, fun _ => by show 0 < max n 1; omega,
    fun _ => Nat.zero_le _⟩
  log := rfl
  records := nofun
  places := nofun
  replayed := ⟨⟨.new n, g'⟩, rfl, Store.wf_new n, Store.size_new n, rfl⟩

theorem follows_run {is : List Issued} (g' : Draws)
    (h : ∀ k (hk : k < is.length), Restorable t ((start n g policy).run (is.take k)) is[k]) :
    ∃ ps, Follows n t ⟨.new n, g'⟩ (.openFile [] policy) ((start n g policy).run is) ps := by
  induction is using List.reverseRecOn with
  | nil => exact ⟨[], follows_start n t g g' policy⟩
  | append_singleton is i ih =>
    have hlen : is.length < (is ++ [i]).length := by simp
    obtain ⟨ps, hps⟩ := ih fun k hk => by
      have hstep := h k (Nat.lt_trans hk hlen)
      rw [List.take_append_of_le_length (Nat.le_of_lt hk), List.getElem_append_left hk] at hstep
      exact hstep
    have hlast := h is.length hlen
    rw [List.take_left, List.getElem_concat_length rfl] at hlast
    rw [run_snoc]
    exact ⟨_, hps.step hlast⟩

/-- A replay of the file that a server has written from nothing succeeds and shows in every database
what the server shows, provided that no deadline comes between, that a reader of integers takes all
of them, and that no record is beyond the limits of a request. -/
theorem replay_restores (n t : Nat) (g g' : Draws) (policy : SyncPolicy) (is : List Issued)
    (h : ∀ k (hk : k < is.length), Restorable t ((start n g policy).run (is.take k)) is[k]) :
    let x := (start n g policy).run is
    let out := Log.replay t ⟨.new n, g'⟩ x.contents
    out.Succeeds ∧ out.unread = 0 ∧
      out.keyspace.store.size = x.server.keyspace.store.size ∧
      ∀ i, (out.keyspace.store.db i).view t = (x.server.keyspace.store.db i).view t := by
  obtain ⟨ps, hps⟩ := follows_run g' h
  obtain ⟨k, hrun, hwf, hsize, hview⟩ := hps.replayed
  have hcontents : ((start n g policy).run is).contents = file policy ps := by
    rw [contents, hps.log]
    rfl
  have hplaces : ∀ p ∈ ps, p.1 < (Store.new n).size := by
    rw [Store.size_new]
    exact fun p hp => (hps.places p hp).1
  have hreplay := replay_file (k := ⟨.new n, g'⟩) policy k
    (fun p hp => ⟨(hps.records p hp).1, (hps.places p hp).2⟩) (fun p hp => (hps.records p hp).2)
    ((congrArg (runRecords t · _) (landing_eq_self hplaces 0)).trans hrun)
  rw [← hcontents] at hreplay
  dsimp only
  rw [hreplay]
  refine ⟨⟨_, rfl⟩, rfl, hsize.trans hps.sound.size.symm, fun i => congrFun hview i⟩

end Serving

namespace Serving

/-- Two clients of two databases, with a deadline and a random removal among their requests. -/
def twoClients : List Issued := [
  ⟨0, 5, ["SET", "k", "v", "PX", "100"].map word⟩,
  ⟨1, 6, ["SELECT", "1"].map word⟩,
  ⟨1, 7, ["RPUSH", "l", "a", "b"].map word⟩,
  ⟨0, 9, ["SADD", "s", "x", "y"].map word⟩,
  ⟨0, 9, ["SPOP", "s"].map word⟩,
  ⟨0, 20, ["INCR", "l"].map word⟩]

theorem twoClients_restored :
    let x := (start 2 ⟨fun _ => 0, 0⟩ .always).run twoClients
    let out := Log.replay 50 ⟨.new 2, ⟨fun _ => 1, 0⟩⟩ x.contents
    out.Succeeds ∧ out.unread = 0 ∧
      out.keyspace.store.size = x.server.keyspace.store.size ∧
      ∀ i, (out.keyspace.store.db i).view 50 = (x.server.keyspace.store.db i).view 50 :=
  replay_restores 2 50 _ _ .always twoClients (by decide +kernel)

end Serving

end RespStore
