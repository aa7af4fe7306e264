import RespStore.Log.Replay
import RespStore.Proofs.Log.Record
import RespStore.Proofs.Log.Writer
import RespStore.Proofs.Protocol.Decoder

/-!
# Replaying a log file

Replaying a file runs its requests one after the other. The requests that select databases only
tell where the records land: each in its own database, if there is one with its number, and
otherwise where the record before did.
-/

namespace RespStore.Log

/-- A replay that comes to the end of its file. -/
def Replayed.Succeeds (r : Replayed) : Prop := ∃ count, r.result = .ok count

instance (r : Replayed) : Decidable r.Succeeds :=
  match h : r.result with
  | .ok count => isTrue ⟨count, h⟩
  | .error _ => isFalse fun ⟨_, hcount⟩ => by rw [h] at hcount; cases hcount

variable [Digest String] [Matcher] {now total index : Nat} {d : Decoder} {s s' : Session}
  {k k' : Keyspace} {r : Request} {rs rs' : List Request} {rest : Bytes}

/-! ## Requests in a row -/

/-- The session and the keyspace after requests one after the other, unless one is refused. -/
def runRequests (now : Nat) : List Request → Session → Keyspace → Option (Session × Keyspace)
  | [], s, k => some (s, k)
  | r :: rs, s, k =>
    match Command.ofFrame r.toFrame with
    | .error _ => none
    | .ok c => runRequests now rs (c.run now s k).session (c.run now s k).keyspace

theorem runRequests_cons {c : Command} (h : Command.ofFrame r.toFrame = .ok c) :
    runRequests now (r :: rs) s k =
      runRequests now rs (c.run now s k).session (c.run now s k).keyspace := by
  rw [runRequests, h]

theorem replayFrom_eq (buf : Bytes) :
    replayFrom total now d s k index buf =
      match (d.decode buf).result with
      | .ok none => ⟨k, (d.decode buf).buffer.length, .ok index⟩
      | .error e => ⟨k, 0, .error (.corrupt (total - (d.decode buf).buffer.length) e)⟩
      | .ok (some r) =>
        match Command.ofFrame r.toFrame with
        | .error e => ⟨k, 0, .error (.refused index e)⟩
        | .ok c =>
          replayFrom total now (d.decode buf).decoder (c.run now s k).session
            (c.run now s k).keyspace (index + 1) (d.decode buf).buffer := by
  rw [replayFrom]
  split
  · next h => rw [h]
  · next e h => rw [h]
  · next r h => cases hc : Command.ofFrame r.toFrame <;> simp only [h, hc]

/-- What becomes of a replay at a request within the limits. -/
theorem replayFrom_cons (hr : r ≠ []) (hlimits : r.WithinLimits) (hd : d.pending = none) :
    replayFrom total now d s k index (Writer.encode r ++ rest) =
      match Command.ofFrame r.toFrame with
      | .error e => ⟨k, 0, .error (.refused index e)⟩
      | .ok c =>
        replayFrom total now d (c.run now s k).session (c.run now s k).keyspace (index + 1) rest := by
  have hdecode : d.decode (Writer.encode r ++ rest) = ⟨d, rest, .ok (some r)⟩ :=
    Decoder.decode_serialize hr hlimits hd rest
  rw [replayFrom_eq, hdecode]

theorem replayFrom_cons_error (hr : r ≠ []) (hlimits : ¬r.WithinLimits) (hd : d.pending = none) :
    ∃ e, (replayFrom total now d s k index (Writer.encode r ++ rest)).result = .error e := by
  obtain ⟨e, he⟩ := Decoder.decode_serialize_error hr hlimits hd rest
  rw [replayFrom_eq, Writer.encode, he]
  exact ⟨_, rfl⟩

theorem replayFrom_nil : replayFrom total now d s k index [] = ⟨k, 0, .ok index⟩ := by
  have hdecode : d.decode [] = ⟨d, [], .ok none⟩ := by
    rw [Decoder.decode, dif_pos rfl]
  rw [replayFrom_eq, hdecode]
  rfl

/-- A replay of requests that are within the limits and accepted runs them all. -/
theorem replayFrom_requests (hr : ∀ r ∈ rs, r ≠ [] ∧ r.WithinLimits) (hd : d.pending = none)
    (hrun : runRequests now rs s k = some (s', k')) :
    replayFrom total now d s k index (rs.flatMap Writer.encode) =
      ⟨k', 0, .ok (index + rs.length)⟩ := by
  induction rs generalizing s k index with
  | nil =>
    cases hrun
    exact replayFrom_nil
  | cons r rs ih =>
    obtain ⟨hne, hlimits⟩ := hr r List.mem_cons_self
    rw [List.flatMap_cons, replayFrom_cons hne hlimits hd]
    cases hc : Command.ofFrame r.toFrame with
    | error e =>
      rw [runRequests, hc] at hrun
      cases hrun
    | ok c =>
      rw [runRequests_cons hc] at hrun
      have hrest : replayFrom total now d _ _ (index + 1) (rs.flatMap Writer.encode) = _ :=
        ih (fun r h => hr r (List.mem_cons_of_mem _ h)) hrun
      rw [List.length_cons, Nat.add_comm rs.length, ← Nat.add_assoc]
      exact hrest

/-- A replay that succeeds has run every request. -/
theorem runRequests_of_replayFrom (hr : ∀ r ∈ rs, r ≠ []) (hd : d.pending = none) {n : Nat}
    (h : (replayFrom total now d s k index (rs.flatMap Writer.encode)).result = .ok n) :
    (∀ r ∈ rs, r.WithinLimits) ∧ ∃ s', runRequests now rs s k =
      some (s', (replayFrom total now d s k index (rs.flatMap Writer.encode)).keyspace) := by
  induction rs generalizing s k index with
  | nil =>
    refine ⟨nofun, s, ?_⟩
    rw [List.flatMap_nil, replayFrom_nil]
    rfl
  | cons r rs ih =>
    have hne := hr r List.mem_cons_self
    by_cases hlimits : r.WithinLimits
    · rw [List.flatMap_cons, replayFrom_cons hne hlimits hd] at h ⊢
      cases hc : Command.ofFrame r.toFrame with
      | error e =>
        rw [hc] at h
        cases h
      | ok c =>
        rw [hc] at h
        obtain ⟨hwithin, s', hrun⟩ := ih (fun r h => hr r (List.mem_cons_of_mem _ h)) h
        refine ⟨?_, s', ?_⟩
        · intro r' hr'
          rcases List.mem_cons.mp hr' with rfl | hr'
          · exact hlimits
          · exact hwithin r' hr'
        · rw [runRequests_cons hc]
          exact hrun
    · rw [List.flatMap_cons] at h
      obtain ⟨e, he⟩ := replayFrom_cons_error hne hlimits hd
      rw [he] at h
      cases h

/-- Whatever a file holds, a replay keeps to what databases are. -/
theorem replayFrom_wf (hk : k.store.WF) (hs : s.selected < k.store.size) (buf : Bytes) :
    (replayFrom total now d s k index buf).keyspace.store.WF ∧
      (replayFrom total now d s k index buf).keyspace.store.size = k.store.size := by
  fun_induction replayFrom total now d s k index buf with
  | case1 => exact ⟨hk, rfl⟩
  | case2 => exact ⟨hk, rfl⟩
  | case3 => exact ⟨hk, rfl⟩
  | case4 d s k index buf o r ho c hc e ih =>
    obtain ⟨spec, name, args, hread⟩ := Command.exists_readAs hc
    obtain ⟨popped, hran⟩ := Command.exists_ran now hk hs hread.fits.proper
    have hsize : e.keyspace.store.size = k.store.size := Command.run_size
    have hselected : e.session.selected < e.keyspace.store.size := by
      rw [hsize]
      exact hran.selected
    rw [← hsize]
    exact ih hran.wf hselected

theorem runRequests_wf (hk : k.store.WF) (hs : s.selected < k.store.size)
    (h : runRequests now rs s k = some (s', k')) :
    k'.store.WF ∧ k'.store.size = k.store.size := by
  induction rs generalizing s k with
  | nil =>
    cases h
    exact ⟨hk, rfl⟩
  | cons r rs ih =>
    cases hc : Command.ofFrame r.toFrame with
    | error e =>
      rw [runRequests, hc] at h
      cases h
    | ok c =>
      rw [runRequests_cons hc] at h
      obtain ⟨spec, name, args, hread⟩ := Command.exists_readAs hc
      obtain ⟨popped, hran⟩ := Command.exists_ran now hk hs hread.fits.proper
      have hsize : (c.run now s k).keyspace.store.size = k.store.size := Command.run_size
      have hselected := hran.selected
      rw [← hsize] at hselected ⊢
      exact ih hran.wf hselected h

theorem runRequests_append :
    runRequests now (rs ++ rs') s k =
      (runRequests now rs s k).bind fun x => runRequests now rs' x.1 x.2 := by
  induction rs generalizing s k with
  | nil => rfl
  | cons r rs ih =>
    cases hc : Command.ofFrame r.toFrame with
    | error e =>
      rw [List.cons_append, runRequests, runRequests, hc]
      rfl
    | ok c =>
      rw [List.cons_append, runRequests_cons hc, runRequests_cons hc]
      exact ih

/-! ## Where records land -/

/-- The database in which a record for `db` lands, of `m`, where the one before landed in `j`. -/
def place (m j db : Nat) : Nat := if db < m then db else j

omit [Digest String] [Matcher] in
theorem place_of_lt {m j db : Nat} (h : db < m) : place m j db = db := if_pos h

omit [Digest String] [Matcher] in
theorem place_place {m j db : Nat} : place m (place m j db) db = place m j db := by
  unfold place
  split <;> rfl

omit [Digest String] [Matcher] in
theorem place_lt {m j : Nat} (hj : j < m) (db : Nat) : place m j db < m := by
  unfold place
  split
  · assumption
  · exact hj

/-- Records with the databases in which they land. -/
def landing (m : Nat) : Nat → List (Nat × Request) → List (Nat × Request)
  | _, [] => []
  | j, (db, r) :: ps => (place m j db, r) :: landing m (place m j db) ps

/-- Runs records one after the other, each in the database that comes with it. -/
def runRecords (now : Nat) : List (Nat × Request) → Keyspace → Option Keyspace
  | [], k => some k
  | (i, r) :: ps, k =>
    match Command.ofFrame r.toFrame with
    | .error _ => none
    | .ok c => runRecords now ps (c.run now ⟨i⟩ k).keyspace

variable {ps qs : List (Nat × Request)} {i j db m : Nat}

theorem runRecords_cons {c : Command} (h : Command.ofFrame r.toFrame = .ok c) :
    runRecords now ((i, r) :: ps) k = runRecords now ps (c.run now ⟨i⟩ k).keyspace := by
  rw [runRecords, h]

theorem runRecords_append :
    runRecords now (ps ++ qs) k = (runRecords now ps k).bind (runRecords now qs) := by
  induction ps generalizing k with
  | nil => rfl
  | cons p ps ih =>
    obtain ⟨i, r⟩ := p
    cases hc : Command.ofFrame r.toFrame with
    | error e =>
      rw [List.cons_append, runRecords, runRecords, hc]
      rfl
    | ok c =>
      rw [List.cons_append, runRecords_cons hc, runRecords_cons hc]
      exact ih

omit [Digest String] [Matcher] in
/-- Where there is a database for each record, they all land in their own. -/
theorem landing_eq_self (h : ∀ p ∈ ps, p.1 < m) (j : Nat) : landing m j ps = ps := by
  induction ps generalizing j with
  | nil => rfl
  | cons p ps ih =>
    obtain ⟨db, r⟩ := p
    rw [landing, place_of_lt (h _ List.mem_cons_self), ih fun p hp => h p (List.mem_cons_of_mem _ hp)]

omit [Digest String] [Matcher] in
theorem landing_lt (hj : j < m) : ∀ p ∈ landing m j ps, p.1 < m := by
  induction ps generalizing j with
  | nil => exact nofun
  | cons p ps ih =>
    intro q hq
    rcases List.mem_cons.mp hq with rfl | hq
    · exact place_lt hj _
    · exact ih (place_lt hj _) q hq

omit [Digest String] [Matcher] in
theorem mem_landing {p : Nat × Request} (h : p ∈ landing m j ps) : ∃ q ∈ ps, p.2 = q.2 := by
  induction ps generalizing j with
  | nil => cases h
  | cons q ps ih =>
    rcases List.mem_cons.mp h with rfl | h
    · exact ⟨q, List.mem_cons_self, rfl⟩
    · obtain ⟨q', hq', heq⟩ := ih h
      exact ⟨q', List.mem_cons_of_mem _ hq', heq⟩

omit [Digest String] [Matcher] in
theorem map_snd_landing (m j : Nat) (ps : List (Nat × Request)) :
    (landing m j ps).map (·.2) = ps.map (·.2) := by
  induction ps generalizing j with
  | nil => rfl
  | cons p ps ih => exact congrArg (p.2 :: ·) (ih _)

omit [Digest String] [Matcher] in
/-- What is put behind records lands where they have left it to land. -/
theorem landing_snoc (hj : j < m) (ps : List (Nat × Request)) (p : Nat × Request) :
    ∃ i < m, landing m j (ps ++ [p]) = landing m j ps ++ [(place m i p.1, p.2)] := by
  induction ps generalizing j with
  | nil => exact ⟨j, hj, rfl⟩
  | cons q ps ih =>
    obtain ⟨i, hi, heq⟩ := ih (place_lt hj q.1)
    exact ⟨i, hi, congrArg _ heq⟩

/-- Whether records run to their end is up to their requests. -/
theorem exists_runRecords_iff : (∃ k', runRecords now ps k = some k') ↔
    ∀ r ∈ ps.map (·.2), ∃ c, Command.ofFrame r.toFrame = .ok c := by
  induction ps generalizing k with
  | nil => exact iff_of_true ⟨k, rfl⟩ nofun
  | cons p ps ih =>
    obtain ⟨i, r⟩ := p
    rw [List.map_cons, List.forall_mem_cons]
    cases hc : Command.ofFrame r.toFrame with
    | error e =>
      refine iff_of_false ?_ ?_
      · rintro ⟨k', hk'⟩
        rw [runRecords, hc] at hk'
        cases hk'
      · rintro ⟨⟨c, ⟨⟩⟩, -⟩
    | ok c =>
      rw [runRecords_cons hc, ih, and_iff_right ⟨c, rfl⟩]

/-- Running the requests of a file is running the records where they land. -/
theorem runRequests_requests (hps : ∀ p ∈ ps, IsRecord p.2 ∧ p.1 ≤ Command.maxInteger)
    {selected : Option Nat} (hj : ∀ db, selected = some db → place k.store.size j db = j) :
    ∃ s, runRequests now (Writer.requests selected ps) ⟨j⟩ k =
      (runRecords now (landing k.store.size j ps) k).map (s, ·) := by
  induction ps generalizing selected j k with
  | nil => exact ⟨⟨j⟩, rfl⟩
  | cons p ps ih =>
    obtain ⟨db, r⟩ := p
    obtain ⟨hrecord, hdb⟩ := hps _ List.mem_cons_self
    have hstart : runRequests now (Writer.requests selected ((db, r) :: ps)) ⟨j⟩ k =
        runRequests now (r :: Writer.requests (some db) ps) ⟨place k.store.size j db⟩ k := by
      rw [Writer.requests]
      split
      · next hsame => rw [hj db hsame]
      · have hselect : Command.ofFrame (Writer.selectRecord db).toFrame = .ok (.server (.select db)) :=
          Command.ofFrame_selectRecord hdb
        have hrun : Command.run (.server (.select db)) now ⟨j⟩ k = _ :=
          Command.runSelect_eq now ⟨j⟩ k db
        rw [runRequests_cons hselect, hrun, place]
        split <;> rfl
    rw [hstart, landing]
    generalize hi : place k.store.size j db = i
    cases hc : Command.ofFrame r.toFrame with
    | error e =>
      refine ⟨⟨i⟩, ?_⟩
      rw [runRequests, runRecords, hc]
      rfl
    | ok c =>
      rw [runRequests_cons hc, runRecords_cons hc,
        Command.run_session (hrecord.loggable c hc).stays]
      have hsize : (c.run now ⟨i⟩ k).keyspace.store.size = k.store.size := Command.run_size
      have hkept : ∀ db', some db = some db' → place (c.run now ⟨i⟩ k).keyspace.store.size i db' = i := by
        rintro _ ⟨⟩
        rw [hsize, ← hi]
        exact place_place
      obtain ⟨s, hs⟩ := ih (fun p hp => hps p (List.mem_cons_of_mem _ hp)) hkept
      rw [hsize] at hs
      exact ⟨s, hs⟩

/-! ## Files -/

omit [Digest String] [Matcher] in
/-- Something holds of every beginning of a list just when no element of it is where it stops to. -/
theorem forall_prefix_iff {α : Type} {P : List α → Prop} {H : List α → α → Prop} {as : List α}
    (h₀ : P []) (hstep : ∀ bs a, bs ++ [a] <+: as → P bs → (P (bs ++ [a]) ↔ H bs a)) :
    (∀ bs, bs <+: as → P bs) ↔ ∀ bs a, bs ++ [a] <+: as → H bs a := by
  constructor
  · intro hP bs a hbs
    exact (hstep bs a hbs (hP bs ((List.prefix_append bs [a]).trans hbs))).mp (hP _ hbs)
  · intro hH bs
    induction bs using List.reverseRecOn with
    | nil => exact fun _ => h₀
    | append_singleton bs a ih =>
      intro hbs
      have hbefore := ih ((List.prefix_append bs [a]).trans hbs)
      exact (hstep bs a hbs hbefore).mpr (hH bs a hbs)

/-- What a file holds that had nothing in it before the records were appended. -/
def file (policy : SyncPolicy) (ps : List (Nat × Request)) : Bytes :=
  ((Writer.openFile [] policy).appendEach ps).contents

omit [Digest String] [Matcher] in
theorem selectRecord_withinLimits (h : db ≤ Command.maxInteger) :
    (Writer.selectRecord db).WithinLimits where
  count := by
    show 2 ≤ Limits.arguments
    decide
  sizes := by
    have hlen : (Decimal.ofNat db).length ≤ 19 :=
      Decimal.length_ofNat_le (k := 18) (Nat.lt_of_le_of_lt h (by decide))
    have hbulk : Limits.bulk = 536870912 := rfl
    intro a ha
    rcases List.mem_cons.mp ha with rfl | ha
    · show 6 ≤ Limits.bulk
      decide
    · obtain rfl := List.mem_singleton.mp ha
      omega

variable {policy : SyncPolicy}

/-- A replay of records that are within the limits and accepted succeeds. -/
theorem replay_file (policy : SyncPolicy) (k' : Keyspace)
    (hps : ∀ p ∈ ps, IsRecord p.2 ∧ p.1 ≤ Command.maxInteger)
    (hlimits : ∀ p ∈ ps, p.2.WithinLimits)
    (hrun : runRecords now (landing k.store.size 0 ps) k = some k') :
    replay now k (file policy ps) = ⟨k', 0, .ok (0 + (Writer.requests none ps).length)⟩ := by
  obtain ⟨s, hs⟩ : ∃ s, runRequests now (Writer.requests none ps) ⟨0⟩ k = _ :=
    runRequests_requests hps nofun
  rw [hrun] at hs
  rw [file, Writer.contents_openFile]
  refine replayFrom_requests (fun r hr => ?_) rfl hs
  rcases Writer.mem_requests hr with ⟨p, hp, rfl⟩ | ⟨p, hp, rfl⟩
  · exact ⟨List.cons_ne_nil _ _, selectRecord_withinLimits (hps p hp).2⟩
  · exact ⟨(hps p hp).1.ne_nil, hlimits p hp⟩

/-- A replay that succeeds has run the records where they land. -/
theorem runRecords_of_replay {count : Nat}
    (hps : ∀ p ∈ ps, IsRecord p.2 ∧ p.1 ≤ Command.maxInteger)
    (h : (replay now k (file policy ps)).result = .ok count) :
    (∀ p ∈ ps, p.2.WithinLimits) ∧ runRecords now (landing k.store.size 0 ps) k =
      some (replay now k (file policy ps)).keyspace := by
  obtain ⟨s, hs⟩ : ∃ s, runRequests now (Writer.requests none ps) ⟨0⟩ k = _ :=
    runRequests_requests hps nofun
  have hne : ∀ r ∈ Writer.requests none ps, r ≠ [] := by
    intro r hr
    rcases Writer.mem_requests hr with ⟨p, hp, rfl⟩ | ⟨p, hp, rfl⟩
    · exact List.cons_ne_nil _ _
    · exact (hps p hp).1.ne_nil
  have hreplay : replay now k (file policy ps) =
      replayFrom (file policy ps).length now .default .new k 0
        ((Writer.requests none ps).flatMap Writer.encode) := by
    rw [replay, file, Writer.contents_openFile]
  rw [hreplay] at h ⊢
  obtain ⟨hwithin, s', hrun⟩ := runRequests_of_replayFrom hne rfl h
  refine ⟨fun p hp => hwithin p.2 (Writer.mem_requests_of_mem hp), ?_⟩
  rw [show Session.new = ⟨0⟩ from rfl, hs] at hrun
  obtain ⟨k', hk', heq⟩ := Option.map_eq_some_iff.mp hrun
  rw [hk']
  exact congrArg (fun p => some p.2) heq

variable (now) in
theorem replay_wf (hk : k.store.WF) (hsize : 0 < k.store.size) (buf : Bytes) :
    (replay now k buf).keyspace.store.WF ∧
      (replay now k buf).keyspace.store.size = k.store.size :=
  replayFrom_wf (s := .new) hk hsize buf

/-- Whether a replay comes to the end of a file is up to the records alone. -/
theorem replay_ok_iff (hps : ∀ p ∈ ps, IsRecord p.2 ∧ p.1 ≤ Command.maxInteger) :
    (replay now k (file policy ps)).Succeeds ↔
      ∀ r ∈ ps.map (·.2), r.WithinLimits ∧ ∃ c, Command.ofFrame r.toFrame = .ok c := by
  constructor
  · rintro ⟨count, hcount⟩
    obtain ⟨hwithin, hrun⟩ := runRecords_of_replay hps hcount
    have haccepted := exists_runRecords_iff.mp ⟨_, hrun⟩
    rw [map_snd_landing] at haccepted
    exact fun r hr => ⟨List.forall_mem_map.mpr hwithin r hr, haccepted r hr⟩
  · intro hgood
    obtain ⟨k', hk'⟩ : ∃ k', runRecords now (landing k.store.size 0 ps) k = some k' := by
      rw [exists_runRecords_iff, map_snd_landing]
      exact fun r hr => (hgood r hr).2
    rw [replay_file policy k' hps
      (fun p hp => (hgood p.2 (List.mem_map_of_mem hp)).1) hk']
    exact ⟨_, rfl⟩

/-- The last record of a file runs after all others, where they leave it to land. -/
theorem replay_snoc {p : Nat × Request} (hk : k.store.WF) (hsize : 0 < k.store.size)
    (hps : ∀ q ∈ ps ++ [p], IsRecord q.2 ∧ q.1 ≤ Command.maxInteger)
    (h : (replay now k (file policy (ps ++ [p]))).Succeeds) :
    let before := replay now k (file policy ps)
    before.Succeeds ∧ before.keyspace.store.WF ∧
      ∃ c, Command.ofFrame p.2.toFrame = .ok c ∧ ∃ j < k.store.size, ∃ e,
        Command.Ran now ⟨place k.store.size j p.1⟩ before.keyspace c [] e ∧
          (replay now k (file policy (ps ++ [p]))).keyspace = e.keyspace := by
  have hps' : ∀ q ∈ ps, IsRecord q.2 ∧ q.1 ≤ Command.maxInteger :=
    fun q hq => hps q (List.mem_append_left _ hq)
  have hrecord := (hps p (List.mem_append_right _ List.mem_cons_self)).1
  have hgood := (replay_ok_iff hps).mp h
  rw [List.map_append] at hgood
  have hok : (replay now k (file policy ps)).Succeeds :=
    (replay_ok_iff hps').mpr fun r hr => hgood r (List.mem_append_left _ hr)
  obtain ⟨-, c, hc⟩ := hgood p.2 (List.mem_append_right _ List.mem_cons_self)
  obtain ⟨count, hcount⟩ := hok
  obtain ⟨count', hcount'⟩ := h
  obtain ⟨-, hrun⟩ := runRecords_of_replay hps' hcount
  obtain ⟨-, hrun'⟩ := runRecords_of_replay hps hcount'
  obtain ⟨j, hj, hland⟩ := landing_snoc hsize ps p
  rw [hland, runRecords_append, hrun, Option.bind_some, runRecords_cons hc] at hrun'
  obtain ⟨hwf, hsame⟩ := replay_wf now hk hsize (file policy ps)
  have hplace := (place_lt hj p.1).trans_eq hsame.symm
  exact ⟨⟨count, hcount⟩, hwf, c, hc, j, hj, _, ran_of_read now hc (hrecord.loggable c hc) hwf hplace,
    (Option.some.inj hrun').symm⟩

end RespStore.Log
