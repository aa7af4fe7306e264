import RespStore.Proofs.Serving
import RespStore.Text.Fingerprint

/-!
# Databases after a replay

After a replay every database is as the requests leave it, run on their own, whose records land in
it, with those that clear every database. The records for a database that there is not land in
another one, and this goes unnoticed only as long as they change nothing there.
-/

namespace RespStore

open Log

namespace Log

variable [Digest String] {t m i : Nat} {k k' k₂ : Keyspace} {ps : List (Nat × Request)}

/-- Whether a request is read as one that clears every database. -/
def flushes (r : Request) : Bool :=
  match Command.ofFrame r.toFrame with
  | .ok c => c.isFlushAll
  | .error _ => false

omit [Digest String] in
theorem flushes_eq {r : Request} {c : Command} (h : Command.ofFrame r.toFrame = .ok c) :
    flushes r = c.isFlushAll := by
  rw [flushes, h]

/-- The requests recorded for a database, and those that clear every database. -/
def concerning (i : Nat) (ps : List (Nat × Request)) : List Request :=
  (ps.filter fun p => p.1 == i || flushes p.2).map (·.2)

omit [Digest String] in
theorem concerning_singleton (i : Nat) (p : Nat × Request) :
    concerning i [p] = if p.1 = i ∨ flushes p.2 = true then [p.2] else [] := by
  unfold concerning
  rw [List.filter_singleton]
  by_cases h : p.1 = i ∨ flushes p.2 = true
  · have hkeep : (p.1 == i || flushes p.2) = true := by simpa using h
    rw [if_pos h, hkeep]
    rfl
  · have hdrop : (p.1 == i || flushes p.2) = false := by simpa using h
    rw [if_neg h, hdrop]
    rfl

omit [Digest String] in
theorem concerning_append (i : Nat) (ps qs : List (Nat × Request)) :
    concerning i (ps ++ qs) = concerning i ps ++ concerning i qs := by
  unfold concerning
  rw [List.filter_append, List.map_append]

/-- A record that neither is for a database nor clears every one leaves the database as it is. -/
theorem view_of_not_concerning {j : Nat} {c : Command} {e : Command.Effect}
    (hran : Command.Ran t ⟨j⟩ k c [] e) (hji : j ≠ i) (hflush : c.isFlushAll = false) :
    e.keyspace.store.view t i = k.store.view t i := by
  rw [hran.view, Command.effect, hflush]
  exact Function.update_of_ne hji.symm _ _

/-- A record does the same to a database wherever that shows the same. -/
theorem view_congr_of_concerning {j : Nat} {c : Command} {e e₂ : Command.Effect}
    (hran : Command.Ran t ⟨j⟩ k c [] e) (hran₂ : Command.Ran t ⟨i⟩ k₂ c [] e₂)
    (hji : j = i ∨ c.isFlushAll = true) (hview : k.store.view t i = k₂.store.view t i) :
    e.keyspace.store.view t i = e₂.keyspace.store.view t i := by
  rw [hran.view, hran₂.view, Command.effect, Command.effect]
  cases hflush : c.isFlushAll with
  | true => rfl
  | false =>
    rcases hji with rfl | hji
    · show Function.update _ j _ j = Function.update _ j _ j
      rw [Function.update_self, Function.update_self, hview]
    · rw [hflush] at hji
      cases hji

variable [Matcher]

/-- One more record runs behind those that concern a database, or is left out. -/
theorem runRequests_concerning_snoc {p : Nat × Request} {c : Command}
    (hc : Command.ofFrame p.2.toFrame = .ok c) (hstays : c.isSelect = false)
    (h : runRequests t (concerning i ps) ⟨i⟩ k = some (⟨i⟩, k₂)) :
    runRequests t (concerning i (ps ++ [p])) ⟨i⟩ k =
      some (⟨i⟩, if p.1 = i ∨ c.isFlushAll = true then (c.run t ⟨i⟩ k₂).keyspace else k₂) := by
  rw [concerning_append, concerning_singleton, flushes_eq hc, runRequests_append, h,
    Option.bind_some]
  split
  · rw [runRequests_cons hc, Command.run_session hstays]
    rfl
  · rfl

/-- A database shows after records what it shows after those alone that concern it. -/
theorem runRecords_concerning (hps : ∀ p ∈ ps, IsRecord p.2 ∧ p.1 < m) (hi : i < m)
    (hk : k.store.WF) (hsize : k.store.size = m) (hk₂ : k₂.store.WF) (hsize₂ : k₂.store.size = m)
    (hview : k.store.view t i = k₂.store.view t i) (hrun : runRecords t ps k = some k') :
    ∃ k₂', runRequests t (concerning i ps) ⟨i⟩ k₂ = some (⟨i⟩, k₂') ∧
      k'.store.view t i = k₂'.store.view t i := by
  induction ps generalizing k k₂ with
  | nil =>
    cases hrun
    exact ⟨k₂, rfl, hview⟩
  | cons p ps ih =>
    obtain ⟨j, r⟩ := p
    obtain ⟨hrecord, hj⟩ := hps _ List.mem_cons_self
    have hps' : ∀ p ∈ ps, IsRecord p.2 ∧ p.1 < m := fun p hp => hps p (List.mem_cons_of_mem _ hp)
    cases hc : Command.ofFrame r.toFrame with
    | error e =>
      rw [runRecords, hc] at hrun
      cases hrun
    | ok c =>
      rw [runRecords_cons hc] at hrun
      have hloggable := hrecord.loggable c hc
      have hran := ran_of_read t hc hloggable hk (hj.trans_eq hsize.symm)
      have hran₂ := ran_of_read t hc hloggable hk₂ (hi.trans_eq hsize₂.symm)
      have hsize' : (c.run t ⟨j⟩ k).keyspace.store.size = m := Command.run_size.trans hsize
      have hsize₂' : (c.run t ⟨i⟩ k₂).keyspace.store.size = m := Command.run_size.trans hsize₂
      rw [← List.singleton_append, concerning_append, concerning_singleton, flushes_eq hc]
      by_cases hji : j = i ∨ c.isFlushAll = true
      · rw [if_pos hji, List.singleton_append, runRequests_cons hc,
          Command.run_session hloggable.stays]
        exact ih hps' hran.wf hsize' hran₂.wf hsize₂'
          (view_congr_of_concerning hran hran₂ hji hview) hrun
      · rw [if_neg hji]
        rw [not_or, Bool.not_eq_true] at hji
        exact ih hps' hran.wf hsize' hk₂ hsize₂
          ((view_of_not_concerning hran hji.1 hji.2).trans hview) hrun

end Log

namespace Serving

variable [Digest String] [Matcher] {n m t : Nat} {ps : List (Nat × Request)} {p : Nat × Request}
  {g g' : Draws} {policy : SyncPolicy}

/-- A replay of what a server has logged fails, or leaves in every database what the records leave
there, run on their own, that land in it, with those that clear every database. A record lands in its
own database if there is one with its number, and where the record before landed if there is none. -/
theorem replay_lands (hps : ∀ p ∈ ps, MayLog n p) (m t : Nat) (g g' : Draws)
    (policy : SyncPolicy) :
    let out := Log.replay t ⟨.new m, g⟩ (file policy ps)
    out.Succeeds → ∀ i < max m 1, ∃ k,
      runRequests t (concerning i (landing (max m 1) 0 ps)) ⟨i⟩ ⟨.new m, g'⟩ = some (⟨i⟩, k) ∧
        (out.keyspace.store.db i).view t = (k.store.db i).view t := by
  intro out hout i hi
  have hsize := Store.size_new m
  obtain ⟨count, hcount⟩ := hout
  obtain ⟨-, hrun⟩ := runRecords_of_replay (fun p hp => (hps p hp).isRecord) hcount
  rw [hsize] at hrun
  have hpos : 0 < max m 1 := Nat.lt_of_le_of_lt (Nat.zero_le i) hi
  have hlanding : ∀ p ∈ landing (max m 1) 0 ps, IsRecord p.2 ∧ p.1 < max m 1 := by
    intro p hp
    obtain ⟨q, hq, heq⟩ := mem_landing hp
    rw [heq]
    exact ⟨(hps q hq).isRecord.1, landing_lt hpos p hp⟩
  have hwf := Store.wf_new m
  have hview : (⟨.new m, g⟩ : Keyspace).store.view t i = (⟨.new m, g'⟩ : Keyspace).store.view t i := rfl
  exact runRecords_concerning hlanding hi hwf hsize hwf hsize hview hrun

/-- A replay that succeeds leaves in every database what the requests leave there, run on their own,
that were recorded for it, with those that clear every database. -/
def Owned (m t : Nat) (g g' : Draws) (policy : SyncPolicy) (ps : List (Nat × Request)) : Prop :=
  let out := Log.replay t ⟨.new m, g⟩ (file policy ps)
  out.Succeeds → ∀ i < max m 1, ∃ k,
    runRequests t (concerning i ps) ⟨i⟩ ⟨.new m, g'⟩ = some (⟨i⟩, k) ∧
      (out.keyspace.store.db i).view t = (k.store.db i).view t

/-- A record for a database that there is not, which a replay runs behind others, changes nothing
where it lands, unless it clears every database. -/
def Harmless (m t : Nat) (g : Draws) (policy : SyncPolicy) (ps : List (Nat × Request))
    (p : Nat × Request) : Prop :=
  let out := Log.replay t ⟨.new m, g⟩ (file policy (ps ++ [p]))
  let before := Log.replay t ⟨.new m, g⟩ (file policy ps)
  max m 1 ≤ p.1 → flushes p.2 = false → out.Succeeds → ∀ i < max m 1,
    (out.keyspace.store.db i).view t = (before.keyspace.store.db i).view t

/-- What one more record adds to the requests of a database. -/
theorem Owned.exists_snoc (h : Owned m t g g' policy ps)
    (hok : (Log.replay t ⟨.new m, g⟩ (file policy ps)).Succeeds) {c : Command}
    (hc : Command.ofFrame p.2.toFrame = .ok c) (hstays : c.isSelect = false) {i : Nat}
    (hi : i < max m 1) :
    ∃ k, runRequests t (concerning i (ps ++ [p])) ⟨i⟩ ⟨.new m, g'⟩ =
        some (⟨i⟩, if p.1 = i ∨ c.isFlushAll = true then (c.run t ⟨i⟩ k).keyspace else k) ∧
      (k.store.WF ∧ i < k.store.size) ∧
      (Log.replay t ⟨.new m, g⟩ (file policy ps)).keyspace.store.view t i = k.store.view t i := by
  obtain ⟨k, hrun, hview⟩ := h hok i hi
  have hi' : i < (Store.new m).size := hi.trans_eq (Store.size_new m).symm
  obtain ⟨hwf, hsame⟩ := runRequests_wf (Store.wf_new m) hi' hrun
  exact ⟨k, runRequests_concerning_snoc hc hstays hrun, ⟨hwf, hi'.trans_eq hsame.symm⟩, hview⟩

/-- One more record leaves the databases to their own records just when it is harmless. -/
theorem Owned.snoc_iff (hps : ∀ q ∈ ps ++ [p], MayLog n q) (h : Owned m t g g' policy ps) :
    Owned m t g g' policy (ps ++ [p]) ↔ Harmless m t g policy ps p := by
  by_cases hok : (Log.replay t ⟨.new m, g⟩ (file policy (ps ++ [p]))).Succeeds
  · have hsize : (Store.new m).size = max m 1 := Store.size_new m
    have hpos : 0 < (Store.new m).size := by omega
    obtain ⟨hbefore, -, c, hc, j, hj, e, hran, hlast⟩ := replay_snoc (k := ⟨.new m, g⟩)
      (Store.wf_new m) hpos (fun q hq => (hps q hq).isRecord) hok
    have hloggable := (hps p (List.mem_append_right _ List.mem_cons_self)).isRecord.1.loggable c hc
    have hown := fun {i} => h.exists_snoc hbefore hc hloggable.stays (i := i)
    constructor
    · intro howned hthere hflush _ i hi
      obtain ⟨k, hrun, -, hview⟩ := hown hi
      obtain ⟨k', hrun', hview'⟩ := howned hok i hi
      have hnot : ¬(p.1 = i ∨ c.isFlushAll = true) := by
        rw [← flushes_eq hc, hflush]
        rintro (rfl | hfalse)
        · exact Nat.not_lt_of_le hthere hi
        · cases hfalse
      rw [if_neg hnot, hrun'] at hrun
      obtain rfl : k' = k := by
        cases hrun
        rfl
      exact hview'.trans hview.symm
    · intro hharmless _ i hi
      obtain ⟨k, hrun, ⟨hwf', hi'⟩, hview⟩ := hown hi
      refine ⟨_, hrun, ?_⟩
      by_cases hconcerning : p.1 = i ∨ c.isFlushAll = true
      · have hran₂ := ran_of_read t hc hloggable hwf' hi'
        have hlands : place (Store.new m).size j p.1 = i ∨ c.isFlushAll = true := by
          refine hconcerning.imp_left fun hpi => ?_
          rw [hpi]
          exact place_of_lt (by omega)
        rw [hlast, if_pos hconcerning]
        exact view_congr_of_concerning hran hran₂ hlands hview
      · rw [if_neg hconcerning]
        rw [not_or, Bool.not_eq_true] at hconcerning
        refine Eq.trans ?_ hview
        by_cases hthere : p.1 < max m 1
        · have hlands : place (Store.new m).size j p.1 ≠ i := by
            rw [place_of_lt (by omega)]
            exact hconcerning.1
          rw [hlast]
          exact view_of_not_concerning hran hlands hconcerning.2
        · exact hharmless (Nat.not_lt.mp hthere) ((flushes_eq hc).trans hconcerning.2) hok
            i hi
  · refine iff_of_true ?_ ?_
    · exact fun hout => absurd hout hok
    · exact fun _ _ hout => absurd hout hok

theorem owned_nil : Owned m t g g' policy [] := by
  intro _ i _
  have hreplay : Log.replay t ⟨.new m, g⟩ (file policy []) = ⟨⟨.new m, g⟩, 0, .ok 0⟩ := replayFrom_nil
  refine ⟨⟨.new m, g'⟩, rfl, ?_⟩
  rw [hreplay]

/-- Replays of all beginnings of a log leave the databases to their own records just when every
record of it is harmless: that is, when those for databases that there are not change nothing. -/
theorem replay_owned_iff (hps : ∀ p ∈ ps, MayLog n p) (m t : Nat) (g g' : Draws)
    (policy : SyncPolicy) :
    (∀ qs, qs <+: ps → Owned m t g g' policy qs) ↔
      ∀ qs p, qs ++ [p] <+: ps → Harmless m t g policy qs p :=
  forall_prefix_iff owned_nil fun _ _ hqs howned =>
    howned.snoc_iff fun q hq => hps q (hqs.subset hq)

end Serving

namespace Serving

/-- A key stored in the first of two databases, and a deletion of its name in the second. -/
def crossing : List (Nat × Request) :=
  [(0, ["SET", "k", "v"].map word), (1, ["DEL", "k"].map word)]

theorem mayLog_crossing : ∀ p ∈ crossing, MayLog 2 p := by
  have hstart := reachable_start 2 ⟨fun _ => 0, 0⟩ .always
  have hset : MayLog 2 (0, ["SET", "k", "v"].map word) :=
    ⟨_, ⟨0, 10, ["SET", "k", "v"].map word⟩, hstart, by decide +kernel⟩
  have hsecond := hstart.run
    [⟨0, 10, ["SELECT", "1"].map word⟩, ⟨0, 10, ["SET", "k", "w"].map word⟩]
  have hdel : MayLog 2 (1, ["DEL", "k"].map word) :=
    ⟨_, ⟨0, 10, ["DEL", "k"].map word⟩, hsecond, by decide +kernel⟩
  intro p hp
  rcases List.mem_cons.mp hp with rfl | hp
  · exact hset
  · rw [List.mem_singleton.mp hp]
    exact hdel

/-- With one database only, the deletion takes the key that the first database is to keep. -/
theorem crossing_not_owned : ¬∀ qs, qs <+: crossing →
    Owned 1 20 ⟨fun _ => 0, 0⟩ ⟨fun _ => 1, 0⟩ .always qs := by
  rw [replay_owned_iff mayLog_crossing]
  intro hharmless
  have hsame := hharmless [(0, ["SET", "k", "v"].map word)] (1, ["DEL", "k"].map word)
    List.prefix_rfl (by decide) (by decide +kernel) (by decide +kernel) 0 (by decide)
  exact absurd (congrFun hsame "k") (by decide +kernel)

end Serving

end RespStore
