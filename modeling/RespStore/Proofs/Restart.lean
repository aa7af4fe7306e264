import RespStore.Proofs.Command.Stale.Command
import RespStore.Proofs.Serving
import RespStore.Text.Fingerprint

/-!
# Restarting later

A log may be replayed at one time or at a later one. What shows at the later time is the same as long
as no record in the log tells whether a deadline has passed in between.
-/

namespace RespStore

open Log

namespace Command

variable {t₁ t₂ i : Nat} {c : Command}

/-- A command leaves the same to be seen of every database, whether it runs before or then, just when
it does not tell. -/
theorem effect_cut_iff (vs : Nat → View) (ht : t₁ ≤ t₂)
    (hne : ∀ key e, vs i key = some e → e.content.isEmpty = false)
    (hc : c.Proper) (hl : c.Loggable) :
    (∀ j, (c.effect t₁ [] i vs j).cut t₂ = c.effect t₂ [] i (fun j => (vs j).cut t₂) j) ↔
      ¬c.TellsStale t₂ (vs i) := by
  rw [← agrees_iff_not_tellsStale ht hne hc hl]
  unfold effect
  cases hflush : c.isFlushAll with
  | true =>
    cases c with
    | server c =>
      cases c with
      | flushAll => exact iff_of_true (fun _ => rfl) rfl
      | _ => cases hflush
    | _ => cases hflush
  | false =>
    constructor
    · intro h
      have hi := h i
      simp only [Bool.false_eq_true, if_false, Function.update_self] at hi
      exact hi
    · intro h j
      by_cases hj : j = i
      · rw [hj]
        simp only [Bool.false_eq_true, if_false, Function.update_self]
        exact h
      · simp only [Bool.false_eq_true, if_false, Function.update_of_ne hj]

end Command

namespace Serving

variable [Digest String] [Matcher] {n t₁ t₂ : Nat} {ps : List (Nat × Request)} {p : Nat × Request}
  {g₁ g₂ : Draws} {policy : SyncPolicy}

/-- A log replayed at two times shows the same in all databases at the second one, or stops both
replays. -/
def RestartsAlike (n t₁ t₂ : Nat) (g₁ g₂ : Draws) (policy : SyncPolicy)
    (ps : List (Nat × Request)) : Prop :=
  let early := Log.replay t₁ ⟨.new n, g₁⟩ (file policy ps)
  let late := Log.replay t₂ ⟨.new n, g₂⟩ (file policy ps)
  (early.Succeeds ↔ late.Succeeds) ∧ (early.Succeeds →
    ∀ i, (early.keyspace.store.db i).view t₂ = (late.keyspace.store.db i).view t₂)

/-- A record, which a replay at one time runs behind others, does not tell of any key whose deadline
has passed at another. -/
def Indifferent (n t₁ t₂ : Nat) (g₁ : Draws) (policy : SyncPolicy) (ps : List (Nat × Request))
    (p : Nat × Request) : Prop :=
  let before := Log.replay t₁ ⟨.new n, g₁⟩ (file policy ps)
  let out := Log.replay t₁ ⟨.new n, g₁⟩ (file policy (ps ++ [p]))
  ∀ c, Command.ofFrame p.2.toFrame = .ok c → out.Succeeds →
    ¬c.TellsStale t₂ ((before.keyspace.store.db p.1).view t₁)

theorem restartsAlike_nil : RestartsAlike n t₁ t₂ g₁ g₂ policy [] := by
  have hreplay : ∀ t g, Log.replay t ⟨.new n, g⟩ (file policy []) = ⟨⟨.new n, g⟩, 0, .ok 0⟩ :=
    fun _ _ => replayFrom_nil
  unfold RestartsAlike
  rw [hreplay, hreplay]
  exact ⟨Iff.rfl, fun _ _ => rfl⟩

/-- What a server has logged last runs, when replayed, in its own database. -/
theorem replay_snoc_own {t : Nat} {g : Draws} (hps : ∀ q ∈ ps ++ [p], MayLog n q) {c : Command}
    (hc : Command.ofFrame p.2.toFrame = .ok c)
    (h : (Log.replay t ⟨.new n, g⟩ (file policy (ps ++ [p]))).Succeeds) :
    (Log.replay t ⟨.new n, g⟩ (file policy ps)).Succeeds ∧
      (Log.replay t ⟨.new n, g⟩ (file policy ps)).keyspace.store.WF ∧
      (Log.replay t ⟨.new n, g⟩ (file policy (ps ++ [p]))).keyspace.store.view t =
        c.effect t [] p.1 ((Log.replay t ⟨.new n, g⟩ (file policy ps)).keyspace.store.view t) := by
  have hsize : (Store.new n).size = max n 1 := Store.size_new n
  have hpos : 0 < (Store.new n).size := by omega
  have hp := hps p (List.mem_append_right _ List.mem_cons_self)
  have hdb : p.1 < (Store.new n).size := Nat.lt_of_lt_of_eq hp.reproduces.2.1 hsize.symm
  obtain ⟨hbefore, hwf, c', hc', j, hj, e, hran, hlast⟩ := replay_snoc (k := ⟨.new n, g⟩)
    (Store.wf_new n) hpos (fun q hq => (hps q hq).isRecord) h
  obtain rfl : c' = c := by
    rw [hc] at hc'
    exact (Except.ok.inj hc').symm
  rw [place_of_lt hdb] at hran
  rw [hlast]
  exact ⟨hbefore, hwf, hran.view⟩

/-- One more record leaves the replays alike just when it is indifferent. -/
theorem RestartsAlike.snoc_iff (ht : t₁ ≤ t₂) (hps : ∀ q ∈ ps ++ [p], MayLog n q)
    (h : RestartsAlike n t₁ t₂ g₁ g₂ policy ps) :
    RestartsAlike n t₁ t₂ g₁ g₂ policy (ps ++ [p]) ↔ Indifferent n t₁ t₂ g₁ policy ps p := by
  have hrecords : ∀ q ∈ ps ++ [p], IsRecord q.2 ∧ q.1 ≤ Command.maxInteger :=
    fun q hq => (hps q hq).isRecord
  by_cases hok : (Log.replay t₁ ⟨.new n, g₁⟩ (file policy (ps ++ [p]))).Succeeds
  · have hsucceeds := (replay_ok_iff hrecords).mp hok
    obtain ⟨-, c, hc⟩ := hsucceeds p.2 (List.mem_map_of_mem (List.mem_append_right _ List.mem_cons_self))
    have hok₂ : (Log.replay t₂ ⟨.new n, g₂⟩ (file policy (ps ++ [p]))).Succeeds :=
      (replay_ok_iff hrecords).mpr hsucceeds
    obtain ⟨hok', hwf, hview⟩ := replay_snoc_own hps hc hok
    obtain ⟨-, -, hview₂⟩ := replay_snoc_own hps hc hok₂
    obtain ⟨spec, name, args, hread⟩ := Command.exists_readAs hc
    have hp := hps p (List.mem_append_right _ List.mem_cons_self)
    have htell := Command.effect_cut_iff
      ((Log.replay t₁ ⟨.new n, g₁⟩ (file policy ps)).keyspace.store.view t₁) ht
      (fun key => (hwf p.1).view_nonempty t₁ key) hread.fits.proper (hp.isRecord.1.loggable c hc)
    have hbefore : (fun j => ((Log.replay t₁ ⟨.new n, g₁⟩
        (file policy ps)).keyspace.store.view t₁ j).cut t₂) =
          (Log.replay t₂ ⟨.new n, g₂⟩ (file policy ps)).keyspace.store.view t₂ := by
      funext j
      exact (Db.cut_view ht).trans (h.2 hok' j)
    rw [hbefore, ← hview, ← hview₂] at htell
    constructor
    · intro halike c' hc' _
      obtain rfl : c' = c := by
        rw [hc] at hc'
        exact (Except.ok.inj hc').symm
      exact htell.mp fun j => (Db.cut_view ht).trans (halike.2 hok j)
    · intro hindifferent
      refine ⟨iff_of_true hok hok₂, fun _ j => ?_⟩
      rw [← Db.cut_view ht]
      exact htell.mpr (hindifferent c hc hok) j
  · have hok₂ : ¬(Log.replay t₂ ⟨.new n, g₂⟩ (file policy (ps ++ [p]))).Succeeds :=
      fun h₂ => hok ((replay_ok_iff hrecords).mpr ((replay_ok_iff hrecords).mp h₂))
    refine iff_of_true ⟨iff_of_false hok hok₂, ?_⟩ ?_
    · exact fun hout => absurd hout hok
    · exact fun _ _ hout => absurd hout hok

/-- Replays of all beginnings of a log at two times show the same at the later one just when no
record of it tells whether a deadline has passed in between. -/
theorem replay_restart_iff (ht : t₁ ≤ t₂) (hps : ∀ p ∈ ps, MayLog n p) (g₁ g₂ : Draws)
    (policy : SyncPolicy) :
    (∀ qs, qs <+: ps → RestartsAlike n t₁ t₂ g₁ g₂ policy qs) ↔
      ∀ qs p, qs ++ [p] <+: ps → Indifferent n t₁ t₂ g₁ policy qs p :=
  forall_prefix_iff restartsAlike_nil fun _ _ hqs halike =>
    halike.snoc_iff ht fun q hq => hps q (hqs.subset hq)

end Serving

namespace Serving

/-- A key stored under a deadline, which is then lifted. -/
def lifting : List (Nat × Request) :=
  [(0, ["SET", "k", "v", "PXAT", "100"].map word), (0, ["PERSIST", "k"].map word)]

theorem mayLog_lifting : ∀ p ∈ lifting, MayLog 1 p := by
  have hstart := reachable_start 1 ⟨fun _ => 0, 0⟩ .always
  have hset : MayLog 1 (0, ["SET", "k", "v", "PXAT", "100"].map word) :=
    ⟨_, ⟨0, 10, ["SET", "k", "v", "PXAT", "100"].map word⟩, hstart, by decide +kernel⟩
  have hstored := hstart.run [⟨0, 10, ["SET", "k", "v", "PXAT", "100"].map word⟩]
  have hpersist : MayLog 1 (0, ["PERSIST", "k"].map word) :=
    ⟨_, ⟨0, 20, ["PERSIST", "k"].map word⟩, hstored, by decide +kernel⟩
  intro p hp
  rcases List.mem_cons.mp hp with rfl | hp
  · exact hset
  · rw [List.mem_singleton.mp hp]
    exact hpersist

/-- After the deadline the key is gone before its deadline is lifted. -/
theorem lifting_not_alike : ¬∀ qs, qs <+: lifting →
    RestartsAlike 1 50 150 ⟨fun _ => 0, 0⟩ ⟨fun _ => 1, 0⟩ .always qs := by
  rw [replay_restart_iff (by decide) mayLog_lifting]
  intro hindifferent
  refine hindifferent [(0, ["SET", "k", "v", "PXAT", "100"].map word)]
    (0, ["PERSIST", "k"].map word) List.prefix_rfl (.key (.persist "k")) rfl (by decide +kernel) ?_
  exact ⟨⟨.string (word "v"), some 100⟩, by decide +kernel, by decide +kernel⟩

end Serving

end RespStore
