import RespStore.Command.Key.Run
import RespStore.Proofs.Keyspace.RandomKey
import RespStore.Text.Fingerprint

/-!
# Drawing a key

What drawing a key of a database comes to for every outcome of the draws. A key that is found is
live, and each live key may be found. The search ends without a key if there is none that is live,
and it may also do so among live keys, as soon as a hundred keys are past their deadlines.
-/

namespace RespStore

namespace Db

variable [Digest String] [Matcher] {db : Db} {now : Nat}

/-- The reply is the key that is found, or null. -/
theorem reply_randomKey (db : Db) (now : Nat) (g : Draws) :
    (KeyCommand.run now db g .randomKey).reply = .ofOption .text (db.randomKey now g).1 := rfl

/-- A search finds live keys only and changes nothing that shows. Each live key is found for some
draws. For some draws nothing is found just when nothing is live or as many keys are past their
deadlines as keys are tried, whatever has been drawn before. The command replies with the key. -/
theorem randomKey_finds_live (h : db.WF) (now : Nat) :
    (∀ g, (db.randomKey now g).2.1.WF ∧ (db.randomKey now g).2.1.view now = db.view now) ∧
      (∀ g key, (db.randomKey now g).1 = some key → (db.view now key).isSome = true) ∧
      (∀ g key, (db.view now key).isSome = true →
        ∃ g', Draws.SamePast g g' ∧ (db.randomKey now g').1 = some key) ∧
      (∀ g, (∃ g', Draws.SamePast g g' ∧ (db.randomKey now g').1 = none) ↔
        (∀ key, db.view now key = none) ∨ randomAttempts ≤ (db.stale now).card) ∧
      ∀ g, (KeyCommand.run now db g .randomKey).reply = .ofOption .text (db.randomKey now g).1 := by
  refine ⟨fun g => randomKeyWith_unchanged now _ db g h, fun g key => live_of_randomKeyWith h,
    fun g key hkey => ?_, fun g => ⟨?_, ?_⟩, fun g => reply_randomKey db now g⟩
  · obtain ⟨ns, hns⟩ := exists_found hkey h (randomAttempts - 1)
    exact ⟨g.redraw ns, g.samePast_redraw ns, hns _ (g.gives_redraw ns)⟩
  · rintro ⟨g', -, hnone⟩
    by_cases hlive : ∃ key, (db.view now key).isSome = true
    · obtain ⟨key, hkey⟩ := hlive
      exact .inr (le_card_stale h hnone hkey)
    · refine .inl fun key => Option.not_isSome_iff_eq_none.mp fun hkey => hlive ⟨key, hkey⟩
  · rintro (hdead | hmany)
    · refine ⟨g, ⟨rfl, fun _ _ => rfl⟩, Option.eq_none_iff_forall_ne_some.mpr fun key hkey => ?_⟩
      have hlive := live_of_randomKeyWith h hkey
      rw [hdead] at hlive
      cases hlive
    · obtain ⟨ns, hns⟩ := exists_spent h hmany
      exact ⟨g.redraw ns, g.samePast_redraw ns, hns _ (g.gives_redraw ns)⟩

end Db

namespace Db

/-- A live key among a hundred that are past their deadlines. -/
def crowded : Db :=
  (List.range 100).foldl
    (fun db i => db.set (String.singleton (Char.ofNat (256 + i))) ⟨.string [], some 4⟩)
    (empty.set "ok" ⟨.string [], none⟩)

theorem wf_crowded : crowded.WF := by
  have hstring : ∀ deadline, (⟨.string [], deadline⟩ : Value).data.WF := fun _ => ⟨trivial, rfl⟩
  have hsets : ∀ (is : List Nat) (db : Db), db.WF → (is.foldl
      (fun db i => db.set (String.singleton (Char.ofNat (256 + i))) ⟨.string [], some 4⟩) db).WF := by
    intro is
    induction is with
    | nil => exact fun _ h => h
    | cons i is ih => exact fun db h => ih _ (set_spec h (hstring _) _ 0).1
  exact hsets _ _ (set_spec wf_empty (hstring _) _ 0).1

theorem search_crowded :
    (crowded.view 5 "ok").isSome = true ∧ (crowded.randomKey 5 ⟨fun _ => 0, 0⟩).1 = none := by
  decide +kernel

/-- Where every draw names a key past its deadline, nothing is found beside a live key. -/
theorem crowded_gives_up :
    crowded.WF ∧ (crowded.view 5 "ok").isSome = true ∧
      (crowded.randomKey 5 ⟨fun _ => 0, 0⟩).1 = none ∧
      (KeyCommand.run 5 crowded ⟨fun _ => 0, 0⟩ .randomKey).reply = .null := by
  obtain ⟨hlive, hnone⟩ := search_crowded
  refine ⟨wf_crowded, hlive, hnone, ?_⟩
  rw [reply_randomKey, hnone]
  rfl

/-- Whatever has been drawn before, the live key may be found and may be missed. -/
theorem crowded_found_or_missed :
    crowded.WF ∧ (crowded.view 5 "ok").isSome = true ∧ ∀ g,
      (∃ g', Draws.SamePast g g' ∧ (crowded.randomKey 5 g').1 = some "ok") ∧
      ∃ g', Draws.SamePast g g' ∧ (crowded.randomKey 5 g').1 = none := by
  obtain ⟨hlive, hnone⟩ := search_crowded
  obtain ⟨-, -, hfound, hmissed, -⟩ := randomKey_finds_live wf_crowded 5
  have hmany : randomAttempts ≤ (crowded.stale 5).card := le_card_stale wf_crowded hnone hlive
  exact ⟨wf_crowded, hlive, fun g => ⟨hfound g "ok" hlive, (hmissed g).mpr (.inr hmany)⟩⟩

end Db

end RespStore
