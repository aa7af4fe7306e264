import RespStore.Proofs.Collection.RandomDraw
import RespStore.Proofs.Keyspace.Db

/-!
# Random keys of a database

Keys are drawn until one is live, and those past their deadlines are dropped on the way. The search
is given up after a fixed number of draws, so it comes to nothing in a database that has live keys
just when as many keys as there are draws are past their deadlines and the draws name them all.
-/

namespace RespStore.Db

variable [Digest String] {db : Db} {now n : Nat} {key : String} {g : Draws}

/-- The keys that are stored, but past their deadlines. -/
def stale (db : Db) (now : Nat) : Finset String :=
  db.entries.toFinmap.keys.filter fun key => (db.view now key).isNone

theorem mem_stale (h : db.WF) :
    key ∈ db.stale now ↔ (db.entries.get? key).isSome = true ∧ db.view now key = none := by
  rw [stale, Finset.mem_filter, Dict.mem_keys_toFinmap h.entries, Option.isNone_iff_eq_none]

/-- A key that is stored is live or past its deadline. -/
theorem view_isSome_of_notMem (h : db.WF) (hkey : (db.entries.get? key).isSome = true)
    (hstale : key ∉ db.stale now) : (db.view now key).isSome = true := by
  rw [mem_stale h, not_and] at hstale
  exact Option.isSome_iff_ne_none.mpr (hstale hkey)

theorem isSome_get?_of_view (hkey : (db.view now key).isSome = true) :
    (db.entries.get? key).isSome = true := by
  rw [view, Option.isSome_map] at hkey
  obtain ⟨v, hv⟩ := Option.isSome_iff_exists.mp hkey
  exact Option.isSome_of_eq_some (Option.filter_eq_some_iff.mp hv).1

/-- Looking a key up that is past its deadline drops it and nothing else. -/
theorem stale_get (h : db.WF) (hkey : key ∈ db.stale now) :
    db.get now key = (none, (db.get now key).2) ∧
      (db.get now key).2.stale now = (db.stale now).erase key := by
  obtain ⟨hstored, hnone⟩ := (mem_stale h).mp hkey
  obtain ⟨v, hv⟩ := Option.isSome_iff_exists.mp hstored
  have hslot : db.slot now key = none := Option.map_eq_none_iff.mp hnone
  have hfst : (db.get now key).1 = none := (get_fst db now key).trans hslot
  obtain ⟨hwf, hview⟩ := get_unchanged db now key h
  have hexpired : v.isExpired now = true := by
    rw [slot, hv] at hslot
    by_contra hlive
    rw [Bool.not_eq_true] at hlive
    rw [Option.filter_some_pos (by rw [Value.isLive, hlive]; rfl)] at hslot
    cases hslot
  have hentries : (db.get now key).2.entries = (db.entries.remove key).2 := by
    rw [get, hv]
    simp only [hexpired, if_true]
  refine ⟨Prod.ext hfst rfl, ?_⟩
  ext k
  rw [mem_stale hwf, Finset.mem_erase, mem_stale h, hview, hentries,
    (Dict.remove_spec h.entries key).2]
  by_cases hk : k = key
  · simp [hk]
  · simp [hk]

/-- Looking a live key up finds it and drops nothing. -/
theorem live_get (hkey : (db.view now key).isSome = true) :
    ∃ v, db.get now key = (some v, db) := by
  rw [view, Option.isSome_map] at hkey
  obtain ⟨v, hv⟩ := Option.isSome_iff_exists.mp hkey
  obtain ⟨hget, hlive⟩ := Option.filter_eq_some_iff.mp hv
  refine ⟨v, ?_⟩
  rw [Value.isLive, Bool.not_eq_true'] at hlive
  rw [get, hget]
  simp [hlive]

/-! ## One turn of the search -/

theorem randomKeyWith_none {g' : Draws} (h : db.entries.randomKey g = (none, g')) (n : Nat) :
    randomKeyWith now (n + 1) db g = (none, db, g') := by
  rw [randomKeyWith, h]

theorem randomKeyWith_live {g' : Draws} (h : db.entries.randomKey g = (some key, g'))
    (hkey : (db.view now key).isSome = true) (n : Nat) :
    randomKeyWith now (n + 1) db g = (some key, db, g') := by
  obtain ⟨v, hv⟩ := live_get hkey
  rw [randomKeyWith, h]
  dsimp only
  rw [hv]

theorem randomKeyWith_stale {g' : Draws} (hwf : db.WF)
    (h : db.entries.randomKey g = (some key, g')) (hkey : key ∈ db.stale now) (n : Nat) :
    randomKeyWith now (n + 1) db g = randomKeyWith now n (db.get now key).2 g' := by
  rw [randomKeyWith, h]
  dsimp only
  rw [(stale_get hwf hkey).1]

/-- What a turn finds: no key, a live key, or one to be dropped. -/
theorem draw_cases (h : db.WF) (now : Nat) (g : Draws) :
    (∃ g', db.entries.randomKey g = (none, g') ∧ ∀ key, db.entries.get? key = none) ∨
    (∃ key g', db.entries.randomKey g = (some key, g') ∧ (db.view now key).isSome = true) ∨
    ∃ key g', db.entries.randomKey g = (some key, g') ∧ key ∈ db.stale now := by
  have hspec := Dict.randomKey_spec h.entries g
  rcases hdraw : db.entries.randomKey g with ⟨_ | key, g'⟩
  · rw [hdraw] at hspec
    exact .inl ⟨g', rfl, hspec⟩
  · rw [hdraw] at hspec
    by_cases hstale : key ∈ db.stale now
    · exact .inr (.inr ⟨key, g', rfl, hstale⟩)
    · exact .inr (.inl ⟨key, g', rfl, view_isSome_of_notMem h hspec hstale⟩)

/-! ## The search -/

/-- The search changes nothing that shows. -/
theorem randomKeyWith_unchanged (now n : Nat) (db : Db) (g : Draws) :
    Unchanged now db (randomKeyWith now n db g).2.1 := by
  intro h
  induction n generalizing db g with
  | zero => exact ⟨h, rfl⟩
  | succ n ih =>
    rcases draw_cases h now g with ⟨g', hdraw, -⟩ | ⟨key, g', hdraw, hlive⟩ | ⟨key, g', hdraw, hstale⟩
    · rw [randomKeyWith_none hdraw]
      exact ⟨h, rfl⟩
    · rw [randomKeyWith_live hdraw hlive]
      exact ⟨h, rfl⟩
    · rw [randomKeyWith_stale h hdraw hstale]
      obtain ⟨hwf, hview⟩ := get_unchanged db now key h
      obtain ⟨hwf', hview'⟩ := ih _ g' hwf
      exact ⟨hwf', hview'.trans hview⟩

/-- A key that is found is live. -/
theorem live_of_randomKeyWith (h : db.WF) (hkey : (randomKeyWith now n db g).1 = some key) :
    (db.view now key).isSome = true := by
  induction n generalizing db g with
  | zero => cases hkey
  | succ n ih =>
    rcases draw_cases h now g with ⟨g', hdraw, -⟩ | ⟨k, g', hdraw, hlive⟩ | ⟨k, g', hdraw, hstale⟩
    · rw [randomKeyWith_none hdraw] at hkey
      cases hkey
    · rw [randomKeyWith_live hdraw hlive] at hkey
      cases hkey
      exact hlive
    · rw [randomKeyWith_stale h hdraw hstale] at hkey
      obtain ⟨hwf, hview⟩ := get_unchanged db now k h
      rw [← hview]
      exact ih hwf hkey

/-- If nothing is found, there is nothing live or every draw has been spent on a key past its
deadline. -/
theorem le_card_stale (h : db.WF) (hnone : (randomKeyWith now n db g).1 = none)
    (hkey : (db.view now key).isSome = true) : n ≤ (db.stale now).card := by
  induction n generalizing db g with
  | zero => exact Nat.zero_le _
  | succ n ih =>
    rcases draw_cases h now g with ⟨g', -, hempty⟩ | ⟨k, g', hdraw, hlive⟩ | ⟨k, g', hdraw, hstale⟩
    · have hstored := isSome_get?_of_view hkey
      rw [hempty] at hstored
      cases hstored
    · rw [randomKeyWith_live hdraw hlive] at hnone
      cases hnone
    · rw [randomKeyWith_stale h hdraw hstale] at hnone
      obtain ⟨hwf, hview⟩ := get_unchanged db now k h
      have hcard := ih hwf hnone (by rwa [hview])
      rw [(stale_get h hstale).2] at hcard
      have hlt := Finset.card_erase_lt_of_mem hstale
      omega

/-- Every draw may be spent on a key past its deadline, if there are as many of them. -/
theorem exists_spent (h : db.WF) (hn : n ≤ (db.stale now).card) :
    ∃ ns, ∀ g : Draws, g.Gives ns → (randomKeyWith now n db g).1 = none := by
  induction n generalizing db with
  | zero => exact ⟨[], fun _ _ => rfl⟩
  | succ n ih =>
    obtain ⟨key, hkey⟩ := Finset.card_pos.mp (Nat.zero_lt_of_lt hn)
    obtain ⟨ms, hms⟩ := Dict.exists_draws h.entries ((mem_stale h).mp hkey).1
    have hcard : n ≤ ((db.get now key).2.stale now).card := by
      rw [(stale_get h hkey).2, Finset.card_erase_of_mem hkey]
      omega
    obtain ⟨ns, hns⟩ := ih (get_unchanged db now key h).1 hcard
    refine ⟨ms ++ ns, fun g hg => ?_⟩
    obtain ⟨hfirst, hlater⟩ := Draws.gives_append.mp hg
    rw [randomKeyWith_stale h (hms g hfirst) hkey]
    exact hns _ hlater

/-- A live key may be found by the first draw. -/
theorem exists_found (hkey : (db.view now key).isSome = true) (h : db.WF) (n : Nat) :
    ∃ ns, ∀ g : Draws, g.Gives ns → (randomKeyWith now (n + 1) db g).1 = some key := by
  obtain ⟨ns, hns⟩ := Dict.exists_draws h.entries (isSome_get?_of_view hkey)
  refine ⟨ns, fun g hg => ?_⟩
  rw [randomKeyWith_live (hns g hg) hkey]

end RespStore.Db
