import RespStore.Proofs.Keyspace.View

/-!
# Operations on views

Every operation on a database is stated by what it does to the view at its own reading of the
clock. Reading changes nothing there, as it drops only what has expired; an edit gives its key the
entry that a change of entries says.
-/

namespace RespStore.Db

variable [Digest String] {db db' : Db} {now t : Nat} {key k : String} {α : Type}

/-! ## Reading -/

/-- Nothing that shows at a time is changed. -/
def Unchanged (now : Nat) (db db' : Db) : Prop := db.WF → db'.WF ∧ db'.view now = db.view now

theorem Unchanged.rfl : Unchanged now db db := fun h => ⟨h, Eq.refl _⟩

theorem Unchanged.trans {db'' : Db} (h : Unchanged now db db') (h' : Unchanged now db' db'') :
    Unchanged now db db'' := by
  intro hw
  obtain ⟨hw', hv⟩ := h hw
  obtain ⟨hw'', hv'⟩ := h' hw'
  exact ⟨hw'', hv'.trans hv⟩

theorem get_fst (db : Db) (now : Nat) (key : String) : (db.get now key).1 = db.slot now key := by
  unfold get slot
  cases db.entries.get? key with
  | none => rfl
  | some v => cases h : v.isExpired now <;> simp [h, Option.filter, Value.isLive]

/-! ## Eviction -/

/-- Values past their deadlines may be dropped; all others are there as they were. -/
def Evicts (now : Nat) (db db' : Db) : Prop :=
  db.WF → db'.WF ∧ ∀ key, db'.entries.get? key = db.entries.get? key ∨
    db'.entries.get? key = none ∧ db.slot now key = none

theorem Evicts.rfl : Evicts now db db := fun h => ⟨h, fun _ => .inl (Eq.refl _)⟩

theorem Evicts.slot_eq (h : Evicts now db db') (hw : db.WF) (key : String) :
    db'.slot now key = db.slot now key := by
  rcases (h hw).2 key with hsame | ⟨hnone, hdead⟩
  · rw [slot, hsame, slot]
  · rw [slot, hnone, hdead, Option.filter_none]

theorem Evicts.trans {db'' : Db} (h : Evicts now db db') (h' : Evicts now db' db'') :
    Evicts now db db'' := by
  intro hw
  obtain ⟨hw', hkept⟩ := h hw
  obtain ⟨hw'', hkept'⟩ := h' hw'
  refine ⟨hw'', fun key => ?_⟩
  rcases hkept' key with hsame' | ⟨hnone', hdead'⟩
  · rw [hsame']
    exact hkept key
  · exact .inr ⟨hnone', h.slot_eq hw key ▸ hdead'⟩

/-- What has been dropped at a time is past its deadline later. -/
theorem Evicts.mono (h : Evicts now db db') (ht : now ≤ t) : Evicts t db db' := by
  intro hw
  obtain ⟨hw', hkept⟩ := h hw
  refine ⟨hw', fun key => (hkept key).imp_right fun ⟨hnone, hdead⟩ => ⟨hnone, ?_⟩⟩
  refine Option.eq_none_iff_forall_ne_some.mpr fun v hv => ?_
  obtain ⟨hget, hlive⟩ := Option.filter_eq_some_iff.mp hv
  have hnow : v.isLive now = true := View.isLive_mono (e := v.entry) ht hlive
  have hslot : db.slot now key = some v := Option.filter_eq_some_iff.mpr ⟨hget, hnow⟩
  rw [hdead] at hslot
  cases hslot

/-- Dropping values that have expired does not show. -/
theorem Evicts.unchanged (h : Evicts now db db') : Unchanged now db db' := fun hw =>
  ⟨(h hw).1, funext fun key => congrArg (Option.map Value.entry) (h.slot_eq hw key)⟩

theorem evicts_of_update {entries : Dict String Value} {slot : Option Value} (hw : entries.WF)
    (hget : ∀ k, entries.get? k = if k = key then slot else db.entries.get? k)
    (hslot : slot = db.entries.get? key ∨ slot = none ∧ db.slot now key = none) :
    Evicts now db ⟨entries⟩ := by
  intro h
  have hs : Value.SlotWF slot := by
    rcases hslot with rfl | ⟨rfl, -⟩
    · exact h.values key
    · exact Value.slotWF_none
  refine ⟨wf_of_update h hw hs hget, fun k => ?_⟩
  rw [show (⟨entries⟩ : Db).entries.get? k = _ from hget k]
  split
  · next hk =>
    subst hk
    exact hslot
  · exact .inl (Eq.refl _)

theorem get_evicts (db : Db) (now : Nat) (key : String) : Evicts now db (db.get now key).2 := by
  intro hw
  unfold get
  cases hv : db.entries.get? key with
  | none => exact Evicts.rfl hw
  | some v =>
    cases he : v.isExpired now with
    | false => simpa [he] using (Evicts.rfl : Evicts now db db) hw
    | true =>
      obtain ⟨hw', hget⟩ := Dict.remove_spec hw.entries key
      have hdead : db.slot now key = none := by
        rw [slot, hv]
        simp [Option.filter, Value.isLive, he]
      simpa [he] using evicts_of_update hw' hget (.inr ⟨rfl, hdead⟩) hw

theorem get_unchanged (db : Db) (now : Nat) (key : String) : Unchanged now db (db.get now key).2 :=
  (get_evicts db now key).unchanged

theorem expireSample_evicts (now n : Nat) (db : Db) (g : Draws) :
    Evicts now db (expireSample now n db g).2.1 := by
  induction n generalizing db g with
  | zero => exact Evicts.rfl
  | succ n ih =>
    unfold expireSample
    rcases hk : db.entries.randomKey g with ⟨_ | key, g'⟩
    · exact Evicts.rfl
    · intro hw
      obtain ⟨hw', hget⟩ := Dict.removeIf_spec hw.entries key fun v => v.isExpired now
      have hslot : (db.entries.get? key).filter (fun v => !v.isExpired now) = db.slot now key := rfl
      rw [hslot] at hget
      refine ((evicts_of_update hw' hget ?_).trans (ih _ g')) hw
      unfold slot
      cases db.entries.get? key with
      | none => exact .inl rfl
      | some v => cases hl : v.isLive now <;> simp [Option.filter, hl]

/-! ## Writing -/

theorem set_spec (h : db.WF) {v : Value} (hv : v.data.WF) (key : String) (now : Nat) :
    (db.set key v).WF ∧ (db.set key v).view now = (db.view now).write now key (some v.entry) := by
  obtain ⟨hw, hget⟩ := Dict.put_spec h.entries key v
  exact ⟨wf_of_update h hw (Value.slotWF_some hv) hget, view_of_update hget now⟩

theorem take_spec (h : db.WF) (now : Nat) (key : String) :
    (db.take now key).2.WF ∧ (db.take now key).2.view now = (db.view now).write now key none ∧
      (db.take now key).1 = db.slot now key := by
  obtain ⟨hw, hget⟩ := Dict.remove_spec h.entries key
  refine ⟨wf_of_update h hw Value.slotWF_none hget, view_of_update hget now, ?_⟩
  show (db.entries.remove key).1.filter _ = _
  rw [Dict.remove_fst]
  rfl

theorem delete_spec (h : db.WF) (now : Nat) (keys : List String) :
    (db.delete now keys).2.WF ∧
      (db.delete now keys).2.view now =
        keys.foldl (fun v key => v.write now key none) (db.view now) := by
  induction keys generalizing db with
  | nil => exact ⟨h, rfl⟩
  | cons key keys ih =>
    obtain ⟨hw, hv, -⟩ := take_spec h now key
    obtain ⟨hw', hv'⟩ := ih hw
    refine ⟨hw', hv'.trans ?_⟩
    rw [hv]
    rfl

theorem flush_spec (h : db.WF) (now : Nat) : db.flush.WF ∧ db.flush.view now = View.empty := by
  have hget : ∀ k, db.flush.entries.get? k = none := Dict.get?_clear
  constructor
  · refine ⟨Dict.wf_clear h.entries, fun k v hk => ?_⟩
    rw [hget] at hk
    cases hk
  · funext k
    rw [view, slot, hget]
    rfl

/-- What a computation does to the value of a key is a change of its entry. -/
def Respects (f : Option Value → α × Option Value) (F : Change) : Prop :=
  ∀ slot, Value.SlotWF slot →
    Value.SlotWF (f slot).2 ∧ (f slot).2.map Value.entry = F (slot.map Value.entry)

theorem compute_fst (db : Db) (now : Nat) (key : String) (f : Option Value → α × Option Value) :
    (db.compute now key f).1 = (f (db.slot now key)).1 :=
  Dict.compute_fst (d := db.entries) fun slot => f (slot.filter (·.isLive now))

/-- What a computation makes of a value shows at any time at which that is live. -/
theorem view_compute (h : db.WF) (now t : Nat) (key : String)
    (f : Option Value → α × Option Value) :
    (db.compute now key f).2.view t =
      (db.view t).write t key ((f (db.slot now key)).2.map Value.entry) :=
  view_of_update (Dict.compute_spec h.entries key fun slot => f (slot.filter (·.isLive now))).2 t

/-- A computation gives its key what it makes of the value there. -/
theorem compute_at (h : db.WF) (now : Nat) (key : String) (f : Option Value → α × Option Value)
    (hs : Value.SlotWF (f (db.slot now key)).2) :
    (db.compute now key f).2.WF ∧
      (db.compute now key f).2.view now =
        (db.view now).write now key ((f (db.slot now key)).2.map Value.entry) := by
  obtain ⟨hw, hget⟩ := Dict.compute_spec h.entries key fun slot => f (slot.filter (·.isLive now))
  exact ⟨wf_of_update h hw hs hget, view_compute h now now key f⟩

theorem compute_spec (h : db.WF) {f : Option Value → α × Option Value}
    {F : Change} (hf : Respects f F) :
    (db.compute now key f).2.WF ∧
      (db.compute now key f).2.view now = (db.view now).change now key F := by
  obtain ⟨hs, hF⟩ := hf (db.slot now key) (h.slot now key)
  obtain ⟨hw, hv⟩ := compute_at h now key f hs
  refine ⟨hw, hv.trans ?_⟩
  rw [hF]
  rfl

/-- What an edit does to the value of a key is a change of its entry; one that fails is none. -/
def EditRespects (f : Option Value → Except StoreError (α × Option Value))
    (F : Change) : Prop :=
  ∀ slot, Value.SlotWF slot →
    match f slot with
    | .ok r => Value.SlotWF r.2 ∧ r.2.map Value.entry = F (slot.map Value.entry)
    | .error _ => F (slot.map Value.entry) = slot.map Value.entry

theorem EditRespects.respects {f : Option Value → Except StoreError (α × Option Value)}
    {F : Change} (hf : EditRespects f F) :
    Respects (fun slot =>
      match f slot with
      | .ok (result, slot) => ((Except.ok result : Except StoreError α), slot)
      | .error e => (.error e, slot)) F := by
  intro slot hslot
  have := hf slot hslot
  cases hr : f slot with
  | ok r =>
    simp only [hr] at this ⊢
    exact this
  | error e =>
    simp only [hr] at this ⊢
    exact ⟨hslot, this.symm⟩

/-- What an edit makes of an entry shows at any time at which that is live. -/
theorem EditRespects.view_edit {f : Option Value → Except StoreError (α × Option Value)}
    {F : Change} (hf : EditRespects f F) (h : db.WF) (now t : Nat) (key : String) :
    (db.edit now key f).2.view t = (db.view t).write t key (F (db.view now key)) :=
  (view_compute h now t key _).trans
    (congrArg _ (hf.respects (db.slot now key) (h.slot now key)).2)

theorem edit_spec (h : db.WF) {f : Option Value → Except StoreError (α × Option Value)}
    {F : Change} (hf : EditRespects f F) :
    (db.edit now key f).2.WF ∧
      (db.edit now key f).2.view now = (db.view now).change now key F :=
  compute_spec h hf.respects

theorem edit_fst (db : Db) (now : Nat) (key : String)
    (f : Option Value → Except StoreError (α × Option Value)) :
    (db.edit now key f).1 = (f (db.slot now key)).map (·.1) := by
  rw [edit, compute_fst]
  cases f (db.slot now key) <;> rfl

theorem edit_at (h : db.WF) {f : Option Value → Except StoreError (α × Option Value)}
    {r : α × Option Value} (hr : f (db.slot now key) = .ok r) (hs : Value.SlotWF r.2) :
    (db.edit now key f).2.WF ∧
      (db.edit now key f).2.view now = (db.view now).write now key (r.2.map Value.entry) := by
  have hat := compute_at h now key fun slot =>
    match f slot with
    | .ok (result, slot) => ((Except.ok result : Except StoreError α), slot)
    | .error e => (.error e, slot)
  simp only [hr] at hat
  exact hat hs

/-- An edit that fails changes nothing. -/
theorem edit_error (h : db.WF) {f : Option Value → Except StoreError (α × Option Value)}
    {e : StoreError} (he : f (db.slot now key) = .error e) :
    (db.edit now key f).2.WF ∧ (db.edit now key f).2.view now = db.view now := by
  have hat := compute_at h now key fun slot =>
    match f slot with
    | .ok (result, slot) => ((Except.ok result : Except StoreError α), slot)
    | .error e => (.error e, slot)
  simp only [he] at hat
  obtain ⟨hw, hv⟩ := hat (h.slot now key)
  exact ⟨hw, hv.trans (View.write_self view_live key)⟩

theorem computePair_eq (a b : String)
    (f : Option Value → Option Value → α × Option Value × Option Value) :
    let computed := db.entries.computePair a b fun x y =>
      f (x.filter (·.isLive now)) (y.filter (·.isLive now))
    db.computePair now a b f = (computed.1, ⟨computed.2⟩) := by
  simp only [computePair]

theorem computePair_fst {a b : String} (h : db.WF) (hne : a ≠ b)
    (f : Option Value → Option Value → α × Option Value × Option Value) :
    (db.computePair now a b f).1 = (f (db.slot now a) (db.slot now b)).1 := by
  simp only [computePair_eq, Dict.computePair_fst h.entries hne, slot]

/-- Two keys get new values at once. -/
theorem computePair_spec {a b : String} (h : db.WF) (hne : a ≠ b)
    {f : Option Value → Option Value → α × Option Value × Option Value}
    {r : α × Option Value × Option Value} (hr : f (db.slot now a) (db.slot now b) = r)
    (hx : Value.SlotWF r.2.1) (hy : Value.SlotWF r.2.2) :
    (db.computePair now a b f).2.WF ∧
      (db.computePair now a b f).2.view now =
        ((db.view now).write now a (r.2.1.map Value.entry)).write now b
          (r.2.2.map Value.entry) := by
  obtain ⟨hw, hget⟩ := Dict.computePair_spec h.entries hne fun x y =>
    f (x.filter (·.isLive now)) (y.filter (·.isLive now))
  rw [show f ((db.entries.get? a).filter _) ((db.entries.get? b).filter _) = r from hr] at hget
  rw [computePair_eq]
  generalize db.entries.computePair a b _ = computed at hw hget ⊢
  -- one key after the other: the first update alone is a dictionary of its own
  obtain ⟨hwa, hgeta⟩ := Dict.compute_spec h.entries a fun _ => ((), r.2.1)
  have hdb := wf_of_update h hwa hx hgeta
  have hgetb : ∀ k, computed.2.get? k =
      if k = b then r.2.2 else (db.entries.compute a fun _ => ((), r.2.1)).2.get? k := by
    intro k
    rw [hgeta, hget k]
    by_cases hka : k = a
    · rw [if_pos hka, if_neg (hka ▸ hne), if_pos hka]
    · rw [if_neg hka, if_neg hka]
  refine ⟨wf_of_update hdb hw hy hgetb, ?_⟩
  rw [← view_of_update hgeta now]
  exact view_of_update hgetb now

end RespStore.Db
