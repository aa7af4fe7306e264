import RespStore.Proofs.Keyspace.Change

/-!
# Writes

What a command writes to a database, as data. A database shows after a command what the write makes
of what it showed before, and a command that replies with an error has written nothing.
-/

namespace RespStore

inductive Write where
  | nothing
  /-- Changes the entry of a key. -/
  | change (key : String) (F : Change)
  /-- Gives keys an entry or none, one after the other. -/
  | puts (entries : List (String × Option Entry))
  /-- Moves the last element of a list to the front of another list. -/
  | move (source destination : String)
  | clear

namespace View

/-- Moves an element, unless one of the keys holds something else than a list or the first one
nothing. -/
def move (now : Nat) (v : View) (source destination : String) : View :=
  match Change.read Content.list? none (v source),
    Change.read Content.list? (some []) (v destination) with
  | some items, some others =>
    match items.getLast? with
    | some x =>
      (v.write now source (Entry.store (v source) (.list items.dropLast))).write now destination
        (Entry.store (v destination) (.list (x :: others)))
    | none => v
  | _, _ => v

theorem move_of_lists {v : View} {now : Nat} {source destination : String}
    {items others : List Bytes} {x : Bytes} {deadline : Option Nat}
    (hs : v source = some ⟨.list items, deadline⟩) (hx : items.getLast? = some x)
    (hd : Change.read Content.list? (some []) (v destination) = some others) :
    v.move now source destination =
      (v.write now source (Entry.store (v source) (.list items.dropLast))).write now destination
        (Entry.store (v destination) (.list (x :: others))) := by
  have hread : Change.read Content.list? none (v source) = some items := by
    rw [hs]
    rfl
  unfold move
  rw [hread, hd]
  simp only [hx]

end View

namespace Write

def apply (now : Nat) (v : View) : Write → View
  | nothing => v
  | change key F => v.change now key F
  | puts entries => entries.foldl (fun v e => v.write now e.1 e.2) v
  | move source destination => v.move now source destination
  | clear => View.empty

end Write

/-! ## Deadlines between two clocks -/

/-- No deadline lies between two readings of the clock. -/
def Uncrossed (t t' : Nat) (deadline : Option Nat) : Prop :=
  ∀ d, deadline = some d → (t < d ↔ t' < d)

theorem uncrossed_none {t t' : Nat} : Uncrossed t t' none := nofun

namespace Entry

variable {e : Entry} {slot : Option Entry} {c : Content} {t t' : Nat}

theorem isLive_eq (h : Uncrossed t t' e.expiresAt) : e.isLive t = e.isLive t' := by
  unfold isLive
  cases hd : e.expiresAt with
  | none => rfl
  | some d =>
    have hiff : d ≤ t ↔ d ≤ t' := by
      have := h d hd
      omega
    show (!decide (d ≤ t)) = !decide (d ≤ t')
    rw [decide_eq_decide.mpr hiff]

theorem expiresAt_store (h : store slot c = some e) : e.expiresAt = slot.bind (·.expiresAt) := by
  unfold store at h
  split at h
  · cases h
  · cases h
    rfl

end Entry

namespace Change

variable {α : Type} {F : Change}

/-- The new entry has the old deadline or none. -/
def Keeps (F : Change) : Prop :=
  ∀ slot e, F slot = some e → e.expiresAt = none ∨ e.expiresAt = slot.bind (·.expiresAt)

/-- What an edit puts in the place of an entry has its deadline. -/
theorem expiresAt_edit {get : Content → Option α} {absent : Option α} {f : α → Option Content}
    {slot : Option Entry} {e : Entry} (h : edit get absent f slot = some e) :
    e.expiresAt = slot.bind (·.expiresAt) := by
  unfold edit at h
  split at h
  · exact Entry.expiresAt_store h
  · rw [h]
    rfl

theorem edit_keeps (get : Content → Option α) (absent : Option α) (f : α → Option Content) :
    (edit get absent f).Keeps :=
  fun _ _ h => .inr (expiresAt_edit h)

end Change

namespace View

variable {v : View} {t t' : Nat} {key : String} {slot : Option Entry}

/-- No deadline in the view lies between two readings of the clock. -/
def Uncrossed (t t' : Nat) (v : View) : Prop :=
  ∀ key e, v key = some e → RespStore.Uncrossed t t' e.expiresAt

theorem write_eq (h : ∀ e, slot = some e → RespStore.Uncrossed t t' e.expiresAt) :
    v.write t key slot = v.write t' key slot := by
  unfold write
  cases slot with
  | none => rfl
  | some e =>
    have he := Entry.isLive_eq (h e rfl)
    simp only [Option.filter, he]

/-- An entry that shows when it is written is written at another time if its deadline is not in
between. -/
theorem write_eq_of_live {e : Entry} (hl : e.isLive t = true)
    (h : (v.write t key (some e)).Uncrossed t t') : v.write t' key (some e) = v.write t key (some e) := by
  have hshows : (v.write t key (some e)) key = some e := by
    rw [write_apply]
    simp [Option.filter, hl]
  symm
  apply write_eq
  rintro _ ⟨⟩
  exact h key e hshows

theorem Uncrossed.bind (h : v.Uncrossed t t') (key : String) :
    RespStore.Uncrossed t t' ((v key).bind (·.expiresAt)) := by
  cases hv : v key with
  | none => exact uncrossed_none
  | some e => exact h key e hv

theorem Uncrossed.store (h : v.Uncrossed t t') (key : String) (c : Content) :
    ∀ e, Entry.store (v key) c = some e → RespStore.Uncrossed t t' e.expiresAt := by
  intro e he
  rw [Entry.expiresAt_store he]
  exact h.bind key

end View

namespace Write

variable {v : View} {t t' : Nat}

/-- Every entry written has the deadline of the one that it replaces, or none. -/
def Keeps : Write → Prop
  | change _ F => F.Keeps
  | puts entries => ∀ e ∈ entries, ∀ x, e.2 = some x → x.expiresAt = none
  | _ => True

/-- A write that keeps deadlines does the same at two times with no deadline in between. -/
theorem apply_eq {w : Write} (hw : w.Keeps) (hv : v.Uncrossed t t') :
    w.apply t v = w.apply t' v := by
  cases w with
  | nothing => rfl
  | clear => rfl
  | change key F =>
    apply View.write_eq
    intro e he
    rcases hw _ _ he with hnone | hold
    · rw [hnone]
      exact uncrossed_none
    · rw [hold]
      exact hv.bind key
  | puts entries =>
    apply List.foldl_ext
    intro v e he
    apply View.write_eq
    intro x hx
    rw [hw e he x hx]
    exact uncrossed_none
  | move source destination =>
    show v.move t _ _ = v.move t' _ _
    unfold View.move
    split
    · split
      · rw [View.write_eq (hv.store source _), View.write_eq (hv.store destination _)]
      · rfl
    · rfl

end Write

/-! ## Replies -/

namespace Db

variable [Digest String] {db db' : Db} {now : Nat} {key : String} {reply : Frame} {w : Write}
  {α : Type}

/-- A command wrote what `w` says, which is nothing if its reply is an error. -/
structure Performs (now : Nat) (db : Db) (reply : Frame) (db' : Db) (w : Write) : Prop where
  wf : db'.WF
  view : db'.view now = w.apply now (db.view now)
  refused : ∀ m, reply = .error m → w.apply now (db.view now) = db.view now

theorem Unchanged.performs (h : Unchanged now db db') (hw : db.WF) :
    Performs now db reply db' .nothing :=
  ⟨(h hw).1, (h hw).2, fun _ _ => Eq.refl _⟩

theorem reading_performs (h : db.WF) (absent : Frame) (f : Value → Except StoreError Frame) :
    Performs now db (db.reading now key absent f).1 (db.reading now key absent f).2
      .nothing := by
  have hget := get_unchanged db now key
  unfold reading
  rcases hg : db.get now key with ⟨_ | v, db'⟩
  · rw [hg] at hget
    exact hget.performs h
  · rw [hg] at hget
    exact hget.performs h

/-- An edit performs a change if only one that failed comes with an error. -/
theorem edit_performs (h : db.WF) {f : Option Value → Except StoreError (α × Option Value)}
    {F : Change} (hf : EditRespects f F)
    (hreply : ∀ r, f (db.slot now key) = .ok r → ∀ m, reply ≠ .error m) :
    Performs now db reply (db.edit now key f).2 (.change key F) := by
  have hspec : (db.edit now key f).2.WF ∧
      (db.edit now key f).2.view now = (db.view now).change now key F := edit_spec h hf
  refine ⟨hspec.1, hspec.2, fun m hm => ?_⟩
  cases hr : f (db.slot now key) with
  | ok r => exact absurd hm (hreply r hr m)
  | error e => exact hspec.2.symm.trans (edit_error h hr).2

/-- An edit that replies does to its key what a change says, and no error comes with a change. -/
def ReplyRespects (f : Option Value → Except StoreError (Frame × Option Value)) (F : Change) :
    Prop :=
  ∀ slot, Value.SlotWF slot →
    match f slot with
    | .ok r => (Value.SlotWF r.2 ∧ r.2.map Value.entry = F (slot.map Value.entry)) ∧
      ∀ m, r.1 ≠ .error m
    | .error _ => F (slot.map Value.entry) = slot.map Value.entry

theorem ReplyRespects.edit {f : Option Value → Except StoreError (Frame × Option Value)}
    {F : Change} (hf : ReplyRespects f F) : EditRespects f F := by
  intro slot hslot
  have := hf slot hslot
  cases hr : f slot with
  | ok r =>
    simp only [hr] at this
    exact this.1
  | error e =>
    simp only [hr] at this
    exact this

/-- What such an edit makes of an entry shows at any time at which that is live. -/
theorem ReplyRespects.view_replying {f : Option Value → Except StoreError (Frame × Option Value)}
    {F : Change} (hf : ReplyRespects f F) (h : db.WF) (now t : Nat) (key : String) :
    (db.replying now key f).2.view t = (db.view t).write t key (F (db.view now key)) :=
  hf.edit.view_edit h now t key

theorem replying_performs (h : db.WF)
    {f : Option Value → Except StoreError (Frame × Option Value)} {F : Change}
    (hf : ReplyRespects f F) :
    Performs now db (db.replying now key f).1 (db.replying now key f).2
      (.change key F) := by
  refine edit_performs h hf.edit fun r hr m => ?_
  have hslot := hf (db.slot now key) (h.slot now key)
  simp only [hr] at hslot
  show Frame.ofExcept (db.edit now key f).1 ≠ _
  rw [edit_fst, hr]
  exact hslot.2 m

/-- A computation that never replies with an error. -/
theorem compute_performs (h : db.WF) {f : Option Value → α × Option Value} {F : Change}
    (hf : Respects f F) (hreply : ∀ m, reply ≠ .error m) :
    Performs now db reply (db.compute now key f).2 (.change key F) :=
  ⟨(compute_spec h hf).1, (compute_spec h hf).2, fun m hm => absurd hm (hreply m)⟩

/-- A computation on two keys at once. -/
theorem computePair_performs {a b : String} (h : db.WF) (hne : a ≠ b)
    {f : Option Value → Option Value → Except StoreError Frame × Option Value × Option Value}
    {r : Except StoreError Frame × Option Value × Option Value}
    (hr : f (db.slot now a) (db.slot now b) = r) (hx : Value.SlotWF r.2.1)
    (hy : Value.SlotWF r.2.2)
    (hview : w.apply now (db.view now) =
      ((db.view now).write now a (r.2.1.map Value.entry)).write now b (r.2.2.map Value.entry))
    (hreply : ∀ m, Frame.ofExcept r.1 = .error m → w.apply now (db.view now) = db.view now) :
    Performs now db (.ofExcept (db.computePair now a b f).1) (db.computePair now a b f).2 w := by
  obtain ⟨hw, hv⟩ := computePair_spec h hne hr hx hy
  refine ⟨hw, hv.trans hview.symm, fun m hm => hreply m ?_⟩
  rw [← hr, ← computePair_fst h hne f]
  exact hm

end Db

end RespStore
