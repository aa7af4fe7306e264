import RespStore.Command.Outcome
import RespStore.Proofs.Collection.DictMap
import RespStore.Proofs.Collection.LinkedList
import RespStore.Proofs.Collection.SortedSet

/-!
# Views of a database

What clients can tell of a database at a time: the keys whose deadlines have not passed, with their
contents and deadlines. Contents are mathematical values, in which nothing is left of slots,
segments and heights.
-/

namespace RespStore

/-- What a key holds, apart from its representation. -/
inductive Content where
  | string (bytes : Bytes)
  | list (items : List Bytes)
  | hash (fields : Finmap fun _ : String => Bytes)
  | set (members : Finset String)
  | sortedSet (elements : List Element)
  deriving DecidableEq

/-- A collection without elements. -/
def Content.isEmpty : Content → Bool
  | .string _ => false
  | .list items => items.isEmpty
  | .hash fields => fields = ∅
  | .set members => members = ∅
  | .sortedSet elements => elements.isEmpty

structure Entry where
  content : Content
  expiresAt : Option Nat
  deriving DecidableEq

namespace Entry

def isLive (now : Nat) (e : Entry) : Bool := !e.expiresAt.any fun t => t ≤ now

/-- New content in the place of an entry, under its deadline; an empty collection is no entry. -/
def store (slot : Option Entry) (c : Content) : Option Entry :=
  if c.isEmpty then none else some ⟨c, slot.bind (·.expiresAt)⟩

theorem isLive_iff {e : Entry} {t now : Nat} (h : e.expiresAt = some t) :
    e.isLive now = true ↔ now < t := by
  unfold isLive
  rw [h]
  simp

theorem store_of_nonempty {slot : Option Entry} {c : Content} (h : c.isEmpty = false) :
    store slot c = some ⟨c, slot.bind (·.expiresAt)⟩ := by
  rw [store, h]
  rfl

end Entry

/-- What a command does to the entry of its key. -/
abbrev Change := Option Entry → Option Entry

/-- The live entries by key. -/
abbrev View := String → Option Entry

namespace View

variable {v : View} {now t : Nat} {key k : String} {slot : Option Entry}

def empty : View := fun _ => none

/-- What is left of a view at a time. -/
def cut (t : Nat) (v : View) : View := fun key => (v key).filter (·.isLive t)

/-- Gives a key an entry or none; one that is dead already does not show. -/
def write (now : Nat) (v : View) (key : String) (slot : Option Entry) : View :=
  Function.update v key (slot.filter (·.isLive now))

/-- Changes the entry of a key. -/
def change (now : Nat) (v : View) (key : String) (F : Change) : View :=
  v.write now key (F (v key))

/-- Nothing in the view is past its deadline. -/
def Live (now : Nat) (v : View) : Prop := v.cut now = v

theorem Live.filter_eq (h : v.Live now) (key : String) : (v key).filter (·.isLive now) = v key :=
  congrFun h key

theorem write_apply : (v.write now key slot) key = slot.filter (·.isLive now) :=
  Function.update_self ..

/-- What is written shows, or it was past its deadline already. -/
theorem write_cases (v : View) (now : Nat) (key : String) (slot : Option Entry) :
    (∃ e, slot = some e ∧ e.isLive now = true ∧ (v.write now key slot) key = some e) ∨
      ((v.write now key slot) key = none ∧ v.write now key slot = v.write now key none) := by
  rw [write_apply]
  cases slot with
  | none => exact .inr ⟨rfl, rfl⟩
  | some e =>
    cases hl : e.isLive now with
    | true => exact .inl ⟨e, rfl, hl, by simp [Option.filter, hl]⟩
    | false =>
      refine .inr ⟨by simp [Option.filter, hl], ?_⟩
      unfold write
      simp [Option.filter, hl]

theorem write_self (h : v.Live now) (key : String) : v.write now key (v key) = v := by
  rw [write, h.filter_eq, Function.update_eq_self]

/-- A change that leaves the entry of its key as it is changes nothing. -/
theorem change_self (h : v.Live now) {F : Change} (hF : F (v key) = v key) :
    v.change now key F = v := by
  rw [change, hF, write_self h]

theorem Live.write (h : v.Live now) : (v.write now key slot).Live now := by
  funext k
  by_cases hk : k = key
  · subst hk
    simp [cut, View.write, Option.filter_filter]
  · simp only [cut, View.write, Function.update_of_ne hk]
    exact h.filter_eq k

theorem isLive_mono {e : Entry} (ht : now ≤ t) (h : e.isLive t = true) : e.isLive now = true := by
  unfold Entry.isLive at *
  cases he : e.expiresAt with
  | none => rfl
  | some d =>
    simp only [he, Option.any_some, Bool.not_eq_true', decide_eq_false_iff_not] at *
    omega

theorem cut_cut (ht : now ≤ t) : (v.cut now).cut t = v.cut t := by
  funext key
  simp only [cut, Option.filter_filter]
  cases hv : v key with
  | none => rfl
  | some e =>
    cases he : e.isLive t with
    | true => simp [Option.filter, he, isLive_mono ht he]
    | false => simp [Option.filter, he]

end View

/-! ## Values -/

variable [Digest String]

namespace Data

def content : Data → Content
  | .string bytes => .string bytes
  | .list items => .list items.toList
  | .hash fields => .hash fields.toFinmap
  | .set members => .set members.toFinmap.keys
  | .sortedSet members => .sortedSet members.toList

/-- The representation keeps its invariants. -/
def Sound : Data → Prop
  | .string _ => True
  | .list items => items.WF
  | .hash fields => fields.WF
  | .set members => members.WF
  | .sortedSet members => members.WF

/-- A sound representation of something that is not an empty collection. -/
structure WF (d : Data) : Prop where
  sound : d.Sound
  nonempty : d.content.isEmpty = false

end Data

namespace Value

def entry (v : Value) : Entry := ⟨v.data.content, v.expiresAt⟩

omit [Digest String] in
theorem isLive_entry (v : Value) (now : Nat) : v.entry.isLive now = v.isLive now := rfl

/-- A slot whose value, if it has one, is well-formed. -/
def SlotWF (slot : Option Value) : Prop := ∀ v, slot = some v → v.data.WF

theorem slotWF_none : SlotWF none := nofun

theorem slotWF_some {v : Value} (h : v.data.WF) : SlotWF (some v) := by
  rintro _ ⟨⟩
  exact h

theorem SlotWF.filter {slot : Option Value} (h : SlotWF slot) (p : Value → Bool) :
    SlotWF (slot.filter p) := fun v hv =>
  h v (Option.filter_eq_some_iff.mp hv).1

omit [Digest String] in
theorem expiresAt_entry (slot : Option Value) :
    (slot.map entry).bind (·.expiresAt) = slot.bind (·.expiresAt) := by
  cases slot <;> rfl

/-- Storing data that are not an empty collection. -/
theorem store_spec (slot : Option Value) {d : Data} (hd : d.WF) :
    SlotWF (store slot d) ∧ (store slot d).map entry = Entry.store (slot.map entry) d.content := by
  refine ⟨slotWF_some hd, ?_⟩
  rw [Entry.store_of_nonempty hd.nonempty, expiresAt_entry]
  rfl

/-- Storing data unless they are an empty collection. -/
theorem storeUnless_spec (slot : Option Value) {d : Data} {isEmpty : Bool} (hd : d.Sound)
    (hempty : d.content.isEmpty = isEmpty) :
    SlotWF (storeUnless isEmpty slot d) ∧
      (storeUnless isEmpty slot d).map entry = Entry.store (slot.map entry) d.content := by
  cases isEmpty with
  | true =>
    refine ⟨slotWF_none, ?_⟩
    rw [Entry.store, hempty]
    rfl
  | false => exact store_spec slot ⟨hd, hempty⟩

end Value

/-! ## Databases -/

namespace Db

variable {db : Db} {now t : Nat} {key k : String} {α : Type}

structure WF (db : Db) : Prop where
  entries : db.entries.WF
  values : ∀ k v, db.entries.get? k = some v → v.data.WF

/-- The value of a key, if its deadline has not passed. -/
def slot (db : Db) (now : Nat) (key : String) : Option Value :=
  (db.entries.get? key).filter (·.isLive now)

/-- What shows of a database at a time. -/
def view (db : Db) (now : Nat) : View := fun key => (db.slot now key).map Value.entry

theorem view_live : (db.view now).Live now := by
  funext key
  unfold View.cut view slot
  cases hv : (db.entries.get? key).filter (·.isLive now) with
  | none => rfl
  | some v =>
    have hl : v.isLive now = true := (Option.filter_eq_some_iff.mp hv).2
    simp [Option.filter, Value.isLive_entry, hl]

/-- What shows at a later time is what is left of what showed before. -/
theorem cut_view (h : now ≤ t) : (db.view now).cut t = db.view t := by
  funext key
  unfold View.cut view slot
  cases hv : db.entries.get? key with
  | none => rfl
  | some v =>
    cases ht : v.isLive t with
    | true =>
      have hn : v.isLive now = true := View.isLive_mono (e := v.entry) h ht
      simp [Option.filter, ht, hn, Value.isLive_entry]
    | false =>
      cases hn : v.isLive now <;> simp [Option.filter, ht, hn, Value.isLive_entry]

/-- What shows of a key later is settled by what shows of it now. -/
theorem view_later {db' : Db} (h : now ≤ t) (hkey : db'.view now key = db.view now key) :
    db'.view t key = db.view t key := by
  rw [← cut_view h, ← cut_view h]
  exact congrArg (Option.filter (·.isLive t)) hkey

theorem WF.slot (h : db.WF) (now : Nat) (key : String) : Value.SlotWF (db.slot now key) :=
  Value.SlotWF.filter (fun v hv => h.values key v hv) _

/-- No empty collection shows. -/
theorem WF.view_nonempty (h : db.WF) (now : Nat) (key : String) :
    ∀ e, db.view now key = some e → e.content.isEmpty = false := by
  intro e he
  obtain ⟨v, hv, rfl⟩ := Option.map_eq_some_iff.mp he
  exact (h.slot now key v hv).nonempty

theorem wf_empty : empty.WF where
  entries := Dict.wf_empty
  values := fun k v hk => by
    rw [show empty.entries.get? k = none from Dict.get?_empty k] at hk
    cases hk

theorem view_empty : empty.view now = View.empty := by
  funext key
  rw [view, slot, show empty.entries.get? key = none from Dict.get?_empty key]
  rfl

/-- A dictionary that answers differently for one key only. -/
theorem wf_of_update {entries : Dict String Value} {slot : Option Value} (h : db.WF)
    (hw : entries.WF) (hs : Value.SlotWF slot)
    (hget : ∀ k, entries.get? k = if k = key then slot else db.entries.get? k) :
    (⟨entries⟩ : Db).WF where
  entries := hw
  values := fun k v hk => by
    rw [hget] at hk
    split at hk
    · exact hs v hk
    · exact h.values k v hk

theorem view_of_update {entries : Dict String Value} {slot : Option Value}
    (hget : ∀ k, entries.get? k = if k = key then slot else db.entries.get? k) (now : Nat) :
    (⟨entries⟩ : Db).view now = (db.view now).write now key (slot.map Value.entry) := by
  funext k
  unfold View.write
  by_cases hk : k = key
  · subst hk
    rw [Function.update_self]
    show ((entries.get? k).filter _).map _ = _
    rw [hget, if_pos rfl]
    cases slot with
    | none => rfl
    | some v => cases hl : v.isLive now <;> simp [Option.filter, hl, Value.isLive_entry]
  · rw [Function.update_of_ne hk]
    show ((entries.get? k).filter _).map _ = _
    rw [hget, if_neg hk]
    rfl

end Db

end RespStore
