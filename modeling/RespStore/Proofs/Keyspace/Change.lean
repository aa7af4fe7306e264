import RespStore.Proofs.Keyspace.Db

/-!
# Changes of entries

A command that writes to a key is described by a change: a function from the entry of the key to
its new entry. Most changes read content of one kind, with a default for a key that is absent, and
either refuse or put new content under the old deadline.
-/

namespace RespStore

namespace Content

def string? : Content → Option Bytes
  | .string bytes => some bytes
  | _ => none

def list? : Content → Option (List Bytes)
  | .list items => some items
  | _ => none

def hash? : Content → Option (Finmap fun _ : String => Bytes)
  | .hash fields => some fields
  | _ => none

def set? : Content → Option (Finset String)
  | .set members => some members
  | _ => none

def sortedSet? : Content → Option (List Element)
  | .sortedSet elements => some elements
  | _ => none

end Content

namespace Change

variable {α : Type}

/-- The content of an entry as `get` reads it; `absent` stands for that of no entry. -/
def read (get : Content → Option α) (absent : Option α) (slot : Option Entry) : Option α :=
  slot.elim absent fun e => get e.content

/-- Puts what `f` makes of the content in its place, unless reading or `f` fails. -/
def edit (get : Content → Option α) (absent : Option α) (f : α → Option Content) : Change :=
  fun slot =>
    match (read get absent slot).bind f with
    | some c => Entry.store slot c
    | none => slot

variable {get : Content → Option α} {absent : Option α} {f : α → Option Content}
  {slot : Option Entry} {x : α} {c : Content}

theorem edit_of_read_none (h : read get absent slot = none) : edit get absent f slot = slot := by
  rw [edit, h]
  rfl

theorem edit_of_refused (h : read get absent slot = some x) (hf : f x = none) :
    edit get absent f slot = slot := by
  rw [edit, h, Option.bind_some, hf]

theorem edit_of_some (h : read get absent slot = some x) (hf : f x = some c) :
    edit get absent f slot = Entry.store slot c := by
  rw [edit, h, Option.bind_some, hf]

end Change

/-! ## Values of one kind -/

namespace Value

variable [Digest String] {v : Value} {slot : Option Value}

/-- A value of the kind that `as` takes, whose content `get` reads as `abs` says, or of another
kind, which neither takes. -/
def ReadsAs {α β : Type} (as : Value → Except StoreError α) (get : Content → Option β)
    (Good : α → Prop) (abs : α → β) (v : Value) : Prop :=
  (∃ x, as v = .ok x ∧ Good x ∧ get v.data.content = some (abs x)) ∨
    as v = .error .wrongType ∧ get v.data.content = none

theorem asString_reads (_ : v.data.WF) :
    v.ReadsAs asString Content.string? (fun _ => True) id := by
  obtain ⟨d, t⟩ := v
  cases d with
  | string bytes => exact .inl ⟨bytes, rfl, trivial, rfl⟩
  | _ => exact .inr ⟨rfl, rfl⟩

theorem asList_reads (h : v.data.WF) :
    v.ReadsAs asList Content.list? LinkedList.WF LinkedList.toList := by
  obtain ⟨d, t⟩ := v
  cases d with
  | list items => exact .inl ⟨items, rfl, h.sound, rfl⟩
  | _ => exact .inr ⟨rfl, rfl⟩

theorem asHash_reads (h : v.data.WF) : v.ReadsAs asHash Content.hash? Dict.WF Dict.toFinmap := by
  obtain ⟨d, t⟩ := v
  cases d with
  | hash fields => exact .inl ⟨fields, rfl, h.sound, rfl⟩
  | _ => exact .inr ⟨rfl, rfl⟩

theorem asSet_reads (h : v.data.WF) :
    v.ReadsAs asSet Content.set? Dict.WF fun s => s.toFinmap.keys := by
  obtain ⟨d, t⟩ := v
  cases d with
  | set members => exact .inl ⟨members, rfl, h.sound, rfl⟩
  | _ => exact .inr ⟨rfl, rfl⟩

theorem asSortedSet_reads (h : v.data.WF) :
    v.ReadsAs asSortedSet Content.sortedSet? SortedSet.WF SortedSet.toList := by
  obtain ⟨d, t⟩ := v
  cases d with
  | sortedSet members => exact .inl ⟨members, rfl, h.sound, rfl⟩
  | _ => exact .inr ⟨rfl, rfl⟩

/-- The same for the slot of a value that is there. -/
theorem some_reads {α β : Type} {as : Value → Except StoreError α} {get : Content → Option β}
    {Good : α → Prop} {abs : α → β} (has : ∀ {v : Value}, v.data.WF → v.ReadsAs as get Good abs)
    {absent : Option β} (h : SlotWF (some v)) :
    (∃ x, as v = .ok x ∧ Good x ∧
      Change.read get absent ((some v).map entry) = some (abs x)) ∨
    (as v = .error .wrongType ∧ Change.read get absent ((some v).map entry) = none) :=
  has (h v rfl)

/-- The same for a slot, where `empty` stands for an absent value. -/
theorem slot_reads {α β : Type} {as : Value → Except StoreError α} {get : Content → Option β}
    {Good : α → Prop} {abs : α → β} (has : ∀ {v : Value}, v.data.WF → v.ReadsAs as get Good abs)
    (empty : α) {absent : β} (hgood : Good empty) (habs : abs empty = absent)
    (h : SlotWF slot) :
    (∃ x, slot.elim (pure empty) as = .ok x ∧ Good x ∧
      Change.read get (some absent) (slot.map entry) = some (abs x)) ∨
    (slot.elim (pure empty) as = .error .wrongType ∧
      Change.read get (some absent) (slot.map entry) = none) := by
  cases slot with
  | none => exact .inl ⟨empty, rfl, hgood, congrArg some habs.symm⟩
  | some v => exact has (h v rfl)

variable {α : Type} {get : Content → Option α} {absent : Option α} {f : α → Option Content} {x : α}
  {d : Data}

theorem store_edits (hread : Change.read get absent (slot.map entry) = some x)
    (hf : f x = some d.content) (hd : d.WF) :
    SlotWF (store slot d) ∧
      (store slot d).map entry = Change.edit get absent f (slot.map entry) := by
  rw [Change.edit_of_some hread hf]
  exact store_spec _ hd

theorem storeUnless_edits {isEmpty : Bool} (hread : Change.read get absent (slot.map entry) = some x)
    (hf : f x = some d.content) (hd : d.Sound) (hempty : d.content.isEmpty = isEmpty) :
    SlotWF (storeUnless isEmpty slot d) ∧
      (storeUnless isEmpty slot d).map entry = Change.edit get absent f (slot.map entry) := by
  rw [Change.edit_of_some hread hf]
  exact storeUnless_spec _ hd hempty

end Value

end RespStore
