import RespStore.Proofs.Command.Answer.List
import RespStore.Proofs.Command.Answer.SortedSet
import RespStore.Proofs.Command.Run

/-!
# Commands on one key

A command that edits the collection of one key leaves the databases showing what they showed, with
other content under that key and its deadline, or without the key if no elements are left. A key
that is absent has an empty collection of any kind.
-/

namespace RespStore

namespace Entry

variable {α : Type} {get : Content → Option α} {x x₀ : α} {slot : Option Entry} {now : Nat}

/-- An answer for a key that is absent which is that for an empty collection. -/
theorem answer_of_read {absent : Frame} {f : α → Frame}
    (hread : Change.read get (some x₀) slot = some x) (habsent : absent = f x₀) :
    answer get absent f slot = f x := by
  cases slot with
  | none =>
    cases hread
    exact habsent
  | some e => exact answer_of_some hread

theorem store_list (slot : Option Entry) (items : List Bytes) :
    store slot (.list items) =
      if items = [] then none else some ⟨.list items, slot.bind (·.expiresAt)⟩ := by
  cases items <;> rfl

/-- New content is as live as the entry whose place it takes. -/
theorem filter_store (h : slot.filter (·.isLive now) = slot) (c : Content) :
    (store slot c).filter (·.isLive now) = store slot c := by
  unfold store
  split
  · rfl
  · refine Option.filter_eq_some_iff.mpr ⟨rfl, ?_⟩
    cases slot with
    | none => rfl
    | some e => exact (Option.filter_eq_some_iff.mp h).2

end Entry

namespace View

variable {α : Type} {get : Content → Option α} {absent : Option α} {f : α → Option Content}
  {x x₀ : α} {c : Content} {v : View} {now : Nat} {key : String}

/-- The items of the list under a key; none are there for a key that is absent. -/
def items? (v : View) (key : String) : Option (List Bytes) :=
  Change.read Content.list? (some []) (v key)

/-- The elements of the sorted set under a key. -/
def elements? (v : View) (key : String) : Option (List Element) :=
  Change.read Content.sortedSet? (some []) (v key)

theorem change_edit (h : v.Live now) (hread : Change.read get absent (v key) = some x)
    (hf : f x = some c) :
    v.change now key (Change.edit get absent f) =
      Function.update v key (Entry.store (v key) c) := by
  rw [change, Change.edit_of_some hread hf, write, Entry.filter_store (h.filter_eq key)]

/-- An edit that leaves an absent key alone gives it an empty collection, which is the same. -/
theorem change_edit_present (h : v.Live now) (hread : Change.read get (some x₀) (v key) = some x)
    (hf : f x = some c) (hempty : x = x₀ → c.isEmpty = true) :
    v.change now key (Change.edit get none f) = Function.update v key (Entry.store (v key) c) := by
  cases hkey : v key with
  | some e =>
    rw [hkey] at hread
    rw [← hkey]
    exact change_edit h (by rw [hkey]; exact hread) hf
  | none =>
    rw [hkey] at hread
    rw [change, hkey, Entry.store, hempty (Option.some.inj hread).symm]
    rfl

/-- What shows of numbered databases, with another entry for one key of one of them. -/
def replace (vs : Nat → View) (i : Nat) (key : String) (slot : Option Entry) : Nat → View :=
  Function.update vs i (Function.update (vs i) key slot)

theorem replace_apply (vs : Nat → View) (i : Nat) (key : String) (slot : Option Entry) :
    replace vs i key slot i key = slot := by
  rw [replace, Function.update_self, Function.update_self]

theorem replace_self (vs : Nat → View) (i : Nat) (key : String) :
    replace vs i key (vs i key) = vs := by
  rw [replace, Function.update_eq_self, Function.update_eq_self]

theorem replace_replace (vs : Nat → View) (i : Nat) (key : String) (slot slot' : Option Entry) :
    replace (replace vs i key slot) i key slot' = replace vs i key slot' := by
  rw [replace, replace, Function.update_self, Function.update_idem, Function.update_idem, replace]

end View

namespace Command

variable [Digest String] {now : Nat} {s : Session} {k : Keyspace}

theorem Ran.view_write {c : Command} {popped : List String} {e : Effect}
    (h : Ran now s k c popped e) (hc : c.isFlushAll = false) :
    e.keyspace.store.view now = Function.update (k.store.view now) s.selected
      ((c.write now popped).apply now (k.store.view now s.selected)) := by
  rw [h.view, effect, hc]
  rfl

/-- A command that edits the collection of a key stores what it makes of the elements. One that leaves
an absent key alone leaves an empty collection empty. -/
theorem Ran.view_edit {c : Command} {popped : List String} {e : Effect} {key : String} {α : Type}
    {get : Content → Option α} {absent : Option α} {x₀ x : α} {F : α → Content}
    (h : Ran now s k c popped e) (hc : c.isFlushAll = false)
    (hwrite : c.write now popped = .change key (Change.edit get absent fun x => some (F x)))
    (habsent : absent = some x₀ ∨ absent = none ∧ (F x₀).isEmpty = true)
    (hread : Change.read get (some x₀) (k.store.view now s.selected key) = some x) :
    e.keyspace.store.view now = View.replace (k.store.view now) s.selected key
      (Entry.store (k.store.view now s.selected key) (F x)) := by
  have hview := h.view_write hc
  rw [hwrite] at hview
  refine hview.trans (congrArg (Function.update _ _) ?_)
  rcases habsent with rfl | ⟨rfl, hempty⟩
  · exact View.change_edit Db.view_live hread rfl
  · exact View.change_edit_present Db.view_live hread rfl fun heq => heq ▸ hempty

variable [Matcher]

variable (now) in
theorem list_ran (h : k.store.WF) (hs : s.selected < k.store.size) {c : ListCommand}
    (hc : c.Proper) : Ran now s k (list c) [] ((list c).run now s k) :=
  run_ran now h hs hc nofun

theorem list_reply (h : k.store.WF) (c : ListCommand) :
    ((list c).run now s k).reply = c.answer (k.store.view now s.selected) :=
  c.run_answer (h s.selected) k.draws

variable (now) in
theorem sortedSet_ran (h : k.store.WF) (hs : s.selected < k.store.size) {c : SortedSetCommand}
    (hc : c.Proper) : Ran now s k (sortedSet c) [] ((sortedSet c).run now s k) :=
  run_ran now h hs hc nofun

theorem sortedSet_reply (h : k.store.WF) {c : SortedSetCommand} (hc : c.Proper) :
    ((sortedSet c).run now s k).reply = c.answer (k.store.view now s.selected) :=
  c.run_answer (h s.selected) k.draws hc

end Command

end RespStore
