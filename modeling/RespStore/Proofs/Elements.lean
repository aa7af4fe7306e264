import RespStore.Proofs.Clients
import RespStore.Proofs.Collection.DictHistory
import RespStore.Text.Fingerprint

/-!
# Elements of collections

A collection that can be seen has elements: a key goes when its last element does, and a failed
first element does not leave a key behind.
-/

namespace RespStore

/-- How many elements a collection has. -/
def Content.card? : Content → Option Nat
  | .string _ => none
  | .list items => some items.length
  | .hash fields => some fields.keys.card
  | .set members => some members.card
  | .sortedSet elements => some elements.length

theorem Content.isEmpty_iff {c : Content} : c.isEmpty = true ↔ c.card? = some 0 := by
  cases c with
  | string bytes => simp [isEmpty, card?]
  | list items => simp [isEmpty, card?]
  | hash fields => simp [isEmpty, card?, Dict.eq_empty_iff_keys]
  | set members => simp [isEmpty, card?]
  | sortedSet elements => simp [isEmpty, card?]

namespace Data

variable [Digest String] {d : Data}

/-- How many elements a collection counts. -/
def count? : Data → Option Nat
  | .string _ => none
  | .list items => some items.size
  | .hash fields => some fields.size
  | .set members => some members.size
  | .sortedSet members => some members.size

/-- A collection counts the elements that it has. -/
theorem Sound.count?_eq (h : d.Sound) : d.count? = d.content.card? := by
  cases d with
  | string bytes => rfl
  | list items => exact congrArg some (LinkedList.size_eq_length h)
  | hash fields => exact congrArg some ((Dict.WF.holds h).size_eq)
  | set members => exact congrArg some ((Dict.WF.holds h).size_eq)
  | sortedSet members => exact congrArg some (SortedSet.WF.size_eq_length h)

end Data

namespace Clients

variable [Digest String] [Matcher] {n : Nat} {x : Clients}

/-- Whatever has been run before, a collection that is found under a key counts the elements that
it has, and does not count none. -/
theorem Reachable.count?_ne_zero (h : Reachable n x) (i now : Nat) (key : String) (v : Value)
    (hv : ((x.keyspace.store.db i).get now key).1 = some v) :
    v.data.count? = v.data.content.card? ∧ v.data.count? ≠ some 0 := by
  rw [Db.get_fst] at hv
  have hdata := (h.sound.wf i).slot now key v hv
  have hcount := hdata.sound.count?_eq
  refine ⟨hcount, fun hzero => ?_⟩
  rw [hcount, ← Content.isEmpty_iff, hdata.nonempty] at hzero
  cases hzero

end Clients

namespace Clients

/-- One client pushes two elements, and another one pops the first of them. -/
def popped : Clients :=
  ((new 1 ⟨fun _ => 0, 0⟩).request 0 5 (.ofList .text ["RPUSH", "k", "a", "b"])).request 1 6
    (.ofList .text ["LPOP", "k"])

/-- The last element keeps its key. -/
theorem popped_counts_one :
    ∃ v, ((popped.keyspace.store.db 0).get 7 "k").1 = some v ∧ v.data.count? = some 1 ∧
      v.data.count? = v.data.content.card? ∧ v.data.count? ≠ some 0 := by
  have hreachable : Reachable 1 popped := ((Reachable.new _).request 0 5 _).request 1 6 _
  have hcount : ((popped.keyspace.store.db 0).get 7 "k").1.bind (·.data.count?) = some 1 := by
    decide +kernel
  obtain ⟨v, hv, hone⟩ := Option.bind_eq_some_iff.mp hcount
  exact ⟨v, hv, hone, hreachable.count?_ne_zero 0 7 "k" v hv⟩

end Clients

end RespStore
