import RespStore.Proofs.Clients
import RespStore.Proofs.Command.OneKey
import RespStore.Text.Fingerprint

/-!
# Index ranges of lists and sorted sets

A range of a list or of a sorted set, in either direction, answers what is at the positions between
its two indexes, and a removal by rank leaves what is at the others.
-/

namespace RespStore

open Element SortedSetCommand

theorem SortedSetCommand.outsideRanks_eq (start stop : Int) (es : List Element) :
    outsideRanks start stop es = atPositions (fun i => !between start stop es.length i) es := by
  unfold outsideRanks
  cases h : resolveRange? start stop es.length with
  | none =>
    refine (atPositions_eq_self fun i hi => ?_).symm
    rw [between_of_none hi h]
    rfl
  | some range => exact (atPositions_between h).2.symm

theorem SortedSetCommand.outsideRanks_nil (start stop : Int) : outsideRanks start stop [] = [] :=
  outsideRanks_eq start stop []

theorem Element.length_directed (reverse : Bool) (es : List Element) :
    (directed reverse es).length = es.length := by
  cases reverse with
  | false => rfl
  | true => exact List.length_reverse

namespace Command

variable [Digest String] [Matcher] {now : Nat} {s : Session} {k : Keyspace} {key : String}

theorem range_reply (h : k.store.WF) {items : List Bytes}
    (hkey : (k.store.view now s.selected).items? key = some items) (start stop : Int64) :
    ((list (.range key start stop)).run now s k).reply = .ofList .bulk
      (atPositions (between start.toInt stop.toInt items.length) items) := by
  rw [list_reply h, ← sliceRange_eq]
  refine Entry.answer_of_read hkey ?_
  rw [sliceRange_eq]
  rfl

theorem scoredRange_reply (h : k.store.WF) {es : List Element}
    (hkey : (k.store.view now s.selected).elements? key = some es) (reverse : Bool)
    (start stop : Int64) (withScores : Bool) :
    ((sortedSet (.range reverse key start stop withScores)).run now s k).reply =
      elementsReply withScores
        (atPositions (between start.toInt stop.toInt es.length) (directed reverse es)) := by
  have hslice := sliceRange_eq start.toInt stop.toInt (directed reverse es)
  rw [length_directed] at hslice
  rw [← hslice]
  refine (sortedSet_reply h (c := .range reverse key start stop withScores) trivial).trans
    (Entry.answer_of_read hkey ?_)
  rw [sliceRange_eq]
  cases reverse <;> cases withScores <;> rfl

theorem removeByRank_reply (h : k.store.WF) {es : List Element}
    (hkey : (k.store.view now s.selected).elements? key = some es) (start stop : Int64) :
    ((sortedSet (.removeByRank key start stop)).run now s k).reply =
      .count (atPositions (between start.toInt stop.toInt es.length) es).length := by
  rw [← Nat.sub_eq_of_eq_add (length_atPositions_add _ es).symm, ← outsideRanks_eq]
  refine (sortedSet_reply h (c := .removeByRank key start stop) trivial).trans ?_
  refine Entry.answer_of_read (f := removedReply (outsideRanks start.toInt stop.toInt)) hkey ?_
  rw [removedReply, outsideRanks_nil]
  rfl

theorem removeByRank_view (h : k.store.WF) (hs : s.selected < k.store.size) {es : List Element}
    (hkey : (k.store.view now s.selected).elements? key = some es) (start stop : Int64) :
    ((sortedSet (.removeByRank key start stop)).run now s k).keyspace.store.view now =
      View.replace (k.store.view now) s.selected key (Entry.store (k.store.view now s.selected key)
        (.sortedSet
          (atPositions (fun i => !between start.toInt stop.toInt es.length i) es))) := by
  have hran := sortedSet_ran now h hs (c := .removeByRank key start stop) trivial
  rw [← outsideRanks_eq]
  refine hran.view_edit rfl
    (F := fun es => .sortedSet (outsideRanks start.toInt stop.toInt es)) rfl (.inr ⟨rfl, ?_⟩) hkey
  rw [outsideRanks_nil]
  rfl

variable (now) in
/-- Ranges answer what is at the positions from the start to the stop, where negative indexes count
from the end, and a removal by rank takes just that away. No step of working the positions out
overflows, and they are positions that there are. -/
theorem indexRanges_select (h : k.store.WF) (hs : s.selected < k.store.size) (start stop : Int64) :
    let v := k.store.view now s.selected
    let selects := between start.toInt stop.toInt
    (∀ key items, v.items? key = some items →
      ((list (.range key start stop)).run now s k).reply =
        .ofList .bulk (atPositions (selects items.length) items)) ∧
    (∀ key es, v.elements? key = some es →
      (∀ reverse withScores,
        ((sortedSet (.range reverse key start stop withScores)).run now s k).reply =
          elementsReply withScores (atPositions (selects es.length) (directed reverse es))) ∧
      let e := (sortedSet (.removeByRank key start stop)).run now s k
      let kept := atPositions (fun i => !selects es.length i) es
      e.reply = .count (atPositions (selects es.length) es).length ∧
        e.keyspace.store.view now = View.replace (k.store.view now) s.selected key
          (Entry.store (v key) (.sortedSet kept))) ∧
    ∀ size : Nat, IntFormat.int64.Fits size →
      resolveFixed? .int64 start.toInt stop.toInt size =
          some (resolveRange? start.toInt stop.toInt size) ∧
        ∀ first last, resolveRange? start.toInt stop.toInt size = some (first, last) →
          first ≤ last ∧ last < size := by
  refine ⟨fun key items hkey => range_reply h hkey start stop, fun key es hkey => ⟨?_, ?_, ?_⟩,
    fun size hsize => ⟨resolveFixed?_int64 start stop hsize, fun _ _ => resolveRange?_bounds⟩⟩
  · exact fun reverse withScores => scoredRange_reply h hkey reverse start stop withScores
  · exact removeByRank_reply h hkey start stop
  · exact removeByRank_view h hs hkey start stop

end Command

namespace Clients

/-- A list of three items, and a sorted set of two elements. -/
def ranged : Clients :=
  ((new 1 ⟨fun _ => 0, 0⟩).request 0 5 (.ofList .text ["RPUSH", "l", "a", "b", "c"])).request 0 6
    (.ofList .text ["ZADD", "z", "1", "x", "2", "y"])

/-- From the last position but one, to more than there are. -/
theorem ranged_selects :
    let k := ranged.keyspace
    let s := ranged.sessions 0
    let view := k.store.view 7 s.selected
    let items : List Bytes := [[97], [98], [99]]
    let elements : List Element := [("x", ⟨0x3ff0000000000000⟩), ("y", ⟨0x4000000000000000⟩)]
    k.store.WF ∧ s.selected < k.store.size ∧ view.items? "l" = some items ∧
      view.elements? "z" = some elements ∧
      ((Command.list (.range "l" (-2) 5)).run 7 s k).reply = .ofList .bulk [[98], [99]] ∧
      ((Command.sortedSet (.range true "z" (-2) 5 false)).run 7 s k).reply =
        SortedSetCommand.elementsReply false elements.reverse ∧
      ((Command.sortedSet (.removeByRank "z" (-2) 5)).run 7 s k).keyspace.store.view 7 =
        View.replace (k.store.view 7) s.selected "z" none ∧
      resolveFixed? .int64 (-2) 5 3 = some (some (1, 2)) := by
  intro k s view items elements
  have hreachable : Reachable 1 ranged := ((Reachable.new _).request 0 5 _).request 0 6 _
  have hwf : k.store.WF := hreachable.sound.wf
  have hs : s.selected < k.store.size := hreachable.sound.selected_lt 0
  have hviews : view.items? "l" = some items ∧ view.elements? "z" = some elements := by
    decide +kernel
  obtain ⟨hlist, hset, hsize⟩ := Command.indexRanges_select 7 hwf hs (-2) 5
  obtain ⟨hrange, -, hremoved⟩ := hset "z" elements hviews.2
  refine ⟨hwf, hs, hviews.1, hviews.2, hlist "l" items hviews.1, hrange true false, ?_, ?_⟩
  · refine hremoved.trans (congrArg _ ?_)
    rfl
  · exact (hsize 3 (by decide)).1

end Clients

end RespStore
