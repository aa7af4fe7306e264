import RespStore.Proofs.Collection.SkipList.Range
import RespStore.Proofs.Collection.SkipList.Shape

/-!
# Histories of a skip list

Change by change, a skip list does what a sorted list of elements does, and it can be looked up as
one, whatever heights are drawn for its nodes.
-/

namespace RespStore.SkipList

open Element

variable {l : SkipList} {es : List Element}

/-- A change of the elements. -/
inductive Edit
  | insert (e : Element)
  | delete (e : Element)
  | deleteScores (r : ScoreRange)
  | deleteRanks (start stop : Nat)

/-- What a change answers. -/
inductive Answer
  | done
  | found (b : Bool)
  | removed (es : List Element)
  deriving DecidableEq

namespace Edit

/-- The change of a skip list, with the height that is drawn if there is a new node. -/
def run (height : Nat) (l : SkipList) : Edit → Answer × SkipList
  | insert e => (.done, (l.insert e.1 e.2 height).2)
  | delete e => (l.delete e.1 e.2).map .found id
  | deleteScores r => (l.deleteRangeByScore r).map .removed id
  | deleteRanks start stop => (l.deleteRangeByRank start stop).map .removed id

/-- The change of a sorted list. Ranks are counted from 1, and from 0 on there is no range. -/
def onSorted (es : List Element) : Edit → Answer × List Element
  | insert e => (.done, insertSorted e es)
  | delete e => (.found (es.any fun f => Matches f e), eraseMatch e es)
  | deleteScores r =>
    (.removed (es.filter fun e => r.contains e.2), es.filter fun e => !r.contains e.2)
  | deleteRanks start stop =>
    if start = 0 then (.removed [], es)
    else (.removed ((es.take stop).drop (start - 1)),
      es.take (start - 1) ++ es.drop (max (start - 1) stop))

/-- A member is inserted only where it is new, and only with a number for its score. -/
def Allowed (es : List Element) : Edit → Prop
  | insert e => e.Scored ∧ ∀ f ∈ es, f.1 ≠ e.1
  | _ => True

instance (es : List Element) : DecidablePred (Allowed es)
  | insert e => inferInstanceAs (Decidable (e.Scored ∧ ∀ f ∈ es, f.1 ≠ e.1))
  | delete _ => instDecidableTrue
  | deleteScores _ => instDecidableTrue
  | deleteRanks _ _ => instDecidableTrue

theorem run_spec (h : l.WF) (c : Edit) (hc : c.Allowed l.toList) (height : Nat) :
    (c.run height l).2.WF ∧ (c.run height l).1 = (c.onSorted l.toList).1 ∧
      (c.run height l).2.toList = (c.onSorted l.toList).2 := by
  cases c with
  | insert e =>
    obtain ⟨hwf, hlist⟩ := h.insert_spec hc.1 (fun f hf hm => hc.2 f hf hm.2) height
    exact ⟨hwf, rfl, hlist⟩
  | delete e =>
    cases he : e.2.isNaN with
    | true =>
      have hnone : ∀ f ∈ l.toList, ¬Matches f e := fun f hf hm => by
        have hscored : e.2.isNaN = false := hm.symm.scored (h.scored f hf)
        exact Bool.noConfusion (he.symm.trans hscored)
      rw [run, delete_of_isNaN he]
      refine ⟨h, ?_, (eraseMatch_eq_self hnone).symm⟩
      exact congrArg Answer.found (List.any_eq_false.mpr fun f hf => by simpa using hnone f hf).symm
    | false =>
      obtain ⟨hwf, hlist, hfound⟩ := h.delete_spec he
      exact ⟨hwf, congrArg Answer.found hfound, hlist⟩
  | deleteScores r =>
    obtain ⟨hwf, hremoved, hkept⟩ := deleteRangeByScore_eq h r
    exact ⟨hwf, congrArg Answer.removed hremoved, hkept⟩
  | deleteRanks start stop =>
    rw [run, onSorted]
    split
    · next hstart =>
      rw [deleteRangeByRank, if_pos (.inl hstart)]
      exact ⟨h, rfl, rfl⟩
    · next hstart =>
      obtain ⟨hwf, hremoved, hkept⟩ := deleteRangeByRank_eq h hstart stop
      exact ⟨hwf, congrArg Answer.removed hremoved, hkept⟩

end Edit

/-! ## Change by change -/

/-- Runs changes one after the other; for the `n`-th the height `draw n` is drawn. -/
def runAll (l : SkipList) (draw : Nat → Nat) : List Edit → List Answer × SkipList
  | [] => ([], l)
  | c :: cs =>
    let (answer, l) := c.run (draw 0) l
    let (answers, l) := runAll l (fun n => draw (n + 1)) cs
    (answer :: answers, l)

def onSortedAll (es : List Element) : List Edit → List Answer × List Element
  | [] => ([], es)
  | c :: cs =>
    let (answer, es) := c.onSorted es
    let (answers, es) := onSortedAll es cs
    (answer :: answers, es)

def AllAllowed (es : List Element) : List Edit → Prop
  | [] => True
  | c :: cs => c.Allowed es ∧ AllAllowed (c.onSorted es).2 cs

instance decAllAllowed : (es : List Element) → DecidablePred (AllAllowed es)
  | _, [] => instDecidableTrue
  | es, c :: cs =>
    have := decAllAllowed (c.onSorted es).2 cs
    inferInstanceAs (Decidable (c.Allowed es ∧ AllAllowed (c.onSorted es).2 cs))

theorem runAll_spec (h : l.WF) (draw : Nat → Nat) {cs : List Edit} (hcs : AllAllowed l.toList cs) :
    (l.runAll draw cs).2.WF ∧ (l.runAll draw cs).1 = (onSortedAll l.toList cs).1 ∧
      (l.runAll draw cs).2.toList = (onSortedAll l.toList cs).2 := by
  induction cs generalizing l draw with
  | nil => exact ⟨h, rfl, rfl⟩
  | cons c cs ih =>
    obtain ⟨hwf, hanswer, hlist⟩ := c.run_spec h hcs.1 (draw 0)
    obtain ⟨hwf', hanswers, hlist'⟩ := ih hwf (fun n => draw (n + 1)) (hlist ▸ hcs.2)
    rw [hlist] at hanswers hlist'
    exact ⟨hwf', congrArg₂ _ hanswer hanswers, hlist'⟩

/-- Looks like the sorted list `es` to everyone who follows links or looks elements up. -/
structure Shows (l : SkipList) (es : List Element) : Prop where
  sorted : Sorted es
  scored : ∀ e ∈ es, e.Scored
  nodes : ∃ ids, l.Shape ids ∧ ids.map l.element? = es.map some ∧
    ∀ k, l.byRank? (k + 1) = ids[k]?
  size : l.size = es.length
  toList : l.toList = es
  byRank?_zero : l.byRank? 0 = none
  elementsFrom : ∀ k, l.elementsFrom (l.byRank? (k + 1)) = es.drop k
  elementsBackFrom : ∀ k, l.elementsBackFrom (l.byRank? k) =
    if k ≤ es.length then (es.take k).reverse else []
  rank? : ∀ e : Element, l.rank? e.1 e.2 =
    if es.any fun f => Matches f e then some ((es.filter fun f => Before f e).length + 1) else none

theorem WF.shows (h : l.WF) : l.Shows l.toList where
  sorted := h.sorted
  scored := h.scored
  nodes := by
    obtain ⟨ids, hr⟩ := h.represents
    exact ⟨ids, hr.shape, hr.map_element?, hr.byRank?_succ⟩
  size := h.size_eq_length
  toList := rfl
  byRank?_zero := SkipList.byRank?_zero h
  elementsFrom := elementsFrom_byRank? h
  elementsBackFrom := elementsBackFrom_byRank? h
  rank? := rank?_eq h

/-- After any history the skip list shows, and has answered, what a sorted list does, on which the
heights have no influence. -/
theorem runAll_refines (draw : Nat → Nat) {cs : List Edit} (hcs : AllAllowed [] cs) :
    (empty.runAll draw cs).1 = (onSortedAll [] cs).1 ∧
      (empty.runAll draw cs).2.Shows (onSortedAll [] cs).2 := by
  rw [← toList_empty] at hcs ⊢
  obtain ⟨hwf, hanswers, hlist⟩ := runAll_spec wf_empty draw hcs
  exact ⟨hanswers, hlist ▸ hwf.shows⟩

/-- Members of equal scores, a slot that is used again, and a range of each kind. -/
def sample : List Edit :=
  [.insert ("b", .zero), .insert ("a", .zero), .insert ("c", .infinity), .delete ("a", .zero),
    .insert ("d", .negInfinity), .deleteScores ⟨.infinity, .infinity, false, false⟩,
    .insert ("e", .infinity), .deleteRanks 1 1]

theorem sample_refines :
    AllAllowed [] sample ∧
      (empty.runAll (fun n => 7 * n % 5 + 1) sample).1 =
        [.done, .done, .done, .found true, .done, .removed [("c", .infinity)], .done,
          .removed [("d", .negInfinity)]] ∧
      (empty.runAll (fun n => 7 * n % 5 + 1) sample).2.Shows [("b", .zero), ("e", .infinity)] := by
  have hallowed : AllAllowed [] sample := by decide +kernel
  have hsorted : onSortedAll [] sample =
      ([.done, .done, .done, .found true, .done, .removed [("c", .infinity)], .done,
        .removed [("d", .negInfinity)]], [("b", .zero), ("e", .infinity)]) := by decide +kernel
  have hrefines := runAll_refines (fun n => 7 * n % 5 + 1) hallowed
  rw [hsorted] at hrefines
  exact ⟨hallowed, hrefines⟩

end RespStore.SkipList
