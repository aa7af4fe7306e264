import RespStore.Proofs.Collection.SkipList.History
import RespStore.Proofs.Collection.SortedSet
import RespStore.Proofs.History

/-!
# Histories of a sorted set

Operation by operation, a sorted set answers what an ascending list of elements does, and its
dictionary and its index hold the elements of that list, whatever heights are drawn.
-/

namespace RespStore

namespace Element

variable {es a b : List Element} {e : Element} {member : String} {x : Binary64}

/-- An ascending list in the order of a direction. -/
def directed (reverse : Bool) (es : List Element) : List Element :=
  if reverse then es.reverse else es

theorem mem_directed {reverse : Bool} : e ∈ directed reverse es ↔ e ∈ es := by
  cases reverse <;> simp [directed]

theorem directed_split (reverse : Bool) (a b : List Element) (e : Element) :
    directed reverse (a ++ e :: b) =
      if reverse then b.reverse ++ e :: a.reverse else a ++ e :: b := by
  cases reverse <;> simp [directed]

theorem findIdx?_split (ha : ∀ f ∈ a, f.1 ≠ member) :
    (a ++ (member, x) :: b).findIdx? (fun e => e.1 = member) = some a.length := by
  have hnone : a.findIdx? (fun e => e.1 = member) = none :=
    List.findIdx?_eq_none_iff.mpr fun f hf => decide_eq_false (ha f hf)
  rw [List.findIdx?_append, hnone, List.findIdx?_cons, if_pos (decide_eq_true rfl)]
  simp

end Element

namespace SortedSet

open Element

variable [Digest String] {s : SortedSet} {es : List Element} {member : String} {x : Binary64}

/-! ## Operations -/

inductive Operation
  | insert (member : String) (score : Binary64) (number : score.isNaN = false)
  | incr (member : String) (delta : Binary64)
  | remove (member : String)
  | removeScores (r : ScoreRange)
  | removeRanks (start stop : Nat)

/-- What an operation answers. -/
inductive Answer
  | flag (b : Bool)
  | score (x : Option Binary64)
  | count (n : Nat)

/-- The operation on a sorted set, with the height that is drawn if there is a new node. -/
def Operation.run (s : SortedSet) : Nat × Operation → Answer × SortedSet
  | (height, insert member x _) => (s.insert member x height).map .flag id
  | (height, incr member delta) => (s.incr member delta height).map .score id
  | (_, remove member) => (s.remove member).map .flag id
  | (_, removeScores r) => (s.removeRangeByScore r).map .count id
  | (_, removeRanks start stop) => (s.removeRangeByRank start stop).map .count id

/-- The operation on an ascending list, on which heights have no influence. -/
def Operation.onSorted (es : List Element) : Nat × Operation → Answer × List Element
  | (_, insert member x _) => (.flag (scoreOf member es).isNone, put member x es)
  | (_, incr member delta) =>
    let x := (scoreOf member es).getD .zero + delta
    if x.isNaN then (.score none, es) else (.score (some x), put member x es)
  | (_, remove member) => (.flag (scoreOf member es).isSome, without member es)
  | (_, removeScores r) =>
    (.count (es.filter fun e => r.contains e.2).length, es.filter fun e => !r.contains e.2)
  | (_, removeRanks start stop) =>
    (.count ((es.take (stop + 1)).drop start).length,
      es.take start ++ es.drop (max start (stop + 1)))

theorem insert_fst (height : Nat) : (s.insert member x height).1 = (s.score? member).isNone := by
  unfold insert
  cases s.score? member with
  | none => rfl
  | some current =>
    dsimp only
    split <;> rfl

theorem WF.run (h : s.WF) (c : Nat × Operation) :
    (Operation.run s c).1 = (Operation.onSorted s.toList c).1 ∧ (Operation.run s c).2.WF ∧
      (Operation.run s c).2.toList = (Operation.onSorted s.toList c).2 := by
  obtain ⟨height, c⟩ := c
  cases c with
  | insert member x hx =>
    have hfst : (s.insert member x height).1 = (scoreOf member s.toList).isNone := by
      rw [insert_fst, h.score?_eq]
    exact ⟨congrArg Answer.flag hfst, h.insert_spec hx member height⟩
  | incr member delta =>
    simp only [Operation.run, Operation.onSorted, incr, h.score?_eq]
    split
    · exact ⟨rfl, h, rfl⟩
    · next hx => exact ⟨rfl, h.insert_spec (Bool.eq_false_iff.mpr hx) member height⟩
  | remove member =>
    obtain ⟨hw, hlist, hfst⟩ := h.remove_spec member
    exact ⟨congrArg Answer.flag hfst, hw, hlist⟩
  | removeScores r =>
    obtain ⟨hw, hlist, hfst⟩ := h.removeRangeByScore_spec r
    exact ⟨congrArg Answer.count hfst, hw, hlist⟩
  | removeRanks start stop =>
    obtain ⟨hw, hlist, hfst⟩ := h.removeRangeByRank_spec start stop
    exact ⟨congrArg Answer.count hfst, hw, hlist⟩

/-- A score that would be no number is not given. -/
theorem run_of_score_none {c : Nat × Operation} (hc : (Operation.run s c).1 = .score none) :
    (Operation.run s c).2 = s := by
  obtain ⟨height, c⟩ := c
  cases c with
  | incr member delta =>
    have hnone : (s.incr member delta height).1 = none := Answer.score.inj hc
    show (s.incr member delta height).2 = s
    unfold incr at hnone ⊢
    dsimp only at hnone ⊢
    split at hnone
    · rw [if_pos ‹_›]
    · cases hnone
  | _ => cases hc

/-! ## Ranks -/

theorem WF.rank?_eq (h : s.WF) (member : String) (reverse : Bool) :
    s.rank? member reverse = (directed reverse s.toList).findIdx? fun e => e.1 = member := by
  unfold rank?
  rw [h.score?_eq]
  cases hm : scoreOf member s.toList with
  | none =>
    refine (List.findIdx?_eq_none_iff.mpr fun e he => ?_).symm
    exact decide_eq_false (lookup_eq_none_iff.mp hm e (mem_directed.mp he))
  | some x =>
    have hmem : (member, x) ∈ s.toList := (lookup_eq_some_iff h.keysNodup).mp hm
    obtain ⟨a, b, hlist⟩ := List.append_of_mem hmem
    have hkeys : KeysNodup (a ++ (member, x) :: b) := hlist ▸ h.keysNodup
    rw [KeysNodup, List.map_append, List.map_cons] at hkeys
    have hnot := (List.nodup_cons.mp (List.nodup_middle.mp hkeys)).1
    have hother : ∀ f, f ∈ a ∨ f ∈ b → f.1 ≠ member := by
      rintro f hf rfl
      have hmap : ∀ {es : List Element}, f ∈ es → f.1 ∈ es.map Prod.fst := List.mem_map_of_mem
      exact hnot (List.mem_append.mpr (hf.imp hmap hmap))
    have hrank : s.index.rank? member x = some (a.length + 1) :=
      h.rank?_split (e := (member, x)) hlist
    have hsize : s.size = a.length + b.length + 1 := by
      rw [h.size_eq_length, hlist, List.length_append, List.length_cons, Nat.add_assoc]
    rw [Option.bind_some, hrank, Option.map_some, hlist, directed_split]
    cases reverse with
    | false => exact (findIdx?_split fun f hf => hother f (.inl hf)).symm
    | true =>
      rw [if_pos rfl, if_pos rfl, findIdx?_split fun f hf => hother f (.inr (List.mem_reverse.mp hf)),
        List.length_reverse, hsize]
      congr 1
      omega

theorem WF.rangeByRank_eq (h : s.WF) (start stop : Nat) (reverse : Bool) :
    s.rangeByRank start stop reverse =
      if stop < s.toList.length then ((directed reverse s.toList).take (stop + 1)).drop start
      else [] := by
  unfold rangeByRank
  rw [h.size_eq_length]
  by_cases hout : stop < start ∨ s.toList.length ≤ stop
  · rw [if_pos hout]
    split
    · refine (List.drop_eq_nil_of_le ?_).symm
      exact (List.length_take_le _ _).trans (by omega)
    · rfl
  · have hin : stop < s.toList.length := by omega
    have hlen : stop + 1 - start = stop - start + 1 := by omega
    rw [if_neg hout, if_pos hin, List.drop_take, hlen]
    cases reverse with
    | false => exact congrArg (List.take _) (SkipList.elementsFrom_byRank? h.index start)
    | true =>
      have hback := SkipList.elementsBackFrom_byRank? h.index (s.toList.length - start)
      rw [show s.index.toList = s.toList from rfl, if_pos (Nat.sub_le _ _)] at hback
      rw [if_pos rfl, hback, directed, if_pos rfl, List.drop_reverse]

/-! ## Histories -/

/-- The dictionary and the index hold the same elements, and no member twice; whatever is looked
up is what the ascending list of the elements has. -/
structure Shows (s : SortedSet) (es : List Element) : Prop where
  scores : s.scores.WF
  index : s.index.Shows es
  agree : ∀ member x, s.scores.get? member = some x ↔ (member, x) ∈ s.index.toList
  scores_perm : s.scores.toList.Perm s.index.toList
  members_nodup : (es.map Prod.fst).Nodup
  toList : s.toList = es
  score? : ∀ member, s.score? member = scoreOf member es
  size : s.size = es.length
  isEmpty : s.isEmpty = true ↔ es = []
  rank? : ∀ member reverse,
    s.rank? member reverse = (directed reverse es).findIdx? fun e => e.1 = member
  rangeByRank : ∀ start stop reverse, s.rangeByRank start stop reverse =
    if stop < es.length then ((directed reverse es).take (stop + 1)).drop start else []

theorem WF.shows (h : s.WF) : s.Shows s.toList where
  scores := h.scores
  index := h.index.shows
  agree := h.agree
  scores_perm := h.scores_perm
  members_nodup := h.keysNodup
  toList := rfl
  score? := h.score?_eq
  size := h.size_eq_length
  isEmpty := h.isEmpty_iff
  rank? := h.rank?_eq
  rangeByRank := h.rangeByRank_eq

theorem wf_history (cs : List (Nat × Operation)) :
    (History.run Operation.run empty cs).2.WF ∧ (History.run Operation.run empty cs).2.toList =
      (History.run Operation.onSorted [] cs).2 := by
  refine (History.run_simulates (R := fun s es => WF s ∧ toList s = es) ?_
    ⟨wf_empty, toList_empty⟩ cs).2
  rintro s _ c ⟨hw, rfl⟩
  exact hw.run c

/-- Operations on an empty sorted set answer what they answer on an empty list, and leave a set
that shows the list they leave; one that answers that there is no score leaves it as it is. -/
theorem operations_refine_sorted (cs : List (Nat × Operation)) :
    let ran := History.run Operation.run empty cs
    let sorted := History.run Operation.onSorted [] cs
    ran.1 = sorted.1 ∧ ran.2.Shows sorted.2 ∧
      ∀ c, (Operation.run ran.2 c).1 = .score none → (Operation.run ran.2 c).2 = ran.2 := by
  have hstep : ∀ s es c, WF s ∧ s.toList = es →
      (Operation.run s c).1 = (Operation.onSorted es c).1 ∧
        (Operation.run s c).2.WF ∧ (Operation.run s c).2.toList = (Operation.onSorted es c).2 := by
    rintro s _ c ⟨hw, rfl⟩
    exact hw.run c
  obtain ⟨hanswers, hw, hlist⟩ :=
    History.run_simulates (R := fun s es => WF s ∧ toList s = es) hstep ⟨wf_empty, toList_empty⟩ cs
  refine ⟨hanswers, hlist ▸ hw.shows, fun c hc => ?_⟩
  exact run_of_score_none hc

end SortedSet

end RespStore
