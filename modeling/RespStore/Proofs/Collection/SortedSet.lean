import RespStore.Collection.SortedSet
import RespStore.Proofs.Collection.Dict
import RespStore.Proofs.Collection.SkipList.Range

/-!
# Sorted sets as lists of elements

The dictionary and the skip list of a well-formed sorted set hold the same elements, and no member
twice. Every operation is stated by what it does to the ascending list of the elements.
-/

namespace RespStore

namespace Element

variable {es : List Element} {e : Element} {member m : String} {x y : Binary64}

/-- The score that a list has for a member. -/
def scoreOf (member : String) (es : List Element) : Option Binary64 :=
  (es.find? fun e => e.1 = member).map (·.2)

/-- The elements with other members. -/
def without (member : String) (es : List Element) : List Element := es.filter fun e => e.1 ≠ member

/-- The elements after a member has been added or moved to a score. -/
def put (member : String) (x : Binary64) (es : List Element) : List Element :=
  if (scoreOf member es).any (·.equal x) then es else insertSorted (member, x) (without member es)

theorem mem_without : e ∈ without member es ↔ e ∈ es ∧ e.1 ≠ member := by
  simp [without, List.mem_filter]

theorem without_eq_self (h : scoreOf member es = none) : without member es = es :=
  List.filter_eq_self.mpr fun e he => decide_eq_true (lookup_eq_none_iff.mp h e he)

/-- With distinct members, erasing the element of a member leaves the other members. -/
theorem eraseMatch_eq_without (h : KeysNodup es) (hm : scoreOf member es = some x) :
    eraseMatch (member, x) es = without member es := by
  refine List.filter_congr fun e he => ?_
  have hmem := (lookup_eq_some_iff h).mp hm
  by_cases hk : e.1 = member
  · have he' : e = (member, x) := h.eq_of_mem he hmem hk
    rw [he']
    have hmatch : Matches (member, x) (member, x) := ⟨rfl, rfl⟩
    simp [hmatch]
  · have hnot : ¬Matches e (member, x) := fun hm => hk hm.2
    simp [hnot, hk]

end Element

namespace SortedSet

open Element

variable [Digest String] {s : SortedSet} {es a b : List Element} {e : Element}
  {member m : String} {x : Binary64}

structure WF (s : SortedSet) : Prop where
  scores : s.scores.WF
  index : s.index.WF
  agree : ∀ m x, s.scores.get? m = some x ↔ (m, x) ∈ s.index.toList

theorem wf_empty : empty.WF where
  scores := Dict.wf_empty
  index := SkipList.wf_empty
  agree := fun m x => by
    have hget : empty.scores.get? m = none := Dict.get?_empty m
    have hlist : empty.index.toList = [] := SkipList.toList_empty
    simp [hget, hlist]

omit [Digest String] in
theorem toList_empty : empty.toList = [] := SkipList.toList_empty

namespace WF

theorem keysNodup (h : s.WF) : KeysNodup s.toList := by
  refine List.Pairwise.map Prod.fst (fun _ _ => id) (h.index.sorted.imp_of_mem ?_)
  intro e f he hf hlt hk
  have he' := (h.agree e.1 e.2).mpr he
  have hf' := (h.agree f.1 f.2).mpr hf
  rw [hk, hf'] at he'
  have heq : e = f := Prod.ext hk (Option.some.inj he').symm
  exact Before.irrefl f (heq ▸ hlt)

theorem score?_eq (h : s.WF) (member : String) : s.score? member = scoreOf member s.toList := by
  refine Option.ext fun x => ?_
  show s.scores.get? member = some x ↔ _
  rw [h.agree]
  exact (lookup_eq_some_iff h.keysNodup).symm

theorem scored (h : s.WF) (hm : s.score? member = some x) : x.isNaN = false :=
  h.index.scored (member, x) ((h.agree member x).mp hm)

/-- The dictionary and the index hold the same elements. -/
theorem scores_perm (h : s.WF) : s.scores.toList.Perm s.toList := by
  have hnodup : ∀ {l : List Element}, KeysNodup l → l.Nodup := fun hl => List.Nodup.of_map _ hl
  rw [List.perm_ext_iff_of_nodup (hnodup (Dict.keysNodup_toList h.scores)) (hnodup h.keysNodup)]
  intro ⟨m, x⟩
  rw [Dict.mem_toList_iff h.scores, h.agree]
  rfl

theorem size_eq_length (h : s.WF) : s.size = s.toList.length := by
  rw [size, Dict.size_eq_length h.scores, h.scores_perm.length_eq]

theorem isEmpty_iff (h : s.WF) : s.isEmpty = true ↔ s.toList = [] := by
  rw [isEmpty, Dict.isEmpty_iff h.scores, List.eq_nil_iff_forall_not_mem]
  constructor
  · intro hnone e he
    have := (h.agree e.1 e.2).mpr he
    rw [hnone] at this
    cases this
  · intro hnil m
    cases hm : s.scores.get? m with
    | none => rfl
    | some x => exact absurd ((h.agree m x).mp hm) (hnil _)

/-- The rank of an element counts those before it, and itself. -/
theorem rank?_split (h : s.WF) (hlist : s.toList = a ++ e :: b) :
    s.index.rank? e.1 e.2 = some (a.length + 1) := by
  have hsorted : Sorted (a ++ e :: b) := hlist ▸ h.index.sorted
  have hmem : e ∈ s.toList := by rw [hlist]; simp
  have hany : (s.index.toList.any fun f => Matches f e) = true :=
    List.any_eq_true.mpr ⟨e, hmem, decide_eq_true ⟨rfl, rfl⟩⟩
  rw [SkipList.rank?_eq h.index, if_pos hany]
  show some ((s.toList.filter _).length + 1) = _
  rw [hlist, hsorted.filter_before_split]

/-- A new dictionary and a new index that say the same make a well-formed set again. -/
theorem of_lists {scores : Dict String Binary64} {index : SkipList} (hs : scores.WF)
    (hi : index.WF) (h : ∀ m x, scores.get? m = some x ↔ (m, x) ∈ index.toList) :
    (⟨scores, index⟩ : SortedSet).WF := ⟨hs, hi, h⟩

theorem insert_spec (h : s.WF) (hx : x.isNaN = false) (member : String) (height : Nat) :
    (s.insert member x height).2.WF ∧
      (s.insert member x height).2.toList = put member x s.toList := by
  have hscore := h.score?_eq member
  -- the member goes to its new place in a list that does not have it
  have hnew : ∀ f ∈ without member s.toList, ¬Matches f (member, x) := fun f hf hm =>
    (mem_without.mp hf).2 hm.2
  have hagree : ∀ m y, (if m = member then some x else s.scores.get? m) = some y ↔
      (m, y) ∈ insertSorted (member, x) (without member s.toList) := by
    intro m y
    rw [mem_insertSorted, mem_without, Prod.mk.injEq]
    by_cases hm : m = member
    · simp [hm, eq_comm]
    · simp only [hm, if_false, false_and, false_or, ne_eq, not_false_eq_true, and_true]
      exact h.agree m y
  unfold insert
  rw [put, ← hscore]
  cases hm : s.score? member with
  | none =>
    rw [hm] at hscore
    obtain ⟨hi, hlist⟩ := h.index.insert_spec (e := (member, x)) hx
      (fun f hf => hnew f (by rwa [without_eq_self hscore.symm])) height
    obtain ⟨hs, hget⟩ := Dict.push_spec (v := x) h.scores hm
    have hlist' : (s.index.insert member x height).2.toList =
        insertSorted (member, x) (without member s.toList) := by
      rw [without_eq_self hscore.symm]
      exact hlist
    refine ⟨of_lists hs hi fun m y => ?_, hlist'⟩
    rw [hget, hlist']
    exact hagree m y
  | some c =>
    simp only [Option.any_some]
    by_cases hc : c.equal x
    · simp only [hc, if_true]
      exact ⟨h, trivial⟩
    · simp only [hc, if_false, Bool.false_eq_true]
      obtain ⟨hd, hdlist, -⟩ := h.index.delete_spec (e := (member, c)) (h.scored hm)
      have herase : (s.index.delete member c).2.toList = without member s.toList := by
        rw [hm] at hscore
        exact hdlist.trans (eraseMatch_eq_without h.keysNodup hscore.symm)
      obtain ⟨hi, hlist⟩ := hd.insert_spec (e := (member, x)) hx
        (fun f hf => hnew f (by rwa [herase] at hf)) height
      rw [herase] at hlist
      obtain ⟨hs, hget⟩ := Dict.overwrite_spec (v := x) h.scores
        (show (s.scores.get? member).isSome by rw [show s.scores.get? member = some c from hm]; rfl)
      refine ⟨of_lists hs hi fun m y => ?_, hlist⟩
      rw [hget, hlist]
      exact hagree m y

theorem remove_spec (h : s.WF) (member : String) :
    (s.remove member).2.WF ∧ (s.remove member).2.toList = without member s.toList ∧
      (s.remove member).1 = (scoreOf member s.toList).isSome := by
  have hscore := h.score?_eq member
  rw [← hscore]
  unfold remove
  have hfst : (s.scores.remove member).1 = s.score? member := Dict.remove_fst
  obtain ⟨hs, hget⟩ := Dict.remove_spec h.scores member
  rw [show s.scores.remove member = (s.score? member, (s.scores.remove member).2) from
    Prod.ext hfst rfl]
  cases hm : s.score? member with
  | none =>
    rw [hm] at hscore
    exact ⟨h, (without_eq_self hscore.symm).symm, rfl⟩
  | some c =>
    rw [hm] at hscore
    obtain ⟨hd, hlist, hfound⟩ := h.index.delete_spec (e := (member, c)) (h.scored hm)
    replace hlist : (s.index.delete member c).2.toList = without member s.toList :=
      hlist.trans (eraseMatch_eq_without h.keysNodup hscore.symm)
    refine ⟨of_lists hs hd fun m y => ?_, hlist, hfound.trans ?_⟩
    · rw [hget, hlist, mem_without]
      by_cases hk : m = member
      · simp [hk]
      · simp only [hk, if_false, ne_eq, not_false_eq_true, and_true]
        exact h.agree m y
    · exact List.any_eq_true.mpr ⟨_, (h.agree member c).mp hm, decide_eq_true ⟨rfl, rfl⟩⟩

/-! ## Ranges -/

theorem dropScores_spec {scores : Dict String Binary64} (h : scores.WF) (removed : List Element) :
    (dropScores scores removed).WF ∧ ∀ m, (dropScores scores removed).get? m =
      if m ∈ removed.map Prod.fst then none else scores.get? m := by
  induction removed generalizing scores with
  | nil => exact ⟨h, fun m => rfl⟩
  | cons e removed ih =>
    obtain ⟨hr, hget⟩ := Dict.remove_spec h e.1
    obtain ⟨hd, hget'⟩ := ih hr
    refine ⟨hd, fun m => (hget' m).trans ?_⟩
    rw [hget]
    by_cases hm : m = e.1 <;> by_cases hmem : m ∈ removed.map Prod.fst <;> simp_all

/-- Removing a part of the elements from the index and their members from the dictionary. -/
theorem dropRange (h : s.WF) {removed : List Element} {index : SkipList} (hi : index.WF)
    (hperm : s.toList.Perm (removed ++ index.toList)) :
    (⟨dropScores s.scores removed, index⟩ : SortedSet).WF := by
  obtain ⟨hd, hget⟩ := dropScores_spec h.scores removed
  have hnodup : KeysNodup (removed ++ index.toList) := h.keysNodup.of_perm hperm
  refine of_lists hd hi fun m x => ?_
  rw [hget]
  have hmem : (m, x) ∈ s.toList ↔ (m, x) ∈ removed ∨ (m, x) ∈ index.toList := by
    rw [hperm.mem_iff, List.mem_append]
  have hagree := (h.agree m x).trans hmem
  split
  · next hm =>
    obtain ⟨e, he, rfl⟩ := List.mem_map.mp hm
    refine iff_of_false (fun hx => by cases hx) fun hx => ?_
    rw [KeysNodup, List.map_append] at hnodup
    have hkept : e.1 ∈ index.toList.map Prod.fst := List.mem_map.mpr ⟨_, hx, rfl⟩
    exact (List.nodup_append.mp hnodup).2.2 e.1 (List.mem_map_of_mem he) e.1 hkept rfl
  · next hm =>
    rw [hagree]
    exact ⟨fun h => h.resolve_left fun hr => hm (List.mem_map_of_mem (f := Prod.fst) hr), .inr⟩

theorem removeRangeByScore_spec (h : s.WF) (r : ScoreRange) :
    (s.removeRangeByScore r).2.WF ∧
      (s.removeRangeByScore r).2.toList = s.toList.filter (fun e => !r.contains e.2) ∧
      (s.removeRangeByScore r).1 = (s.toList.filter fun e => r.contains e.2).length := by
  obtain ⟨hwf, hremoved, hkept⟩ := SkipList.deleteRangeByScore_eq h.index r
  have hperm : s.toList.Perm
      ((s.index.deleteRangeByScore r).1 ++ (s.index.deleteRangeByScore r).2.toList) := by
    rw [hremoved, hkept]
    exact (List.filter_append_perm _ s.toList).symm
  exact ⟨h.dropRange hwf hperm, hkept, congrArg List.length hremoved⟩

theorem removeRangeByRank_spec (h : s.WF) (start stop : Nat) :
    (s.removeRangeByRank start stop).2.WF ∧
      (s.removeRangeByRank start stop).2.toList =
        s.toList.take start ++ s.toList.drop (max start (stop + 1)) ∧
      (s.removeRangeByRank start stop).1 = ((s.toList.take (stop + 1)).drop start).length := by
  obtain ⟨hwf, hremoved, hkept⟩ :=
    SkipList.deleteRangeByRank_eq h.index (Nat.succ_ne_zero start) (stop + 1)
  rw [Nat.succ_sub_one] at hremoved hkept
  have htake : s.toList.take start ++ (s.toList.take (stop + 1)).drop start =
      s.toList.take (max start (stop + 1)) := by
    rcases Nat.le_total start (stop + 1) with hle | hle
    · rw [Nat.max_eq_right hle]
      conv_rhs => rw [← List.take_append_drop start (s.toList.take (stop + 1))]
      rw [List.take_take, Nat.min_eq_left hle]
    · rw [Nat.max_eq_left hle, List.drop_eq_nil_of_le, List.append_nil]
      exact (List.length_take_le _ _).trans hle
  have hperm : s.toList.Perm ((s.index.deleteRangeByRank (start + 1) (stop + 1)).1 ++
      (s.index.deleteRangeByRank (start + 1) (stop + 1)).2.toList) := by
    rw [hremoved, hkept, ← List.append_assoc]
    show s.toList.Perm (((s.toList.take (stop + 1)).drop start ++ s.toList.take start) ++ _)
    calc s.toList
      _ = (s.toList.take start ++ (s.toList.take (stop + 1)).drop start) ++
          s.toList.drop (max start (stop + 1)) := by rw [htake, List.take_append_drop]
      List.Perm _ (((s.toList.take (stop + 1)).drop start ++ s.toList.take start) ++
          s.toList.drop (max start (stop + 1))) :=
        List.perm_append_comm.append_right _
  exact ⟨h.dropRange hwf hperm, hkept, congrArg List.length hremoved⟩

end WF

end SortedSet

end RespStore
