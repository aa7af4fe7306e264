import RespStore.Proofs.Collection.SkipList.Lookup

/-!
# Ranges of a skip list

The node at a rank and the first node in a score range are found as in the list of elements, and
deleting a range again and again at its first node deletes all of it.
-/

namespace RespStore

namespace ScoreRange

/-- Both bounds are numbers. -/
structure Proper (r : ScoreRange) : Prop where
  min : r.min.isNaN = false
  max : r.max.isNaN = false

variable {r : ScoreRange} {x y : Binary64}

theorem aboveMin_iff (h : r.Proper) (hx : x.isNaN = false) :
    r.aboveMin x = true ↔ if r.minExclusive then r.min.key < x.key else r.min.key ≤ x.key := by
  unfold aboveMin
  split
  · exact Binary64.lt_iff h.min hx
  · exact Binary64.le_iff h.min hx

theorem belowMax_iff (h : r.Proper) (hx : x.isNaN = false) :
    r.belowMax x = true ↔ if r.maxExclusive then x.key < r.max.key else x.key ≤ r.max.key := by
  unfold belowMax
  split
  · exact Binary64.lt_iff hx h.max
  · exact Binary64.le_iff hx h.max

theorem aboveMin_mono (h : r.Proper) (hx : x.isNaN = false) (hy : y.isNaN = false)
    (hxy : x.key ≤ y.key) (ha : r.aboveMin x = true) : r.aboveMin y = true := by
  rw [aboveMin_iff h hx] at ha
  rw [aboveMin_iff h hy]
  split at ha <;> simp_all only [if_true, if_false, Bool.false_eq_true] <;> omega

theorem belowMax_mono (h : r.Proper) (hx : x.isNaN = false) (hy : y.isNaN = false)
    (hxy : x.key ≤ y.key) (hb : r.belowMax y = true) : r.belowMax x = true := by
  rw [belowMax_iff h hy] at hb
  rw [belowMax_iff h hx]
  split at hb <;> simp_all only [if_true, if_false, Bool.false_eq_true] <;> omega

theorem contains_of_isEmpty (h : r.Proper) (hx : x.isNaN = false) (he : r.isEmpty = true) :
    r.contains x = false := by
  rw [Bool.eq_false_iff]
  intro hc
  obtain ⟨ha, hb⟩ := Bool.and_eq_true_iff.mp hc
  rw [aboveMin_iff h hx] at ha
  rw [belowMax_iff h hx] at hb
  rcases Bool.or_eq_true_iff.mp he with hlt | heq
  · rw [Binary64.lt_iff h.max h.min] at hlt
    split at ha <;> split at hb <;> omega
  · obtain ⟨hkey, hex⟩ := Bool.and_eq_true_iff.mp heq
    rw [Binary64.equal_iff h.min h.max] at hkey
    split at ha <;> split at hb <;> first | omega | simp_all

/-- A bound that is not a number lets no score pass. -/
theorem never_of_not_proper (h : ¬r.Proper) :
    (∀ x, r.aboveMin x = false) ∨ ∀ x, r.belowMax x = false := by
  cases hmin : r.min.isNaN with
  | true => exact .inl fun x => by simp [aboveMin, Binary64.lt, Binary64.le, hmin]
  | false =>
    cases hmax : r.max.isNaN with
    | true => exact .inr fun x => by simp [belowMax, Binary64.lt, Binary64.le, hmax]
    | false => exact absurd ⟨hmin, hmax⟩ h

theorem contains_of_not_proper (h : ¬r.Proper) (x : Binary64) : r.contains x = false := by
  rw [contains]
  rcases never_of_not_proper h with h | h
  · rw [h, Bool.false_and]
  · rw [h, Bool.and_false]

end ScoreRange

namespace SkipList

open Element

variable {l : SkipList} {r : ScoreRange} {e : Element} {k n : Nat}

/-- No element lies in a range that the span from the first to the last score does not meet. -/
theorem contains_of_not_meets (h : l.WF) (hr : r.Proper) (hm : l.meets r = false) :
    ∀ e ∈ l.toList, r.contains e.2 = false := by
  intro e he
  have hes := h.scored e he
  cases hemp : r.isEmpty with
  | true => exact ScoreRange.contains_of_isEmpty hr hes hemp
  | false =>
    obtain ⟨ids, hrep⟩ := h.represents
    -- there are a first and a last node, as there is an element
    cases ids with
    | nil =>
      rw [hrep.toList_eq] at he
      cases he
    | cons x rest =>
      obtain ⟨n, hn⟩ := hrep.exists_node? (show x ∈ header :: x :: rest by simp)
      obtain ⟨y, hy⟩ : ∃ y, (x :: rest).getLast? = some y := ⟨_, List.getLast?_cons⟩
      obtain ⟨m, hm'⟩ := hrep.exists_node? (List.mem_cons_of_mem header (List.mem_of_getLast? hy))
      have hfirst : l.toList = n.element :: rest.filterMap l.element? := by
        rw [hrep.toList_eq, List.filterMap_cons_some (by rw [element?, hn]; rfl)]
      obtain ⟨init, hinit⟩ := List.getLast?_eq_some_iff.mp hy
      have hlast : l.toList = init.filterMap l.element? ++ [m.element] := by
        rw [hrep.toList_eq, hinit, List.filterMap_append,
          List.filterMap_cons_some (by rw [element?, hm']; rfl)]
        rfl
      have hnkey : n.score.key ≤ e.2.key := by
        have hsorted := h.sorted
        rw [hfirst] at he hsorted
        rcases List.mem_cons.mp he with rfl | he
        · exact Int.le_refl _
        · exact ((List.pairwise_cons.mp hsorted).1 e he).key_le
      have hmkey : e.2.key ≤ m.score.key := by
        have hsorted := h.sorted
        rw [hlast] at he hsorted
        rcases List.mem_append.mp he with he | he
        · exact ((List.pairwise_append.mp hsorted).2.2 e he _ List.mem_cons_self).key_le
        · rw [List.mem_singleton.mp he]
          exact Int.le_refl _
      have hns : n.score.isNaN = false := h.scored n.element (by rw [hfirst]; simp)
      have hms : m.score.isNaN = false := h.scored m.element (by rw [hlast]; simp)
      rw [Bool.eq_false_iff]
      intro hc
      obtain ⟨ha, hb⟩ := Bool.and_eq_true_iff.mp hc
      have ha' := ScoreRange.aboveMin_mono hr hes hms hmkey ha
      have hb' := ScoreRange.belowMax_mono hr hns hes hnkey hb
      have htail : l.tail = some y := hrep.tail.trans hy
      simp [meets, hemp, htail, hrep.first?_eq, hn, hm', ha', hb'] at hm

/-- Of elements that all reach the minimum, the first lies in the range or none does. -/
theorem find?_contains_of_aboveMin {es : List Element} (hr : r.Proper) (hsorted : Sorted (e :: es))
    (hscored : ∀ f ∈ e :: es, f.Scored) (habove : r.aboveMin e.2 = true) :
    (e :: es).find? (fun f => r.contains f.2) = if r.belowMax e.2 then some e else none := by
  cases hb : r.belowMax e.2 with
  | true =>
    rw [if_pos rfl]
    exact List.find?_cons_of_pos (Bool.and_eq_true_iff.mpr ⟨habove, hb⟩)
  | false =>
    rw [if_neg Bool.false_ne_true]
    refine List.find?_eq_none.mpr fun f hf hc => ?_
    have hle : e.2.key ≤ f.2.key := by
      rcases List.mem_cons.mp hf with rfl | hf
      · exact Int.le_refl _
      · exact ((List.pairwise_cons.mp hsorted).1 f hf).key_le
    have hbf : r.belowMax f.2 = true := (Bool.and_eq_true_iff.mp hc).2
    have hbe := ScoreRange.belowMax_mono hr (hscored e List.mem_cons_self) (hscored f hf) hle hbf
    exact Bool.noConfusion (hb.symm.trans hbe)

theorem firstIn?_element (h : l.WF) (hr : r.Proper) :
    (l.firstIn? r).bind l.element? = l.toList.find? fun e => r.contains e.2 := by
  unfold firstIn?
  cases hm : l.meets r with
  | false =>
    have hnone := contains_of_not_meets h hr hm
    rw [if_neg Bool.false_ne_true, List.find?_eq_none.mpr fun e he => by simp [hnone e he]]
    rfl
  | true =>
    rw [if_pos rfl]
    obtain ⟨p, q, hrep, hs, hp, hq⟩ := h.cut (fun n _ => !r.aboveMin n.score)
      (fun e => !r.aboveMin e.2) (fun e f he hf hlt hb => by
        rw [Bool.not_eq_true', Bool.eq_false_iff] at hb ⊢
        exact fun ha => hb (ScoreRange.aboveMin_mono hr he hf hlt.key_le ha)) fun _ _ _ => rfl
    have hpnot : ∀ e ∈ p.filterMap l.element?, r.contains e.2 = false := by
      intro e he
      rw [hp] at he
      have ha : r.aboveMin e.2 = false := by simpa using (List.mem_filter.mp he).2
      rw [ScoreRange.contains, ha, Bool.false_and]
    have hfind : l.toList.find? (fun e => r.contains e.2) =
        (q.filterMap l.element?).find? fun e => r.contains e.2 := by
      rw [hrep.toList_append, List.find?_append,
        List.find?_eq_none.mpr fun e he => by simp [hpnot e he]]
      rfl
    rw [hfind]
    simp only [next?_leftAt hrep hs]
    cases q with
    | nil => rfl
    | cons x q =>
      obtain ⟨n, hn⟩ := hrep.exists_node? (show x ∈ header :: (p ++ x :: q) by simp)
      have helem : l.element? x = some n.element := by rw [element?, hn]; rfl
      rw [List.filterMap_cons_some helem] at hq ⊢
      have habove : r.aboveMin n.score = true := by
        have hmem : n.element ∈ l.toList.filter fun e => !!r.aboveMin e.2 := by
          rw [← hq]
          exact List.mem_cons_self
        have := (List.mem_filter.mp hmem).2
        rwa [Bool.not_not] at this
      have hsorted := h.sorted
      have hscored := h.scored
      rw [hrep.toList_append, List.filterMap_cons_some helem] at hsorted hscored
      rw [find?_contains_of_aboveMin hr (List.pairwise_append.mp hsorted).2.1
        (fun f hf => hscored f (List.mem_append_right _ hf)) habove]
      have hfilter : Option.filter (fun id => (l.node? id).any fun n => r.belowMax n.score)
          (some x) = if r.belowMax n.score then some x else none := by
        simp only [Option.filter, hn, Option.any_some]
      rw [List.head?_cons, hfilter]
      show _ = if r.belowMax n.score then some n.element else none
      split
      · exact helem
      · rfl

/-! ## Deleting -/

/-- One round of deletion: the first choice goes, and the others are left to the next rounds. -/
theorem deleteAll_succ {choose : SkipList → Option Nat} {n : Nat}
    (he : (choose l).bind l.element? = some e) :
    deleteAll choose (n + 1) l =
      (e :: (deleteAll choose n (l.delete e.1 e.2).2).1,
        (deleteAll choose n (l.delete e.1 e.2).2).2) := by
  rw [deleteAll, he]

theorem deleteAll_of_none {choose : SkipList → Option Nat} {n : Nat}
    (he : (choose l).bind l.element? = none) : deleteAll choose n l = ([], l) := by
  cases n with
  | zero => rfl
  | succ n => rw [deleteAll, he]

/-- Where there is nothing left to delete, more rounds change nothing. -/
theorem deleteAll_of_le {choose : SkipList → Option Nat} {n m : Nat} (hnm : n ≤ m)
    (hend : (choose (deleteAll choose n l).2).bind (deleteAll choose n l).2.element? = none) :
    deleteAll choose m l = deleteAll choose n l := by
  induction n generalizing l m with
  | zero => exact deleteAll_of_none hend
  | succ n ih =>
    obtain ⟨m, rfl⟩ : ∃ k, m = k + 1 := ⟨m - 1, by omega⟩
    cases he : (choose l).bind l.element? with
    | none => rw [deleteAll_of_none he, deleteAll_of_none he]
    | some e =>
      rw [deleteAll_succ he] at hend ⊢
      rw [deleteAll_succ he, ih (Nat.le_of_succ_le_succ hnm) hend]

theorem deleteAll_firstIn? (h : l.WF) (hr : r.Proper) (n : Nat) (hn : l.toList.length ≤ n) :
    (deleteAll (·.firstIn? r) n l).2.WF ∧
      (deleteAll (·.firstIn? r) n l).1 = l.toList.filter (fun e => r.contains e.2) ∧
      (deleteAll (·.firstIn? r) n l).2.toList = l.toList.filter fun e => !r.contains e.2 := by
  induction n generalizing l with
  | zero =>
    have hnil : l.toList = [] := List.length_eq_zero_iff.mp (Nat.le_zero.mp hn)
    refine ⟨h, ?_, ?_⟩
    · rw [hnil]; rfl
    · show l.toList = _
      rw [hnil]; rfl
  | succ n ih =>
    have hfind := firstIn?_element h hr
    cases hf : l.toList.find? fun e => r.contains e.2 with
    | none =>
      have hnone := List.find?_eq_none.mp hf
      rw [hf] at hfind
      rw [deleteAll_of_none hfind]
      refine ⟨h, ?_, ?_⟩
      · exact (List.filter_eq_nil_iff.mpr hnone).symm
      · exact (List.filter_eq_self.mpr fun e he => by simpa using hnone e he).symm
    | some e =>
      obtain ⟨hc, a, b, hab, ha⟩ := List.find?_eq_some_iff_append.mp hf
      rw [hf] at hfind
      have hmem : e ∈ l.toList := by rw [hab]; simp
      obtain ⟨hwf, hlist, -⟩ := h.delete_spec (h.scored e hmem)
      have hsorted := h.sorted
      rw [hab] at hsorted
      rw [hab, hsorted.eraseMatch_split ⟨rfl, rfl⟩] at hlist
      have hlen : (l.delete e.1 e.2).2.toList.length ≤ n := by
        rw [hlist]
        rw [hab] at hn
        simp only [List.length_append, List.length_cons] at hn ⊢
        omega
      obtain ⟨hwf', hremoved, hkept⟩ := ih hwf hlen
      have hanone : a.filter (fun e => r.contains e.2) = [] :=
        List.filter_eq_nil_iff.mpr fun d hd => by simpa using ha d hd
      rw [deleteAll_succ hfind]
      refine ⟨hwf', ?_, ?_⟩
      · rw [hremoved, hlist, hab, List.filter_append, List.filter_append,
          List.filter_cons_of_pos (by simpa using hc), hanone]
        rfl
      · rw [hkept, hlist, hab, List.filter_append, List.filter_append,
          List.filter_cons_of_neg (by simpa using hc)]

theorem deleteRangeByScore_spec (h : l.WF) (hr : r.Proper) :
    (l.deleteRangeByScore r).2.WF ∧
      (l.deleteRangeByScore r).1 = l.toList.filter (fun e => r.contains e.2) ∧
      (l.deleteRangeByScore r).2.toList = l.toList.filter fun e => !r.contains e.2 :=
  deleteAll_firstIn? h hr l.size (Nat.le_of_eq h.size_eq_length.symm)

theorem meets_of_not_proper (h : ¬r.Proper) : l.meets r = false := by
  rw [meets]
  split
  · rcases ScoreRange.never_of_not_proper h with h | h
    · rw [h, Bool.false_and, Bool.and_false]
    · rw [h, Bool.and_false, Bool.and_false]
  · exact Bool.and_false _

theorem deleteRangeByScore_of_not_proper (h : ¬r.Proper) : l.deleteRangeByScore r = ([], l) := by
  refine deleteAll_of_none ?_
  rw [firstIn?, meets_of_not_proper h]
  rfl

/-- Whatever the bounds are, the elements with a score in the range are deleted. -/
theorem deleteRangeByScore_eq (h : l.WF) (r : ScoreRange) :
    (l.deleteRangeByScore r).2.WF ∧
      (l.deleteRangeByScore r).1 = l.toList.filter (fun e => r.contains e.2) ∧
      (l.deleteRangeByScore r).2.toList = l.toList.filter fun e => !r.contains e.2 := by
  by_cases hr : r.Proper
  · exact deleteRangeByScore_spec h hr
  · have hnone := ScoreRange.contains_of_not_proper hr
    rw [deleteRangeByScore_of_not_proper hr]
    refine ⟨h, ?_, ?_⟩
    · exact (List.filter_eq_nil_iff.mpr fun e _ => by simp [hnone]).symm
    · exact (List.filter_eq_self.mpr fun e _ => by simp [hnone]).symm

theorem deleteAll_byRank? (h : l.WF) (k n : Nat) :
    (deleteAll (·.byRank? (k + 1)) n l).2.WF ∧
      (deleteAll (·.byRank? (k + 1)) n l).1 = (l.toList.drop k).take n ∧
      (deleteAll (·.byRank? (k + 1)) n l).2.toList = l.toList.take k ++ l.toList.drop (k + n) := by
  induction n generalizing l with
  | zero => exact ⟨h, rfl, (List.take_append_drop k l.toList).symm⟩
  | succ n ih =>
    have hget := byRank?_element h k
    cases hk : l.toList[k]? with
    | none =>
      have hle := List.getElem?_eq_none_iff.mp hk
      rw [hk] at hget
      rw [deleteAll_of_none hget]
      refine ⟨h, ?_, ?_⟩
      · rw [List.drop_eq_nil_of_le hle, List.take_nil]
      · rw [List.drop_eq_nil_of_le (by omega), List.take_of_length_le hle, List.append_nil]
    | some e =>
      obtain ⟨hlt, hek⟩ := List.getElem?_eq_some_iff.mp hk
      rw [hk] at hget
      have hab : l.toList = l.toList.take k ++ e :: l.toList.drop (k + 1) := by
        rw [← hek, List.getElem_cons_drop, List.take_append_drop]
      have hmem : e ∈ l.toList := List.mem_of_getElem? hk
      obtain ⟨hwf, hlist, -⟩ := h.delete_spec (h.scored e hmem)
      have hsorted := h.sorted
      rw [hab] at hsorted
      have herase := hsorted.eraseMatch_split ⟨rfl, rfl⟩
      rw [← hab] at herase
      rw [herase] at hlist
      obtain ⟨hwf', hremoved, hkept⟩ := ih hwf
      have hlen : (l.toList.take k).length = k := by rw [List.length_take]; omega
      rw [deleteAll_succ hget]
      refine ⟨hwf', ?_, ?_⟩
      · rw [hremoved, hlist, List.drop_left' hlen, ← hek, ← List.getElem_cons_drop hlt,
          List.take_succ_cons]
      · rw [hkept, hlist, List.take_left' hlen, List.drop_append, hlen, Nat.add_sub_cancel_left,
          List.drop_eq_nil_of_le (by omega), List.nil_append, List.drop_drop, Nat.add_right_comm k 1 n]
        rfl

/-- Deleting the ranks from `k + 1` to `m + 1` takes the elements from position `k` to `m`. -/
theorem deleteRangeByRank_spec (h : l.WF) {k m : Nat} (hkm : k ≤ m) :
    (l.deleteRangeByRank (k + 1) (m + 1)).2.WF ∧
      (l.deleteRangeByRank (k + 1) (m + 1)).1 = (l.toList.drop k).take (m - k + 1) ∧
      (l.deleteRangeByRank (k + 1) (m + 1)).2.toList =
        l.toList.take k ++ l.toList.drop (m + 1) := by
  have hne : ¬(k + 1 = 0 ∨ m + 1 < k + 1) := by omega
  rw [deleteRangeByRank, if_neg hne]
  obtain ⟨hwf, hremoved, hkept⟩ := deleteAll_byRank? h k (min (m + 1 - (k + 1) + 1) l.size)
  have hlen : (l.toList.drop k).length ≤ l.size := by
    rw [List.length_drop, h.size_eq_length]
    omega
  refine ⟨hwf, hremoved.trans ?_, hkept.trans ?_⟩
  · rw [show m + 1 - (k + 1) + 1 = m - k + 1 by omega, ← List.take_take,
      List.take_of_length_le hlen]
  · rcases Nat.le_total (m + 1 - (k + 1) + 1) l.size with hle | hle
    · rw [Nat.min_eq_left hle, show k + (m + 1 - (k + 1) + 1) = m + 1 by omega]
    · rw [Nat.min_eq_right hle]
      have hall : l.toList.length ≤ k + l.size := by rw [h.size_eq_length]; omega
      have hall' : l.toList.length ≤ m + 1 := by rw [h.size_eq_length] at hle; omega
      rw [List.drop_eq_nil_of_le hall, List.drop_eq_nil_of_le hall']

/-- From rank 1 on, the ranks of a range that are there are deleted. -/
theorem deleteRangeByRank_eq (h : l.WF) {start : Nat} (hstart : start ≠ 0) (stop : Nat) :
    (l.deleteRangeByRank start stop).2.WF ∧
      (l.deleteRangeByRank start stop).1 = (l.toList.take stop).drop (start - 1) ∧
      (l.deleteRangeByRank start stop).2.toList =
        l.toList.take (start - 1) ++ l.toList.drop (max (start - 1) stop) := by
  rcases Nat.lt_or_ge stop start with hlt | hle
  · rw [deleteRangeByRank, if_pos (.inr hlt), Nat.max_eq_left (Nat.le_sub_one_of_lt hlt),
      List.take_append_drop, List.drop_eq_nil_of_le]
    · exact ⟨h, rfl, rfl⟩
    · rw [List.length_take]
      omega
  · obtain ⟨k, rfl⟩ := Nat.exists_eq_succ_of_ne_zero hstart
    obtain ⟨m, rfl⟩ := Nat.exists_eq_succ_of_ne_zero (show stop ≠ 0 by omega)
    obtain ⟨hwf, hremoved, hkept⟩ := deleteRangeByRank_spec h (Nat.le_of_succ_le_succ hle)
    refine ⟨hwf, hremoved.trans ?_, hkept.trans ?_⟩
    · rw [List.drop_take]
      exact congrArg (List.take · _) (by omega)
    · rw [Nat.succ_sub_one, Nat.max_eq_right (by omega)]

end SkipList

end RespStore
