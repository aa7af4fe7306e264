import RespStore.Proofs.Collection.SkipList.Contents

/-!
# Ranks

The element at a rank and the rank of an element are those in the list of elements. A walk from a
node on, in either direction, comes through the elements on that side of its rank.
-/

namespace RespStore

namespace SkipList

open Element

variable {l : SkipList} {e f : Element} {a b ids : List Nat} {x : Nat}

/-! ## The node at a rank -/

theorem splits_rank (l : SkipList) (ids : List Nat) (k : Nat) :
    Splits l (fun _ r => decide (r ≤ k)) (ids.take k) (ids.drop k) := by
  constructor
  · intro a y b n hab _ _
    have := congrArg List.length hab
    simp only [List.length_cons, List.length_append, List.length_take] at this
    exact decide_eq_true (by omega)
  · intro a y b n hab _
    have := congrArg List.length hab
    simp only [List.length_drop, List.length_append, List.length_cons] at this
    rw [List.length_take]
    exact decide_eq_false (by omega)

theorem Represents.byRank?_eq (h : l.Represents ids) (k : Nat) :
    l.byRank? k = if k ≤ ids.length then (ids.take k).getLast? else none := by
  have hrep : l.Represents (ids.take k ++ ids.drop k) := by rwa [List.take_append_drop]
  rw [byRank?, findSome?_path hrep (splits_rank l ids k)]
  · dsimp only
    rw [List.length_take]
    by_cases hk : k ≤ ids.length
    · rw [if_pos hk, Nat.min_eq_left hk]
      cases hlast : (ids.take k).getLast? with
      | none => exact if_neg fun h => h.1 rfl
      | some x =>
        have hmem := List.mem_of_mem_take (List.mem_of_getLast? hlast)
        exact if_pos ⟨h.ne_header hmem, rfl⟩
    · rw [if_neg hk]
      refine if_neg fun h => hk ?_
      have hmin := h.2
      omega
  · intro a x c hp hc
    refine if_neg fun h => ?_
    have hlength := congrArg List.length hp
    have hpos := List.length_pos_iff.mpr hc
    simp only [List.length_cons, List.length_append, List.length_take] at hlength
    omega

theorem Represents.getElem?_toList (h : l.Represents ids) (k : Nat) :
    l.toList[k]? = ids[k]?.bind l.element? := by
  have hget := congrArg (·[k]?) h.map_element?
  simp only [List.getElem?_map] at hget
  cases ha : l.toList[k]? with
  | none => cases hb : ids[k]? <;> simp_all
  | some e => cases hb : ids[k]? <;> simp_all

theorem Represents.byRank?_succ (h : l.Represents ids) (k : Nat) : l.byRank? (k + 1) = ids[k]? := by
  rw [h.byRank?_eq]
  split
  · next hk =>
    have hk : k < ids.length := hk
    rw [List.take_add_one, List.getElem?_eq_getElem hk, Option.toList_some, List.getLast?_concat]
  · next hk => rw [List.getElem?_eq_none (Nat.le_of_not_lt hk)]

theorem byRank?_element (h : l.WF) (k : Nat) :
    (l.byRank? (k + 1)).bind l.element? = l.toList[k]? := by
  obtain ⟨ids, hr⟩ := h.represents
  rw [hr.byRank?_succ, hr.getElem?_toList]

theorem byRank?_zero (h : l.WF) : l.byRank? 0 = none := by
  obtain ⟨ids, hr⟩ := h.represents
  rw [hr.byRank?_eq, if_pos (Nat.zero_le _)]
  rfl

theorem elementsBackFrom_byRank? (h : l.WF) (k : Nat) :
    l.elementsBackFrom (l.byRank? k) =
      if k ≤ l.toList.length then (l.toList.take k).reverse else [] := by
  obtain ⟨ids, hr⟩ := h.represents
  rw [hr.byRank?_eq, ← h.size_eq_length, hr.size]
  split
  · rw [Represents.elementsBackFrom_eq (b := ids.drop k) (by rwa [List.take_append_drop]),
      hr.take_elements]
  · exact (show Runs l.prev? none [] from rfl).walk_eq (Nat.zero_le _)

theorem elementsFrom_byRank? (h : l.WF) (k : Nat) :
    l.elementsFrom (l.byRank? (k + 1)) = l.toList.drop k := by
  obtain ⟨ids, hr⟩ := h.represents
  rw [hr.byRank?_succ, ← List.head?_drop,
    Represents.elementsFrom_eq (a := ids.take k) (by rwa [List.take_append_drop]), hr.drop_elements]

/-! ## The rank of an element -/

theorem any_isAt_iff (hx : l.element? x = some f) (hf : f.Scored) (he : e.Scored) :
    (l.node? x).any (·.isAt e.2 e.1) = true ↔ Matches f e := by
  obtain ⟨n, hn, rfl⟩ := Option.map_eq_some_iff.mp hx
  rw [hn, Option.any_some]
  exact isAt_iff hf he

theorem rank?_of_isNaN (he : e.2.isNaN = true) : l.rank? e.1 e.2 = none := by
  refine List.findSome?_eq_none_iff.mpr fun ⟨x, rank⟩ _ => if_neg fun h => ?_
  obtain ⟨n, -, hat⟩ := (Option.any_eq_true _ _).mp h.2
  rw [isAt_of_isNaN he] at hat
  cases hat

/-- Where the search for a rank stops. -/
theorem WF.cut_after (h : l.WF) (he : e.Scored) :
    ∃ p q, l.Represents (p ++ q) ∧
      Splits l (fun n _ => n.precedes e.2 e.1 || n.isAt e.2 e.1) p q ∧
      p.filterMap l.element? = l.toList.filter fun f => Before f e ∨ Matches f e := by
  obtain ⟨p, q, hr, hs, hp, -⟩ := h.cut (fun n _ => n.precedes e.2 e.1 || n.isAt e.2 e.1)
    (fun f => decide (Before f e ∨ Matches f e)) (fun d f _ _ hdf hf => by
      rcases of_decide_eq_true hf with hf | hf
      · exact decide_eq_true (.inl (hdf.trans hf))
      · exact decide_eq_true (.inl (hdf.of_matches_right hf))) fun n r hn => by
      rw [Bool.eq_iff_iff, Bool.or_eq_true, decide_eq_true_iff, precedes_iff hn he, isAt_iff hn he]
  exact ⟨p, q, hr, hs, hp⟩

/-- What is in front of a node that is not behind `e` is before `e`. -/
theorem WF.before_of_place (h : l.WF) (hr : l.Represents (a ++ x :: b)) (hx : l.element? x = some f)
    (hf : Before f e ∨ Matches f e) : ∀ d ∈ a.filterMap l.element?, Before d e := by
  have hsorted := h.sorted
  rw [hr.toList_append, List.filterMap_cons_some hx] at hsorted
  intro d hd
  have hdf := (List.pairwise_append.mp hsorted).2.2 d hd f List.mem_cons_self
  exact hf.elim hdf.trans hdf.of_matches_right

/-- Of the nodes that a search for `e` goes past, only the last can match, and the others come before
`e`. -/
theorem WF.rank_passed (h : l.WF) (hr : l.Represents (a ++ x :: b)) (hx : l.element? x = some f)
    (hf : Before f e ∨ Matches f e) :
    (if ((a ++ [x]).filterMap l.element?).any fun f => Matches f e then
        some ((((a ++ [x]).filterMap l.element?).filter fun f => Before f e).length + 1)
      else none) = if Matches f e then some (a.length + 1) else none := by
  have hfront := h.before_of_place hr hx hf
  have hlength := hr.length_filterMap (b := a) fun y hy => List.mem_append_left _ hy
  have hfirst : (a.filterMap l.element?).filter (fun f => Before f e) = a.filterMap l.element? :=
    List.filter_eq_self.mpr fun d hd => decide_eq_true (hfront d hd)
  have hnever : (a.filterMap l.element?).any (fun f => Matches f e) = false :=
    List.any_eq_false.mpr fun d hd => by simpa using fun hm => Matches.not_before hm (hfront d hd)
  rw [List.filterMap_append, List.filterMap_cons_some hx, List.filterMap_nil, List.any_append,
    hnever, List.filter_append, hfirst]
  by_cases hm : Matches f e
  · simp [hm, hm.not_before, hlength]
  · simp [hm]

theorem rank?_eq (h : l.WF) (e : Element) :
    l.rank? e.1 e.2 =
      if l.toList.any fun f => Matches f e then
        some ((l.toList.filter fun f => Before f e).length + 1)
      else none := by
  cases he : e.2.isNaN with
  | true =>
    rw [rank?_of_isNaN he, if_neg]
    intro hany
    obtain ⟨f, hf, hm⟩ := List.any_eq_true.mp hany
    have hscored : e.2.isNaN = false := (of_decide_eq_true hm).symm.scored (h.scored f hf)
    exact Bool.noConfusion (he.symm.trans hscored)
  | false =>
    obtain ⟨p, q, hr, hs, hp⟩ := h.cut_after he
    -- the match and what is before it are among the elements that the search goes past
    have hany : (l.toList.any fun f => Matches f e) =
        (p.filterMap l.element?).any fun f => Matches f e := by
      rw [hp, List.any_filter]
      refine congrArg l.toList.any (funext fun f => ?_)
      by_cases hm : Matches f e <;> simp [hm]
    have hbefore : (l.toList.filter fun f => Before f e) =
        (p.filterMap l.element?).filter fun f => Before f e := by
      rw [hp, List.filter_filter]
      refine List.filter_congr fun f _ => ?_
      by_cases hb : Before f e <;> simp [hb]
    have hpassed : ∀ x ∈ p, ∃ f : Element, l.element? x = some f ∧ f.Scored ∧
        (Before f e ∨ Matches f e) := by
      intro x hx
      obtain ⟨f, hf⟩ := hr.exists_element? (List.mem_append_left q hx)
      have hmem : f ∈ p.filterMap l.element? := List.mem_filterMap.mpr ⟨x, hx, hf⟩
      rw [hp] at hmem
      obtain ⟨hmem, hupTo⟩ := List.mem_filter.mp hmem
      exact ⟨f, hf, h.scored f hmem, of_decide_eq_true hupTo⟩
    rw [rank?, findSome?_path hr hs, hany, hbefore]
    · rcases List.eq_nil_or_concat' p with rfl | ⟨p, x, rfl⟩
      · exact if_neg fun h => h.1 rfl
      · obtain ⟨f, hf, hscored, hupTo⟩ := hpassed x (by simp)
        have hrank := h.rank_passed (b := q) (by simpa using hr) hf hupTo
        have hat := any_isAt_iff hf hscored he
        have hne := hr.ne_header (show x ∈ p ++ [x] ++ q by simp)
        rw [hrank, List.getLast?_concat, Option.getD_some]
        by_cases hm : Matches f e
        · simp [hne, hat, hm]
        · simp [hat, hm]
    · intro a x c hab hc
      refine if_neg fun ⟨hne, hat⟩ => ?_
      cases a with
      | nil => exact hne (List.cons.inj hab).1.symm
      | cons z a =>
        obtain ⟨-, rfl⟩ := List.cons.inj hab
        cases c with
        | nil => exact hc rfl
        | cons y c =>
          obtain ⟨f, hf, hscored, -⟩ := hpassed x (by simp)
          obtain ⟨g, hg, -, hupTo⟩ := hpassed y (by simp)
          have hfront := h.before_of_place (a := a ++ [x]) (b := c ++ q) (by simpa using hr) hg hupTo
          have hbefore := hfront f (List.mem_filterMap.mpr ⟨x, by simp, hf⟩)
          exact ((any_isAt_iff hf hscored he).mp hat).not_before hbefore

end SkipList

end RespStore
