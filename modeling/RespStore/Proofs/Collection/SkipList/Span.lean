import Mathlib.Data.List.TakeWhile
import RespStore.Proofs.Collection.SkipList.Range
import RespStore.Proofs.Collection.SkipList.Shape

/-!
# The span of a score range

The elements with a score in a range follow each other. The first and the last node in the range
are those of the first and the last of them, and a walk from the first one comes through all.
-/

namespace RespStore.SkipList

open Element

variable {l : SkipList} {r : ScoreRange} {e : Element} {ids : List Nat} {x : Nat}

theorem filter_contains_of_not_proper (hr : ¬r.Proper) (es : List Element) :
    es.filter (fun e => r.contains e.2) = [] :=
  List.filter_eq_nil_iff.mpr fun e _ => by simp [ScoreRange.contains_of_not_proper hr]

theorem filter_contains_of_not_meets (h : l.WF) (hm : l.meets r = false) :
    l.toList.filter (fun e => r.contains e.2) = [] := by
  by_cases hr : r.Proper
  · exact List.filter_eq_nil_iff.mpr fun e he => by simp [contains_of_not_meets h hr hm e he]
  · exact filter_contains_of_not_proper hr l.toList

/-- Whatever the bounds are, the first node in a range is that of the first element in it. -/
theorem firstIn?_eq (h : l.WF) (r : ScoreRange) :
    (l.firstIn? r).bind l.element? = (l.toList.filter fun e => r.contains e.2).head? := by
  by_cases hr : r.Proper
  · rw [firstIn?_element h hr, List.head?_filter]
  · rw [firstIn?, meets_of_not_proper hr, filter_contains_of_not_proper hr]
    rfl

/-- Whatever the bounds are, the last node in a range is that of the last element in it. -/
theorem lastIn?_eq (h : l.WF) (r : ScoreRange) :
    (l.lastIn? r).bind l.element? = (l.toList.filter fun e => r.contains e.2).getLast? := by
  unfold lastIn?
  cases hm : l.meets r with
  | false =>
    rw [filter_contains_of_not_meets h hm, if_neg Bool.false_ne_true]
    rfl
  | true =>
    have hr : r.Proper := by
      by_contra hr
      rw [meets_of_not_proper hr] at hm
      cases hm
    obtain ⟨p, q, hrep, hs, hp, -⟩ := h.cut (fun n _ => r.belowMax n.score)
      (fun e => r.belowMax e.2) (fun e f he hf hlt => ScoreRange.belowMax_mono hr he hf hlt.key_le)
      fun _ _ _ => rfl
    -- the range has the elements of the passed nodes that reach its lower bound
    have hfilter : l.toList.filter (fun e => r.contains e.2) =
        (p.filterMap l.element?).filter fun e => r.aboveMin e.2 := by
      rw [hp, List.filter_filter]
      rfl
    simp only [hfilter, if_pos, leftAt_zero hrep hs]
    rcases List.eq_nil_or_concat' p with rfl | ⟨p, x, rfl⟩
    · rfl
    · obtain ⟨n, hn⟩ := hrep.exists_node? (show x ∈ header :: (p ++ [x] ++ q) by simp)
      have helem : l.element? x = some n.element := by rw [element?, hn]; rfl
      have hne := hrep.ne_header (show x ∈ p ++ [x] ++ q by simp)
      rw [List.getLast?_concat, Option.getD_some, hn, List.filterMap_append,
        List.filterMap_cons_some helem, List.filterMap_nil, List.filter_append]
      cases ha : r.aboveMin n.score with
      | true =>
        rw [if_pos ⟨hne, ha⟩, Option.bind_some, helem, List.filter_cons_of_pos (by exact ha),
          List.filter_nil, List.getLast?_concat]
      | false =>
        have hsorted := h.sorted
        have hscored := h.scored
        rw [hrep.toList_append, List.filterMap_append,
          List.filterMap_cons_some helem] at hsorted hscored
        have hbefore := (List.pairwise_append.mp (List.pairwise_append.mp hsorted).1).2.2
        have hnone : ∀ e ∈ p.filterMap l.element?, ¬r.aboveMin e.2 = true := by
          intro e he hae
          have hlt := hbefore e he n.element List.mem_cons_self
          have han := ScoreRange.aboveMin_mono hr (hscored e (by simp [he]))
            (hscored n.element (by simp)) hlt.key_le hae
          exact Bool.noConfusion (ha.symm.trans han)
        rw [if_neg (fun h => Bool.false_ne_true (ha.symm.trans h.2)),
          List.filter_eq_nil_iff.mpr hnone, List.filter_cons_of_neg (by exact Bool.eq_false_iff.mp ha)]
        rfl

theorem bind_element?_eq_none {node : Option Nat} (h : ∀ x, node = some x → (l.node? x).isSome) :
    node.bind l.element? = none ↔ node = none := by
  cases node with
  | none => exact iff_of_true rfl rfl
  | some x =>
    have hx := Option.ne_none_iff_isSome.mpr (h x rfl)
    simp [element?, hx]

/-- There is no first node in a range exactly if there is no element in it. -/
theorem firstIn?_eq_none_iff (h : l.WF) (r : ScoreRange) :
    l.firstIn? r = none ↔ ∀ e ∈ l.toList, r.contains e.2 = false := by
  have hnode : ∀ x, l.firstIn? r = some x → (l.node? x).isSome := by
    intro x hx
    unfold firstIn? at hx
    split at hx
    · exact Option.isSome_of_any (Option.filter_eq_some_iff.mp hx).2
    · cases hx
  rw [← bind_element?_eq_none hnode, firstIn?_eq h, List.head?_eq_none_iff]
  simp

theorem lastIn?_eq_none_iff (h : l.WF) (r : ScoreRange) :
    l.lastIn? r = none ↔ ∀ e ∈ l.toList, r.contains e.2 = false := by
  have hnode : ∀ x, l.lastIn? r = some x → (l.node? x).isSome := by
    intro x hx
    unfold lastIn? at hx
    split at hx
    · obtain ⟨⟨-, hany⟩, rfl⟩ := Option.ite_some_none_eq_some.mp hx
      exact Option.isSome_of_any hany
    · cases hx
  rw [← bind_element?_eq_none hnode, lastIn?_eq h, List.getLast?_eq_none_iff]
  simp

/-! ## Walking through a range -/

theorem firstIn?_mem (h : l.Represents ids) (hx : l.firstIn? r = some x) : x ∈ ids := by
  unfold firstIn? at hx
  split at hx
  · exact h.forward_mem (Option.filter_eq_some_iff.mp hx).1
  · cases hx

/-- A walk from a node on begins with its element. -/
theorem elementsFrom_node (h : l.Represents ids) (hx : x ∈ ids) (he : l.element? x = some e) :
    ∃ a b, l.toList = a ++ e :: b ∧ l.elementsFrom (some x) = e :: b := by
  obtain ⟨a, b, rfl⟩ := List.append_of_mem hx
  refine ⟨a.filterMap l.element?, b.filterMap l.element?, ?_, ?_⟩
  · rw [h.toList_append, List.filterMap_cons_some he]
  · exact h.elementsFrom_eq.trans (List.filterMap_cons_some he)

/-- From the first node in a range on, a walk leaves out the elements before the range. -/
theorem elementsFrom_firstIn? (h : l.WF) (r : ScoreRange) :
    l.elementsFrom (l.firstIn? r) = l.toList.dropWhile fun e => !r.contains e.2 := by
  obtain ⟨ids, hrep⟩ := h.represents
  have hfirst := firstIn?_eq h r
  rw [List.head?_filter] at hfirst
  cases hx : l.firstIn? r with
  | none =>
    rw [hx] at hfirst
    have hnone := List.find?_eq_none.mp hfirst.symm
    rw [List.dropWhile_eq_nil_iff.mpr fun e he => by simpa using hnone e he]
    exact (show Runs l.next? none [] from rfl).walk_eq (Nat.zero_le _)
  | some x =>
    obtain ⟨e, he⟩ := hrep.exists_element? (firstIn?_mem hrep hx)
    rw [hx, Option.bind_some, he] at hfirst
    obtain ⟨hc, c, d, hcd, hnone⟩ := List.find?_eq_some_iff_append.mp hfirst.symm
    obtain ⟨a, b, hab, hfrom⟩ := elementsFrom_node hrep (firstIn?_mem hrep hx) he
    have hnodup : (a ++ e :: b).Nodup := hab ▸ h.sorted.imp fun hlt => by
      rintro rfl
      exact Before.irrefl _ hlt
    obtain ⟨rfl, rfl⟩ := place_unique hnodup (hab.symm.trans hcd)
    rw [hfrom, hcd, List.dropWhile_append_of_pos hnone,
      List.dropWhile_cons_of_neg (by simpa using hc)]

end RespStore.SkipList
