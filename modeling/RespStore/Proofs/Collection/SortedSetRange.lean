import RespStore.Proofs.Collection.SkipList.Span
import RespStore.Proofs.Collection.SortedSet

/-!
# Score ranges of a sorted set

The elements in a score range are those that a filter keeps, and the ranks of the first and the
last of them tell how many there are.
-/

namespace RespStore

namespace Element

variable {es : List Element} {r : ScoreRange}

/-- In ascending order, what follows the first element in a range is in it up to the upper bound. -/
theorem Sorted.takeWhile_dropWhile_contains (h : Sorted es) (hscored : ∀ e ∈ es, e.Scored)
    (r : ScoreRange) :
    (es.dropWhile fun e => !r.contains e.2).takeWhile (fun e => r.belowMax e.2) =
      es.filter fun e => r.contains e.2 := by
  by_cases hr : r.Proper
  · induction es with
    | nil => rfl
    | cons e es ih =>
      obtain ⟨hlt, hes⟩ := List.pairwise_cons.mp h
      obtain ⟨he, hscored'⟩ := List.forall_mem_cons.mp hscored
      cases hc : r.contains e.2 with
      | false =>
        rw [List.dropWhile_cons_of_pos (by rw [hc]; rfl), List.filter_cons_of_neg (by rw [hc]; nofun),
          ih hes hscored']
      | true =>
        rw [List.dropWhile_cons_of_neg (by rw [hc]; nofun)]
        have hmax : ∀ d ∈ e :: es, ∀ f ∈ e :: es, Before d f → r.belowMax f.2 = true →
            r.belowMax d.2 = true := fun d hd f hf hdf =>
          ScoreRange.belowMax_mono hr (hscored d hd) (hscored f hf) hdf.key_le
        rw [h.takeWhile_eq_filter (fun e => r.belowMax e.2) hmax]
        refine List.filter_congr fun f hf => ?_
        have hmin : r.aboveMin f.2 = true := by
          have hmin := (Bool.and_eq_true_iff.mp hc).1
          rcases List.mem_cons.mp hf with rfl | hf
          · exact hmin
          · exact ScoreRange.aboveMin_mono hr he (hscored' f hf) (hlt f hf).key_le hmin
        rw [ScoreRange.contains, hmin, Bool.true_and]
  · have hnone := ScoreRange.contains_of_not_proper hr
    rw [SkipList.filter_contains_of_not_proper hr,
      List.dropWhile_eq_nil_iff.mpr fun e _ => by rw [hnone]; rfl, List.takeWhile_nil]

/-- In ascending order, the elements in a range follow each other. -/
theorem Sorted.exists_split_contains (h : Sorted es) (hscored : ∀ e ∈ es, e.Scored)
    (r : ScoreRange) : ∃ a c, es = a ++ es.filter (fun e => r.contains e.2) ++ c := by
  refine ⟨es.takeWhile fun e => !r.contains e.2,
    (es.dropWhile fun e => !r.contains e.2).dropWhile fun e => r.belowMax e.2, ?_⟩
  rw [← h.takeWhile_dropWhile_contains hscored, List.append_assoc, List.takeWhile_append_dropWhile,
    List.takeWhile_append_dropWhile]

end Element

namespace SortedSet

open Element

variable [Digest String] {s : SortedSet} {es a b : List Element} {e : Element}

namespace WF

theorem rangeByScore_eq (h : s.WF) (r : ScoreRange) :
    s.rangeByScore r = s.toList.filter fun e => r.contains e.2 := by
  rw [rangeByScore, SkipList.elementsFrom_firstIn? h.index]
  exact h.index.sorted.takeWhile_dropWhile_contains h.index.scored r

/-- The first and the last in a range frame the others. -/
theorem count_eq (h : s.WF) (r : ScoreRange) :
    s.count r = (s.toList.filter fun e => r.contains e.2).length := by
  have hfirst := SkipList.firstIn?_eq h.index r
  have hlast := SkipList.lastIn?_eq h.index r
  have hrank : ∀ node : Option Nat, node.bind s.rankOfNode? =
      (node.bind s.index.element?).bind fun e => s.index.rank? e.1 e.2 := fun node =>
    (Option.bind_assoc node s.index.element? _).symm
  rw [count, hrank, hrank, hfirst, hlast]
  obtain ⟨a, c, hlist⟩ := h.index.sorted.exists_split_contains h.index.scored r
  show _ = ((s.index.toList).filter _).length
  generalize s.index.toList.filter (fun e => r.contains e.2) = range at hlist ⊢
  cases range with
  | nil => rfl
  | cons e rest =>
    obtain ⟨init, f, hrange⟩ := List.eq_nil_or_concat' (e :: rest) |>.resolve_left nofun
    have he := h.rank?_split (a := a) (b := rest ++ c) (e := e) (by rw [toList, hlist]; simp)
    have hf := h.rank?_split (a := a ++ init) (b := c) (e := f)
      (by rw [toList, hlist, hrange]; simp)
    have hlast : (e :: rest).getLast? = some f := by rw [hrange, List.getLast?_concat]
    have hlength : (e :: rest).length = init.length + 1 := by rw [hrange, List.length_append]; rfl
    rw [hlast, List.head?_cons, Option.bind_some, Option.bind_some, he, hf, hlength,
      List.length_append]
    show (if a.length + 1 ≤ a.length + init.length + 1 then _ else _) = _
    rw [if_pos (by omega)]
    omega

end WF

end SortedSet

end RespStore
