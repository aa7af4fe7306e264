import RespStore.Proofs.Collection.SkipList.Delete
import RespStore.Proofs.Collection.SkipList.Insert
import RespStore.Proofs.Collection.SkipList.Order

/-!
# The elements of a skip list

A well-formed skip list holds elements in strictly ascending order. Every operation is stated by
what it does to the list of its elements, in which no trace of the heights is left.
-/

namespace RespStore.SkipList

open Element

variable {l : SkipList} {ahead : SkipNode → Nat → Bool} {e : Element} {es : List Element}
  {p q ids : List Nat} {id k n : Nat}

structure WF (l : SkipList) : Prop where
  represents : ∃ ids, l.Represents ids
  sorted : Sorted l.toList
  scored : ∀ e ∈ l.toList, Scored e

theorem wf_empty : empty.WF where
  represents := ⟨[], represents_empty⟩
  sorted := List.Pairwise.nil
  scored := List.forall_mem_nil _

theorem toList_empty : empty.toList = [] := represents_empty.toList_eq

theorem WF.size_eq_length (h : l.WF) : l.size = l.toList.length := by
  obtain ⟨ids, hr⟩ := h.represents
  exact hr.size_eq_length

/-! ## Places in the sequence -/

namespace Represents

theorem toList_append (h : l.Represents (p ++ q)) :
    l.toList = p.filterMap l.element? ++ q.filterMap l.element? := by
  rw [h.toList_eq, List.filterMap_append]

/-- The nodes of the first elements are the first nodes. -/
theorem take_elements (h : l.Represents ids) (k : Nat) :
    (ids.take k).filterMap l.element? = l.toList.take k := by
  refine (List.map_inj_right fun _ _ => Option.some.inj).mp ?_
  rw [h.filterMap_eq_map fun id => List.mem_of_mem_take, List.map_take, List.map_take,
    h.map_element?]

theorem drop_elements (h : l.Represents ids) (k : Nat) :
    (ids.drop k).filterMap l.element? = l.toList.drop k := by
  refine (List.map_inj_right fun _ _ => Option.some.inj).mp ?_
  rw [h.filterMap_eq_map fun id => List.mem_of_mem_drop, List.map_drop, List.map_drop,
    h.map_element?]

theorem mem_elements {n : SkipNode} (hn : l.node? id = some n) (hid : id ∈ ids) :
    n.element ∈ ids.filterMap l.element? :=
  List.mem_filterMap.mpr ⟨id, hid, by rw [element?, hn]; rfl⟩

end Represents

/-- A condition on elements that holds of a beginning cuts the sequence where a descent by it
stops. -/
theorem WF.cut (h : l.WF) (ahead : SkipNode → Nat → Bool) (P : Element → Bool)
    (hP : ∀ e f, Scored e → Scored f → Before e f → P f = true → P e = true)
    (hahead : ∀ n r, Scored n.element → ahead n r = P n.element) :
    ∃ p q, l.Represents (p ++ q) ∧ Splits l ahead p q ∧
      p.filterMap l.element? = l.toList.filter P ∧
      q.filterMap l.element? = l.toList.filter fun e => !P e := by
  obtain ⟨ids, hr⟩ := h.represents
  have hclosed : ∀ e ∈ l.toList, ∀ f ∈ l.toList, Before e f → P f = true → P e = true :=
    fun e he f hf => hP e f (h.scored e he) (h.scored f hf)
  have hcut := h.sorted.filter_append_filter_not P hclosed
  have htake : (l.toList.filter P ++ l.toList.filter fun e => !P e).take
      (l.toList.filter P).length = l.toList.filter P := List.take_left
  have hdrop : (l.toList.filter P ++ l.toList.filter fun e => !P e).drop
      (l.toList.filter P).length = l.toList.filter fun e => !P e := List.drop_left
  rw [hcut] at htake hdrop
  have hp := (hr.take_elements (l.toList.filter P).length).trans htake
  have hq := (hr.drop_elements (l.toList.filter P).length).trans hdrop
  have hrep : l.Represents
      (ids.take (l.toList.filter P).length ++ ids.drop (l.toList.filter P).length) := by
    rwa [List.take_append_drop]
  refine ⟨_, _, hrep, ⟨?_, ?_⟩, hp, hq⟩
  · intro a y b n hab hy hn
    have hmem : y ∈ ids.take (l.toList.filter P).length := by
      have : y ∈ header :: ids.take (l.toList.filter P).length := by rw [hab]; simp
      exact (List.mem_cons.mp this).resolve_left hy
    have helem := Represents.mem_elements hn hmem
    rw [hp] at helem
    rw [hahead n _ (h.scored _ (List.mem_of_mem_filter helem))]
    exact (List.mem_filter.mp helem).2
  · intro a y b n hab hn
    have hmem : y ∈ ids.drop (l.toList.filter P).length := by rw [hab]; simp
    have helem := Represents.mem_elements hn hmem
    rw [hq] at helem
    rw [hahead n _ (h.scored _ (List.mem_of_mem_filter helem))]
    simpa using (List.mem_filter.mp helem).2

/-- Where the search for an element stops. -/
theorem WF.cut_before (h : l.WF) (he : e.Scored) :
    ∃ p q, l.Represents (p ++ q) ∧ Splits l (fun n _ => n.precedes e.2 e.1) p q ∧
      p.filterMap l.element? = l.toList.filter (fun f => Before f e) ∧
      q.filterMap l.element? = l.toList.filter fun f => !decide (Before f e) := by
  refine h.cut _ (fun f => decide (Before f e)) ?_ ?_
  · intro d f _ _ hdf hf
    exact decide_eq_true (hdf.trans (of_decide_eq_true hf))
  · intro n r hn
    rw [Bool.eq_iff_iff, decide_eq_true_iff]
    exact precedes_iff hn he

/-! ## Inserting and deleting -/

theorem WF.insert_spec (h : l.WF) (he : e.Scored) (hnew : ∀ f ∈ l.toList, ¬Matches f e)
    (height : Nat) :
    (l.insert e.1 e.2 height).2.WF ∧
      (l.insert e.1 e.2 height).2.toList = insertSorted e l.toList := by
  obtain ⟨p, q, hr, hs, hp, hq⟩ := h.cut_before he
  obtain ⟨id, hrep, helem⟩ := insert_represents hr hs height
  have hid : id ∉ p ++ q := (List.nodup_cons.mp (List.nodup_middle.mp hrep.nodup_ids)).1
  have hkeep : ∀ b : List Nat, (∀ y ∈ b, y ∈ p ++ q) →
      b.filterMap (l.insert e.1 e.2 height).2.element? = b.filterMap l.element? := by
    intro b hb
    refine List.filterMap_congr fun y hy => ?_
    rw [helem, if_neg]
    rintro rfl
    exact hid (hb y hy)
  have hlist : (l.insert e.1 e.2 height).2.toList = insertSorted e l.toList := by
    rw [hrep.toList_append, List.filterMap_cons_some (by rw [helem, if_pos rfl]),
      hkeep p fun y hy => List.mem_append_left q hy, hkeep q fun y hy => List.mem_append_right p hy,
      hp, hq]
    rfl
  refine ⟨⟨⟨_, hrep⟩, ?_, ?_⟩, hlist⟩
  · rw [hlist]
    exact h.sorted.insertSorted hnew
  · intro f hf
    rw [hlist] at hf
    rcases mem_insertSorted.mp hf with rfl | hf
    · exact he
    · exact h.scored f hf

/-- Deleting the node that follows a place where a descent stops. -/
theorem WF.deleteNode_spec (h : l.WF) (hr : l.Represents (p ++ id :: q))
    (hs : Splits l ahead p (id :: q)) (he : l.element? id = some e) :
    (l.deleteNode id (l.path ahead)).WF ∧
      (l.deleteNode id (l.path ahead)).toList = eraseMatch e l.toList := by
  obtain ⟨hrep, helem⟩ := deleteNode_represents hr fun i hi => path_spec hr hs hi
  have hkeep : ∀ b : List Nat, (∀ y ∈ b, y ∈ p ++ q) →
      b.filterMap (l.deleteNode id (l.path ahead)).element? = b.filterMap l.element? :=
    fun b hb => List.filterMap_congr fun y hy => helem y (hb y hy)
  have hold : l.toList = p.filterMap l.element? ++ e :: q.filterMap l.element? := by
    rw [hr.toList_append, List.filterMap_cons_some he]
  have hlist : (l.deleteNode id (l.path ahead)).toList = eraseMatch e l.toList := by
    have hsorted := h.sorted
    rw [hold] at hsorted ⊢
    rw [hsorted.eraseMatch_split ⟨rfl, rfl⟩, hrep.toList_append,
      hkeep p fun y hy => List.mem_append_left q hy, hkeep q fun y hy => List.mem_append_right p hy]
  refine ⟨⟨⟨_, hrep⟩, ?_, ?_⟩, hlist⟩
  · rw [hlist]
    exact h.sorted.eraseMatch
  · intro f hf
    rw [hlist] at hf
    exact h.scored f (List.mem_of_mem_filter hf)

theorem delete_of_isNaN (he : e.2.isNaN = true) : l.delete e.1 e.2 = (false, l) := by
  unfold delete
  dsimp only
  split
  · rfl
  · refine if_neg fun h => ?_
    obtain ⟨n, -, hat⟩ := (Option.any_eq_true _ _).mp h
    rw [isAt_of_isNaN he] at hat
    cases hat

theorem WF.delete_spec (h : l.WF) (he : e.Scored) :
    (l.delete e.1 e.2).2.WF ∧ (l.delete e.1 e.2).2.toList = eraseMatch e l.toList ∧
      (l.delete e.1 e.2).1 = l.toList.any fun f => Matches f e := by
  obtain ⟨p, q, hr, hs, hp, hq⟩ := h.cut_before he
  have hbefore : ∀ f ∈ p.filterMap l.element?, Before f e := by
    intro f hf
    rw [hp] at hf
    exact of_decide_eq_true (List.mem_filter.mp hf).2
  -- without a match nothing is deleted
  have habsent : (∀ f ∈ l.toList, ¬Matches f e) →
      l.WF ∧ l.toList = eraseMatch e l.toList ∧ false = l.toList.any fun f => Matches f e :=
    fun hall => ⟨h, (eraseMatch_eq_self hall).symm,
      (List.any_eq_false.mpr fun f hf => by simpa using hall f hf).symm⟩
  unfold delete
  simp only [next?_leftAt hr hs]
  cases q with
  | nil =>
    refine habsent ?_
    rw [hr.toList_append, List.filterMap_nil, List.append_nil]
    exact fun f hf hm => hm.not_before (hbefore f hf)
  | cons id q =>
    obtain ⟨n, hn⟩ := hr.exists_node? (show id ∈ header :: (p ++ id :: q) by simp)
    have helem : l.element? id = some n.element := by rw [element?, hn]; rfl
    have hmem : n.element ∈ l.toList := by
      rw [hr.toList_append]
      exact List.mem_append_right _ (Represents.mem_elements hn List.mem_cons_self)
    have hat := isAt_iff (h.scored _ hmem) he
    simp only [List.head?_cons, hn, Option.any_some]
    cases hb : n.isAt e.2 e.1 with
    | true =>
      have hm := hat.mp hb
      obtain ⟨hwf, hlist⟩ := h.deleteNode_spec hr hs helem
      refine ⟨hwf, hlist.trans ?_, ?_⟩
      · refine List.filter_congr fun f _ => ?_
        have hiff : Matches f n.element ↔ Matches f e :=
          ⟨fun k => ⟨k.1.trans hm.1, k.2.trans hm.2⟩, fun k => ⟨k.1.trans hm.1.symm, k.2.trans hm.2.symm⟩⟩
        simp only [hiff]
      · exact (List.any_eq_true.mpr ⟨_, hmem, by simpa using hm⟩).symm
    | false =>
      have hnm : ¬Matches n.element e := fun hm => by simp [hat.mpr hm] at hb
      have hfirst : ¬Before n.element e := by
        have hbehind : n.element ∈ (id :: q).filterMap l.element? :=
          Represents.mem_elements hn List.mem_cons_self
        rw [hq] at hbehind
        simpa using (List.mem_filter.mp hbehind).2
      refine habsent ?_
      have hsorted := h.sorted
      rw [hr.toList_append, List.filterMap_cons_some helem] at hsorted ⊢
      exact hsorted.not_matches hbefore hfirst hnm

end RespStore.SkipList
