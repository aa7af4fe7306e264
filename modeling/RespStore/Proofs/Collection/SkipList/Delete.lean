import RespStore.Proofs.Collection.SkipList.Splice

/-!
# Deleting a node

Deletion unthreads a node from every level, mends the pointers back, frees the slot and gives up the
levels that no node reaches any more. It splices the node out.
-/

namespace RespStore.SkipList

variable {l m : SkipList} {p q ids : List Nat} {path : List (Nat × Nat)} {id y i n : Nat}

theorem unthreadAll_spec (h : l.Represents (p ++ id :: q))
    (hleft : ∀ i < maxLevel, IsLeft l.height p i (leftAt path i).1 (leftAt path i).2) :
    SameFrame l ((List.range l.level).foldl (fun l i => l.unthread id (leftAt path i).1 i) l) ∧
      Linked ((List.range l.level).foldl (fun l i => l.unthread id (leftAt path i).1 i) l).link
        l.height l.level (header :: (p ++ q)) ∧
      (∀ i, l.level ≤ i →
        ((List.range l.level).foldl (fun l i => l.unthread id (leftAt path i).1 i) l).link header i =
          l.link header i) ∧
      ((List.range l.level).foldl (fun l i => l.unthread id (leftAt path i).1 i) l).link id 0 =
        l.link id 0 := by
  have hleft' : ∀ i < l.level, IsLeft l.height p i (leftAt path i).1 (leftAt path i).2 :=
    fun i hi => hleft i (Nat.lt_of_lt_of_le hi h.level_le)
  have hlt : ∀ i < l.level, i < l.height (leftAt path i).1 := by
    intro i hi
    obtain ⟨-, -, -, -, hx, -⟩ := hleft' i hi
    exact hx
  obtain ⟨hf, hl⟩ := foldl_levels (l := l) (n := l.level)
    (fun l i => l.unthread id (leftAt path i).1 i)
    (fun i L y => if y = (leftAt path i).1 then
        if (L (leftAt path i).1).forward = some id then
          ⟨(L id).forward, (L (leftAt path i).1).span + (L id).span - 1⟩
        else ⟨(L (leftAt path i).1).forward, (L (leftAt path i).1).span - 1⟩
      else L y)
    (fun m i hi hm => sameFrame_unthread)
    (fun m i hi hm y j => link_unthread (by rw [hm.height_eq]; exact hlt i hi))
  have hne : ∀ i < l.level, id ≠ (leftAt path i).1 := by
    intro i hi he
    have hmem := (hleft' i hi).mem
    rw [← he] at hmem
    have hd : (header :: p ++ id :: q).Nodup := h.nodup
    exact (List.nodup_append.mp hd).2.2 id hmem id (by simp) rfl
  refine ⟨hf, h.linked.remove h.nodup hleft' ?_ ?_, ?_, ?_⟩
  · intro i hi
    rw [hl, if_pos hi, if_pos rfl]
  · intro y i hi hy
    rw [hl, if_pos hi, if_neg hy]
  · intro i hi
    rw [hl, if_neg (Nat.not_lt.mpr hi)]
  · rw [hl, if_pos h.level_pos, if_neg (hne 0 h.level_pos)]

/-- List `m` has the nodes of `l`, linked so that they run through `ids` alone. -/
structure Unthreaded (l m : SkipList) (ids : List Nat) : Prop extends SameNodes l m where
  linked : Linked m.link l.height l.level (header :: ids)
  above : ∀ i, l.level ≤ i → m.forward? header i = none
  linkedBack : LinkedBack m.prev? ids
  tail : m.tail = ids.getLast?

/-- A node is passed over by the links, and then by the pointers back. -/
theorem unthreaded_linkBackward (h : l.Represents (p ++ id :: q))
    (hleft : ∀ i < maxLevel, IsLeft l.height p i (leftAt path i).1 (leftAt path i).2) :
    let m := (List.range l.level).foldl (fun l i => l.unthread id (leftAt path i).1 i) l
    Unthreaded l (m.linkBackward (m.next? id) (m.prev? id)) (p ++ q) := by
  obtain ⟨hf, hlinked, habove, hid⟩ := unthreadAll_spec h hleft
  generalize (List.range l.level).foldl (fun l i => l.unthread id (leftAt path i).1 i) l = m at *
  have hnext : m.next? id = q.head? := by
    have hl : l.next? id = q.head? := h.next?_eq
    rw [next?, forward?, hid]
    exact hl
  have hprev : m.prev? id = p.getLast? := by
    rw [hf.prev?_eq]
    exact h.linkedBack p id q rfl
  have hhead : ∀ n, q.head? = some n → (m.node? n).isSome := by
    intro n hn
    rw [hf.isSome_eq, h.isSome_iff]
    simp [List.mem_of_head? hn]
  have hfw : SameForward m (m.linkBackward q.head? p.getLast?) := sameForward_linkBackward _ _
  show Unthreaded l (m.linkBackward (m.next? id) (m.prev? id)) (p ++ q)
  rw [hnext, hprev]
  exact {
    toSameNodes := hf.sameNodes.trans_sameForward hfw
    linked := by
      rw [funext fun y => funext (hfw.link y)]
      exact hlinked
    above := fun i hi => by
      rw [forward?, hfw.link, habove i hi]
      exact h.above i hi
    linkedBack := by
      refine h.linkedBack.remove h.nodup_ids ?_ ?_
      · intro y hy
        rw [prev?_linkBackward hhead, if_pos hy]
      · intro y _ hy
        rw [prev?_linkBackward hhead, if_neg hy, hf.prev?_eq]
    tail := by
      rw [tail_linkBackward, hf.tail, h.tail]
      cases q <;> simp }

/-! ## Giving the slot and levels back -/

/-- The levels given up are such that the header has no link on them. -/
theorem lowerWith_spec (l : SkipList) (n : Nat) :
    1 ≤ l.lowerWith n ∧ l.lowerWith n ≤ max 1 n ∧
      ∀ i, l.lowerWith n ≤ i → i < n → l.forward? header i = none := by
  induction n with
  | zero => exact ⟨Nat.le_refl 1, Nat.le_refl 1, fun i _ hi => absurd hi (Nat.not_lt_zero i)⟩
  | succ n ih =>
    obtain ⟨hpos, hle, hnone⟩ := ih
    rw [lowerWith]
    by_cases hn : n = 0
    · rw [if_pos hn]
      exact ⟨Nat.le_refl 1, Nat.le_max_left _ _, fun i hi hlt => by omega⟩
    · rw [if_neg hn]
      by_cases htop : (l.forward? header n).isNone
      · rw [if_pos htop]
        refine ⟨hpos, by omega, fun i hi hlt => ?_⟩
        rcases Nat.lt_succ_iff_lt_or_eq.mp hlt with hlt | rfl
        · exact hnone i hi hlt
        · exact Option.isNone_iff_eq_none.mp htop
      · rw [if_neg htop]
        exact ⟨by omega, Nat.le_max_right _ _, fun i hi hlt => by omega⟩

/-- No node of the sequence reaches above the levels that are left. A node that did would have a link of
the header lead to it or before it. -/
theorem Unthreaded.lowerWith_spec (h : Unthreaded l m ids) (hheader : l.height header = maxLevel)
    (hle : ∀ y ∈ ids, l.height y ≤ l.level) (hpos : 0 < l.level) (hmax : l.level ≤ maxLevel) :
    0 < m.lowerWith m.level ∧ m.lowerWith m.level ≤ l.level ∧
      (∀ i, m.lowerWith m.level ≤ i → m.forward? header i = none) ∧
      ∀ y ∈ ids, l.height y ≤ m.lowerWith m.level := by
  obtain ⟨hlowpos, hlowle, hlow⟩ := SkipList.lowerWith_spec m m.level
  rw [h.level] at hlowpos hlowle hlow ⊢
  have hbelow : m.lowerWith l.level ≤ l.level :=
    Nat.le_trans hlowle (Nat.max_le.mpr ⟨hpos, Nat.le_refl _⟩)
  have habove : ∀ i, m.lowerWith l.level ≤ i → m.forward? header i = none := by
    intro i hi
    by_cases hil : i < l.level
    · exact hlow i hi hil
    · exact h.above i (Nat.not_lt.mp hil)
  refine ⟨hlowpos, hbelow, habove, fun y hy => ?_⟩
  by_contra hgt
  have hi : m.lowerWith l.level < l.level := Nat.lt_of_lt_of_le (Nat.not_le.mp hgt) (hle y hy)
  have hreach : m.lowerWith l.level < l.height header := by
    rw [hheader]
    exact Nat.lt_of_lt_of_le hi hmax
  have hnone := habove _ (Nat.le_refl _)
  rw [forward?, h.linked [] header ids rfl _ hreach hi] at hnone
  have hsome := forward_linkOver_isSome hy (Nat.not_le.mp hgt)
  rw [hnone] at hsome
  cases hsome

/-- Frees the slot of a node that nothing is linked to, and gives up levels. -/
def release (l : SkipList) (id : Nat) : SkipList :=
  { l with
    slots := l.slots.setIfInBounds id none
    free := id :: l.free
    size := l.size - 1
    level := l.lowerWith l.level }

theorem node?_release : (l.release id).node? y = if y = id then none else l.node? y := by
  simp only [node?, release, Array.getElem?_setIfInBounds, eq_comm (a := y)]
  split
  · split <;> rfl
  · rfl

theorem height_release (hy : y ≠ id) : (l.release id).height y = l.height y := by
  unfold height
  rw [node?_release, if_neg hy]

theorem link_release (hy : y ≠ id) : (l.release id).link y i = l.link y i := by
  unfold link
  rw [node?_release, if_neg hy]

theorem prev?_release (hy : y ≠ id) : (l.release id).prev? y = l.prev? y := by
  unfold prev?
  rw [node?_release, if_neg hy]

theorem element?_release (hy : y ≠ id) : (l.release id).element? y = l.element? y := by
  unfold element?
  rw [node?_release, if_neg hy]

theorem deleteNode_eq (l : SkipList) (id : Nat) (path : List (Nat × Nat)) :
    l.deleteNode id path =
      let m := (List.range l.level).foldl (fun l i => l.unthread id (leftAt path i).1 i) l
      (m.linkBackward (m.next? id) (m.prev? id)).release id := rfl

/-- A node that is passed over leaves its slot. -/
theorem Unthreaded.release_represents (hu : Unthreaded l m (p ++ q))
    (h : l.Represents (p ++ id :: q)) : (m.release id).Represents (p ++ q) := by
  have hall : ∀ y, y ∈ p ++ id :: q ↔ y = id ∨ y ∈ p ++ q := by
    intro y
    simp only [List.mem_append, List.mem_cons]
    exact or_left_comm
  obtain ⟨hid, hnodup⟩ := nodup_splice.mp h.nodup
  have hne : ∀ y ∈ header :: (p ++ q), y ≠ id := fun y hy he => hid (he ▸ hy)
  have hin : id ∈ header :: (p ++ id :: q) := List.mem_cons_of_mem _ ((hall id).mpr (.inl rfl))
  have hsub : ∀ y ∈ p ++ q, y ∈ p ++ id :: q := fun y hy => (hall y).mpr (.inr hy)
  have hheight : ∀ y ∈ header :: (p ++ q), (m.release id).height y = l.height y := by
    intro y hy
    rw [height_release (hne y hy), hu.height]
  obtain ⟨hlevelpos, hlevel, habove, hheights⟩ := hu.lowerWith_spec h.height_header
    (fun y hy => h.height_le y (hsub y hy)) h.level_pos h.level_le
  exact {
    nodup := hnodup
    isSome_iff := fun y => by
      rw [node?_release]
      split
      · next hy => exact iff_of_false Bool.false_ne_true (hy ▸ hid)
      · next hy =>
        rw [hu.isSome, h.isSome_iff, List.mem_cons, List.mem_cons, hall, or_iff_right hy]
    free_nodup := by
      show (id :: m.free).Nodup
      rw [hu.free]
      refine List.nodup_cons.mpr ⟨fun hmem => ?_, h.free_nodup⟩
      have hsome := (h.isSome_iff id).mpr hin
      rw [(h.mem_free id hmem).2] at hsome
      cases hsome
    mem_free := fun y hy => by
      have hsize : (m.release id).slots.size = m.slots.size := Array.size_setIfInBounds
      rw [hsize, node?_release]
      rcases List.mem_cons.mp hy with rfl | hy
      · refine ⟨?_, if_pos rfl⟩
        rw [hu.slots]
        exact h.lt_size hin
      · obtain ⟨hlt, hnone⟩ := hu.mem_free h.mem_free hy
        rw [hnone, ite_self]
        exact ⟨hlt, rfl⟩
    height_header := (hheight header List.mem_cons_self).trans h.height_header
    height_pos := fun y hy => by
      rw [hheight y (List.mem_cons_of_mem _ hy)]
      exact h.height_pos y (hsub y hy)
    height_le := fun y hy => by
      rw [hheight y (List.mem_cons_of_mem _ hy)]
      exact hheights y hy
    level_pos := hlevelpos
    level_le := Nat.le_trans hlevel h.level_le
    linked := fun a x b hab i hx hi => by
      have hmem : ∀ y ∈ x :: b, y ∈ header :: (p ++ q) := fun y hy => by
        rw [hab]
        exact List.mem_append_right a hy
      rw [hheight x (hmem x List.mem_cons_self)] at hx
      rw [link_release (hne x (hmem x List.mem_cons_self)),
        hu.linked a x b hab i hx (Nat.lt_of_lt_of_le hi hlevel)]
      exact (linkOver_congr fun y hy => hheight y (hmem y (List.mem_cons_of_mem x hy))).symm
    above := fun i hi => by
      rw [forward?, link_release (hne header List.mem_cons_self)]
      exact habove i hi
    linkedBack := fun a x b hab => by
      have hx : x ∈ p ++ q := by
        rw [hab]
        exact List.mem_append_right a List.mem_cons_self
      rw [prev?_release (hne x (List.mem_cons_of_mem _ hx))]
      exact hu.linkedBack a x b hab
    tail := hu.tail
    size := by
      show m.size - 1 = _
      rw [hu.size, h.size, List.length_append, List.length_append, List.length_cons]
      rfl }

theorem deleteNode_represents (h : l.Represents (p ++ id :: q))
    (hleft : ∀ i < maxLevel, IsLeft l.height p i (leftAt path i).1 (leftAt path i).2) :
    (l.deleteNode id path).Represents (p ++ q) ∧
      ∀ y ∈ p ++ q, (l.deleteNode id path).element? y = l.element? y := by
  have hu := unthreaded_linkBackward h hleft
  have hid : id ∉ p ++ q := (List.nodup_cons.mp (List.nodup_middle.mp h.nodup_ids)).1
  rw [deleteNode_eq]
  refine ⟨hu.release_represents h, fun y hy => ?_⟩
  have hne : y ≠ id := fun he => hid (he ▸ hy)
  exact (element?_release hne).trans (hu.element? y)

end RespStore.SkipList
