import RespStore.Proofs.Collection.SkipList.Represents

/-!
# The shape of a skip list

What can be seen by following links. Every level runs through the nodes that reach above it, a span
is a difference of ranks, the pointers back run through the lowest level in reverse, and no link
leads to a slot that is free.
-/

namespace RespStore.SkipList

variable {l : SkipList} {H : Nat → Nat} {a b ids : List Nat} {x y i : Nat}

/-- The number of steps of the lowest level from the header to a node. -/
def stepsTo (ids : List Nat) (x : Nat) : Nat := (header :: ids).idxOf x

/-- The nodes of `ids`, in this order, are all that the links run through. -/
structure Shape (l : SkipList) (ids : List Nat) : Prop where
  nodup : (header :: ids).Nodup
  /-- The slots in use are those of the header and of the nodes. -/
  isSome_iff : ∀ id, (l.node? id).isSome ↔ id ∈ header :: ids
  free_nodup : l.free.Nodup
  free_unused : ∀ id ∈ l.free, id < l.slots.size ∧ id ∉ header :: ids
  lowest : Runs l.next? l.first? ids
  levels : ∀ i, Runs (l.forward? · i) (l.forward? header i) (ids.filter fun id => i < l.height id)
  height_pos : ∀ id ∈ ids, 0 < l.height id
  height_le : ∀ id ∈ ids, l.height id ≤ l.level
  /-- A link that leads nowhere spans the rest of the list. -/
  span : ∀ x ∈ header :: ids, ∀ i, i < l.height x → i < l.level →
    stepsTo ids x + (l.link x i).span = (l.forward? x i).elim ids.length (stepsTo ids)
  back : Runs l.prev? l.tail ids.reverse
  unused : ∀ i, l.level ≤ i → l.forward? header i = none
  forward_mem : ∀ x i y, l.forward? x i = some y → y ∈ ids
  back_mem : ∀ x y, l.prev? x = some y → x ∈ ids → y ∈ ids

theorem stepsTo_eq (h : (header :: ids).Nodup) (hx : header :: ids = a ++ x :: b) :
    stepsTo ids x = a.length := by
  rw [hx] at h
  have hnotMem : x ∉ a := fun hmem => (List.nodup_append.mp h).2.2 x hmem x List.mem_cons_self rfl
  rw [stepsTo, hx, List.idxOf_append_of_notMem hnotMem, List.idxOf_cons_self, Nat.add_zero]

namespace Represents

/-- From a node on, a level runs through the nodes behind it that reach above the level. -/
theorem runs_forward (h : l.Represents ids) (hi : i < l.level) (hab : header :: ids = a ++ b) :
    Runs (l.forward? · i) (linkOver l.height i b).forward (b.filter fun y => i < l.height y) := by
  induction b generalizing a with
  | nil => rfl
  | cons y b ih =>
    have ih := ih (a := a ++ [y]) (by simpa using hab)
    by_cases hy : i < l.height y
    · rw [linkOver_tall hy, List.filter_cons_of_pos (by simpa using hy)]
      refine ⟨rfl, ?_⟩
      show Runs _ (l.link y i).forward _
      rw [h.linked a y b hab i hy hi]
      exact ih
    · rw [linkOver, if_neg hy, List.filter_cons_of_neg (by simpa using hy)]
      exact ih

theorem runs_level (h : l.Represents ids) (i : Nat) :
    Runs (l.forward? · i) (l.forward? header i) (ids.filter fun id => i < l.height id) := by
  by_cases hi : i < l.level
  · have hheader : i < l.height header := by
      rw [h.height_header]
      exact Nat.lt_of_lt_of_le hi h.level_le
    rw [forward?, h.linked [] header ids rfl i hheader hi]
    exact h.runs_forward (a := [header]) hi rfl
  · have hle := Nat.le_of_not_lt hi
    have hnone : ids.filter (fun id => i < l.height id) = [] :=
      List.filter_eq_nil_iff.mpr fun id hid => by
        have := h.height_le id hid
        simp only [decide_eq_true_iff]
        omega
    rw [hnone]
    exact h.above i hle

theorem stepsTo_add_span (h : l.Represents ids) (hx : x ∈ header :: ids) (hheight : i < l.height x)
    (hi : i < l.level) :
    stepsTo ids x + (l.link x i).span = (l.forward? x i).elim ids.length (stepsTo ids) := by
  obtain ⟨a, b, hab⟩ := List.append_of_mem hx
  have hlength := congrArg List.length hab
  rw [List.length_cons, List.length_append, List.length_cons] at hlength
  rw [forward?, h.linked a x b hab i hheight hi, stepsTo_eq h.nodup hab]
  rcases low_or_split l.height i b with hlow | ⟨c, y, d, rfl, hlow, hy⟩
  · rw [linkOver_low hlow]
    show a.length + b.length = ids.length
    omega
  · rw [linkOver_split hlow hy]
    show a.length + (c.length + 1) = stepsTo ids y
    rw [stepsTo_eq (a := a ++ x :: c) (b := d) h.nodup (by simpa using hab), List.length_append,
      List.length_cons]

theorem forward_mem (h : l.Represents ids) (hy : l.forward? x i = some y) : y ∈ ids := by
  have hheight : i < l.height x := by
    refine Nat.lt_of_not_le fun hle => ?_
    rw [forward?, link_eq_default hle] at hy
    cases hy
  have hx : x ∈ header :: ids := by
    rw [← h.isSome_iff, ← Option.ne_none_iff_isSome]
    intro hnone
    rw [height, hnone] at hheight
    exact Nat.not_lt_zero i hheight
  have hi : i < l.level := by
    refine Nat.lt_of_not_le fun hle => ?_
    rcases List.mem_cons.mp hx with rfl | hx
    · rw [h.above i hle] at hy
      cases hy
    · exact Nat.not_le.mpr hheight (Nat.le_trans (h.height_le x hx) hle)
  obtain ⟨a, b, hab⟩ := List.append_of_mem hx
  rw [forward?, h.linked a x b hab i hheight hi] at hy
  have htail : ids = (a ++ x :: b).tail := by rw [← hab]; rfl
  rw [htail]
  cases a <;> simp [(forward_linkOver hy).1]

theorem back_mem (h : l.Represents ids) (hx : x ∈ ids) (hy : l.prev? x = some y) : y ∈ ids := by
  obtain ⟨a, b, rfl⟩ := List.append_of_mem hx
  rw [h.linkedBack a x b rfl] at hy
  exact List.mem_append_left _ (List.mem_of_getLast? hy)

theorem shape (h : l.Represents ids) : l.Shape ids where
  nodup := h.nodup
  isSome_iff := h.isSome_iff
  free_nodup := h.free_nodup
  free_unused := fun id hid => by
    obtain ⟨hlt, hnone⟩ := h.mem_free id hid
    refine ⟨hlt, fun hmem => ?_⟩
    have hsome := (h.isSome_iff id).mpr hmem
    rw [hnone] at hsome
    cases hsome
  lowest := h.first?_eq ▸ runs_next (a := []) h
  levels := h.runs_level
  height_pos := h.height_pos
  height_le := h.height_le
  span := fun _ hx _ => h.stepsTo_add_span hx
  back := by
    rw [h.tail]
    exact runs_prev (b := []) (by simpa using h)
  unused := h.above
  forward_mem := fun _ _ _ => h.forward_mem
  back_mem := fun _ _ hy hx => h.back_mem hx hy

end Represents

end RespStore.SkipList
