import RespStore.Proofs.Collection.SkipList.Descent

/-!
# Splicing a node in and out

What has to happen to the links when a node comes into the sequence or leaves it: on every level
the link that skips its place changes, and so does the pointer back from the node that follows.
-/

namespace RespStore.SkipList

variable {L L' : Nat → Nat → SkipLink} {B B' : Nat → Option Nat} {H : Nat → Nat} {level : Nat}
  {a b c p q s ids : List Nat} {id x y i r : Nat} {left : Nat → Nat × Nat}

theorem place_in_append (h : s ++ q = a ++ y :: b) :
    (∃ c, s = a ++ y :: c ∧ b = c ++ q) ∨ ∃ d, q = d ++ y :: b ∧ a = s ++ d := by
  rcases List.append_eq_append_iff.mp h with ⟨t, ha, hq⟩ | ⟨t, hs, hb⟩
  · exact .inr ⟨t, hq, ha⟩
  · cases t with
    | nil => exact .inr ⟨[], by simpa using hb.symm, by simpa using hs.symm⟩
    | cons z t =>
      cases hb
      exact .inl ⟨t, hs, rfl⟩

/-- A place in a sequence with a node spliced in is before the node, its own, or behind it. -/
theorem place_in_splice (h : s ++ id :: q = a ++ y :: b) :
    (∃ c, s = a ++ y :: c ∧ b = c ++ id :: q) ∨ (y = id ∧ a = s ∧ b = q) ∨
      ∃ d, q = d ++ y :: b ∧ a = s ++ id :: d := by
  rcases place_in_append h with hs | ⟨d, hq, ha⟩
  · exact .inl hs
  · cases d with
    | nil =>
      cases hq
      exact .inr (.inl ⟨rfl, by simpa using ha, rfl⟩)
    | cons z d =>
      cases hq
      exact .inr (.inr ⟨d, rfl, ha⟩)

theorem nodup_splice : (header :: (p ++ id :: q)).Nodup ↔
    id ∉ header :: (p ++ q) ∧ (header :: (p ++ q)).Nodup := by
  rw [← List.cons_append, List.nodup_middle, List.nodup_cons, List.cons_append]

theorem IsLeft.congr {H' : Nat → Nat} (h : IsLeft H p i x r) (hH : ∀ y ∈ header :: p, H' y = H y) :
    IsLeft H' p i x r := by
  obtain ⟨a, c, hp, hr, hx, hc⟩ := h
  refine ⟨a, c, hp, hr, ?_, ?_⟩
  · rwa [hH x (by rw [hp]; simp)]
  · intro y hy
    rw [hH y (by rw [hp]; simp [hy])]
    exact hc y hy

/-- The link of the node where a level is left skips the rest of the beginning. -/
theorem Linked.at_left (h : Linked L H level (header :: (p ++ q))) (hi : i < level)
    (hx : IsLeft H p i x r) :
    L x i = ⟨(linkOver H i q).forward, (linkOver H i q).span + (p.length - r)⟩ := by
  obtain ⟨a, c, hp, hr, hx, hc⟩ := hx
  have hlen : p.length = a.length + c.length := by
    have := congrArg List.length hp
    simp only [List.length_cons, List.length_append] at this
    omega
  rw [h a x (c ++ q) (by rw [← List.cons_append, hp]; simp) i hx hi, linkOver_append_low hc]
  rw [show p.length - r = c.length by omega]

theorem IsLeft.mem (h : IsLeft H p i x r) : x ∈ header :: p := by
  obtain ⟨a, c, hp, -⟩ := h
  rw [hp]
  simp

/-! ## Spans that are large enough

None of the subtractions that insertion and deletion do on ranks and spans stops at 0. -/

/-- The distance from where a level is left to a node that comes in is a part of the span there. -/
theorem Linked.distance_le_span (h : Linked L H level (header :: (p ++ q))) (hi : i < level)
    (hx : IsLeft H p i x r) : r ≤ p.length ∧ p.length - r ≤ (L x i).span := by
  refine ⟨?_, ?_⟩
  · obtain ⟨a, c, hp, rfl, -⟩ := hx
    have := congrArg List.length hp
    simp only [List.length_cons, List.length_append] at this
    omega
  · rw [h.at_left hi hx]
    exact Nat.le_add_left _ _

/-- Where a level is left in front of a node that goes out, there is a span to take a step from. -/
theorem Linked.span_pos (h : Linked L H level (header :: (p ++ id :: q))) (hi : i < level)
    (hx : IsLeft H p i x r) : 0 < (L x i).span := by
  rw [h.at_left hi hx, linkOver]
  split
  · exact Nat.add_pos_left Nat.one_pos _
  · exact Nat.add_pos_left (Nat.succ_pos _) _

/-! ## Links -/

theorem Linked.insert (hd : (header :: (p ++ q)).Nodup) (hid : id ∉ header :: (p ++ q))
    (h : Linked L H level (header :: (p ++ q)))
    (hleft : ∀ i < level, IsLeft H p i (left i).1 (left i).2)
    (hx : ∀ i < level, L' (left i).1 i =
      if i < H id then ⟨some id, p.length - (left i).2 + 1⟩
      else ⟨(L (left i).1 i).forward, (L (left i).1 i).span + 1⟩)
    (hnew : ∀ i < level, i < H id → L' id i =
      ⟨(L (left i).1 i).forward, (L (left i).1 i).span - (p.length - (left i).2)⟩)
    (hother : ∀ y, ∀ i < level, y ≠ (left i).1 → y ≠ id → L' y i = L y i) :
    Linked L' H level (header :: (p ++ id :: q)) := by
  intro a y b hab i hy hi
  have hdp : (header :: p).Nodup := hd.sublist (by simp)
  have hlink := h.at_left hi (hleft i hi)
  rcases place_in_splice (s := header :: p) hab with ⟨c, hp, rfl⟩ | ⟨rfl, -, rfl⟩ | ⟨d, rfl, -⟩
  · rcases (hleft i hi).cases hdp hp hy with ⟨rfl, hr, hc⟩ | ⟨hne, htall⟩
    · have hlen : p.length - (left i).2 = c.length := by
        have := congrArg List.length hp
        simp only [List.length_cons, List.length_append] at this
        omega
      rw [hx i hi, hlink, linkOver_append_low hc, linkOver, hlen]
      split
      · rw [Nat.add_comm]
      · rw [Nat.add_right_comm]
    · have hyid : y ≠ id := by
        rintro rfl
        apply hid
        rw [← List.cons_append, hp]
        simp
      rw [hother y i hi hne hyid, h a y (c ++ q) (by rw [← List.cons_append, hp]; simp) i hy hi]
      exact linkOver_append_tall htall q (id :: q)
  · rw [hnew i hi hy, hlink, Nat.add_sub_cancel]
  · have hne : y ≠ (left i).1 := by
      intro he
      have hmem := (hleft i hi).mem
      rw [← he] at hmem
      rw [← List.cons_append] at hd
      exact (List.nodup_append.mp hd).2.2 y hmem y (by simp) rfl
    have hyid : y ≠ id := by
      rintro rfl
      exact hid (by simp)
    rw [hother y i hi hne hyid]
    exact h (header :: (p ++ d)) y b (by simp) i hy hi

theorem Linked.remove (hd : (header :: (p ++ id :: q)).Nodup)
    (h : Linked L H level (header :: (p ++ id :: q)))
    (hleft : ∀ i < level, IsLeft H p i (left i).1 (left i).2)
    (hx : ∀ i < level, L' (left i).1 i =
      if (L (left i).1 i).forward = some id then
        ⟨(L id i).forward, (L (left i).1 i).span + (L id i).span - 1⟩
      else ⟨(L (left i).1 i).forward, (L (left i).1 i).span - 1⟩)
    (hother : ∀ y, ∀ i < level, y ≠ (left i).1 → L' y i = L y i) :
    Linked L' H level (header :: (p ++ q)) := by
  intro a y b hab i hy hi
  have hdp : (header :: p).Nodup := hd.sublist (by simp)
  have hidq : id ∉ q := by
    have hsub : (id :: q).Sublist (header :: (p ++ id :: q)) :=
      (List.sublist_append_right p _).trans (List.sublist_cons_self _ _)
    exact (List.nodup_cons.mp (hd.sublist hsub)).1
  have hlink := h.at_left hi (hleft i hi)
  rcases place_in_append (s := header :: p) hab with ⟨c, hp, rfl⟩ | ⟨d, rfl, -⟩
  · have hold := h a y (c ++ id :: q) (by rw [← List.cons_append, hp]; simp) i hy hi
    rcases (hleft i hi).cases hdp hp hy with ⟨rfl, -, hc⟩ | ⟨hne, htall⟩
    · rw [linkOver_append_low hc] at hold
      rw [hx i hi, hold, linkOver_append_low hc]
      by_cases htall : i < H id
      · have hnext := h (header :: p) id q rfl i htall hi
        rw [linkOver_tall htall, if_pos rfl, hnext]
        congr 1
        show 1 + c.length + (linkOver H i q).span - 1 = (linkOver H i q).span + c.length
        omega
      · have hne : (linkOver H i q).forward ≠ some id := fun he => hidq (forward_linkOver he).1
        rw [linkOver, if_neg htall, if_neg hne]
        congr 1
        show (linkOver H i q).span + 1 + c.length - 1 = (linkOver H i q).span + c.length
        omega
    · rw [hother y i hi hne, hold]
      exact linkOver_append_tall htall (id :: q) q
  · have hne : y ≠ (left i).1 := by
      intro he
      have hmem := (hleft i hi).mem
      rw [← he] at hmem
      rw [← List.cons_append] at hd
      exact (List.nodup_append.mp hd).2.2 y hmem y (by simp) rfl
    rw [hother y i hi hne]
    exact h (header :: (p ++ id :: d)) y b (by simp) i hy hi

/-! ## Pointers back -/

theorem LinkedBack.insert (hd : (p ++ q).Nodup) (hid : id ∉ p ++ q) (h : LinkedBack B (p ++ q))
    (hnew : B' id = p.getLast?) (hnext : ∀ y, q.head? = some y → B' y = some id)
    (hother : ∀ y, y ≠ id → q.head? ≠ some y → B' y = B y) : LinkedBack B' (p ++ id :: q) := by
  intro a y b hab
  rcases place_in_splice hab with ⟨c, rfl, rfl⟩ | ⟨rfl, rfl, -⟩ | ⟨d, rfl, rfl⟩
  · have hy : y ≠ id := by
      rintro rfl
      exact hid (by simp)
    have hhead : q.head? ≠ some y := by
      intro he
      exact (List.nodup_append.mp hd).2.2 y (by simp) y (List.mem_of_head? he) rfl
    rw [hother y hy hhead]
    exact h a y (c ++ q) (by simp)
  · exact hnew
  · have hy : y ≠ id := by
      rintro rfl
      exact hid (by simp)
    cases d with
    | nil =>
      rw [hnext y rfl, List.getLast?_concat]
    | cons z d =>
      have hhead : (z :: d ++ y :: b).head? ≠ some y := by
        intro he
        cases he
        exact (List.nodup_cons.mp (List.nodup_append.mp hd).2.1).1 (by simp)
      rw [hother y hy hhead, h (p ++ z :: d) y b (by simp)]
      simp

theorem LinkedBack.remove (hd : (p ++ id :: q).Nodup) (h : LinkedBack B (p ++ id :: q))
    (hnext : ∀ y, q.head? = some y → B' y = p.getLast?)
    (hother : ∀ y, y ≠ id → q.head? ≠ some y → B' y = B y) : LinkedBack B' (p ++ q) := by
  intro a y b hab
  have hdisj := (List.nodup_append.mp hd).2.2
  have hidq := (List.nodup_cons.mp (List.nodup_append.mp hd).2.1)
  rcases place_in_append hab with ⟨c, rfl, rfl⟩ | ⟨d, rfl, rfl⟩
  · have hy : y ≠ id := hdisj y (by simp) id (by simp)
    have hhead : q.head? ≠ some y := by
      intro he
      exact hdisj y (by simp) y (by simp [List.mem_of_head? he]) rfl
    rw [hother y hy hhead]
    exact h a y (c ++ id :: q) (by simp)
  · cases d with
    | nil =>
      rw [hnext y rfl, List.append_nil]
    | cons z d =>
      have hy : y ≠ id := by
        rintro rfl
        exact hidq.1 (by simp)
      have hhead : (z :: d ++ y :: b).head? ≠ some y := by
        intro he
        cases he
        exact (List.nodup_cons.mp hidq.2).1 (by simp)
      rw [hother y hy hhead, h (p ++ id :: z :: d) y b (by simp)]
      simp

end RespStore.SkipList
