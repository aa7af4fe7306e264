import Mathlib.Data.List.GetD
import RespStore.Proofs.Collection.SkipList.Represents

/-!
# Descents

A descent that goes past a beginning of the sequence and no further leaves each level at the last
node of this beginning that reaches above the level, and arrives there with the rank of that node.
-/

namespace RespStore.SkipList

variable {l : SkipList} {H : Nat → Nat} {ahead : SkipNode → Nat → Bool} {a c d p q : List Nat}
  {x y i r : Nat}

/-- Of the header and the nodes `p`, node `x` of rank `r` is the last to reach above level `i`. -/
def IsLeft (H : Nat → Nat) (p : List Nat) (i x r : Nat) : Prop :=
  ∃ a c, header :: p = a ++ x :: c ∧ r = a.length ∧ i < H x ∧ ∀ y ∈ c, H y ≤ i

/-- A node that reaches above the level is where the level is left, or another one that does
follows. -/
theorem IsLeft.cases (hd : (header :: p).Nodup) (h : IsLeft H p i x r)
    (hp : header :: p = a ++ y :: c) (hy : i < H y) :
    (y = x ∧ r = a.length ∧ ∀ z ∈ c, H z ≤ i) ∨ (y ≠ x ∧ ∃ z ∈ c, i < H z) := by
  obtain ⟨a', c', hp', hr, hx, hc'⟩ := h
  rcases low_or_split H i c with hc | ⟨d, z, e, rfl, -, hz⟩
  · left
    rcases List.append_eq_append_iff.mp (hp.symm.trans hp') with ⟨t, ht, hyx⟩ | ⟨t, ht, hxy⟩
    · cases t with
      | nil =>
        cases hyx
        exact ⟨rfl, by rw [hr, ht, List.append_nil], hc⟩
      | cons _ t =>
        cases hyx
        exact absurd (hc x (by simp)) (Nat.not_le.mpr hx)
    · cases t with
      | nil =>
        cases hxy
        exact ⟨rfl, by rw [hr, ht, List.append_nil], hc⟩
      | cons _ t =>
        cases hxy
        exact absurd (hc' y (by simp)) (Nat.not_le.mpr hy)
  · right
    have hzmem : z ∈ d ++ z :: e := by simp
    refine ⟨?_, z, hzmem, hz⟩
    rintro rfl
    obtain ⟨-, rfl⟩ := place_unique (hp ▸ hd) (hp.symm.trans hp')
    exact absurd (hc' z hzmem) (Nat.not_le.mpr hz)

/-- A descent by `ahead` goes past the nodes `p` and past none of `q`, which follow. -/
structure Splits (l : SkipList) (ahead : SkipNode → Nat → Bool) (p q : List Nat) : Prop where
  past : ∀ a y b n, header :: p = a ++ y :: b → y ≠ header → l.node? y = some n →
    ahead n a.length = true
  stop : ∀ a y b n, q = a ++ y :: b → l.node? y = some n → ahead n (p.length + 1 + a.length) = false

theorem slide_of_forward {fuel rank : Nat} {k : SkipLink} {n : SkipNode} (hk : l.link x i = k)
    (hy : k.forward = some y) (hn : l.node? y = some n) :
    l.slide ahead i (fuel + 1) x rank =
      if ahead n (rank + k.span) then l.slide ahead i fuel y (rank + k.span) else (x, rank) := by
  simp only [slide, forward?, hk, hy, hn]

theorem slide_spec (h : l.Represents (p ++ q)) (hs : Splits l ahead p q) (hi : i < l.level)
    (fuel : Nat) (hp : header :: p = a ++ x :: c) (hx : i < l.height x) (hc : c.length ≤ fuel) :
    IsLeft l.height p i (l.slide ahead i fuel x a.length).1
      (l.slide ahead i fuel x a.length).2 := by
  induction fuel generalizing a x c with
  | zero =>
    obtain rfl := List.length_eq_zero_iff.mp (Nat.le_zero.mp hc)
    exact ⟨a, [], hp, rfl, hx, List.forall_mem_nil _⟩
  | succ fuel ih =>
    have hlink := h.linked a x (c ++ q) (by rw [← List.cons_append, hp]; simp) i hx hi
    have hlen : p.length = a.length + c.length := by
      have := congrArg List.length hp
      simp only [List.length_cons, List.length_append] at this
      omega
    rcases low_or_split l.height i c with hlow | ⟨d, y, e, rfl, hd, hy⟩
    · have hleft : IsLeft l.height p i x a.length := ⟨a, c, hp, rfl, hx, hlow⟩
      rw [linkOver_append_low hlow] at hlink
      rcases low_or_split l.height i q with hq | ⟨d, y, e, rfl, hd, hy⟩
      · have hnone : l.forward? x i = none := by rw [forward?, hlink, linkOver_low hq]
        simpa only [slide, hnone] using hleft
      · rw [linkOver_split hd hy] at hlink
        obtain ⟨n, hn⟩ := h.exists_node? (show y ∈ header :: (p ++ (d ++ y :: e)) by simp)
        have hstop := hs.stop d y e n rfl hn
        rw [slide_of_forward hlink rfl hn, show a.length + (d.length + 1 + c.length) =
          p.length + 1 + d.length by omega, hstop]
        exact hleft
    · rw [List.append_assoc, List.cons_append, linkOver_split hd hy] at hlink
      have hmem : y ∈ header :: (p ++ q) := by
        rw [← List.cons_append, hp]
        simp
      obtain ⟨n, hn⟩ := h.exists_node? hmem
      have hp' : header :: p = (a ++ x :: d) ++ y :: e := by simpa using hp
      have hrank : (a ++ x :: d).length = a.length + (d.length + 1) := by simp
      have hne : y ≠ header := by
        rintro rfl
        cases a with
        | nil =>
          cases hp
          exact h.header_notMem (by simp)
        | cons z a =>
          cases hp
          exact h.header_notMem (by simp)
      have hpast := hs.past _ y e n hp' hne hn
      rw [hrank] at hpast
      have hrec := ih hp' hy (by simp at hc; omega)
      rw [hrank] at hrec
      rw [slide_of_forward hlink rfl hn, if_pos hpast]
      exact hrec

@[simp] theorem length_descend (l : SkipList) (ahead : SkipNode → Nat → Bool) (n x rank : Nat) :
    (l.descend ahead n x rank).length = n := by
  induction n generalizing x rank with
  | zero => rfl
  | succ n ih => rw [descend, List.length_append, ih, List.length_singleton]

theorem length_path (l : SkipList) (ahead : SkipNode → Nat → Bool) :
    (l.path ahead).length = l.level := length_descend ..

theorem descend_spec (h : l.Represents (p ++ q)) (hs : Splits l ahead p q) (n : Nat)
    (hn : n ≤ l.level) (hp : header :: p = a ++ x :: c) (hx : n ≤ l.height x) (hi : i < n) :
    IsLeft l.height p i (leftAt (l.descend ahead n x a.length) i).1
      (leftAt (l.descend ahead n x a.length) i).2 := by
  induction n generalizing a x c with
  | zero => exact absurd hi (Nat.not_lt_zero i)
  | succ n ih =>
    have hlen : c.length ≤ l.size := by
      have := congrArg List.length hp
      simp only [List.length_cons, List.length_append] at this
      rw [h.size, List.length_append]
      omega
    obtain ⟨a', c', hp', hr', hx', hlow⟩ := slide_spec h hs hn l.size hp hx hlen
    have hleft := ih (by omega) hp' (by omega)
    rw [← hr'] at hleft
    rw [leftAt, descend]
    rcases Nat.lt_succ_iff_lt_or_eq.mp hi with hi | rfl
    · rw [List.getD_append _ _ _ _ (by rwa [length_descend])]
      exact hleft hi
    · rw [List.getD_append_right _ _ _ _ (Nat.le_of_eq (length_descend ..)), length_descend, Nat.sub_self]
      exact ⟨a', c', hp', hr', hx', hlow⟩

theorem path_spec (h : l.Represents (p ++ q)) (hs : Splits l ahead p q) (hi : i < maxLevel) :
    IsLeft l.height p i (leftAt (l.path ahead) i).1 (leftAt (l.path ahead) i).2 := by
  by_cases hl : i < l.level
  · exact descend_spec (a := []) h hs l.level (Nat.le_refl _) rfl
      (by rw [h.height_header]; exact h.level_le) hl
  · have hle : l.level ≤ i := Nat.not_lt.mp hl
    have habove : leftAt (l.path ahead) i = (header, 0) :=
      List.getD_eq_default _ _ (by rwa [length_path])
    rw [habove]
    refine ⟨[], p, rfl, rfl, by rwa [h.height_header], fun y hy => ?_⟩
    exact Nat.le_trans (h.height_le y (List.mem_append_left q hy)) hle

theorem last_passed (hp : header :: p = a ++ [x]) :
    (x, a.length) = (p.getLast?.getD header, p.length) := by
  have hlast := congrArg List.getLast? hp
  have hlength := congrArg List.length hp
  rw [List.getLast?_cons, List.getLast?_concat] at hlast
  rw [List.length_cons, List.length_append, List.length_singleton] at hlength
  exact Prod.ext (Option.some.inj hlast).symm (Nat.succ.inj hlength).symm

/-- The lowest level is left at the last of the nodes that a descent goes past. -/
theorem leftAt_zero (h : l.Represents (p ++ q)) (hs : Splits l ahead p q) :
    leftAt (l.path ahead) 0 = (p.getLast?.getD header, p.length) := by
  obtain ⟨a, c, hp, hr, -, hc⟩ := path_spec h hs (i := 0) (by decide)
  have hmem : ∀ y ∈ c, y ∈ p := by
    intro y hy
    have htail : p = (a ++ (leftAt (l.path ahead) 0).1 :: c).tail := by rw [← hp]; rfl
    rw [htail]
    cases a <;> simp [hy]
  obtain rfl : c = [] := by
    refine List.eq_nil_iff_forall_not_mem.mpr fun y hy => ?_
    have hpos := h.height_pos y (List.mem_append_left q (hmem y hy))
    exact absurd (hc y hy) (Nat.not_le.mpr hpos)
  rw [← last_passed hp, ← hr]

theorem next?_leftAt (h : l.Represents (p ++ q)) (hs : Splits l ahead p q) :
    l.next? (leftAt (l.path ahead) 0).1 = q.head? := by
  rw [leftAt_zero h hs]
  cases hp : p.getLast? with
  | none =>
    obtain rfl := List.getLast?_eq_none_iff.mp hp
    exact h.first?_eq
  | some x =>
    obtain ⟨a, rfl⟩ := List.getLast?_eq_some_iff.mp hp
    exact Represents.next?_eq (a := a) (by simpa using h)

/-! ## Searches that may end early -/

theorem findSome?_eq_of_forall {α β : Type} {f : α → Option β} {xs : List α} {x : α} (hx : x ∈ xs)
    (h : ∀ y ∈ xs, y ≠ x → f y = none) : xs.findSome? f = f x := by
  induction xs with
  | nil => cases hx
  | cons y ys ih =>
    obtain ⟨hy, hys⟩ := List.forall_mem_cons.mp h
    rw [List.findSome?_cons]
    by_cases hyx : y = x
    · cases hfx : f x with
      | none =>
        rw [hyx, hfx]
        refine List.findSome?_eq_none_iff.mpr fun z hz => ?_
        by_cases hzx : z = x
        · rw [hzx, hfx]
        · exact hys z hz hzx
      | some b => rw [hyx, hfx]
    · rw [hy hyx]
      exact ih ((List.mem_cons.mp hx).resolve_left (Ne.symm hyx)) hys

theorem exists_of_mem_path (h : l.Represents (p ++ q)) (hs : Splits l ahead p q)
    (hx : (x, r) ∈ l.path ahead) : ∃ a c, header :: p = a ++ x :: c ∧ r = a.length := by
  obtain ⟨i, hi, hget⟩ := List.getElem_of_mem hx
  have hlevel : i < maxLevel := Nat.lt_of_lt_of_le (length_path l ahead ▸ hi) h.level_le
  obtain ⟨a, c, hp, hr, -⟩ := path_spec h hs hlevel
  rw [leftAt, List.getD_eq_getElem _ _ hi, hget] at hp hr
  exact ⟨a, c, hp, hr⟩

/-- A search that finds nothing at a node in front of the last one that a descent goes past may as
well look at that one only. -/
theorem findSome?_path {α : Type} {f : Nat × Nat → Option α} (h : l.Represents (p ++ q))
    (hs : Splits l ahead p q)
    (hf : ∀ a x c, header :: p = a ++ x :: c → c ≠ [] → f (x, a.length) = none) :
    (l.path ahead).reverse.findSome? f = f (p.getLast?.getD header, p.length) := by
  have hpos : 0 < (l.path ahead).length := by
    rw [length_path]
    exact h.level_pos
  have hlast : leftAt (l.path ahead) 0 ∈ l.path ahead := by
    rw [leftAt, List.getD_eq_getElem _ _ hpos]
    exact List.getElem_mem hpos
  rw [leftAt_zero h hs] at hlast
  refine findSome?_eq_of_forall (List.mem_reverse.mpr hlast) fun ⟨x, r⟩ hx hne => ?_
  obtain ⟨a, c, hp, rfl⟩ := exists_of_mem_path h hs (List.mem_reverse.mp hx)
  refine hf a x c hp fun hc => hne ?_
  subst hc
  exact last_passed hp

end RespStore.SkipList
