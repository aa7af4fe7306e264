import Mathlib.Data.String.Basic
import RespStore.Collection.SkipList

/-!
# The order of the elements

Elements are ordered by score and, among equal scores, by member. On scores that are numbers this
is a strict order in which two elements are unrelated only if they have the same member and equal
scores.
-/

namespace RespStore

namespace Binary64

variable {x y z : Binary64}

theorem lt_iff (hx : x.isNaN = false) (hy : y.isNaN = false) : x.lt y = true ↔ x.key < y.key := by
  simp [lt, hx, hy]

theorem le_iff (hx : x.isNaN = false) (hy : y.isNaN = false) : x.le y = true ↔ x.key ≤ y.key := by
  simp [le, hx, hy]

theorem equal_iff (hx : x.isNaN = false) (hy : y.isNaN = false) :
    x.equal y = true ↔ x.key = y.key := by
  simp [equal, hx, hy]

theorem natAbs_key (x : Binary64) : x.key.natAbs = x.magnitude := by
  unfold key
  split <;> omega

theorem isNaN_eq_of_key_eq (h : x.key = y.key) : x.isNaN = y.isNaN := by
  rw [isNaN, isNaN, ← natAbs_key, h, natAbs_key]

end Binary64

/-- A member and its score. -/
abbrev Element := String × Binary64

namespace Element

variable {d e f : Element}

/-- Sorts strictly before. -/
def Before (e f : Element) : Prop := e.2.key < f.2.key ∨ (e.2.key = f.2.key ∧ e.1 < f.1)

/-- The score is a number. -/
def Scored (e : Element) : Prop := e.2.isNaN = false

theorem Before.trans (h : Before d e) (k : Before e f) : Before d f := by
  rcases h with h | ⟨h, h'⟩ <;> rcases k with k | ⟨k, k'⟩
  · exact .inl (by omega)
  · exact .inl (by omega)
  · exact .inl (by omega)
  · exact .inr ⟨h.trans k, h'.trans k'⟩

theorem Before.irrefl (e : Element) : ¬Before e e := by
  rintro (h | ⟨-, h⟩)
  · exact absurd h (Int.lt_irrefl _)
  · exact absurd h (lt_irrefl _)

theorem Before.key_le (h : Before e f) : e.2.key ≤ f.2.key := by
  rcases h with h | ⟨h, -⟩ <;> omega

/-- The same member with an equal score. -/
def Matches (e f : Element) : Prop := e.2.key = f.2.key ∧ e.1 = f.1

theorem before_or_matches_or_after (e f : Element) : Before e f ∨ Matches e f ∨ Before f e := by
  rcases Int.lt_trichotomy e.2.key f.2.key with h | h | h
  · exact .inl (.inl h)
  · rcases lt_trichotomy e.1 f.1 with k | k | k
    · exact .inl (.inr ⟨h, k⟩)
    · exact .inr (.inl ⟨h, k⟩)
    · exact .inr (.inr (.inr ⟨h.symm, k⟩))
  · exact .inr (.inr (.inl h))

theorem Matches.not_before (h : Matches e f) : ¬Before e f := by
  rintro (k | ⟨-, k⟩)
  · exact absurd h.1 (by omega)
  · exact absurd k (h.2 ▸ lt_irrefl _)

theorem Matches.scored (h : Matches e f) (hf : f.Scored) : e.Scored :=
  (Binary64.isNaN_eq_of_key_eq h.1).trans hf

theorem Matches.symm (h : Matches e f) : Matches f e := ⟨h.1.symm, h.2.symm⟩

theorem Before.of_matches_left (h : Before e f) (hd : Matches d e) : Before d f := by
  obtain ⟨hk, hm⟩ := hd
  rcases h with h | ⟨h, h'⟩
  · exact .inl (by omega)
  · exact .inr ⟨hk.trans h, hm ▸ h'⟩

theorem Before.of_matches_right (h : Before e f) (hd : Matches f d) : Before e d := by
  obtain ⟨hk, hm⟩ := hd
  rcases h with h | ⟨h, h'⟩
  · exact .inl (by omega)
  · exact .inr ⟨h.trans hk, hm ▸ h'⟩

theorem precedes_iff {n : SkipNode} (hn : Scored n.element) (he : Scored e) :
    n.precedes e.2 e.1 = true ↔ Before n.element e := by
  have h₁ : n.score.isNaN = false := hn
  have h₂ : e.2.isNaN = false := he
  simp [SkipNode.precedes, Before, SkipNode.element, Binary64.lt_iff h₁ h₂,
    Binary64.equal_iff h₁ h₂]

theorem isAt_iff {n : SkipNode} (hn : Scored n.element) (he : Scored e) :
    n.isAt e.2 e.1 = true ↔ Matches n.element e := by
  have h₁ : n.score.isNaN = false := hn
  have h₂ : e.2.isNaN = false := he
  simp [SkipNode.isAt, Matches, SkipNode.element, Binary64.equal_iff h₁ h₂]

/-- A score that is not a number is not found. -/
theorem isAt_of_isNaN (he : e.2.isNaN = true) (n : SkipNode) : n.isAt e.2 e.1 = false := by
  simp [SkipNode.isAt, Binary64.equal, he]

instance (e f : Element) : Decidable (Before e f) := inferInstanceAs (Decidable (_ ∨ _))

instance : DecidablePred Scored := fun e => inferInstanceAs (Decidable (e.2.isNaN = false))

instance (e f : Element) : Decidable (Matches e f) := inferInstanceAs (Decidable (_ ∧ _))

/-! ## Sorted lists -/

/-- Strictly ascending. -/
def Sorted (es : List Element) : Prop := es.Pairwise Before

/-- A condition that whatever sorts before an element satisfies with it cuts a sorted list in two. -/
theorem Sorted.filter_append_filter_not {es : List Element} (h : Sorted es) (p : Element → Bool)
    (hp : ∀ e ∈ es, ∀ f ∈ es, Before e f → p f = true → p e = true) :
    (es.filter p ++ es.filter fun e => !p e) = es := by
  induction es with
  | nil => rfl
  | cons e es ih =>
    obtain ⟨he, hes⟩ := List.pairwise_cons.mp h
    have ih := ih hes fun d hd f hf => hp d (List.mem_cons_of_mem e hd) f (List.mem_cons_of_mem e hf)
    cases hpe : p e with
    | true =>
      rw [List.filter_cons_of_pos hpe, List.filter_cons_of_neg (by simp [hpe]), List.cons_append, ih]
    | false =>
      have hnone : es.filter p = [] := by
        refine List.filter_eq_nil_iff.mpr fun f hf hpf => ?_
        have := hp e List.mem_cons_self f (List.mem_cons_of_mem e hf) (he f hf) hpf
        simp [hpe] at this
      rw [hnone, List.nil_append] at ih
      rw [List.filter_cons_of_neg (by simp [hpe]), hnone, List.nil_append,
        List.filter_cons_of_pos (by simp [hpe]), ih]

theorem Sorted.takeWhile_eq_filter {es : List Element} (h : Sorted es) (p : Element → Bool)
    (hp : ∀ e ∈ es, ∀ f ∈ es, Before e f → p f = true → p e = true) :
    es.takeWhile p = es.filter p := by
  have hstop : (es.filter fun e => !p e).takeWhile p = [] := by
    cases hq : es.filter fun e => !p e with
    | nil => rfl
    | cons e rest =>
      have he := List.of_mem_filter (hq ▸ List.mem_cons_self : e ∈ es.filter fun e => !p e)
      exact List.takeWhile_cons_of_neg (by simpa using he)
  have hcut := h.filter_append_filter_not p hp
  rw [← List.append_nil (es.filter p), ← hstop,
    ← List.takeWhile_append_of_pos fun e he => List.of_mem_filter he, hcut]

/-- A sorted list with an element put in its place. -/
def insertSorted (e : Element) (es : List Element) : List Element :=
  es.filter (fun f => Before f e) ++ e :: es.filter fun f => !decide (Before f e)

/-- A sorted list without the element that has this member and score. -/
def eraseMatch (e : Element) (es : List Element) : List Element :=
  es.filter fun f => !decide (Matches f e)

theorem mem_insertSorted {es : List Element} : f ∈ insertSorted e es ↔ f = e ∨ f ∈ es := by
  simp only [insertSorted, List.mem_append, List.mem_cons, List.mem_filter]
  by_cases h : Before f e <;> simp [h, or_comm]

theorem Sorted.insertSorted {es : List Element} (h : Sorted es)
    (hnew : ∀ f ∈ es, ¬Matches f e) : Sorted (Element.insertSorted e es) := by
  have hafter : ∀ f ∈ es.filter (fun f => !decide (Before f e)), Before e f := by
    intro f hf
    obtain ⟨hf, hb⟩ := List.mem_filter.mp hf
    rcases before_or_matches_or_after f e with hlt | heq | hgt
    · simp [hlt] at hb
    · exact absurd heq (hnew f hf)
    · exact hgt
  refine List.pairwise_append.mpr ⟨h.filter _, List.pairwise_cons.mpr ⟨hafter, h.filter _⟩, ?_⟩
  intro d hd f hf
  have hbefore : Before d e := by simpa using (List.mem_filter.mp hd).2
  rcases List.mem_cons.mp hf with rfl | hf
  · exact hbefore
  · exact hbefore.trans (hafter f hf)

theorem Sorted.eraseMatch {es : List Element} (h : Sorted es) : Sorted (Element.eraseMatch e es) :=
  h.filter _

theorem eraseMatch_eq_self {es : List Element} (h : ∀ f ∈ es, ¬Matches f e) :
    Element.eraseMatch e es = es :=
  List.filter_eq_self.mpr fun f hf => by simp [h f hf]

/-- At most one element of a sorted list has a given member and score. -/
theorem Sorted.eraseMatch_split {a b : List Element} (h : Sorted (a ++ f :: b))
    (hf : Matches f e) : Element.eraseMatch e (a ++ f :: b) = a ++ b := by
  obtain ⟨-, hfb, hab⟩ := List.pairwise_append.mp h
  have hb := (List.pairwise_cons.mp hfb).1
  have ha : ∀ d ∈ a, ¬Matches d e := fun d hd hm =>
    (hm.not_before) ((hab d hd f List.mem_cons_self).of_matches_right hf)
  have hb' : ∀ d ∈ b, ¬Matches d e := fun d hd hm =>
    hm.symm.not_before ((hb d hd).of_matches_left hf.symm)
  rw [Element.eraseMatch, List.filter_append, List.filter_cons_of_neg (by simp [hf])]
  exact congrArg₂ _ (eraseMatch_eq_self ha) (eraseMatch_eq_self hb')

/-- Where a sorted list goes past the place of an element without a match, it has none. -/
theorem Sorted.not_matches {a b : List Element} (h : Sorted (a ++ f :: b))
    (ha : ∀ d ∈ a, Before d e) (hf : ¬Before f e) (hne : ¬Matches f e) :
    ∀ d ∈ a ++ f :: b, ¬Matches d e := by
  intro d hd hm
  rcases List.mem_append.mp hd with hd | hd
  · exact hm.not_before (ha d hd)
  · rcases List.mem_cons.mp hd with rfl | hd
    · exact hne hm
    · have hfd : Before f d := (List.pairwise_cons.mp (List.pairwise_append.mp h).2.1).1 d hd
      exact hf (hfd.of_matches_right hm)

/-- The elements before one of an ascending list. -/
theorem Sorted.filter_before_split {a b : List Element} (h : Sorted (a ++ e :: b)) :
    (a ++ e :: b).filter (fun f => Before f e) = a := by
  obtain ⟨-, heb, hab⟩ := List.pairwise_append.mp h
  have ha : a.filter (fun f => Before f e) = a :=
    List.filter_eq_self.mpr fun f hf => decide_eq_true (hab f hf e List.mem_cons_self)
  have hb : b.filter (fun f => Before f e) = [] := by
    refine List.filter_eq_nil_iff.mpr fun f hf hfe => ?_
    have hef := (List.pairwise_cons.mp heb).1 f hf
    exact Before.irrefl e (hef.trans (of_decide_eq_true hfe))
  rw [List.filter_append, List.filter_cons_of_neg (by simpa using Before.irrefl e), ha, hb,
    List.append_nil]

end Element

end RespStore
