import Mathlib.Data.List.Induction
import Mathlib.Data.List.Nodup
import RespStore.Proofs.Collection.SkipList.Link

/-!
# Skip lists as sequences

A skip list represents the sequence of nodes that its lowest level runs through. Where a link
leads and what it spans is a function of the nodes that follow and of their heights.
-/

namespace RespStore.SkipList

variable {l : SkipList} {H : Nat → Nat} {a b c p q ids : List Nat} {id x y i : Nat}

/-! ## Links over a sequence -/

/-- The link that skips the nodes in front of the first one that reaches above level `i`. -/
def linkOver (H : Nat → Nat) (i : Nat) : List Nat → SkipLink
  | [] => ⟨none, 0⟩
  | y :: rest =>
    if i < H y then ⟨some y, 1⟩
    else ⟨(linkOver H i rest).forward, (linkOver H i rest).span + 1⟩

theorem linkOver_tall (h : i < H y) : linkOver H i (y :: b) = ⟨some y, 1⟩ := if_pos h

theorem linkOver_append_low (h : ∀ y ∈ c, H y ≤ i) :
    linkOver H i (c ++ b) = ⟨(linkOver H i b).forward, (linkOver H i b).span + c.length⟩ := by
  induction c with
  | nil => rfl
  | cons y c ih =>
    have hy : ¬i < H y := Nat.not_lt.mpr (h y List.mem_cons_self)
    rw [List.cons_append, linkOver, if_neg hy, ih fun z hz => h z (List.mem_cons_of_mem y hz)]
    rfl

theorem linkOver_low (h : ∀ y ∈ c, H y ≤ i) : linkOver H i c = ⟨none, c.length⟩ := by
  have := linkOver_append_low (b := []) h
  rwa [List.append_nil, show linkOver H i [] = ⟨none, 0⟩ from rfl, Nat.zero_add] at this

theorem linkOver_split (h : ∀ y ∈ c, H y ≤ i) (hy : i < H y) (b : List Nat) :
    linkOver H i (c ++ y :: b) = ⟨some y, c.length + 1⟩ := by
  rw [linkOver_append_low h, linkOver_tall hy, Nat.add_comm]

/-- Behind a node that reaches above the level, the sequence does not matter. -/
theorem linkOver_append_tall (h : ∃ y ∈ c, i < H y) (b b' : List Nat) :
    linkOver H i (c ++ b) = linkOver H i (c ++ b') := by
  induction c with
  | nil => simp at h
  | cons y c ih =>
    rw [List.cons_append, List.cons_append, linkOver, linkOver]
    split
    · rfl
    · next hy =>
      obtain ⟨z, hz, hi⟩ := h
      rcases List.mem_cons.mp hz with rfl | hz
      · exact absurd hi hy
      · rw [ih ⟨z, hz, hi⟩]

theorem linkOver_congr {H' : Nat → Nat} (h : ∀ y ∈ b, H' y = H y) :
    linkOver H' i b = linkOver H i b := by
  induction b with
  | nil => rfl
  | cons y b ih =>
    rw [linkOver, linkOver, h y List.mem_cons_self, ih fun z hz => h z (List.mem_cons_of_mem y hz)]

theorem forward_linkOver (h : (linkOver H i b).forward = some y) : y ∈ b ∧ i < H y := by
  induction b with
  | nil => cases h
  | cons z b ih =>
    rw [linkOver] at h
    split at h
    · next hz => cases h; exact ⟨List.mem_cons_self, hz⟩
    · exact ⟨List.mem_cons_of_mem z (ih h).1, (ih h).2⟩

/-- On the lowest level nothing is skipped. -/
theorem forward_linkOver_zero (h : ∀ y ∈ b, 0 < H y) : (linkOver H 0 b).forward = b.head? := by
  cases b with
  | nil => rfl
  | cons y b => rw [linkOver_tall (h y List.mem_cons_self)]; rfl

theorem forward_linkOver_isSome (hy : y ∈ b) (h : i < H y) :
    (linkOver H i b).forward.isSome := by
  induction b with
  | nil => cases hy
  | cons z b ih =>
    rw [linkOver]
    split
    · rfl
    · next hz =>
      rcases List.mem_cons.mp hy with rfl | hy
      · exact absurd h hz
      · exact ih hy

/-- Either no node reaches above the level, or there is a first that does. -/
theorem low_or_split (H : Nat → Nat) (i : Nat) (c : List Nat) :
    (∀ y ∈ c, H y ≤ i) ∨ ∃ d y e, c = d ++ y :: e ∧ (∀ y ∈ d, H y ≤ i) ∧ i < H y := by
  induction c with
  | nil => exact .inl fun y hy => by cases hy
  | cons z c ih =>
    by_cases hz : i < H z
    · exact .inr ⟨[], z, c, rfl, List.forall_mem_nil _, hz⟩
    · rcases ih with h | ⟨d, y, e, rfl, hd, hy⟩
      · exact .inl (List.forall_mem_cons.mpr ⟨Nat.not_lt.mp hz, h⟩)
      · exact .inr ⟨z :: d, y, e, rfl, List.forall_mem_cons.mpr ⟨Nat.not_lt.mp hz, hd⟩, hy⟩

/-- In a list without repetitions everything has one place. -/
theorem place_unique {α : Type} {a b a' b' : List α} {x : α} (hd : (a ++ x :: b).Nodup)
    (h : a ++ x :: b = a' ++ x :: b') : a = a' ∧ b = b' := by
  have hx := (List.nodup_cons.mp (List.nodup_middle.mp hd)).1
  obtain ⟨ha, hb⟩ := not_or.mp fun h => hx (List.mem_append.mpr h)
  obtain ⟨h₁, -, h₂⟩ := (List.append_cons_inj_of_notMem ha hb).mp h
  exact ⟨h₁, h₂⟩

/-! ## Walks -/

/-- Stepping on from `start` comes through `ids`, one by one, and ends there. -/
def Runs (step : Nat → Option Nat) : Option Nat → List Nat → Prop
  | start, [] => start = none
  | start, x :: xs => start = some x ∧ Runs step (step x) xs

theorem Runs.walk_eq {step : Nat → Option Nat} {start : Option Nat} (h : Runs step start ids)
    {fuel : Nat} (hfuel : ids.length ≤ fuel) :
    l.walk step fuel start = ids.filterMap l.element? := by
  induction ids generalizing start fuel with
  | nil =>
    obtain rfl : start = none := h
    cases fuel <;> rfl
  | cons x ids ih =>
    obtain ⟨rfl, h⟩ := h
    cases fuel with
    | zero => cases hfuel
    | succ fuel =>
      rw [walk, ih h (Nat.le_of_succ_le_succ hfuel), List.filterMap_cons]
      cases l.element? x <;> rfl

/-! ## Representation -/

/-- The nodes of `ids` have, below `level`, the links that their places in the sequence call for. -/
def Linked (L : Nat → Nat → SkipLink) (H : Nat → Nat) (level : Nat) (ids : List Nat) : Prop :=
  ∀ a x b, ids = a ++ x :: b → ∀ i, i < H x → i < level → L x i = linkOver H i b

/-- The nodes of `ids` point back to the nodes before them. -/
def LinkedBack (B : Nat → Option Nat) (ids : List Nat) : Prop :=
  ∀ a x b, ids = a ++ x :: b → B x = a.getLast?

structure Represents (l : SkipList) (ids : List Nat) : Prop where
  nodup : (header :: ids).Nodup
  isSome_iff : ∀ id, (l.node? id).isSome ↔ id ∈ header :: ids
  free_nodup : l.free.Nodup
  mem_free : ∀ id ∈ l.free, id < l.slots.size ∧ l.node? id = none
  height_header : l.height header = maxLevel
  height_pos : ∀ id ∈ ids, 0 < l.height id
  height_le : ∀ id ∈ ids, l.height id ≤ l.level
  level_pos : 0 < l.level
  level_le : l.level ≤ maxLevel
  linked : Linked l.link l.height l.level (header :: ids)
  /-- The header has a link to nowhere on the levels that are not in use. -/
  above : ∀ i, l.level ≤ i → l.forward? header i = none
  linkedBack : LinkedBack l.prev? ids
  tail : l.tail = ids.getLast?
  size : l.size = ids.length

theorem represents_empty : empty.Represents [] where
  nodup := List.nodup_singleton header
  isSome_iff := fun id => by
    cases id with
    | zero => simp [empty, node?, header]
    | succ id => simp [empty, node?, header]
  free_nodup := List.nodup_nil
  mem_free := fun id hid => by cases hid
  height_header := rfl
  height_pos := fun id hid => by cases hid
  height_le := fun id hid => by cases hid
  level_pos := Nat.one_pos
  level_le := by decide
  linked := fun a x b hab i hi hl => by
    obtain ⟨rfl, rfl, rfl⟩ : a = [] ∧ x = header ∧ b = [] := by
      cases a with
      | nil => cases hab; exact ⟨rfl, rfl, rfl⟩
      | cons _ a => cases a <;> cases hab
    obtain rfl : i = 0 := Nat.lt_one_iff.mp hl
    rfl
  above := fun i _ => by
    by_cases hi : i < maxLevel <;>
      simp [forward?, SkipList.link, node?, empty, header, hi]
  linkedBack := fun a x b hab => by cases a <;> cases hab
  tail := rfl
  size := rfl

namespace Represents

theorem header_notMem (h : l.Represents ids) : header ∉ ids := (List.nodup_cons.mp h.nodup).1

theorem ne_header (h : l.Represents ids) (hid : id ∈ ids) : id ≠ header :=
  fun he => h.header_notMem (he ▸ hid)

theorem nodup_ids (h : l.Represents ids) : ids.Nodup := (List.nodup_cons.mp h.nodup).2

theorem exists_node? (h : l.Represents ids) {id : Nat} (hid : id ∈ header :: ids) : ∃ n, l.node? id = some n :=
  Option.isSome_iff_exists.mp ((h.isSome_iff id).mpr hid)

theorem lt_size (h : l.Represents ids) (hid : id ∈ header :: ids) : id < l.slots.size := by
  by_contra hge
  have hnone : l.slots[id]? = none := Array.getElem?_eq_none (Nat.not_lt.mp hge)
  have hsome := (h.isSome_iff id).mpr hid
  rw [node?, hnone] at hsome
  cases hsome

theorem first?_eq (h : l.Represents ids) : l.first? = ids.head? := by
  have hl := h.linked [] header ids rfl 0 (by rw [h.height_header]; decide) h.level_pos
  rw [first?, forward?, hl, forward_linkOver_zero h.height_pos]

theorem next?_eq (h : l.Represents (a ++ x :: b)) : l.next? x = b.head? := by
  have hx : x ∈ a ++ x :: b := by simp
  have hl := h.linked (header :: a) x b rfl 0 (h.height_pos x hx) h.level_pos
  rw [next?, forward?, hl, forward_linkOver_zero fun y hy => h.height_pos y (by simp [hy])]

theorem exists_element? (h : l.Represents ids) (hid : id ∈ ids) : ∃ e, l.element? id = some e := by
  obtain ⟨n, hn⟩ := h.exists_node? (List.mem_cons_of_mem header hid)
  exact ⟨n.element, by rw [element?, hn]; rfl⟩

theorem filterMap_eq_map (h : l.Represents ids) (hb : ∀ id ∈ b, id ∈ ids) :
    (b.filterMap l.element?).map some = b.map l.element? := by
  induction b with
  | nil => rfl
  | cons x b ih =>
    obtain ⟨e, he⟩ := h.exists_element? (hb x List.mem_cons_self)
    rw [List.filterMap_cons_some he, List.map_cons, List.map_cons,
      ih fun id hid => hb id (List.mem_cons_of_mem x hid), he]

theorem length_filterMap (h : l.Represents ids) (hb : ∀ id ∈ b, id ∈ ids) :
    (b.filterMap l.element?).length = b.length := by
  rw [← List.length_map (f := some), h.filterMap_eq_map hb, List.length_map]

theorem runs_next (h : l.Represents (a ++ b)) : Runs l.next? b.head? b := by
  induction b generalizing a with
  | nil => rfl
  | cons x b ih => exact ⟨rfl, h.next?_eq ▸ ih (a := a ++ [x]) (by simpa using h)⟩

theorem runs_prev (h : l.Represents (a ++ b)) : Runs l.prev? a.getLast? a.reverse := by
  induction a using List.reverseRecOn generalizing b with
  | nil => rfl
  | append_singleton a x ih =>
    rw [List.append_assoc] at h
    rw [List.getLast?_concat, List.reverse_concat]
    exact ⟨rfl, h.linkedBack a x b rfl ▸ ih h⟩

theorem elementsFrom_eq (h : l.Represents (a ++ b)) :
    l.elementsFrom b.head? = b.filterMap l.element? := by
  refine h.runs_next.walk_eq ?_
  rw [h.size, List.length_append]
  exact Nat.le_add_left _ _

theorem elementsBackFrom_eq (h : l.Represents (a ++ b)) :
    l.elementsBackFrom a.getLast? = (a.filterMap l.element?).reverse := by
  rw [← List.filterMap_reverse]
  refine h.runs_prev.walk_eq ?_
  rw [h.size, List.length_append, List.length_reverse]
  exact Nat.le_add_right _ _

theorem toList_eq (h : l.Represents ids) : l.toList = ids.filterMap l.element? := by
  rw [toList, h.first?_eq]
  exact elementsFrom_eq (a := []) h

theorem map_element? (h : l.Represents ids) : ids.map l.element? = l.toList.map some := by
  rw [h.toList_eq, h.filterMap_eq_map fun _ => id]

theorem size_eq_length (h : l.Represents ids) : l.size = l.toList.length := by
  rw [h.size, h.toList_eq, h.length_filterMap fun _ => id]

end Represents

end RespStore.SkipList
