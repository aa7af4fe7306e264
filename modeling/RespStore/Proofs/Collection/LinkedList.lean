import Mathlib.Data.List.Induction
import Mathlib.Data.List.Nodup
import RespStore.Collection.LinkedList

/-!
# Linked lists as sequences

A linked list represents the sequence of slots that its links run through, forwards and backwards.
The slots in use are those of the sequence, all others are free, and every operation is stated by
what it does to the sequence and to the values in its slots.
-/

namespace RespStore.LinkedList

/-! ## Chains of nodes -/

/-- The nodes of `ids` are linked to each other in this order, to `p` before the first of them and
to `n` after the last. -/
def Chain (N : Nat → Option ListNode) : Option Nat → List Nat → Option Nat → Prop
  | _, [], _ => True
  | p, id :: rest, n =>
    (∃ v, N id = some ⟨v, p, rest.head?.or n⟩) ∧ Chain N (some id) rest n

variable {N M : Nat → Option ListNode} {p q n m : Option Nat} {a b ids : List Nat} {id i : Nat}
  {l : LinkedList} {value : Bytes}

theorem getLast?_cons_or (x : Nat) (a : List Nat) (p : Option Nat) :
    (x :: a).getLast?.or p = a.getLast?.or (some x) := by
  simp [List.getLast?_cons]

theorem chain_append :
    Chain N p (a ++ b) n ↔ Chain N p a (b.head?.or n) ∧ Chain N (a.getLast?.or p) b n := by
  induction a generalizing p with
  | nil => simp [Chain]
  | cons x a ih =>
    rw [List.cons_append, Chain, Chain, ih, getLast?_cons_or, List.head?_append, Option.or_assoc,
      and_assoc]

/-- A chain does not depend on nodes that are not on it. -/
theorem Chain.congr (h : Chain N p ids n) (hN : ∀ i ∈ ids, M i = N i) : Chain M p ids n := by
  induction ids generalizing p with
  | nil => trivial
  | cons x ids ih =>
    obtain ⟨⟨v, hv⟩, hrest⟩ := h
    exact ⟨⟨v, (hN x List.mem_cons_self).trans hv⟩,
      ih hrest fun i hi => hN i (List.mem_cons_of_mem x hi)⟩

theorem Chain.isSome (h : Chain N p ids n) (hi : i ∈ ids) : (N i).isSome := by
  induction ids generalizing p with
  | nil => cases hi
  | cons x ids ih =>
    obtain ⟨⟨v, hv⟩, hrest⟩ := h
    rcases List.mem_cons.mp hi with rfl | hi
    · rw [hv]; rfl
    · exact ih hrest hi

/-- The nodes after `p` has been made to point forward to `n`. -/
def setNext (N : Nat → Option ListNode) (p n : Option Nat) (i : Nat) : Option ListNode :=
  if p = some i then (N i).map fun m => { m with next := n } else N i

/-- The nodes after `n` has been made to point backward to `p`. -/
def setPrev (N : Nat → Option ListNode) (n p : Option Nat) (i : Nat) : Option ListNode :=
  if n = some i then (N i).map fun m => { m with prev := p } else N i

/-- The end of a chain may be linked to another node. -/
theorem Chain.setNext (h : Chain N p a n) (hd : a.Nodup) :
    Chain (setNext N a.getLast? m) p a m := by
  induction a generalizing p with
  | nil => trivial
  | cons x a ih =>
    obtain ⟨⟨v, hv⟩, hrest⟩ := h
    obtain ⟨hx, ha⟩ := List.nodup_cons.mp hd
    cases a with
    | nil => exact ⟨⟨v, by simp [LinkedList.setNext, hv]⟩, trivial⟩
    | cons y a =>
      have hne : (x :: y :: a).getLast? ≠ some x := by
        rw [List.getLast?_cons_cons]
        exact fun h => hx (List.mem_of_getLast? h)
      refine ⟨⟨v, ?_⟩, ?_⟩
      · rw [LinkedList.setNext, if_neg hne, hv]
        rfl
      · rw [List.getLast?_cons_cons]
        exact ih hrest ha

/-- The start of a chain may be linked to another node. -/
theorem Chain.setPrev (h : Chain N p b n) (hd : b.Nodup) :
    Chain (setPrev N b.head? q) q b n := by
  cases b with
  | nil => trivial
  | cons x b =>
    obtain ⟨⟨v, hv⟩, hrest⟩ := h
    refine ⟨⟨v, by simp [LinkedList.setPrev, hv]⟩, hrest.congr fun i hi => ?_⟩
    have hne : (x :: b).head? ≠ some i := by
      rintro h
      cases Option.some.inj h
      exact (List.nodup_cons.mp hd).1 hi
    exact if_neg hne

/-- A neighbour on one side of a sequence without repetitions is not on the other side. -/
theorem head?_ne_of_mem (hd : (a ++ b).Nodup) (hi : i ∈ a) : b.head? ≠ some i :=
  fun h => (List.nodup_append.mp hd).2.2 i hi i (List.mem_of_head? h) rfl

theorem getLast?_ne_of_mem (hd : (a ++ b).Nodup) (hi : i ∈ b) : a.getLast? ≠ some i :=
  fun h => (List.nodup_append.mp hd).2.2 i (List.mem_of_getLast? h) i hi rfl

theorem Chain.insert (h : Chain N none (a ++ b) none) (hd : (a ++ b).Nodup) (hid : id ∉ a ++ b)
    (hM : M id = some ⟨value, a.getLast?, b.head?⟩) (hN : ∀ i, i ≠ id → M i = N i) :
    Chain (LinkedList.setPrev (LinkedList.setNext M a.getLast? (some id)) b.head? (some id)) none
      (a ++ id :: b) none := by
  obtain ⟨ha, hb⟩ := chain_append.mp h
  obtain ⟨hida, hidb⟩ : id ∉ a ∧ id ∉ b := by simpa using hid
  obtain ⟨hda, hdb, -⟩ := List.nodup_append.mp hd
  have hNa : ∀ i ∈ a, M i = N i := fun i hi => hN i fun he => hida (he ▸ hi)
  have hNb : ∀ i ∈ b, M i = N i := fun i hi => hN i fun he => hidb (he ▸ hi)
  refine chain_append.mpr ⟨?_, ⟨value, ?_⟩, ?_⟩
  · exact ((ha.congr hNa).setNext hda).congr fun i hi => if_neg (head?_ne_of_mem hd hi)
  · have h₁ : b.head? ≠ some id := fun h => hidb (List.mem_of_head? h)
    have h₂ : a.getLast? ≠ some id := fun h => hida (List.mem_of_getLast? h)
    simp [LinkedList.setPrev, LinkedList.setNext, h₁, h₂, hM]
  · refine ((hb.congr hNb).congr fun i hi => ?_).setPrev hdb
    exact if_neg (getLast?_ne_of_mem hd hi)

theorem Chain.remove (h : Chain N none (a ++ id :: b) none) (hd : (a ++ id :: b).Nodup)
    (hN : ∀ i, i ≠ id → M i = N i) :
    Chain (LinkedList.setPrev (LinkedList.setNext M a.getLast? b.head?) b.head? a.getLast?) none
      (a ++ b) none := by
  obtain ⟨ha, -, hb⟩ := chain_append.mp h
  obtain ⟨hid, hdab⟩ := List.nodup_cons.mp (List.nodup_middle.mp hd)
  obtain ⟨hida, hidb⟩ : id ∉ a ∧ id ∉ b := by simpa using hid
  obtain ⟨hda, hdb, -⟩ := List.nodup_append.mp hdab
  have hNa : ∀ i ∈ a, M i = N i := fun i hi => hN i fun he => hida (he ▸ hi)
  have hNb : ∀ i ∈ b, M i = N i := fun i hi => hN i fun he => hidb (he ▸ hi)
  rw [chain_append, Option.or_none, Option.or_none]
  constructor
  · exact ((ha.congr hNa).setNext hda).congr fun i hi => if_neg (head?_ne_of_mem hdab hi)
  · refine ((hb.congr hNb).congr fun i hi => ?_).setPrev hdb
    exact if_neg (getLast?_ne_of_mem hdab hi)

/-! ## The nodes after an operation -/

theorem node?_modifyNode (f : ListNode → ListNode) :
    (l.modifyNode id f).node? i = if id = i then (l.node? i).map f else l.node? i := by
  unfold modifyNode node?
  rw [Array.getElem?_modify]
  split
  · cases l.slots[i]? <;> rfl
  · rfl

theorem node?_linkNext : (l.linkNext p n).node? = setNext l.node? p n := by
  funext i
  cases p with
  | none => simp [linkNext, setNext, node?]
  | some p => simp [linkNext, setNext, node?_modifyNode]

theorem node?_linkPrev : (l.linkPrev n p).node? = setPrev l.node? n p := by
  funext i
  cases n with
  | none => simp [linkPrev, setPrev, node?]
  | some n => simp [linkPrev, setPrev, node?_modifyNode]

theorem value_setNext : (setNext N p n i).map (·.value) = (N i).map (·.value) := by
  unfold setNext
  split
  · rw [Option.map_map]; rfl
  · rfl

theorem value_setPrev : (setPrev N n p i).map (·.value) = (N i).map (·.value) := by
  unfold setPrev
  split
  · rw [Option.map_map]; rfl
  · rfl

@[simp] theorem isSome_setNext : (setNext N p n i).isSome = (N i).isSome := by
  unfold setNext
  split <;> simp

@[simp] theorem isSome_setPrev : (setPrev N n p i).isSome = (N i).isSome := by
  unfold setPrev
  split <;> simp

@[simp] theorem size_slots_modifyNode (f : ListNode → ListNode) :
    (l.modifyNode id f).slots.size = l.slots.size := by simp [modifyNode]

@[simp] theorem size_slots_linkNext : (l.linkNext p n).slots.size = l.slots.size := by
  cases p <;> simp [linkNext]

@[simp] theorem size_slots_linkPrev : (l.linkPrev n p).slots.size = l.slots.size := by
  cases n <;> simp [linkPrev]

@[simp] theorem free_linkNext : (l.linkNext p n).free = l.free := by cases p <;> rfl

@[simp] theorem free_linkPrev : (l.linkPrev n p).free = l.free := by cases n <;> rfl

@[simp] theorem size_linkNext : (l.linkNext p n).size = l.size := by cases p <;> rfl

@[simp] theorem size_linkPrev : (l.linkPrev n p).size = l.size := by cases n <;> rfl

@[simp] theorem tail_linkNext : (l.linkNext p n).tail = l.tail := by cases p <;> rfl

@[simp] theorem head_linkPrev : (l.linkPrev n p).head = l.head := by cases n <;> rfl

theorem head_linkNext : (l.linkNext p n).head = if p = none then n else l.head := by
  cases p <;> rfl

theorem tail_linkPrev : (l.linkPrev n p).tail = if n = none then p else l.tail := by
  cases n <;> rfl

/-! ## Representing a sequence of slots -/

/-- The links run through `ids`, and the other slots are free. -/
structure Represents (l : LinkedList) (ids : List Nat) : Prop where
  chain : Chain l.node? none ids none
  nodup : ids.Nodup
  used : ∀ i, (l.node? i).isSome → i ∈ ids
  head : l.head = ids.head?
  tail : l.tail = ids.getLast?
  size : l.size = ids.length
  free_nodup : l.free.Nodup
  mem_free : ∀ i, i ∈ l.free ↔ i < l.slots.size ∧ l.node? i = none

theorem represents_empty : empty.Represents [] where
  chain := trivial
  nodup := List.nodup_nil
  used := fun i h => by simp [node?, empty] at h
  head := rfl
  tail := rfl
  size := rfl
  free_nodup := List.nodup_nil
  mem_free := fun i => by simp [empty]

theorem Represents.mem_iff (h : l.Represents ids) : i ∈ ids ↔ (l.node? i).isSome :=
  ⟨h.chain.isSome, h.used i⟩

theorem Represents.not_mem_iff (h : l.Represents ids) : i ∉ ids ↔ l.node? i = none := by
  rw [h.mem_iff, Option.not_isSome_iff_eq_none]

/-- A node on the way stands between its neighbours. -/
theorem Represents.node? (h : l.Represents (a ++ id :: b)) :
    ∃ v, l.node? id = some ⟨v, a.getLast?, b.head?⟩ := by
  obtain ⟨⟨v, hv⟩, -⟩ := (chain_append.mp h.chain).2
  exact ⟨v, by simpa using hv⟩

theorem lt_size_slots {m : ListNode} (h : l.node? id = some m) : id < l.slots.size := by
  by_contra hge
  simp [LinkedList.node?, Array.getElem?_eq_none (Nat.le_of_not_lt hge)] at h

/-- Every slot is in use or free, and not both. -/
theorem Represents.slots_perm (h : l.Represents ids) :
    (ids ++ l.free).Perm (List.range l.slots.size) := by
  have hdisjoint : ∀ i ∈ ids, ∀ j ∈ l.free, i ≠ j := by
    rintro i hi _ hj rfl
    exact h.not_mem_iff.mpr ((h.mem_free i).mp hj).2 hi
  rw [List.perm_ext_iff_of_nodup
    (List.nodup_append.mpr ⟨h.nodup, h.free_nodup, hdisjoint⟩) List.nodup_range]
  intro i
  rw [List.mem_append, List.mem_range, h.mem_free, h.mem_iff]
  cases hi : l.node? i with
  | none => simp
  | some m =>
    simpa using lt_size_slots hi

theorem Represents.size_slots (h : l.Represents ids) :
    l.slots.size = ids.length + l.free.length := by
  rw [← List.length_append, h.slots_perm.length_eq, List.length_range]

/-! ## Inserting -/

theorem node?_alloc_fst (h : l.Represents ids) (m : ListNode) :
    l.node? (l.alloc m).1 = none := by
  unfold alloc
  cases hf : l.free with
  | nil => simp [LinkedList.node?]
  | cons i free => exact ((h.mem_free i).mp (by rw [hf]; exact List.mem_cons_self)).2

theorem node?_alloc (h : l.Represents ids) (m : ListNode) :
    (l.alloc m).2.node? i = if (l.alloc m).1 = i then some m else l.node? i := by
  unfold alloc
  cases hf : l.free with
  | nil =>
    simp only [LinkedList.node?, Array.getElem?_push, eq_comm]
    split <;> rfl
  | cons j free =>
    have hj := ((h.mem_free j).mp (by rw [hf]; exact List.mem_cons_self)).1
    simp only [LinkedList.node?, Array.getElem?_setIfInBounds]
    split
    · next hi => subst hi; simp
    · rfl

theorem mem_free_alloc (h : l.Represents ids) (m : ListNode) :
    (l.alloc m).2.free.Nodup ∧
      ∀ i, i ∈ (l.alloc m).2.free ↔
        i < (l.alloc m).2.slots.size ∧ (l.alloc m).2.node? i = none := by
  constructor
  · unfold alloc
    have := h.free_nodup
    cases hf : l.free with
    | nil => simp
    | cons j free => exact (List.nodup_cons.mp (hf ▸ this)).2
  · intro i
    rw [node?_alloc h]
    have hmem := h.mem_free i
    unfold alloc
    cases hf : l.free with
    | nil =>
      rw [hf] at hmem
      simp only [List.not_mem_nil, false_iff, Array.size_push] at hmem ⊢
      rintro ⟨hlt, hnone⟩
      split at hnone
      · cases hnone
      · exact hmem ⟨by omega, hnone⟩
    | cons j free =>
      have hj := (List.nodup_cons.mp (hf ▸ h.free_nodup)).1
      rw [hf, List.mem_cons] at hmem
      simp only [Array.size_setIfInBounds]
      constructor
      · intro hi
        have hne : j ≠ i := fun hji => hj (hji ▸ hi)
        rw [if_neg hne]
        exact hmem.mp (.inr hi)
      · rintro ⟨hlt, hnone⟩
        split at hnone
        · cases hnone
        · next hne => exact (hmem.mpr ⟨hlt, hnone⟩).resolve_left (Ne.symm hne)

/-- A value goes in between two neighbours, into a slot that was free. -/
theorem insertBetween_spec (h : l.Represents (a ++ b)) (value : Bytes) :
    (l.insertBetween a.getLast? b.head? value).1 ∉ a ++ b ∧
      (l.insertBetween a.getLast? b.head? value).2.Represents
        (a ++ (l.insertBetween a.getLast? b.head? value).1 :: b) ∧
      ∀ i, (l.insertBetween a.getLast? b.head? value).2.get? i =
        if (l.insertBetween a.getLast? b.head? value).1 = i then some value else l.get? i := by
  generalize hr : l.alloc ⟨value, a.getLast?, b.head?⟩ = r
  obtain ⟨id, l₁⟩ := r
  have hfresh : id ∉ a ++ b := by
    rw [h.not_mem_iff, ← node?_alloc_fst h ⟨value, a.getLast?, b.head?⟩, hr]
  have hnode : ∀ i, l₁.node? i = if id = i then some ⟨value, a.getLast?, b.head?⟩ else l.node? i := by
    intro i
    have := node?_alloc (i := i) h ⟨value, a.getLast?, b.head?⟩
    rwa [hr] at this
  obtain ⟨hfree, hmem⟩ := mem_free_alloc h ⟨value, a.getLast?, b.head?⟩
  rw [hr] at hfree hmem
  have hhead : l₁.head = l.head := by rw [← congrArg (·.2.head) hr]; unfold alloc; split <;> rfl
  have htail : l₁.tail = l.tail := by rw [← congrArg (·.2.tail) hr]; unfold alloc; split <;> rfl
  have hsize : l₁.size = l.size := by rw [← congrArg (·.2.size) hr]; unfold alloc; split <;> rfl
  have heq : l.insertBetween a.getLast? b.head? value =
      (id, { (l₁.linkNext a.getLast? (some id)).linkPrev b.head? (some id) with
        size := l₁.size + 1 }) := by
    simp [insertBetween, hr]
  have hM : ((l₁.linkNext a.getLast? (some id)).linkPrev b.head? (some id)).node? =
      setPrev (setNext l₁.node? a.getLast? (some id)) b.head? (some id) := by
    rw [node?_linkPrev, node?_linkNext]
  simp only [heq]
  refine ⟨hfresh, ⟨?_, ?_, ?_, ?_, ?_, ?_, ?_, ?_⟩, ?_⟩
  · exact hM ▸ h.chain.insert h.nodup hfresh (by rw [hnode, if_pos rfl])
      fun i hi => by rw [hnode, if_neg (Ne.symm hi)]
  · exact List.nodup_middle.mpr (List.nodup_cons.mpr ⟨hfresh, h.nodup⟩)
  · intro i hi
    change (((l₁.linkNext a.getLast? (some id)).linkPrev b.head? (some id)).node? i).isSome at hi
    rw [hM, isSome_setPrev, isSome_setNext, hnode] at hi
    split at hi
    · next he => simp [he]
    · have := h.used i hi
      simp only [List.mem_append, List.mem_cons] at this ⊢
      tauto
  · simp only [head_linkPrev, head_linkNext, hhead, h.head]
    cases a <;> simp
  · simp only [tail_linkPrev, tail_linkNext, htail, h.tail]
    cases b <;> simp
  · simp only [hsize, h.size, List.length_append, List.length_cons]
    omega
  · simpa using hfree
  · intro i
    change _ ↔ _ ∧ ((l₁.linkNext a.getLast? (some id)).linkPrev b.head? (some id)).node? i = none
    rw [hM, ← Option.not_isSome_iff_eq_none, isSome_setPrev, isSome_setNext,
      Option.not_isSome_iff_eq_none]
    simpa using hmem i
  · intro i
    change ((((l₁.linkNext a.getLast? (some id)).linkPrev b.head? (some id)).node? i).map _) = _
    rw [hM, value_setPrev, value_setNext, hnode]
    split <;> rfl

theorem insertBetween_fst : (l.insertBetween p n value).1 = l.free.headD l.slots.size := by
  unfold insertBetween alloc
  cases l.free <;> rfl

theorem free_insertBetween : (l.insertBetween p n value).2.free = l.free.tail := by
  unfold insertBetween alloc
  cases l.free <;> simp

/-! ## Removing -/

theorem remove_of_node?_eq_none (h : l.node? id = none) : l.remove id = (none, l) := by
  rw [remove, h]

theorem free_remove (h : (l.node? id).isSome) : (l.remove id).2.free = id :: l.free := by
  obtain ⟨n, hn⟩ := Option.isSome_iff_exists.mp h
  simp [remove, hn]

/-- A node leaves its neighbours linked to each other, and its slot is free. -/
theorem remove_spec (h : l.Represents (a ++ id :: b)) :
    (l.remove id).1 = l.get? id ∧ (l.remove id).2.Represents (a ++ b) ∧
      ∀ i ≠ id, (l.remove id).2.get? i = l.get? i := by
  obtain ⟨v, hv⟩ := h.node?
  have hlt := lt_size_slots hv
  generalize hr : ({ l with slots := l.slots.setIfInBounds id none } : LinkedList) = l₁
  have hnode : ∀ i, l₁.node? i = if id = i then none else l.node? i := by
    intro i
    rw [← hr]
    simp only [LinkedList.node?, Array.getElem?_setIfInBounds]
    split
    · next hi => subst hi; simp
    · rfl
  have heq : l.remove id = (some v,
      { (l₁.linkNext a.getLast? b.head?).linkPrev b.head? a.getLast? with
        free := id :: l.free, size := l.size - 1 }) := by
    simp [remove, hv, ← hr]
  have hM : ((l₁.linkNext a.getLast? b.head?).linkPrev b.head? a.getLast?).node? =
      setPrev (setNext l₁.node? a.getLast? b.head?) b.head? a.getLast? := by
    rw [node?_linkPrev, node?_linkNext]
  have hslots : l₁.slots.size = l.slots.size := by simp [← hr]
  have hhead : l₁.head = l.head := by rw [← hr]
  have htail : l₁.tail = l.tail := by rw [← hr]
  obtain ⟨hid, hdab⟩ := List.nodup_cons.mp (List.nodup_middle.mp h.nodup)
  simp only [heq]
  refine ⟨by simp [get?, hv], ⟨?_, hdab, ?_, ?_, ?_, ?_, ?_, ?_⟩, ?_⟩
  · exact hM ▸ h.chain.remove h.nodup fun i hi => by rw [hnode, if_neg (Ne.symm hi)]
  · intro i hi
    change (((l₁.linkNext a.getLast? b.head?).linkPrev b.head? a.getLast?).node? i).isSome at hi
    rw [hM, isSome_setPrev, isSome_setNext, hnode] at hi
    split at hi
    · cases hi
    · next hne =>
      have := h.used i hi
      simp only [List.mem_append, List.mem_cons] at this ⊢
      tauto
  · simp only [head_linkPrev, head_linkNext, hhead, h.head]
    cases a <;> simp
  · simp only [tail_linkPrev, tail_linkNext, htail, h.tail]
    cases b <;> simp
  · simp only [h.size, List.length_append, List.length_cons]
    omega
  · refine List.nodup_cons.mpr ⟨fun hmem => ?_, h.free_nodup⟩
    rw [((h.mem_free id).mp hmem).2] at hv
    cases hv
  · intro i
    change _ ↔ _ ∧ ((l₁.linkNext a.getLast? b.head?).linkPrev b.head? a.getLast?).node? i = none
    rw [hM, ← Option.not_isSome_iff_eq_none, isSome_setPrev, isSome_setNext, hnode, List.mem_cons,
      h.mem_free]
    simp only [size_slots_linkPrev, size_slots_linkNext, hslots]
    split
    · next hi => subst hi; simp [hlt]
    · next hi => simp [Ne.symm hi]
  · intro i hi
    change ((((l₁.linkNext a.getLast? b.head?).linkPrev b.head? a.getLast?).node? i).map _) = _
    rw [hM, value_setPrev, value_setNext, hnode, if_neg (Ne.symm hi)]
    rfl

/-! ## Walking -/

@[simp] theorem walk_none (step : Nat → Option Nat) (k : Nat) : walk step k none = [] := by
  cases k <;> rfl

/-- A walk along a chain ends where the chain does. -/
theorem walk_next (h : Chain N p ids none) (hN : ∀ i, l.node? i = N i) (k : Nat) :
    walk l.next? (ids.length + k) ids.head? = ids := by
  induction ids generalizing p with
  | nil => exact walk_none _ _
  | cons x ids ih =>
    obtain ⟨⟨v, hv⟩, hrest⟩ := h
    have hx : l.next? x = ids.head? := by simp [next?, hN, hv]
    rw [List.length_cons, Nat.add_right_comm, List.head?_cons, walk, hx, ih hrest]

theorem walk_prev (h : Chain N none ids n) (hN : ∀ i, l.node? i = N i) (k : Nat) :
    walk l.prev? (ids.length + k) ids.getLast? = ids.reverse := by
  induction ids using List.reverseRecOn generalizing n with
  | nil => exact walk_none _ _
  | append_singleton ids x ih =>
    obtain ⟨hrest, ⟨v, hv⟩, -⟩ := chain_append.mp h
    have hx : l.prev? x = ids.getLast? := by simp [prev?, hN, hv]
    rw [List.length_append, List.length_singleton, Nat.add_right_comm, List.getLast?_concat, walk,
      hx, ih hrest, List.reverse_append]
    rfl

theorem Represents.ids_eq (h : l.Represents ids) : l.ids = ids := by
  rw [LinkedList.ids, h.size, h.head]
  exact walk_next h.chain (fun _ => rfl) 0

theorem Represents.idsRev_eq (h : l.Represents ids) : l.idsRev = ids.reverse := by
  rw [idsRev, h.size, h.tail]
  exact walk_prev h.chain (fun _ => rfl) 0

/-! ## The values in order -/

/-- The links run through some sequence of slots. -/
def WF (l : LinkedList) : Prop := ∃ ids, l.Represents ids

theorem Represents.wf (h : l.Represents ids) : l.WF := ⟨ids, h⟩

theorem Represents.toList_eq (h : l.Represents ids) : l.toList = ids.filterMap l.get? := by
  rw [LinkedList.toList, h.ids_eq]

theorem wf_empty : empty.WF := represents_empty.wf

theorem Represents.exists_get? (h : l.Represents ids) (hi : i ∈ ids) : ∃ v, l.get? i = some v :=
  Option.isSome_iff_exists.mp (by simpa [get?] using h.mem_iff.mp hi)

theorem Represents.toList_eq_map (h : l.Represents ids) :
    l.toList = ids.map fun i => (l.get? i).getD [] := by
  rw [h.toList_eq, ← List.filterMap_eq_map]
  refine List.filterMap_congr fun i hi => ?_
  obtain ⟨v, hv⟩ := h.exists_get? hi
  simp [hv]

theorem Represents.length_eq (h : l.Represents ids) : l.toList.length = ids.length := by
  rw [h.toList_eq_map, List.length_map]

theorem size_eq_length (h : l.WF) : l.size = l.toList.length := by
  obtain ⟨ids, h⟩ := h
  rw [h.length_eq, h.size]

theorem isEmpty_iff (h : l.WF) : l.isEmpty = true ↔ l.toList = [] := by
  rw [isEmpty, size_eq_length h, beq_iff_eq, List.length_eq_zero_iff]

theorem insertBetween_toList (h : l.Represents (a ++ b)) (value : Bytes) :
    (l.insertBetween a.getLast? b.head? value).2.WF ∧
      (l.insertBetween a.getLast? b.head? value).2.toList =
        a.filterMap l.get? ++ value :: b.filterMap l.get? := by
  obtain ⟨hid, hr, hget⟩ := insertBetween_spec h value
  generalize l.insertBetween a.getLast? b.head? value = r at hid hr hget
  obtain ⟨hida, hidb⟩ : r.1 ∉ a ∧ r.1 ∉ b := by simpa using hid
  have hne : ∀ i, r.1 ≠ i → r.2.get? i = l.get? i := fun i hi => by rw [hget, if_neg hi]
  refine ⟨hr.wf, ?_⟩
  rw [hr.toList_eq, List.filterMap_append, List.filterMap_cons_some (by rw [hget, if_pos rfl]),
    List.filterMap_congr fun i hi => hne i fun he => hida (he ▸ hi),
    List.filterMap_congr fun i hi => hne i fun he => hidb (he ▸ hi)]

theorem pushFront_spec (h : l.WF) (value : Bytes) :
    (l.pushFront value).2.WF ∧ (l.pushFront value).2.toList = value :: l.toList := by
  obtain ⟨ids, h⟩ := h
  rw [pushFront, h.head, h.toList_eq]
  exact insertBetween_toList (a := []) h value

theorem pushBack_spec (h : l.WF) (value : Bytes) :
    (l.pushBack value).2.WF ∧ (l.pushBack value).2.toList = l.toList ++ [value] := by
  obtain ⟨ids, h⟩ := h
  rw [pushBack, h.tail, h.toList_eq]
  exact insertBetween_toList (b := []) (by rwa [List.append_nil]) value

/-- A removal leaves the values in front of a slot and behind it. -/
theorem filterMap_remove (h : l.Represents (a ++ id :: b)) :
    a.filterMap (l.remove id).2.get? = a.filterMap l.get? ∧
      b.filterMap (l.remove id).2.get? = b.filterMap l.get? := by
  obtain ⟨-, -, hget⟩ := remove_spec h
  obtain ⟨hida, hidb⟩ : id ∉ a ∧ id ∉ b := by
    simpa using (List.nodup_cons.mp (List.nodup_middle.mp h.nodup)).1
  exact ⟨List.filterMap_congr fun i hi => hget i fun he => hida (he ▸ hi),
    List.filterMap_congr fun i hi => hget i fun he => hidb (he ▸ hi)⟩

/-- The value of a slot on the way, and what the list is without it. -/
theorem remove_toList (h : l.Represents (a ++ id :: b)) :
    ∃ value, (l.remove id).1 = some value ∧ l.get? id = some value ∧ (l.remove id).2.WF ∧
      (l.remove id).2.toList = a.filterMap l.get? ++ b.filterMap l.get? := by
  obtain ⟨hval, hr, -⟩ := remove_spec h
  obtain ⟨value, hv⟩ := h.exists_get? (i := id) (by simp)
  obtain ⟨hfront, hback⟩ := filterMap_remove h
  refine ⟨value, hval.trans hv, hv, hr.wf, ?_⟩
  rw [hr.toList_eq, List.filterMap_append, hfront, hback]

theorem popFront_spec (h : l.WF) :
    l.popFront.1 = l.toList.head? ∧ l.popFront.2.WF ∧ l.popFront.2.toList = l.toList.tail := by
  obtain ⟨ids, h⟩ := h
  unfold popFront
  rw [h.head]
  cases ids with
  | nil =>
    have hnil : l.toList = [] := h.toList_eq
    exact ⟨by rw [hnil]; rfl, h.wf, by rw [hnil]; exact hnil⟩
  | cons id b =>
    obtain ⟨value, hval, hv, hwf, hlist⟩ := remove_toList (a := []) h
    rw [h.toList_eq, List.filterMap_cons_some hv]
    exact ⟨hval, hwf, hlist⟩

theorem popBack_spec (h : l.WF) :
    l.popBack.1 = l.toList.getLast? ∧ l.popBack.2.WF ∧ l.popBack.2.toList = l.toList.dropLast := by
  obtain ⟨ids, h⟩ := h
  unfold popBack
  rw [h.tail]
  cases ids using List.reverseRecOn with
  | nil =>
    have hnil : l.toList = [] := h.toList_eq
    exact ⟨by rw [hnil]; rfl, h.wf, by rw [hnil]; exact hnil⟩
  | append_singleton a id =>
    obtain ⟨value, hval, hv, hwf, hlist⟩ := remove_toList (b := []) h
    rw [List.filterMap_nil, List.append_nil] at hlist
    rw [h.toList_eq, List.getLast?_concat, List.filterMap_append, List.filterMap_cons_some hv,
      List.filterMap_nil, List.getLast?_concat, List.dropLast_concat]
    exact ⟨hval, hwf, hlist⟩

theorem rotate_spec (h : l.WF) :
    l.rotate.WF ∧ l.rotate.toList = l.toList.getLast?.toList ++ l.toList.dropLast := by
  obtain ⟨hval, hwf, hlist⟩ := popBack_spec h
  unfold rotate
  rw [size_eq_length h]
  split
  · next hlen =>
    refine ⟨h, ?_⟩
    match hl : l.toList with
    | [] => rfl
    | [_] => rfl
    | _ :: _ :: _ =>
      rw [hl, List.length_cons, List.length_cons] at hlen
      omega
  · generalize l.popBack = r at hval hwf hlist
    obtain ⟨v, l'⟩ := r
    simp only at hval hwf hlist
    subst hval
    cases hv : l.toList.getLast? with
    | none => exact ⟨hwf, by simpa using hlist⟩
    | some v =>
      obtain ⟨hwf', hlist'⟩ := pushFront_spec hwf v
      exact ⟨hwf', by rw [hlist', hlist]; rfl⟩

theorem head_bind_get? (h : l.WF) : l.head.bind l.get? = l.toList.head? := by
  obtain ⟨ids, h⟩ := h
  rw [h.head, h.toList_eq]
  cases ids with
  | nil => rfl
  | cons id b =>
    obtain ⟨v, hv⟩ := h.exists_get? (i := id) (by simp)
    rw [List.filterMap_cons_some hv]
    exact hv

/-! ## Neighbours -/

/-- A node in use stands between its neighbours in the sequence. -/
theorem Represents.node?_of_getElem? (h : l.Represents ids) {k : Nat}
    (hk : ids[k]? = some id) :
    ∃ v, l.node? id = some ⟨v, (ids.take k).getLast?, ids[k + 1]?⟩ := by
  obtain ⟨hlt, rfl⟩ := List.getElem?_eq_some_iff.mp hk
  have hrep : l.Represents (ids.take k ++ ids[k] :: ids.drop (k + 1)) := by
    rwa [List.getElem_cons_drop, List.take_append_drop]
  obtain ⟨v, hv⟩ := hrep.node?
  exact ⟨v, by rw [hv, List.head?_drop]⟩

theorem Represents.next?_of_getElem? (h : l.Represents ids) {k : Nat}
    (hk : ids[k]? = some id) : l.next? id = ids[k + 1]? := by
  obtain ⟨v, hv⟩ := h.node?_of_getElem? hk
  rw [next?, hv, Option.bind_some]

theorem Represents.prev?_of_getElem? (h : l.Represents ids) {k : Nat}
    (hk : ids[k]? = some id) : l.prev? id = (ids.take k).getLast? := by
  obtain ⟨v, hv⟩ := h.node?_of_getElem? hk
  rw [prev?, hv, Option.bind_some]

theorem Represents.next?_eq_some_iff (h : l.Represents ids) (i j : Nat) :
    l.next? i = some j ↔ ∃ k, ids[k]? = some i ∧ ids[k + 1]? = some j := by
  constructor
  · intro hij
    obtain ⟨m, hm, -⟩ := Option.bind_eq_some_iff.mp hij
    obtain ⟨k, hk⟩ := List.mem_iff_getElem?.mp (h.used i (by rw [hm]; rfl))
    exact ⟨k, hk, (h.next?_of_getElem? hk).symm.trans hij⟩
  · rintro ⟨k, hi, hj⟩
    exact (h.next?_of_getElem? hi).trans hj

theorem Represents.prev?_eq_some_iff (h : l.Represents ids) (i j : Nat) :
    l.prev? j = some i ↔ ∃ k, ids[k]? = some i ∧ ids[k + 1]? = some j := by
  have hlast : ∀ {k : Nat}, ids[k]? = some i → (ids.take (k + 1)).getLast? = some i := by
    intro k hi
    rw [List.take_add_one, hi, Option.toList_some, List.getLast?_concat]
  constructor
  · intro hij
    obtain ⟨m, hm, -⟩ := Option.bind_eq_some_iff.mp hij
    obtain ⟨k, hk⟩ := List.mem_iff_getElem?.mp (h.used j (by rw [hm]; rfl))
    rw [h.prev?_of_getElem? hk] at hij
    cases k with
    | zero => cases hij
    | succ k =>
      obtain ⟨hlt, -⟩ := List.getElem?_eq_some_iff.mp hk
      have hi := List.getElem?_eq_getElem (Nat.lt_of_succ_lt hlt)
      rw [List.take_add_one, hi, Option.toList_some, List.getLast?_concat] at hij
      exact ⟨k, hi.trans hij, hk⟩
  · rintro ⟨k, hi, hj⟩
    exact (h.prev?_of_getElem? hj).trans (hlast hi)

/-! ## Values by position -/

theorem advance_next (h : Chain N p ids none) (hN : ∀ i, l.node? i = N i) (k : Nat) :
    advance l.next? k ids.head? = ids[k]? := by
  induction k generalizing p ids with
  | zero => rw [advance, List.head?_eq_getElem?]
  | succ k ih =>
    cases ids with
    | nil => rfl
    | cons x ids =>
      obtain ⟨⟨v, hv⟩, hrest⟩ := h
      have hx : l.next? x = ids.head? := by simp [next?, hN, hv]
      rw [List.head?_cons, advance, Option.bind_some, hx, ih hrest, List.getElem?_cons_succ]

theorem advance_prev (h : Chain N none ids n) (hN : ∀ i, l.node? i = N i) (k : Nat) :
    advance l.prev? k ids.getLast? = ids.reverse[k]? := by
  induction k generalizing n ids with
  | zero => rw [advance, ← List.head?_eq_getElem?, List.head?_reverse]
  | succ k ih =>
    cases ids using List.reverseRecOn with
    | nil => rfl
    | append_singleton ids x =>
      obtain ⟨hrest, ⟨v, hv⟩, -⟩ := chain_append.mp h
      have hx : l.prev? x = ids.getLast? := by simp [prev?, hN, hv]
      rw [List.getLast?_concat, advance, Option.bind_some, hx, ih hrest, List.reverse_append]
      rfl

/-- A position, counted from the back if it is negative. -/
def position? (size : Nat) (i : Int) : Option Nat :=
  let i := if i < 0 then size + i else i
  if i < 0 ∨ size ≤ i then none else some i.toNat

theorem position?_lt {size k : Nat} {i : Int} (h : position? size i = some k) : k < size := by
  simp only [position?, Option.ite_none_left_eq_some, Option.some.injEq] at h
  omega

theorem Represents.index?_eq (h : l.Represents ids) (i : Int) :
    l.index? i = (position? ids.length i).bind (ids[·]?) := by
  unfold index? position?
  rw [h.size, h.head, h.tail]
  generalize (if i < 0 then (ids.length : Int) + i else i) = j
  dsimp only
  split
  · rfl
  · next hj =>
    rw [Option.bind_some]
    split
    · exact advance_next h.chain (fun _ => rfl) _
    · rw [advance_prev h.chain (fun _ => rfl), List.getElem?_reverse (by omega)]
      congr 1
      omega

theorem index?_bind_get? (h : l.WF) (i : Int) :
    (l.index? i).bind l.get? = (position? l.toList.length i).bind (l.toList[·]?) := by
  obtain ⟨ids, h⟩ := h
  rw [h.index?_eq, h.length_eq, h.toList_eq_map, Option.bind_assoc]
  congr 1
  funext k
  rw [List.getElem?_map]
  cases hk : ids[k]? with
  | none => rfl
  | some id =>
    obtain ⟨v, hv⟩ := h.exists_get? (List.mem_of_getElem? hk)
    simp [hv]

theorem position?_eq_none_of_index? (h : l.WF) {i : Int} (hi : l.index? i = none) :
    position? l.toList.length i = none := by
  have hget := index?_bind_get? h i
  rw [hi] at hget
  cases hp : position? l.toList.length i with
  | none => rfl
  | some k =>
    rw [hp, Option.bind_some, List.getElem?_eq_getElem (position?_lt hp)] at hget
    cases hget

theorem node?_set (id : Nat) (value : Bytes) :
    (l.set id value).2.node? i =
      if id = i then (l.node? i).map fun m => { m with value := value } else l.node? i :=
  node?_modifyNode _

theorem get?_set (id : Nat) (value : Bytes) :
    (l.set id value).2.get? i =
      if id = i then (l.get? i).map fun _ => value else l.get? i := by
  rw [get?, get?, node?_set]
  split
  · rw [Option.map_map, Option.map_map]; rfl
  · rfl

theorem set_of_node?_eq_none (h : l.node? id = none) (value : Bytes) :
    l.set id value = (none, l) := by
  have hslots : l.slots.modify id (Option.map fun m => { m with value := value }) = l.slots := by
    refine Array.ext_getElem? fun i => ?_
    rw [Array.getElem?_modify]
    split
    · next hi =>
      subst hi
      rw [node?] at h
      cases hslot : l.slots[id]? with
      | none => rfl
      | some m =>
        obtain rfl : m = none := by simpa [hslot] using h
        rfl
    · rfl
  have hl : (l.set id value).2 = l := by
    show ({ l with slots := l.slots.modify id _ } : LinkedList) = l
    rw [hslots]
  exact Prod.ext (Option.map_eq_none_iff.mpr h) hl

theorem Chain.of_same_links (h : Chain N p ids n)
    (hN : ∀ i v p n, N i = some ⟨v, p, n⟩ → ∃ w, M i = some ⟨w, p, n⟩) : Chain M p ids n := by
  induction ids generalizing p with
  | nil => trivial
  | cons x ids ih =>
    obtain ⟨⟨v, hv⟩, hrest⟩ := h
    exact ⟨hN x v _ _ hv, ih hrest⟩

theorem set_represents (h : l.Represents ids) (id : Nat) (value : Bytes) :
    (l.set id value).2.Represents ids where
  chain := h.chain.of_same_links fun i v p n hi => by
    rw [node?_set, hi]
    split
    · exact ⟨value, rfl⟩
    · exact ⟨v, rfl⟩
  nodup := h.nodup
  used := fun i hi => by
    rw [node?_set] at hi
    refine h.used i ?_
    split at hi <;> simpa using hi
  head := h.head
  tail := h.tail
  size := h.size
  free_nodup := h.free_nodup
  mem_free := fun i => by
    rw [node?_set]
    have := h.mem_free i
    change i ∈ l.free ↔ i < (l.modifyNode id _).slots.size ∧ _
    rw [size_slots_modifyNode, this]
    split <;> simp

/-- Setting the node at a position sets that position of the sequence. -/
theorem set_spec (h : l.WF) {i : Int} (hi : l.index? i = some id) (value : Bytes) :
    (l.set id value).2.WF ∧ ∃ k, position? l.toList.length i = some k ∧
      (l.set id value).2.toList = l.toList.set k value := by
  obtain ⟨ids, h⟩ := h
  rw [h.index?_eq, Option.bind_eq_some_iff] at hi
  obtain ⟨k, hk, hid⟩ := hi
  refine ⟨(set_represents h id value).wf, k, by rwa [h.length_eq], ?_⟩
  rw [(set_represents h id value).toList_eq_map, h.toList_eq_map]
  refine List.ext_getElem? fun j => ?_
  rw [List.getElem?_map, List.getElem?_set, List.getElem?_map, List.length_map]
  split
  · next hkj =>
    subst hkj
    obtain ⟨v, hv⟩ := h.exists_get? (List.mem_of_getElem? hid)
    have hlt := (List.getElem?_eq_some_iff.mp hid).1
    rw [hid, if_pos hlt]
    simp [get?_set, hv]
  · next hkj =>
    cases hj : ids[j]? with
    | none => rfl
    | some m =>
      have hne : id ≠ m := fun he => hkj (by
        have hlt := (List.getElem?_eq_some_iff.mp hid).1
        exact (List.getElem?_inj hlt h.nodup).mp (by rw [hid, hj, he]))
      simp [get?_set, hne]

/-! ## Finding a value -/

/-- The first node that holds a value splits the sequence where the value is first met. -/
theorem find?_split (h : l.WF) (value : Bytes) :
    (l.find? value = none ∧ value ∉ l.toList) ∨
      ∃ a id b, l.find? value = some id ∧ l.Represents (a ++ id :: b) ∧ l.get? id = some value ∧
        value ∉ a.filterMap l.get? := by
  obtain ⟨ids, h⟩ := h
  rw [find?, h.ids_eq, h.toList_eq]
  have mem_iff : ∀ xs : List Nat, value ∉ xs.filterMap l.get? ↔
      ∀ i ∈ xs, ¬(l.get? i == some value) = true := by
    simp [List.mem_filterMap]
  cases hf : ids.find? fun id => l.get? id == some value with
  | none =>
    left
    exact ⟨rfl, (mem_iff ids).mpr (List.find?_eq_none.mp hf)⟩
  | some id =>
    right
    obtain ⟨hid, a, b, rfl, ha⟩ := List.find?_eq_some_iff_append.mp hf
    exact ⟨a, id, b, rfl, h, by simpa using hid, (mem_iff a).mpr (by simpa using ha)⟩

theorem insertBefore?_spec (h : l.Represents (a ++ id :: b)) {v : Bytes}
    (hv : l.get? id = some v) (value : Bytes) :
    ∃ r, l.insertBefore? id value = some r ∧ r.2.WF ∧
      r.2.toList = a.filterMap l.get? ++ value :: v :: b.filterMap l.get? := by
  obtain ⟨w, hw⟩ := h.node?
  refine ⟨_, by rw [insertBefore?, hw, Option.map_some], ?_⟩
  obtain ⟨hwf, hlist⟩ := insertBetween_toList h value
  exact ⟨hwf, by rw [List.filterMap_cons_some hv] at hlist; exact hlist⟩

theorem insertAfter?_spec (h : l.Represents (a ++ id :: b)) {v : Bytes}
    (hv : l.get? id = some v) (value : Bytes) :
    ∃ r, l.insertAfter? id value = some r ∧ r.2.WF ∧
      r.2.toList = a.filterMap l.get? ++ v :: value :: b.filterMap l.get? := by
  obtain ⟨w, hw⟩ := h.node?
  refine ⟨_, by rw [insertAfter?, hw, Option.map_some], ?_⟩
  have h' : l.Represents ((a ++ [id]) ++ b) := by simpa using h
  obtain ⟨hwf, hlist⟩ := insertBetween_toList h' value
  rw [List.getLast?_concat] at hwf hlist
  exact ⟨hwf, by simpa [List.filterMap_append, List.filterMap_cons_some hv] using hlist⟩

/-! ## Removing occurrences -/

/-- Erases a value from a sequence, at most `limit` times, and counts. -/
def eraseUpTo (value : Bytes) : Nat → List Bytes → Nat × List Bytes
  | 0, xs => (0, xs)
  | _, [] => (0, [])
  | limit + 1, x :: xs =>
    if x = value then ((eraseUpTo value limit xs).1 + 1, (eraseUpTo value limit xs).2)
    else ((eraseUpTo value (limit + 1) xs).1, x :: (eraseUpTo value (limit + 1) xs).2)

@[simp] theorem eraseUpTo_zero (value : Bytes) (xs : List Bytes) :
    eraseUpTo value 0 xs = (0, xs) := by
  cases xs <;> rfl

@[simp] theorem eraseUpTo_nil (value : Bytes) (limit : Nat) :
    eraseUpTo value limit [] = (0, []) := by
  cases limit <;> rfl

theorem removeFrom_forward (value : Bytes) (limit steps : Nat) (h : l.Represents (a ++ b))
    (hsteps : b.length ≤ steps) :
    (removeFrom value false steps limit b.head? l).1 =
        (eraseUpTo value limit (b.filterMap l.get?)).1 ∧
      (removeFrom value false steps limit b.head? l).2.WF ∧
      (removeFrom value false steps limit b.head? l).2.toList =
        a.filterMap l.get? ++ (eraseUpTo value limit (b.filterMap l.get?)).2 := by
  induction b generalizing a l limit steps with
  | nil =>
    have hlist := h.toList_eq
    rw [List.append_nil] at hlist
    cases steps <;> cases limit <;> simpa [removeFrom, hlist] using h.wf
  | cons id b ih =>
    obtain ⟨v, hv⟩ := h.exists_get? (i := id) (by simp)
    obtain ⟨w, hw⟩ := h.node?
    have hnext : l.next? id = b.head? := by simp [next?, hw]
    cases steps with
    | zero => simp at hsteps
    | succ steps =>
      have hsteps : b.length ≤ steps := by simpa using hsteps
      cases limit with
      | zero =>
        rw [eraseUpTo_zero, ← List.filterMap_append, ← h.toList_eq]
        exact ⟨rfl, h.wf, rfl⟩
      | succ limit =>
        rw [List.filterMap_cons_some hv, List.head?_cons]
        by_cases hvv : v = value
        · subst hvv
          obtain ⟨-, hr, -⟩ := remove_spec h
          obtain ⟨hfront, hback⟩ := filterMap_remove h
          obtain ⟨hn, hwf, hlist⟩ := ih limit steps hr hsteps
          rw [hfront, hback] at hlist
          rw [hback] at hn
          simp only [removeFrom, hv, hnext, eraseUpTo, if_true, Bool.false_eq_true, if_false]
          exact ⟨congrArg (· + 1) hn, hwf, hlist⟩
        · have hne : l.get? id ≠ some value := by simpa [hv] using hvv
          have h' : l.Represents ((a ++ [id]) ++ b) := by simpa using h
          obtain ⟨hn, hwf, hlist⟩ := ih (limit + 1) steps h' hsteps
          simp only [removeFrom, hnext, eraseUpTo, if_neg hne, if_neg hvv, Bool.false_eq_true,
            if_false]
          refine ⟨hn, hwf, hlist.trans ?_⟩
          simp [List.filterMap_append, List.filterMap_cons_some hv]

theorem removeFrom_backward (value : Bytes) (limit steps : Nat) (h : l.Represents (a ++ b))
    (hsteps : a.length ≤ steps) :
    (removeFrom value true steps limit a.getLast? l).1 =
        (eraseUpTo value limit (a.filterMap l.get?).reverse).1 ∧
      (removeFrom value true steps limit a.getLast? l).2.WF ∧
      (removeFrom value true steps limit a.getLast? l).2.toList =
        (eraseUpTo value limit (a.filterMap l.get?).reverse).2.reverse ++ b.filterMap l.get? := by
  induction a using List.reverseRecOn generalizing b l limit steps with
  | nil =>
    have hlist := h.toList_eq
    rw [List.nil_append] at hlist
    cases steps <;> cases limit <;> simpa [removeFrom, hlist] using h.wf
  | append_singleton a id ih =>
    rw [List.append_assoc, List.singleton_append] at h
    obtain ⟨v, hv⟩ := h.exists_get? (i := id) (by simp)
    obtain ⟨w, hw⟩ := h.node?
    have hprev : l.prev? id = a.getLast? := by simp [prev?, hw]
    cases steps with
    | zero => simp at hsteps
    | succ steps =>
      have hsteps : a.length ≤ steps := by simpa using hsteps
      cases limit with
      | zero =>
        rw [eraseUpTo_zero, List.reverse_reverse, ← List.filterMap_append, List.append_assoc,
          List.singleton_append, ← h.toList_eq, List.getLast?_concat]
        exact ⟨rfl, h.wf, rfl⟩
      | succ limit =>
        rw [List.filterMap_append, List.filterMap_cons_some hv, List.filterMap_nil,
          List.reverse_concat, List.getLast?_concat]
        by_cases hvv : v = value
        · subst hvv
          obtain ⟨-, hr, -⟩ := remove_spec h
          obtain ⟨hfront, hback⟩ := filterMap_remove h
          obtain ⟨hn, hwf, hlist⟩ := ih limit steps hr hsteps
          rw [hfront, hback] at hlist
          rw [hfront] at hn
          simp only [removeFrom, hv, hprev, eraseUpTo, if_true]
          exact ⟨congrArg (· + 1) hn, hwf, hlist⟩
        · have hne : l.get? id ≠ some value := by simpa [hv] using hvv
          obtain ⟨hn, hwf, hlist⟩ := ih (limit + 1) steps (b := id :: b) h hsteps
          simp only [removeFrom, hprev, eraseUpTo, if_neg hne, if_neg hvv, if_true]
          refine ⟨hn, hwf, hlist.trans ?_⟩
          simp [List.filterMap_cons_some hv]

/-- The first occurrences of a value, or with a negative count the last ones, or with a count of
zero all of them, are erased from a sequence. -/
def eraseValues (xs : List Bytes) (value : Bytes) (count : Int) : Nat × List Bytes :=
  let limit := if count = 0 then xs.length else count.natAbs
  if count < 0 then
    ((eraseUpTo value limit xs.reverse).1, (eraseUpTo value limit xs.reverse).2.reverse)
  else eraseUpTo value limit xs

theorem removeValues_spec (h : l.WF) (value : Bytes) (count : Int) :
    (l.removeValues value count).1 = (eraseValues l.toList value count).1 ∧
      (l.removeValues value count).2.WF ∧
      (l.removeValues value count).2.toList = (eraseValues l.toList value count).2 := by
  have hsize := size_eq_length h
  obtain ⟨ids, h⟩ := h
  unfold removeValues eraseValues
  rw [← hsize]
  generalize (if count = 0 then l.size else count.natAbs) = limit
  dsimp only
  by_cases hc : count < 0
  · have hb := removeFrom_backward (b := []) value limit l.size (by rwa [List.append_nil])
      (Nat.le_of_eq h.size.symm)
    rw [← h.tail, ← h.toList_eq, List.filterMap_nil, List.append_nil] at hb
    simpa [hc] using hb
  · have hf := removeFrom_forward (a := []) value limit l.size h (Nat.le_of_eq h.size.symm)
    rw [← h.head, ← h.toList_eq, List.filterMap_nil, List.nil_append] at hf
    simpa [hc] using hf

end RespStore.LinkedList
