import Mathlib.Data.List.Basic
import RespStore.Collection.SkipList

/-!
# Changes to links

Inserting and deleting change links level by level. Such a change leaves the frame as it is, which
is everything but the links, and a pass over all levels comes down to what it does to one.
-/

namespace RespStore.SkipList

variable {l m : SkipList} {id x y i j : Nat}

/-- The number of levels on which a node has links. -/
def height (l : SkipList) (id : Nat) : Nat := ((l.node? id).map (·.links.size)).getD 0

/-- A node without its links. -/
def frame? (l : SkipList) (id : Nat) : Option (String × Binary64 × Option Nat × Nat) :=
  (l.node? id).map fun n => (n.member, n.score, n.backward, n.links.size)

/-- The same list but for the links. -/
structure SameFrame (l m : SkipList) : Prop where
  frame : ∀ id, m.frame? id = l.frame? id
  slots : m.slots.size = l.slots.size
  free : m.free = l.free
  tail : m.tail = l.tail
  size : m.size = l.size
  level : m.level = l.level

namespace SameFrame

theorem rfl : SameFrame l l := ⟨fun _ => Eq.refl _, Eq.refl _, Eq.refl _, Eq.refl _, Eq.refl _, Eq.refl _⟩

theorem trans {k : SkipList} (h : SameFrame k l) (h' : SameFrame l m) : SameFrame k m :=
  ⟨fun id => (h'.frame id).trans (h.frame id), h'.slots.trans h.slots, h'.free.trans h.free,
    h'.tail.trans h.tail, h'.size.trans h.size, h'.level.trans h.level⟩

theorem height_eq (h : SameFrame l m) (id : Nat) : m.height id = l.height id := by
  have := congrArg (Option.map (·.2.2.2)) (h.frame id)
  simp only [frame?, Option.map_map, Function.comp_def] at this
  simp only [height, this]

theorem element?_eq (h : SameFrame l m) (id : Nat) : m.element? id = l.element? id := by
  have := congrArg (Option.map fun f => (f.1, f.2.1)) (h.frame id)
  rw [frame?, frame?, Option.map_map, Option.map_map] at this
  exact this

theorem prev?_eq (h : SameFrame l m) (id : Nat) : m.prev? id = l.prev? id := by
  have := congrArg (Option.bind · (·.2.2.1)) (h.frame id)
  simpa only [frame?, Option.bind_map, Function.comp_def, prev?] using this

theorem isSome_eq (h : SameFrame l m) (id : Nat) : (m.node? id).isSome = (l.node? id).isSome := by
  have := congrArg Option.isSome (h.frame id)
  simpa only [frame?, Option.isSome_map] using this

end SameFrame

/-! ## One node -/

theorem node?_modifyNode (f : SkipNode → SkipNode) :
    (l.modifyNode id f).node? y = if y = id then (l.node? id).map f else l.node? y := by
  simp only [node?, modifyNode, Array.getElem?_modify, eq_comm (a := y)]
  split
  · next h =>
    subst h
    cases l.slots[id]? <;> rfl
  · rfl

theorem frame?_modifyNode (f : SkipNode → SkipNode) :
    (l.modifyNode id f).frame? y =
      if y = id then (l.node? id).map fun n =>
        ((f n).member, (f n).score, (f n).backward, (f n).links.size)
      else l.frame? y := by
  simp only [frame?, node?_modifyNode]
  split
  · rw [Option.map_map]; rfl
  · rfl

theorem link_eq_default (h : l.height id ≤ i) : l.link id i = ⟨none, 0⟩ := by
  unfold link
  unfold height at h
  cases hn : l.node? id with
  | none => rfl
  | some n =>
    have : n.links[i]? = none := Array.getElem?_eq_none (by simpa [hn] using h)
    simp [this]

theorem sameFrame_modifyLink (f : SkipLink → SkipLink) : SameFrame l (l.modifyLink id i f) where
  frame := fun y => by
    rw [modifyLink, frame?_modifyNode]
    split
    · next h => subst h; simp [frame?]
    · rfl
  slots := Array.size_modify
  free := rfl
  tail := rfl
  size := rfl
  level := rfl

theorem link_modifyLink (h : i < l.height id) (f : SkipLink → SkipLink) :
    (l.modifyLink id i f).link y j =
      if y = id ∧ j = i then f (l.link id i) else l.link y j := by
  unfold link
  rw [modifyLink, node?_modifyNode]
  by_cases hy : y = id
  · subst hy
    unfold height at h
    cases hn : l.node? y with
    | none => simp [hn] at h
    | some n =>
      have hi : i < n.links.size := by simpa [hn] using h
      by_cases hj : j = i
      · subst hj
        simp [hi, Array.getElem_modify_self]
      · simp [Array.getElem?_modify, hj, Ne.symm hj]
  · simp [hy]

/-! ## Pointers back -/

/-- The same list but for the pointers back and the tail. -/
structure SameForward (l m : SkipList) : Prop where
  link : ∀ id i, m.link id i = l.link id i
  height : ∀ id, m.height id = l.height id
  element? : ∀ id, m.element? id = l.element? id
  isSome : ∀ id, (m.node? id).isSome = (l.node? id).isSome
  slots : m.slots.size = l.slots.size
  free : m.free = l.free
  size : m.size = l.size
  level : m.level = l.level

theorem SameForward.trans {k : SkipList} (h : SameForward k l) (h' : SameForward l m) :
    SameForward k m where
  link := fun id i => (h'.link id i).trans (h.link id i)
  height := fun id => (h'.height id).trans (h.height id)
  element? := fun id => (h'.element? id).trans (h.element? id)
  isSome := fun id => (h'.isSome id).trans (h.isSome id)
  slots := h'.slots.trans h.slots
  free := h'.free.trans h.free
  size := h'.size.trans h.size
  level := h'.level.trans h.level

/-- The same nodes in the same slots, however they are linked. -/
structure SameNodes (l m : SkipList) : Prop where
  height : ∀ id, m.height id = l.height id
  element? : ∀ id, m.element? id = l.element? id
  isSome : ∀ id, (m.node? id).isSome = (l.node? id).isSome
  slots : m.slots.size = l.slots.size
  free : m.free = l.free
  size : m.size = l.size
  level : m.level = l.level

theorem SameFrame.sameNodes (h : SameFrame l m) : SameNodes l m :=
  ⟨h.height_eq, h.element?_eq, h.isSome_eq, h.slots, h.free, h.size, h.level⟩

theorem SameNodes.trans_sameForward {k : SkipList} (h : SameNodes k l) (h' : SameForward l m) :
    SameNodes k m where
  height := fun id => (h'.height id).trans (h.height id)
  element? := fun id => (h'.element? id).trans (h.element? id)
  isSome := fun id => (h'.isSome id).trans (h.isSome id)
  slots := h'.slots.trans h.slots
  free := h'.free.trans h.free
  size := h'.size.trans h.size
  level := h'.level.trans h.level

/-- A slot that was free is free still. -/
theorem SameNodes.mem_free (h : SameNodes l m) {n : Nat}
    (hl : ∀ y ∈ l.free, y < l.slots.size ∧ l.node? y = none) (hn : n ∈ m.free) :
    n < m.slots.size ∧ m.node? n = none := by
  rw [h.free] at hn
  obtain ⟨hlt, hnone⟩ := hl n hn
  rw [h.slots, ← Option.not_isSome_iff_eq_none, h.isSome, hnone]
  exact ⟨hlt, Bool.false_ne_true⟩

theorem sameForward_modifyNode (prev : Option Nat) :
    SameForward l (l.modifyNode id fun n => { n with backward := prev }) where
  link := fun y i => by
    unfold link
    rw [node?_modifyNode]
    split
    · next h => subst h; cases l.node? y <;> rfl
    · rfl
  height := fun y => by
    unfold height
    rw [node?_modifyNode]
    split
    · next h => subst h; cases l.node? y <;> rfl
    · rfl
  element? := fun y => by
    unfold element?
    rw [node?_modifyNode]
    split
    · next h => subst h; cases l.node? y <;> rfl
    · rfl
  isSome := fun y => by
    rw [node?_modifyNode]
    split
    · next h => subst h; exact Option.isSome_map
    · rfl
  slots := Array.size_modify
  free := rfl
  size := rfl
  level := rfl

theorem prev?_modifyNode (prev : Option Nat) (h : (l.node? id).isSome) :
    (l.modifyNode id fun n => { n with backward := prev }).prev? y =
      if y = id then prev else l.prev? y := by
  unfold prev?
  rw [node?_modifyNode]
  split
  · obtain ⟨n, hn⟩ := Option.isSome_iff_exists.mp h
    rw [hn]
    rfl
  · rfl

theorem sameForward_linkBackward (next prev : Option Nat) :
    SameForward l (l.linkBackward next prev) := by
  cases next with
  | none => exact ⟨fun _ _ => rfl, fun _ => rfl, fun _ => rfl, fun _ => rfl, rfl, rfl, rfl, rfl⟩
  | some n => exact sameForward_modifyNode prev

theorem prev?_linkBackward {next : Option Nat} (h : ∀ n, next = some n → (l.node? n).isSome)
    (prev : Option Nat) :
    (l.linkBackward next prev).prev? y = if next = some y then prev else l.prev? y := by
  cases next with
  | none => rfl
  | some n =>
    rw [linkBackward, prev?_modifyNode prev (h n rfl)]
    simp only [Option.some.injEq, eq_comm]

theorem tail_linkBackward (next prev : Option Nat) :
    (l.linkBackward next prev).tail = if next = none then prev else l.tail := by
  cases next <;> rfl

/-! ## One level -/

theorem sameFrame_thread (distance : Nat) : SameFrame l (l.thread id x i distance) :=
  (sameFrame_modifyLink _).trans (sameFrame_modifyLink _)

theorem link_thread (hx : i < l.height x) (hid : i < l.height id) (distance : Nat) :
    (l.thread id x i distance).link y j =
      if j = i then
        if y = x then ⟨some id, distance + 1⟩
        else if y = id then ⟨(l.link x i).forward, (l.link x i).span - distance⟩
        else l.link y i
      else l.link y j := by
  unfold thread
  rw [link_modifyLink (by rwa [(sameFrame_modifyLink _).height_eq]), link_modifyLink hid]
  by_cases hj : j = i
  · subst hj
    by_cases hy : y = x
    · simp [hy]
    · simp [hy]
  · simp [hj]

theorem sameFrame_unthread : SameFrame l (l.unthread id x i) := by
  unfold unthread
  split <;> exact sameFrame_modifyLink _

theorem link_unthread (hx : i < l.height x) :
    (l.unthread id x i).link y j =
      if j = i then
        if y = x then
          if l.forward? x i = some id then
            ⟨(l.link id i).forward, (l.link x i).span + (l.link id i).span - 1⟩
          else { l.link x i with span := (l.link x i).span - 1 }
        else l.link y i
      else l.link y j := by
  unfold unthread
  by_cases hj : j = i
  · subst hj
    split
    · rw [link_modifyLink hx]; simp
    · rw [link_modifyLink hx]; simp
  · split
    · rw [link_modifyLink hx]; simp [hj]
    · rw [link_modifyLink hx]; simp [hj]

/-! ## All levels -/

/-- A pass that changes the links of one level after the other changes each level as it was at the
start. -/
theorem foldl_levels (step : SkipList → Nat → SkipList)
    (g : Nat → (Nat → SkipLink) → Nat → SkipLink) {n : Nat}
    (hframe : ∀ m i, i < n → SameFrame l m → SameFrame m (step m i))
    (hlink : ∀ m i, i < n → SameFrame l m → ∀ y j,
      (step m i).link y j = if j = i then g i (m.link · i) y else m.link y j) :
    SameFrame l ((List.range n).foldl step l) ∧
      ∀ y j, ((List.range n).foldl step l).link y j =
        if j < n then g j (l.link · j) y else l.link y j := by
  induction n with
  | zero => exact ⟨.rfl, fun y j => (if_neg (Nat.not_lt_zero j)).symm⟩
  | succ n ih =>
    obtain ⟨hf, hl⟩ := ih (fun m i hi => hframe m i (by omega)) fun m i hi => hlink m i (by omega)
    rw [List.range_succ, List.foldl_append, List.foldl_cons, List.foldl_nil]
    refine ⟨hf.trans (hframe _ n (by omega) hf), fun y j => ?_⟩
    rw [hlink _ n (by omega) hf]
    by_cases hj : j = n
    · subst hj
      rw [if_pos rfl, if_pos (by omega)]
      exact congrArg (g j · y) (funext fun z => by rw [hl, if_neg (by omega)])
    · rw [if_neg hj, hl]
      split
      · rw [if_pos (by omega)]
      · rw [if_neg (by omega)]

/-- The same span for the header's link on each of some levels. -/
theorem foldl_spans (is : List Nat) (his : ∀ i ∈ is, i < l.height header) :
    SameFrame l (is.foldl (fun l i => l.modifyLink header i fun k => { k with span := l.size }) l) ∧
      ∀ y j, (is.foldl (fun l i => l.modifyLink header i fun k => { k with span := l.size }) l).link
          y j = if y = header ∧ j ∈ is then { l.link y j with span := l.size } else l.link y j := by
  induction is generalizing l with
  | nil => exact ⟨.rfl, fun y j => by simp⟩
  | cons i is ih =>
    have hi : i < l.height header := his i List.mem_cons_self
    have hs : SameFrame l (l.modifyLink header i fun k => { k with span := l.size }) :=
      sameFrame_modifyLink _
    obtain ⟨hf, hl⟩ := ih (l := l.modifyLink header i fun k => { k with span := l.size })
      fun j hj => by rw [hs.height_eq]; exact his j (List.mem_cons_of_mem i hj)
    refine ⟨hs.trans hf, fun y j => ?_⟩
    rw [List.foldl_cons, hl, link_modifyLink hi, hs.size]
    by_cases hy : y = header
    · subst hy
      by_cases hj : j = i
      · subst hj
        by_cases hm : j ∈ is <;> simp [hm]
      · simp [hj]
    · simp [hy]

end RespStore.SkipList
