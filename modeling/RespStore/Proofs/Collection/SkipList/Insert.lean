import RespStore.Proofs.Collection.SkipList.Splice

/-!
# Inserting a node

Insertion takes levels into use, puts a node into a free slot, threads it into the lower levels and
mends the pointers back. It splices the node in where the descent for its place stopped.
-/

namespace RespStore.SkipList

variable {l : SkipList} {ahead : SkipNode → Nat → Bool} {p q ids : List Nat} {n : SkipNode}
  {id y i j k : Nat}

/-! ## Taking levels into use -/

theorem sameFrame_raise (h : l.Represents ids) (hk : k ≤ maxLevel) :
    SameFrame { l with level := max l.level k } (l.raise k) ∧
      ∀ y j, (l.raise k).link y j =
        if y = header ∧ l.level ≤ j ∧ j < k then { l.link y j with span := l.size }
        else l.link y j := by
  have hlevels : ∀ i ∈ List.range' l.level (k - l.level), i < l.height header := by
    intro i hi
    rw [h.height_header]
    have := List.mem_range'_1.mp hi
    omega
  obtain ⟨hf, hl⟩ := foldl_spans (l := { l with level := max l.level k }) _ hlevels
  refine ⟨hf, fun y j => (hl y j).trans (if_congr ?_ rfl rfl)⟩
  rw [List.mem_range'_1]
  omega

theorem raise_spec (h : l.Represents ids) (hk : k ≤ maxLevel) : (l.raise k).Represents ids := by
  obtain ⟨hf, hl⟩ := sameFrame_raise h hk
  have hH : (l.raise k).height = l.height := funext hf.height_eq
  have hlevel : (l.raise k).level = max l.level k := hf.level
  exact {
    nodup := h.nodup
    isSome_iff := fun id => by rw [hf.isSome_eq]; exact h.isSome_iff id
    free_nodup := by rw [hf.free]; exact h.free_nodup
    mem_free := fun id => hf.sameNodes.mem_free h.mem_free
    height_header := by rw [hH]; exact h.height_header
    height_pos := fun id hid => by rw [hH]; exact h.height_pos id hid
    height_le := fun id hid => by
      rw [hH, hlevel]
      exact Nat.le_trans (h.height_le id hid) (Nat.le_max_left _ _)
    level_pos := by
      rw [hlevel]
      exact Nat.lt_of_lt_of_le h.level_pos (Nat.le_max_left _ _)
    level_le := by
      rw [hlevel]
      exact Nat.max_le.mpr ⟨h.level_le, hk⟩
    linked := by
      intro a x b hab i hx hi
      rw [hH] at hx ⊢
      rw [hlevel] at hi
      rw [hl]
      by_cases hold : i < l.level
      · rw [if_neg (by omega)]
        exact h.linked a x b hab i hx hold
      · -- above the levels that were in use nothing but the header reaches
        have hlow : ∀ y ∈ ids, l.height y ≤ i := fun y hy =>
          Nat.le_trans (h.height_le y hy) (Nat.not_lt.mp hold)
        have hxh : x = header := by
          have hmem : x ∈ header :: ids := by rw [hab]; simp
          rcases List.mem_cons.mp hmem with hx' | hx'
          · exact hx'
          · exact absurd (hlow x hx') (Nat.not_le.mpr hx)
        subst hxh
        obtain ⟨-, rfl⟩ := place_unique (hab ▸ h.nodup) (hab.symm.trans (List.nil_append _).symm)
        rw [if_pos ⟨rfl, by omega, by omega⟩, linkOver_low hlow, ← h.size]
        have habove := h.above i (by omega)
        exact congrArg (fun f => (⟨f, l.size⟩ : SkipLink)) habove
    above := fun i hi => by
      rw [hlevel] at hi
      rw [forward?, hl, if_neg (by omega)]
      exact h.above i (by omega)
    linkedBack := fun a x b hab => by
      rw [hf.prev?_eq]
      exact h.linkedBack a x b hab
    tail := hf.tail.trans h.tail
    size := hf.size.trans h.size }

/-! ## Putting a node into a slot -/

/-- List `m` is `l` with node `n` in a slot `id` that was free. -/
structure Allocated (l m : SkipList) (id : Nat) (n : SkipNode) : Prop where
  node? : ∀ y, m.node? y = if y = id then some n else l.node? y
  free_nodup : m.free.Nodup
  mem_free : ∀ y ∈ m.free, y < m.slots.size ∧ m.node? y = none
  tail : m.tail = l.tail
  size : m.size = l.size
  level : m.level = l.level

theorem alloc_spec (h : l.Represents ids) (n : SkipNode) :
    (l.alloc n).1 ∉ header :: ids ∧ Allocated l (l.alloc n).2 (l.alloc n).1 n := by
  rw [← h.isSome_iff]
  unfold alloc
  cases hfree : l.free with
  | nil =>
    have hnone : l.node? l.slots.size = none := by simp [node?]
    have hnode : ∀ y, node? { l with slots := l.slots.push (some n) } y =
        if y = l.slots.size then some n else l.node? y := by
      intro y
      simp only [node?, Array.getElem?_push]
      split <;> simp_all
    refine ⟨by simp [hnone], hnode, ?_, ?_, rfl, rfl, rfl⟩
    · exact List.nodup_nil
    · exact List.forall_mem_nil _
  | cons id free =>
    obtain ⟨hlt, hnone⟩ := h.mem_free id (by rw [hfree]; exact List.mem_cons_self)
    have hnodup : (id :: free).Nodup := hfree ▸ h.free_nodup
    have hnode : ∀ y, node? { l with slots := l.slots.setIfInBounds id (some n), free := free } y =
        if y = id then some n else l.node? y := by
      intro y
      simp only [node?, Array.getElem?_setIfInBounds, eq_comm (a := y)]
      split
      · simp
      · rfl
    refine ⟨by simp [hnone], hnode, (List.nodup_cons.mp hnodup).2, ?_, rfl, rfl, rfl⟩
    intro y hy
    obtain ⟨hylt, hynone⟩ := h.mem_free y (by rw [hfree]; exact List.mem_cons_of_mem id hy)
    have hne : y ≠ id := by
      rintro rfl
      exact (List.nodup_cons.mp hnodup).1 hy
    exact ⟨by simpa using hylt, by rw [hnode, if_neg hne, hynone]⟩

namespace Allocated

variable {m : SkipList}

theorem height_eq (h : Allocated l m id n) (y : Nat) :
    m.height y = if y = id then n.links.size else l.height y := by
  unfold height
  rw [h.node?]
  split <;> rfl

theorem link_eq (h : Allocated l m id n) (hy : y ≠ id) (i : Nat) : m.link y i = l.link y i := by
  unfold link
  rw [h.node?, if_neg hy]

theorem prev?_eq (h : Allocated l m id n) (hy : y ≠ id) : m.prev? y = l.prev? y := by
  unfold prev?
  rw [h.node?, if_neg hy]

theorem element?_eq (h : Allocated l m id n) (y : Nat) :
    m.element? y = if y = id then some n.element else l.element? y := by
  unfold element?
  rw [h.node?]
  split <;> rfl

theorem isSome_iff (h : Allocated l m id n) (y : Nat) :
    (m.node? y).isSome ↔ y = id ∨ (l.node? y).isSome := by
  rw [h.node?]
  split
  · next hy => simp [hy]
  · next hy => simp [hy]

end Allocated

/-! ## Threading it in -/

/-- One step of the pass that threads node `id` in, which has `k` levels. -/
def threadAt (left : Nat → Nat × Nat) (id rank k : Nat) (l : SkipList) (i : Nat) : SkipList :=
  if i < k then l.thread id (left i).1 i (rank - (left i).2)
  else l.modifyLink (left i).1 i fun link => { link with span := link.span + 1 }

theorem threadAt_spec {left : Nat → Nat × Nat} (hx : i < l.height (left i).1)
    (hid : l.height id = k) (rank : Nat) :
    SameFrame l (threadAt left id rank k l i) ∧ ∀ y j, (threadAt left id rank k l i).link y j =
      if j = i then
        if y = (left i).1 then
          if i < k then ⟨some id, rank - (left i).2 + 1⟩
          else ⟨(l.link (left i).1 i).forward, (l.link (left i).1 i).span + 1⟩
        else if y = id ∧ i < k then
          ⟨(l.link (left i).1 i).forward, (l.link (left i).1 i).span - (rank - (left i).2)⟩
        else l.link y i
      else l.link y j := by
  unfold threadAt
  by_cases hi : i < k
  · rw [if_pos hi]
    refine ⟨sameFrame_thread _, fun y j => ?_⟩
    rw [link_thread hx (by omega)]
    simp [hi]
  · rw [if_neg hi]
    refine ⟨sameFrame_modifyLink _, fun y j => ?_⟩
    rw [link_modifyLink hx]
    by_cases hj : j = i
    · subst hj
      simp [hi]
    · simp [hj]

theorem threadAll_spec {m : SkipList} {left : Nat → Nat × Nat} (h : l.Represents (p ++ q))
    (hid : id ∉ header :: (p ++ q)) (ha : Allocated l m id n)
    (hleft : ∀ i < maxLevel, IsLeft l.height p i (left i).1 (left i).2) :
    SameFrame m ((List.range m.level).foldl (threadAt left id p.length n.links.size) m) ∧
      Linked ((List.range m.level).foldl (threadAt left id p.length n.links.size) m).link m.height
        l.level (header :: (p ++ id :: q)) ∧
      ∀ y i, l.level ≤ i →
        ((List.range m.level).foldl (threadAt left id p.length n.links.size) m).link y i =
          m.link y i := by
  have hold : ∀ y ∈ header :: (p ++ q), m.height y = l.height y := by
    intro y hy
    rw [ha.height_eq, if_neg]
    rintro rfl
    exact hid hy
  have hleft' : ∀ i < l.level, IsLeft m.height p i (left i).1 (left i).2 := by
    intro i hi
    refine (hleft i (Nat.lt_of_lt_of_le hi h.level_le)).congr fun y hy => hold y ?_
    rw [← List.cons_append]
    exact List.mem_append_left q hy
  have hlt : ∀ i < l.level, i < m.height (left i).1 := by
    intro i hi
    obtain ⟨-, -, -, -, hx, -⟩ := hleft' i hi
    exact hx
  have hnew : m.height id = n.links.size := by rw [ha.height_eq, if_pos rfl]
  rw [ha.level]
  obtain ⟨hf, hl⟩ := foldl_levels (l := m) (n := l.level)
    (threadAt left id p.length n.links.size)
    (fun i L y => if y = (left i).1 then
        if i < n.links.size then ⟨some id, p.length - (left i).2 + 1⟩
        else ⟨(L (left i).1).forward, (L (left i).1).span + 1⟩
      else if y = id ∧ i < n.links.size then
        ⟨(L (left i).1).forward, (L (left i).1).span - (p.length - (left i).2)⟩
      else L y)
    (fun k i hi hk => (threadAt_spec (by rw [hk.height_eq]; exact hlt i hi)
      (by rw [hk.height_eq, hnew]) _).1)
    (fun k i hi hk => (threadAt_spec (by rw [hk.height_eq]; exact hlt i hi)
      (by rw [hk.height_eq, hnew]) _).2)
  have hne : ∀ i < l.level, (left i).1 ≠ id := by
    intro i hi he
    apply hid
    rw [← he, ← List.cons_append]
    exact List.mem_append_left q (hleft' i hi).mem
  have hlinked : Linked m.link m.height l.level (header :: (p ++ q)) := by
    intro a x b hab i hx hi
    have hmem : x ∈ header :: (p ++ q) := by rw [hab]; simp
    have hxid : x ≠ id := fun he => hid (he ▸ hmem)
    rw [hold x hmem] at hx
    rw [ha.link_eq hxid, h.linked a x b hab i hx hi]
    exact (linkOver_congr fun y hy => hold y (by rw [hab]; simp [hy])).symm
  refine ⟨hf, hlinked.insert h.nodup hid hleft' ?_ ?_ ?_, ?_⟩
  · intro i hi
    rw [hl, if_pos hi, if_pos rfl, hnew]
  · intro i hi hk
    rw [hnew] at hk
    rw [hl, if_pos hi, if_neg (hne i hi).symm, if_pos ⟨rfl, hk⟩]
  · intro y i hi hy hyid
    rw [hl, if_pos hi, if_neg hy, if_neg fun he => hyid he.1]
  · intro y i hi
    rw [hl, if_neg (Nat.not_lt.mpr hi)]

/-! ## Inserting -/

/-- Makes `id` the neighbour of the nodes `prev` and next to it. -/
def mendBack (l : SkipList) (id : Nat) (prev : Option Nat) : SkipList :=
  let l := l.modifyNode id fun n => { n with backward := prev }
  l.linkBackward (l.next? id) (some id)

theorem mendBack_spec {m : SkipList} {level : Nat} (hd : (p ++ q).Nodup) (hid : id ∉ p ++ q)
    (hsome : ∀ y ∈ p ++ id :: q, (m.node? y).isSome) (hpos : ∀ y ∈ p ++ id :: q, 0 < m.height y)
    (hlinked : Linked m.link m.height level (header :: (p ++ id :: q))) (hlevel : 0 < level)
    (hback : LinkedBack l.prev? (p ++ q)) (hold : ∀ y, y ≠ id → m.prev? y = l.prev? y)
    (htail : m.tail = (p ++ q).getLast?) :
    SameForward m (m.mendBack id p.getLast?) ∧
      LinkedBack (m.mendBack id p.getLast?).prev? (p ++ id :: q) ∧
      (m.mendBack id p.getLast?).tail = (p ++ id :: q).getLast? := by
  have hf : SameForward m (m.modifyNode id fun n => { n with backward := p.getLast? }) :=
    sameForward_modifyNode _
  have hnext : next? (m.modifyNode id fun n => { n with backward := p.getLast? }) id = q.head? := by
    rw [next?, forward?, hf.link, hlinked (header :: p) id q rfl 0 (hpos id (by simp)) hlevel]
    exact forward_linkOver_zero fun y hy => hpos y (by simp [hy])
  rw [mendBack, hnext]
  have hprev : ∀ y, prev? (m.modifyNode id fun n => { n with backward := p.getLast? }) y =
      if y = id then p.getLast? else m.prev? y :=
    fun y => prev?_modifyNode _ (hsome id (by simp))
  have hhead : ∀ n, q.head? = some n →
      (node? (m.modifyNode id fun n => { n with backward := p.getLast? }) n).isSome := by
    intro n hn
    rw [hf.isSome]
    exact hsome n (by simp [List.mem_of_head? hn])
  refine ⟨hf.trans (sameForward_linkBackward _ _), hback.insert hd hid ?_ ?_ ?_, ?_⟩
  · have hne : q.head? ≠ some id := fun he => hid (by simp [List.mem_of_head? he])
    rw [prev?_linkBackward hhead, if_neg hne, hprev, if_pos rfl]
  · intro y hy
    rw [prev?_linkBackward hhead, if_pos hy]
  · intro y hy hne
    rw [prev?_linkBackward hhead, if_neg hne, hprev, if_neg hy, hold y hy]
  · rw [tail_linkBackward]
    cases q with
    | nil => simp
    | cons y q =>
      rw [if_neg (by simp)]
      show m.tail = _
      rw [htail]
      simp

/-- The last steps of an insertion. -/
def finishInsert (l : SkipList) (id : Nat) (prev : Option Nat) : SkipList :=
  let l := l.mendBack id prev
  { l with size := l.size + 1 }

/-- A node that is in a slot and threaded in is in the sequence once the pointers back are mended. -/
theorem represents_of_threaded {a m : SkipList} (h : l.Represents (p ++ q))
    (hid : id ∉ header :: (p ++ q)) (ha : Allocated l a id n) (hpos : 0 < n.links.size)
    (hle : n.links.size ≤ l.level) (hf : SameFrame a m)
    (hlinked : Linked m.link a.height l.level (header :: (p ++ id :: q)))
    (habove : ∀ y i, l.level ≤ i → m.link y i = a.link y i) :
    (m.finishInsert id p.getLast?).Represents (p ++ id :: q) ∧
      ∀ y, (m.finishInsert id p.getLast?).element? y =
        if y = id then some n.element else l.element? y := by
  obtain ⟨hidh, hidpq⟩ : id ≠ header ∧ id ∉ p ++ q := by simpa using hid
  have hsome : ∀ y, (a.node? y).isSome ↔ y ∈ header :: (p ++ id :: q) := by
    intro y
    rw [ha.isSome_iff, h.isSome_iff]
    simp only [List.mem_cons, List.mem_append]
    tauto
  have hheights : ∀ y ∈ p ++ id :: q, 0 < a.height y ∧ a.height y ≤ l.level := by
    intro y hy
    rw [ha.height_eq]
    split
    · exact ⟨hpos, hle⟩
    · next hne =>
      have hold : y ∈ p ++ q := by simpa [hne] using hy
      exact ⟨h.height_pos y hold, h.height_le y hold⟩
  rw [← funext hf.height_eq] at hlinked
  have hprevs : ∀ y, y ≠ id → m.prev? y = l.prev? y := fun y hy =>
    (hf.prev?_eq y).trans (ha.prev?_eq hy)
  obtain ⟨hfw, hback, htail⟩ := mendBack_spec h.nodup_ids hidpq
    (fun y hy => by rw [hf.isSome_eq]; exact (hsome y).mpr (List.mem_cons_of_mem header hy))
    (fun y hy => by rw [hf.height_eq]; exact (hheights y hy).1) hlinked h.level_pos
    h.linkedBack hprevs (hf.tail.trans (ha.tail.trans h.tail))
  unfold finishInsert
  generalize m.mendBack id p.getLast? = r at hfw hback htail ⊢
  have hnodes : SameNodes a r := hf.sameNodes.trans_sameForward hfw
  have hlevel : r.level = l.level := hnodes.level.trans ha.level
  constructor
  · exact {
      nodup := nodup_splice.mpr ⟨hid, h.nodup⟩
      isSome_iff := fun y => by
        show (r.node? y).isSome ↔ _
        rw [hnodes.isSome]
        exact hsome y
      free_nodup := by
        show r.free.Nodup
        rw [hnodes.free]
        exact ha.free_nodup
      mem_free := fun y => hnodes.mem_free ha.mem_free
      height_header := by
        show r.height header = maxLevel
        rw [hnodes.height, ha.height_eq, if_neg hidh.symm]
        exact h.height_header
      height_pos := fun y hy => by
        show 0 < r.height y
        rw [hnodes.height]
        exact (hheights y hy).1
      height_le := fun y hy => by
        show r.height y ≤ r.level
        rw [hnodes.height, hlevel]
        exact (hheights y hy).2
      level_pos := by
        show 0 < r.level
        rw [hlevel]
        exact h.level_pos
      level_le := by
        show r.level ≤ maxLevel
        rw [hlevel]
        exact h.level_le
      linked := by
        show Linked r.link r.height r.level _
        rw [hlevel, funext hfw.height, funext fun y => funext (hfw.link y)]
        exact hlinked
      above := fun i hi => by
        show r.forward? header i = none
        replace hi : l.level ≤ i := hlevel ▸ hi
        rw [forward?, hfw.link, habove header i hi, ha.link_eq hidh.symm]
        exact h.above i hi
      linkedBack := hback
      tail := htail
      size := by
        show r.size + 1 = _
        rw [hnodes.size, ha.size, h.size, List.length_append, List.length_append, List.length_cons]
        rfl }
  · intro y
    show r.element? y = _
    rw [hnodes.element?, ha.element?_eq]

theorem insert_eq {member : String} {score : Binary64} {height : Nat} {left : Nat → Nat × Nat}
    (hk : max 1 (min height maxLevel) = k)
    (hn : ⟨member, score, none, Array.replicate k ⟨none, 0⟩⟩ = n)
    (hl : leftAt (l.path fun n _ => n.precedes score member) = left) :
    (l.insert member score height).2 =
      ((List.range ((l.raise k).alloc n).2.level).foldl
        (threadAt left ((l.raise k).alloc n).1 (left 0).2 k) ((l.raise k).alloc n).2).finishInsert
        ((l.raise k).alloc n).1 (if (left 0).1 = header then none else some (left 0).1) := by
  subst hk hn hl
  rfl

theorem insert_represents {member : String} {score : Binary64} (h : l.Represents (p ++ q))
    (hs : Splits l (fun n _ => n.precedes score member) p q) (height : Nat) :
    ∃ id, (l.insert member score height).2.Represents (p ++ id :: q) ∧
      ∀ y, (l.insert member score height).2.element? y =
        if y = id then some (member, score) else l.element? y := by
  generalize hk : max 1 (min height maxLevel) = k
  have hkle : k ≤ maxLevel := by rw [← hk, maxLevel]; omega
  have hr := raise_spec h hkle
  have hfr := (sameFrame_raise h hkle).1
  generalize hn : (⟨member, score, none, Array.replicate k ⟨none, 0⟩⟩ : SkipNode) = n
  have hnk : n.links.size = k := by rw [← hn]; exact Array.size_replicate
  obtain ⟨hid, ha⟩ := alloc_spec hr n
  generalize hl : leftAt (l.path fun n _ => n.precedes score member) = left
  have hleft : ∀ i < maxLevel, IsLeft (l.raise k).height p i (left i).1 (left i).2 := by
    intro i hi
    rw [← hl, funext hfr.height_eq]
    exact path_spec h hs hi
  have hzero : left 0 = (p.getLast?.getD header, p.length) := hl ▸ leftAt_zero h hs
  have hprev : (if (left 0).1 = header then none else some (left 0).1) = p.getLast? := by
    rw [hzero]
    cases hp : p.getLast? with
    | none => exact if_pos rfl
    | some x =>
      have hx : x ≠ header := h.ne_header (by simp [List.mem_of_getLast? hp])
      exact if_neg hx
  have hrank : (left 0).2 = p.length := by rw [hzero]
  obtain ⟨hf, hlinked, habove⟩ := threadAll_spec hr hid ha hleft
  have hkpos : 0 < n.links.size := by omega
  have hklevel : n.links.size ≤ (l.raise k).level := by
    rw [hfr.level, hnk]
    exact Nat.le_max_right _ _
  obtain ⟨hrep, helem⟩ := represents_of_threaded hr hid ha hkpos hklevel hf hlinked habove
  rw [insert_eq hk hn hl, hprev, hrank]
  rw [hnk] at hrep helem
  refine ⟨((l.raise k).alloc n).1, hrep, fun y => ?_⟩
  rw [helem, hfr.element?_eq, ← hn]
  rfl

end RespStore.SkipList
