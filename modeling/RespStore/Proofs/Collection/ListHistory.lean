import RespStore.Proofs.Collection.ListCursor

/-!
# Histories of a linked list

Operation by operation, a linked list answers what a sequence of named values does, whether the
names that it is given are in use or not, and its links stay those of the sequence.
-/

namespace RespStore.LinkedList

/-! ## Sequences of named values -/

/-- Values in order, each with the slot that names it, and the stack of names given back. -/
structure Named where
  items : List (Nat × Bytes)
  free : List Nat

namespace Named

def names (s : Named) : List Nat := s.items.map (·.1)

def values (s : Named) : List Bytes := s.items.map (·.2)

def position? (s : Named) (id : Nat) : Option Nat := s.items.findIdx? fun e => e.1 = id

def get? (s : Named) (id : Nat) : Option Bytes := (s.items.find? fun e => e.1 = id).map (·.2)

/-- Inserts a value at a position, under the name given back last or under a new one. -/
def insertAt (s : Named) (k : Nat) (value : Bytes) : Nat × Named :=
  let id := s.free.headD s.items.length
  (id, ⟨s.items.take k ++ (id, value) :: s.items.drop k, s.free.tail⟩)

/-- Removes the value at a position, if there is one, and takes its name back. -/
def removeAt (s : Named) (k : Nat) : Option Bytes × Named :=
  match s.items[k]? with
  | none => (none, s)
  | some (id, value) => (some value, ⟨s.items.eraseIdx k, id :: s.free⟩)

/-- The last value comes first, under the same name. -/
def rotate (s : Named) : Named :=
  match s.items.getLast? with
  | none => s
  | some e => { s with items := e :: s.items.dropLast }

end Named

/-! ## Operations -/

inductive Operation
  | pushFront (value : Bytes)
  | pushBack (value : Bytes)
  | insertBefore (pivot : Nat) (value : Bytes)
  | insertAfter (pivot : Nat) (value : Bytes)
  | set (id : Nat) (value : Bytes)
  | remove (id : Nat)
  | popFront
  | popBack
  | rotate

/-- What an operation answers. -/
inductive Answer
  | name (id : Option Nat)
  | value (value : Option Bytes)
  | done

/-- The answer of an insertion, which may have found no pivot. -/
def inserted {σ : Type} (s : σ) : Option (Nat × σ) → Answer × σ
  | none => (.name none, s)
  | some (id, s) => (.name (some id), s)

/-- The operation on a sequence. -/
def Operation.onNamed (s : Named) : Operation → Answer × Named
  | pushFront v => inserted s (some (s.insertAt 0 v))
  | pushBack v => inserted s (some (s.insertAt s.items.length v))
  | insertBefore pivot v => inserted s ((s.position? pivot).map fun k => s.insertAt k v)
  | insertAfter pivot v => inserted s ((s.position? pivot).map fun k => s.insertAt (k + 1) v)
  | set id v =>
    match s.position? id with
    | none => (.value none, s)
    | some k => (.value (s.values[k]?), { s with items := s.items.set k (id, v) })
  | remove id => ((s.position? id).elim (none, s) s.removeAt).map .value fun s => s
  | popFront => (s.removeAt 0).map .value fun s => s
  | popBack => (s.removeAt (s.items.length - 1)).map .value fun s => s
  | rotate => (.done, s.rotate)

/-- The operation on a linked list. -/
def Operation.run (l : LinkedList) : Operation → Answer × LinkedList
  | pushFront v => inserted l (some (l.pushFront v))
  | pushBack v => inserted l (some (l.pushBack v))
  | insertBefore pivot v => inserted l (l.insertBefore? pivot v)
  | insertAfter pivot v => inserted l (l.insertAfter? pivot v)
  | set id v => (l.set id v).map .value fun l => l
  | remove id => (l.remove id).map .value fun l => l
  | popFront => l.popFront.map .value fun l => l
  | popBack => l.popBack.map .value fun l => l
  | rotate => (.done, l.rotate)

/-! ## Single operations -/

variable {l : LinkedList} {s : Named} {id : Nat}

/-- The links run through the names, and the slots hold the values. -/
structure Holds (l : LinkedList) (s : Named) : Prop where
  represents : l.Represents s.names
  value : ∀ e ∈ s.items, l.get? e.1 = some e.2
  free : l.free = s.free

theorem Named.mem_names_of_mem {e : Nat × Bytes} (h : e ∈ s.items) : e.1 ∈ s.names :=
  List.mem_map_of_mem h

theorem Holds.insertAt (h : l.Holds s) (k : Nat) (v : Bytes) :
    let r := l.insertBetween (s.names.take k).getLast? (s.names.drop k).head? v
    r.1 = (s.insertAt k v).1 ∧ r.2.Holds (s.insertAt k v).2 := by
  have hrep : l.Represents (s.names.take k ++ s.names.drop k) := by
    rw [List.take_append_drop]
    exact h.represents
  have hlen : s.names.length = s.items.length := List.length_map _
  obtain ⟨hfresh, hr, hget⟩ := insertBetween_spec hrep v
  rw [List.take_append_drop] at hfresh
  have hfst : (l.insertBetween (s.names.take k).getLast? (s.names.drop k).head? v).1 =
      s.free.headD s.items.length := by
    rw [insertBetween_fst, h.free]
    cases hf : s.free with
    | nil => simp [h.represents.size_slots, h.free, hf, hlen]
    | cons id free => rfl
  rw [hfst] at hr hget hfresh
  refine ⟨hfst, ?_, fun e he => ?_, ?_⟩
  · simpa [Named.insertAt, Named.names, List.map_take, List.map_drop] using hr
  · rw [hget]
    have hcases : e = (s.free.headD s.items.length, v) ∨ e ∈ s.items := by
      rcases List.mem_append.mp he with he | he
      · exact .inr (List.mem_of_mem_take he)
      · exact (List.mem_cons.mp he).imp_right List.mem_of_mem_drop
    rcases hcases with rfl | he
    · exact if_pos rfl
    · have hne : s.free.headD s.items.length ≠ e.1 := fun heq =>
        hfresh (heq.symm ▸ Named.mem_names_of_mem he)
      rw [if_neg hne]
      exact h.value e he
  · exact free_insertBetween.trans (congrArg List.tail h.free)

/-- What the nodes on either side of an item are called. -/
theorem Holds.represents_split (h : l.Holds s) {k : Nat} {v : Bytes}
    (hk : s.items[k]? = some (id, v)) :
    l.Represents ((s.items.take k).map (·.1) ++ id :: (s.items.drop (k + 1)).map (·.1)) := by
  obtain ⟨hlt, hget⟩ := List.getElem?_eq_some_iff.mp hk
  have hitems : s.items.take k ++ (id, v) :: s.items.drop (k + 1) = s.items := by
    rw [← hget, List.getElem_cons_drop, List.take_append_drop]
  have hnames := congrArg (List.map (·.1)) hitems
  rw [List.map_append, List.map_cons] at hnames
  exact hnames ▸ h.represents

/-- No other item has the name of an item. -/
theorem Holds.ne_of_mem_eraseIdx (h : l.Holds s) {k : Nat} {v : Bytes} {e : Nat × Bytes}
    (hk : s.items[k]? = some (id, v)) (he : e ∈ s.items.eraseIdx k) : e.1 ≠ id := by
  rintro rfl
  have hnot := (List.nodup_cons.mp (List.nodup_middle.mp (h.represents_split hk).nodup)).1
  rw [← List.map_append, ← List.eraseIdx_eq_take_drop_succ] at hnot
  exact hnot (List.mem_map_of_mem he)

/-- A removed value takes its place and its name out of the sequence. -/
theorem Holds.removeAt (h : l.Holds s) (k : Nat) :
    let r := (s.names[k]?).elim (none, l) l.remove
    r.1 = (s.removeAt k).1 ∧ r.2.Holds (s.removeAt k).2 := by
  unfold Named.removeAt
  rw [Named.names, List.getElem?_map]
  cases hk : s.items[k]? with
  | none => exact ⟨rfl, h⟩
  | some e =>
    obtain ⟨id, v⟩ := e
    have hrep := h.represents_split hk
    obtain ⟨hfst, hr, hkeep⟩ := remove_spec hrep
    refine ⟨hfst.trans (h.value _ (List.mem_of_getElem? hk)), ?_, fun e he => ?_, ?_⟩
    · rw [Named.names, List.eraseIdx_eq_take_drop_succ, List.map_append]
      exact hr
    · have hvalue := h.value e (List.mem_of_mem_eraseIdx he)
      exact (hkeep _ (h.ne_of_mem_eraseIdx hk he)).trans hvalue
    · show (l.remove id).2.free = id :: s.free
      rw [free_remove (hrep.mem_iff.mp (by simp)), h.free]

theorem Named.position?_some {k : Nat} (hk : s.position? id = some k) :
    ∃ v, s.items[k]? = some (id, v) := by
  obtain ⟨hlt, hid, -⟩ := List.findIdx?_eq_some_iff_getElem.mp hk
  refine ⟨s.items[k].2, ?_⟩
  rw [List.getElem?_eq_getElem hlt, ← of_decide_eq_true hid]

theorem Named.names_getElem? {k : Nat} {e : Nat × Bytes} (hk : s.items[k]? = some e) :
    s.names[k]? = some e.1 := by
  rw [names, List.getElem?_map, hk, Option.map_some]

theorem Holds.position?_none (h : l.Holds s) (hk : s.position? id = none) : l.node? id = none := by
  rw [← h.represents.not_mem_iff, Named.names, List.mem_map]
  rintro ⟨e, he, rfl⟩
  simpa using List.findIdx?_eq_none_iff.mp hk e he

theorem Holds.position?_node? (h : l.Holds s) {k : Nat} (hk : s.position? id = some k) :
    s.names[k]? = some id ∧
      ∃ v, l.node? id = some ⟨v, (s.names.take k).getLast?, s.names[k + 1]?⟩ := by
  obtain ⟨_, hitem⟩ := Named.position?_some hk
  have hname := Named.names_getElem? hitem
  exact ⟨hname, h.represents.node?_of_getElem? hname⟩

theorem Holds.run_insertBefore (h : l.Holds s) (pivot : Nat) (v : Bytes) :
    let c : Operation := .insertBefore pivot v
    (c.run l).1 = (c.onNamed s).1 ∧ (c.run l).2.Holds (c.onNamed s).2 := by
  simp only [Operation.run, Operation.onNamed, insertBefore?]
  cases hk : s.position? pivot with
  | none =>
    rw [h.position?_none hk]
    exact ⟨rfl, h⟩
  | some k =>
    obtain ⟨hname, w, hw⟩ := h.position?_node? hk
    obtain ⟨hfst, hholds⟩ := h.insertAt k v
    rw [List.head?_drop, hname] at hfst hholds
    rw [hw]
    exact ⟨congrArg (fun id => Answer.name (some id)) hfst, hholds⟩

theorem Holds.run_insertAfter (h : l.Holds s) (pivot : Nat) (v : Bytes) :
    let c : Operation := .insertAfter pivot v
    (c.run l).1 = (c.onNamed s).1 ∧ (c.run l).2.Holds (c.onNamed s).2 := by
  simp only [Operation.run, Operation.onNamed, insertAfter?]
  cases hk : s.position? pivot with
  | none =>
    rw [h.position?_none hk]
    exact ⟨rfl, h⟩
  | some k =>
    obtain ⟨hname, w, hw⟩ := h.position?_node? hk
    obtain ⟨hfst, hholds⟩ := h.insertAt (k + 1) v
    have hlast : (s.names.take (k + 1)).getLast? = some pivot := by
      rw [List.take_add_one, hname, Option.toList_some, List.getLast?_concat]
    rw [List.head?_drop, hlast] at hfst hholds
    rw [hw]
    exact ⟨congrArg (fun id => Answer.name (some id)) hfst, hholds⟩

theorem eq_or_mem_eraseIdx_of_mem_set {α : Type} {xs : List α} {k : Nat} {x e : α}
    (h : e ∈ xs.set k x) : e = x ∨ e ∈ xs.eraseIdx k := by
  obtain ⟨j, hj⟩ := List.mem_iff_getElem?.mp h
  rw [List.getElem?_set] at hj
  split at hj
  · exact .inl (Option.some.inj (Option.ite_none_right_eq_some.mp hj).2).symm
  · next hkj => exact .inr (List.mem_eraseIdx_iff_getElem?.mpr ⟨j, Ne.symm hkj, hj⟩)

theorem Holds.run_set (h : l.Holds s) (id : Nat) (v : Bytes) :
    let c : Operation := .set id v
    (c.run l).1 = (c.onNamed s).1 ∧ (c.run l).2.Holds (c.onNamed s).2 := by
  simp only [Operation.run, Operation.onNamed]
  cases hk : s.position? id with
  | none =>
    rw [set_of_node?_eq_none (h.position?_none hk)]
    exact ⟨rfl, h⟩
  | some k =>
    obtain ⟨w, hitem⟩ := Named.position?_some hk
    refine ⟨congrArg Answer.value ?_, ?_, fun e he => ?_, h.free⟩
    · rw [Named.values, List.getElem?_map, hitem]
      exact h.value _ (List.mem_of_getElem? hitem)
    · have hnames : (s.items.set k (id, v)).map (·.1) = s.names := by
        obtain ⟨hlt, hid⟩ := List.getElem?_eq_some_iff.mp (Named.names_getElem? hitem)
        rw [List.map_set, ← hid]
        exact List.set_getElem_self hlt
      show (l.set id v).2.Represents ((s.items.set k (id, v)).map (·.1))
      exact hnames.symm ▸ set_represents h.represents id v
    · show (l.set id v).2.get? e.1 = some e.2
      rw [get?_set]
      rcases eq_or_mem_eraseIdx_of_mem_set he with rfl | he
      · rw [if_pos rfl, h.value _ (List.mem_of_getElem? hitem), Option.map_some]
      · rw [if_neg (h.ne_of_mem_eraseIdx hitem he).symm]
        exact h.value e (List.mem_of_mem_eraseIdx he)

theorem popFront_eq (l : LinkedList) : l.popFront = l.head.elim (none, l) l.remove := by
  unfold popFront
  cases l.head <;> rfl

theorem popBack_eq (l : LinkedList) : l.popBack = l.tail.elim (none, l) l.remove := by
  unfold popBack
  cases l.tail <;> rfl

theorem Holds.popFront (h : l.Holds s) :
    l.popFront.1 = (s.removeAt 0).1 ∧ l.popFront.2.Holds (s.removeAt 0).2 := by
  rw [popFront_eq, h.represents.head, List.head?_eq_getElem?]
  exact h.removeAt 0

theorem Holds.popBack (h : l.Holds s) :
    l.popBack.1 = (s.removeAt (s.items.length - 1)).1 ∧
      l.popBack.2.Holds (s.removeAt (s.items.length - 1)).2 := by
  rw [popBack_eq, h.represents.tail, List.getLast?_eq_getElem?, Named.names, List.length_map]
  exact h.removeAt _

theorem Holds.run_remove (h : l.Holds s) (id : Nat) :
    let c : Operation := .remove id
    (c.run l).1 = (c.onNamed s).1 ∧ (c.run l).2.Holds (c.onNamed s).2 := by
  simp only [Operation.run, Operation.onNamed]
  cases hk : s.position? id with
  | none =>
    rw [remove_of_node?_eq_none (h.position?_none hk)]
    exact ⟨rfl, h⟩
  | some k =>
    obtain ⟨_, hitem⟩ := Named.position?_some hk
    have hremove := h.removeAt k
    rw [Named.names_getElem? hitem] at hremove
    exact hremove.imp_left (congrArg Answer.value)

theorem Holds.size_eq (h : l.Holds s) : l.size = s.items.length := by
  rw [h.represents.size, Named.names, List.length_map]

theorem Holds.pushFront (h : l.Holds s) (v : Bytes) :
    (l.pushFront v).1 = (s.insertAt 0 v).1 ∧ (l.pushFront v).2.Holds (s.insertAt 0 v).2 := by
  have := h.insertAt 0 v
  rwa [List.take_zero, List.drop_zero, ← h.represents.head] at this

theorem Holds.pushBack (h : l.Holds s) (v : Bytes) :
    (l.pushBack v).1 = (s.insertAt s.items.length v).1 ∧
      (l.pushBack v).2.Holds (s.insertAt s.items.length v).2 := by
  have := h.insertAt s.items.length v
  have hlen : s.items.length = s.names.length := (List.length_map _).symm
  rwa [hlen, List.take_length, List.drop_length, ← h.represents.tail, ← hlen] at this

/-- Taken from the back and put to the front, a value gets the name that it gave back. -/
theorem Named.rotate_eq {v : Bytes} (h : s.items.getLast? = some (id, v)) :
    s.rotate = ((s.removeAt (s.items.length - 1)).2.insertAt 0 v).2 := by
  have hlast : s.items[s.items.length - 1]? = some (id, v) := by
    rw [← List.getLast?_eq_getElem?, h]
  simp [rotate, removeAt, insertAt, h, hlast, List.eraseIdx_length_sub_one]

theorem Named.rotate_of_length_lt_two (h : s.items.length < 2) : s.rotate = s := by
  obtain ⟨items, free⟩ := s
  match items, h with
  | [], _ => rfl
  | [_], _ => rfl

theorem Holds.rotate (h : l.Holds s) : l.rotate.Holds s.rotate := by
  obtain ⟨hfst, hholds⟩ := h.popBack
  unfold LinkedList.rotate
  rw [h.size_eq]
  split
  · next hlen => exact (Named.rotate_of_length_lt_two hlen).symm ▸ h
  · next hlen =>
    have hne : s.items ≠ [] := List.ne_nil_of_length_pos (by omega)
    obtain ⟨⟨id, v⟩, hs⟩ : ∃ e, s.items.getLast? = some e :=
      ⟨_, List.getLast?_eq_some_getLast hne⟩
    have hval : l.popBack.1 = some v := by
      rw [hfst, Named.removeAt, ← List.getLast?_eq_getElem?, hs]
    rw [Named.rotate_eq hs]
    generalize l.popBack = r at hval hholds
    obtain ⟨_, l'⟩ := r
    cases hval
    exact (hholds.pushFront v).2

theorem Holds.run (h : l.Holds s) (c : Operation) :
    (c.run l).1 = (c.onNamed s).1 ∧ (c.run l).2.Holds (c.onNamed s).2 := by
  cases c with
  | pushFront v =>
    obtain ⟨hfst, hholds⟩ := h.pushFront v
    exact ⟨congrArg (fun id => Answer.name (some id)) hfst, hholds⟩
  | pushBack v =>
    obtain ⟨hfst, hholds⟩ := h.pushBack v
    exact ⟨congrArg (fun id => Answer.name (some id)) hfst, hholds⟩
  | insertBefore pivot v => exact h.run_insertBefore pivot v
  | insertAfter pivot v => exact h.run_insertAfter pivot v
  | set id v => exact h.run_set id v
  | remove id => exact h.run_remove id
  | popFront => exact h.popFront.imp_left (congrArg Answer.value)
  | popBack => exact h.popBack.imp_left (congrArg Answer.value)
  | rotate => exact ⟨rfl, h.rotate⟩

/-! ## Histories -/

/-- All that can be seen of a linked list is what a sequence has. -/
structure Shows (l : LinkedList) (s : Named) : Prop where
  names_nodup : s.names.Nodup
  /-- Every slot is either a name in use or on the stack of free slots, once. -/
  slots : (s.names ++ l.free).Perm (List.range l.slots.size)
  live : ∀ id, (l.node? id).isSome ↔ id ∈ s.names
  head : l.head = s.names.head?
  tail : l.tail = s.names.getLast?
  /-- Links run between neighbours, both ways. -/
  next : ∀ i j, l.next? i = some j ↔ ∃ k, s.names[k]? = some i ∧ s.names[k + 1]? = some j
  prev : ∀ i j, l.prev? j = some i ↔ ∃ k, s.names[k]? = some i ∧ s.names[k + 1]? = some j
  /-- The walks along the links end where the sequence does. -/
  walk_next : ∀ n, walk l.next? (l.size + n) l.head = s.names
  walk_prev : ∀ n, walk l.prev? (l.size + n) l.tail = s.names.reverse
  size : l.size = s.items.length
  get? : ∀ id, l.get? id = s.get? id
  toList : l.toList = s.values
  toListRev : l.toListRev = s.values.reverse
  index? : ∀ i : Int, l.index? i =
    if 0 ≤ i then s.names[i.toNat]? else s.names.reverse[(-1 - i).toNat]?
  find? : ∀ v, l.find? v = (s.items.find? fun e => e.2 = v).map (·.1)
  /-- Values taken from both ends, in any order, are those taken from the sequence. -/
  cursor : ∀ ends,
    let taken := History.run (Cursor.take l) l.cursor ends
    let ended := History.run takeEnd s.values ends
    taken.1 = ended.1 ∧ taken.2.remaining = ended.2.length

theorem Holds.map_get? (h : l.Holds s) : s.names.map l.get? = s.values.map some := by
  rw [Named.names, Named.values, List.map_map, List.map_map]
  exact List.map_congr_left h.value

theorem Holds.get?_eq (h : l.Holds s) (id : Nat) : l.get? id = s.get? id := by
  rw [Named.get?]
  cases hf : s.items.find? fun e => e.1 = id with
  | none =>
    have hnot : id ∉ s.names := by
      rw [Named.names, List.mem_map]
      rintro ⟨e, he, rfl⟩
      simpa using List.find?_eq_none.mp hf e he
    rw [LinkedList.get?, h.represents.not_mem_iff.mp hnot]
    rfl
  | some e =>
    obtain rfl : e.1 = id := by simpa using List.find?_some hf
    exact h.value e (List.mem_of_find?_eq_some hf)

theorem Holds.exists_item (h : l.Holds s) {v : Bytes} (hv : l.get? id = some v) :
    ∃ e ∈ s.items, e.1 = id ∧ e.2 = v := by
  rw [h.get?_eq, Named.get?, Option.map_eq_some_iff] at hv
  obtain ⟨e, hf, rfl⟩ := hv
  exact ⟨e, List.mem_of_find?_eq_some hf, by simpa using List.find?_some hf, rfl⟩

theorem Holds.filterMap_get? (h : l.Holds s) : s.names.filterMap l.get? = s.values := by
  rw [Named.names, Named.values, List.filterMap_map, ← List.filterMap_eq_map]
  exact List.filterMap_congr h.value

theorem Holds.find?_eq (h : l.Holds s) (v : Bytes) :
    l.find? v = (s.items.find? fun e => e.2 = v).map (·.1) := by
  have hvalue : ∀ e ∈ s.items, (l.get? e.1 == some v) = decide (e.2 = v) := by
    intro e he
    rw [h.value e he, Option.some_beq_some, beq_eq_decide]
  rw [LinkedList.find?, h.represents.ids_eq, Named.names, List.find?_map, ← List.head?_filter,
    ← List.head?_filter]
  exact congrArg (fun xs => Option.map _ (List.head? xs)) (List.filter_congr hvalue)

theorem Holds.index?_eq (h : l.Holds s) (i : Int) :
    l.index? i = if 0 ≤ i then s.names[i.toNat]? else s.names.reverse[(-1 - i).toNat]? := by
  rw [h.represents.index?_eq, position?]
  by_cases hi : 0 ≤ i
  · rw [if_neg (Int.not_lt.mpr hi), if_pos hi]
    split
    · rw [Option.bind_none, List.getElem?_eq_none (by omega)]
    · rfl
  · rw [if_pos (Int.not_le.mp hi), if_neg hi]
    split
    · rw [Option.bind_none, List.getElem?_eq_none (by rw [List.length_reverse]; omega)]
    · rw [Option.bind_some, List.getElem?_reverse (by omega)]
      congr 1
      omega

theorem Holds.shows (h : l.Holds s) : l.Shows s where
  names_nodup := h.represents.nodup
  slots := h.represents.slots_perm
  live := fun _ => h.represents.mem_iff.symm
  head := h.represents.head
  tail := h.represents.tail
  next := h.represents.next?_eq_some_iff
  prev := h.represents.prev?_eq_some_iff
  walk_next := fun n => by
    rw [h.represents.size, h.represents.head]
    exact LinkedList.walk_next h.represents.chain (fun _ => rfl) n
  walk_prev := fun n => by
    rw [h.represents.size, h.represents.tail]
    exact LinkedList.walk_prev h.represents.chain (fun _ => rfl) n
  size := h.size_eq
  get? := h.get?_eq
  toList := by rw [h.represents.toList_eq, h.filterMap_get?]
  toListRev := by
    rw [LinkedList.toListRev, h.represents.idsRev_eq, List.filterMap_reverse, h.filterMap_get?]
  index? := h.index?_eq
  find? := h.find?_eq
  cursor := (meets_cursor h.represents h.map_get?).run

theorem holds_empty : empty.Holds ⟨[], []⟩ where
  represents := represents_empty
  value := fun e he => by cases he
  free := rfl

/-- The node that an operation overwrites or removes. -/
def Operation.touched? (l : LinkedList) : Operation → Option Nat
  | set id _ => some id
  | remove id => some id
  | popFront => l.head
  | popBack => l.tail
  | _ => none

section Untouched

variable {k : Nat} {v : Bytes} {e : Nat × Bytes}

theorem Named.mem_insertAt (he : e ∈ s.items) : e ∈ (s.insertAt k v).2.items := by
  rw [← List.take_append_drop k s.items, List.mem_append] at he
  exact List.mem_append.mpr (he.imp_right (List.mem_cons_of_mem _))

theorem Named.mem_removeAt (he : e ∈ s.items) (hne : s.names[k]? ≠ some e.1) :
    e ∈ (s.removeAt k).2.items := by
  unfold removeAt
  cases hk : s.items[k]? with
  | none => exact he
  | some x =>
    obtain ⟨j, hj⟩ := List.mem_iff_getElem?.mp he
    refine List.mem_eraseIdx_iff_getElem?.mpr ⟨j, ?_, hj⟩
    rintro rfl
    exact hne (Named.names_getElem? hj)

theorem Named.mem_rotate (he : e ∈ s.items) : e ∈ s.rotate.items := by
  unfold rotate
  cases hs : s.items.getLast? with
  | none => exact he
  | some x =>
    rw [← List.dropLast_append_getLast? x hs, List.mem_append, List.mem_singleton] at he
    exact List.mem_cons.mpr he.symm

theorem Named.mem_set (he : e ∈ s.items) (hk : s.names[k]? ≠ some e.1) (x : Nat × Bytes) :
    e ∈ s.items.set k x := by
  obtain ⟨j, hj⟩ := List.mem_iff_getElem?.mp he
  refine List.mem_iff_getElem?.mpr ⟨j, ?_⟩
  rw [List.getElem?_set_ne, hj]
  rintro rfl
  exact hk (Named.names_getElem? hj)

theorem Holds.mem_of_not_touched (h : l.Holds s) (c : Operation) (he : e ∈ s.items)
    (hc : c.touched? l ≠ some e.1) : e ∈ (c.onNamed s).2.items := by
  cases c with
  | pushFront v => exact Named.mem_insertAt he
  | pushBack v => exact Named.mem_insertAt he
  | insertBefore pivot v =>
    rw [Operation.onNamed]
    cases s.position? pivot with
    | none => exact he
    | some k => exact Named.mem_insertAt he
  | insertAfter pivot v =>
    rw [Operation.onNamed]
    cases s.position? pivot with
    | none => exact he
    | some k => exact Named.mem_insertAt he
  | set id v =>
    rw [Operation.onNamed]
    cases hk : s.position? id with
    | none => exact he
    | some k =>
      obtain ⟨_, hitem⟩ := Named.position?_some hk
      exact Named.mem_set he (Named.names_getElem? hitem ▸ hc) _
  | remove id =>
    rw [Operation.onNamed]
    cases hk : s.position? id with
    | none => exact he
    | some k =>
      obtain ⟨_, hitem⟩ := Named.position?_some hk
      exact Named.mem_removeAt he (Named.names_getElem? hitem ▸ hc)
  | popFront =>
    rw [Operation.touched?, h.represents.head, List.head?_eq_getElem?] at hc
    exact Named.mem_removeAt he hc
  | popBack =>
    rw [Operation.touched?, h.represents.tail, List.getLast?_eq_getElem?, Named.names,
      List.length_map] at hc
    exact Named.mem_removeAt he hc
  | rotate => exact Named.mem_rotate he

end Untouched

/-! ## Names that are not in use -/

/-- The node that an operation is given. -/
def Operation.given? : Operation → Option Nat
  | insertBefore pivot _ => some pivot
  | insertAfter pivot _ => some pivot
  | set id _ => some id
  | remove id => some id
  | _ => none

/-- Given a name that is not in use, an operation answers that there is none and does nothing. -/
theorem Operation.run_of_dead (c : Operation) (hc : c.given? = some id) (h : l.node? id = none) :
    c.run l = (.name none, l) ∨ c.run l = (.value none, l) := by
  cases c with
  | insertBefore pivot v =>
    obtain rfl := Option.some.inj hc
    left
    rw [run, insertBefore?, h]
    rfl
  | insertAfter pivot v =>
    obtain rfl := Option.some.inj hc
    left
    rw [run, insertAfter?, h]
    rfl
  | set id' v =>
    obtain rfl := Option.some.inj hc
    right
    rw [run, set_of_node?_eq_none h]
    rfl
  | remove id' =>
    obtain rfl := Option.some.inj hc
    right
    rw [run, remove_of_node?_eq_none h]
    rfl
  | _ => cases hc

/-- Operations on an empty list answer what they answer on an empty sequence, and leave a list that
shows the sequence they leave. One more operation keeps every value whose node it does not touch,
and does nothing if it is given a node that is not there. -/
theorem operations_refine_sequence (cs : List Operation) :
    let ran := History.run Operation.run empty cs
    let named := History.run Operation.onNamed ⟨[], []⟩ cs
    ran.1 = named.1 ∧ ran.2.Shows named.2 ∧
      (∀ (c : Operation) (id : Nat) (v : Bytes), ran.2.get? id = some v →
        c.touched? ran.2 ≠ some id → (c.run ran.2).2.get? id = some v) ∧
      ∀ (c : Operation) (id : Nat), c.given? = some id → ran.2.get? id = none →
        c.run ran.2 = (.name none, ran.2) ∨ c.run ran.2 = (.value none, ran.2) := by
  obtain ⟨hanswers, hholds⟩ :=
    History.run_simulates (R := Holds) (fun _ _ c h => h.run c) holds_empty cs
  refine ⟨hanswers, hholds.shows, fun c id v hid hc => ?_, fun c id hc hid => ?_⟩
  · obtain ⟨e, he, rfl, rfl⟩ := hholds.exists_item hid
    exact (hholds.run c).2.value e (hholds.mem_of_not_touched c he hc)
  · exact c.run_of_dead hc (Option.map_eq_none_iff.mp hid)

end RespStore.LinkedList
