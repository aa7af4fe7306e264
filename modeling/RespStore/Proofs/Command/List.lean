import RespStore.Command.List.Run
import RespStore.Proofs.Keyspace.Write

/-!
# Writes of commands on lists
-/

namespace RespStore

namespace ListEnd

/-- The items with values pushed on one after the other. -/
def extend (place : ListEnd) (values items : List Bytes) : List Bytes :=
  match place with
  | left => values.reverse ++ items
  | right => items ++ values

/-- The items that are left when some are popped. -/
def remaining (place : ListEnd) (count : Nat) (items : List Bytes) : List Bytes :=
  match place with
  | left => items.drop count
  | right => items.take (items.length - count)

end ListEnd

namespace Side

/-- A pivot with a value on one side of it. -/
def around (side : Side) (pivot value : Bytes) : List Bytes :=
  match side with
  | before => [value, pivot]
  | after => [pivot, value]

/-- The items with a value put on a side of the first pivot. -/
def insert? (side : Side) (pivot value : Bytes) : List Bytes → Option (List Bytes)
  | [] => none
  | x :: xs =>
    if x = pivot then some (side.around pivot value ++ xs)
    else (insert? side pivot value xs).map (x :: ·)

end Side

namespace Change

def push (place : ListEnd) (values : List Bytes) : Change :=
  edit Content.list? (some []) fun items => some (.list (place.extend values items))

def pop (place : ListEnd) (count : Nat) : Change :=
  edit Content.list? none fun items => some (.list (place.remaining count items))

def setItem (i : Int) (value : Bytes) : Change :=
  edit Content.list? none fun items =>
    (LinkedList.position? items.length i).map fun k => .list (items.set k value)

def insertItem (side : Side) (pivot value : Bytes) : Change :=
  edit Content.list? none fun items => (side.insert? pivot value items).map .list

def removeItem (count : Int) (value : Bytes) : Change :=
  edit Content.list? none fun items => some (.list (LinkedList.eraseValues items value count).2)

def rotate : Change :=
  edit Content.list? none fun items => some (.list (items.getLast?.toList ++ items.dropLast))

end Change

namespace ListCommand

/-- What a command writes to its database. -/
def write : ListCommand → Write
  | push place key values => .change key (.push place values)
  | pop place key count => .change key (.pop place (count.getD 1))
  | set key i value => .change key (.setItem i.toInt value)
  | insert side key pivot value => .change key (.insertItem side pivot value)
  | remove key count value => .change key (.removeItem count.toInt value)
  | popPush source destination =>
    if source = destination then .change source .rotate else .move source destination
  | length _ | range _ _ _ | index _ _ => .nothing

/-- A push has something to push. -/
def Proper : ListCommand → Prop
  | push _ _ values => values ≠ []
  | _ => True

/-! ## Linked lists -/

section LinkedList

variable {l : LinkedList}

theorem push_spec (h : l.WF) (place : ListEnd) (value : Bytes) :
    (place.push l value).WF ∧ (place.push l value).toList = place.extend [value] l.toList := by
  cases place with
  | left => exact l.pushFront_spec h value
  | right => exact l.pushBack_spec h value

theorem foldl_push_spec (h : l.WF) (place : ListEnd) (values : List Bytes) :
    (values.foldl place.push l).WF ∧
      (values.foldl place.push l).toList = place.extend values l.toList := by
  induction values generalizing l with
  | nil =>
    refine ⟨h, ?_⟩
    cases place with
    | left => rfl
    | right => exact (List.append_nil _).symm
  | cons value values ih =>
    obtain ⟨hw, hl⟩ := push_spec h place value
    obtain ⟨hw', hl'⟩ := ih hw
    refine ⟨hw', hl'.trans ?_⟩
    rw [hl]
    cases place with
    | left => simp [ListEnd.extend]
    | right => simp [ListEnd.extend]

theorem pop_spec (h : l.WF) (place : ListEnd) :
    (place.pop l).2.WF ∧ (place.pop l).2.toList = place.remaining 1 l.toList ∧
      ((place.pop l).1 = none → l.toList = []) := by
  cases place with
  | left =>
    obtain ⟨hv, hw, hl⟩ := l.popFront_spec h
    refine ⟨hw, hl.trans List.drop_one.symm, fun hnone => ?_⟩
    exact List.head?_eq_none_iff.mp (hv.symm.trans hnone)
  | right =>
    obtain ⟨hv, hw, hl⟩ := l.popBack_spec h
    refine ⟨hw, hl.trans List.dropLast_eq_take, fun hnone => ?_⟩
    exact List.getLast?_eq_none_iff.mp (hv.symm.trans hnone)

theorem remaining_succ (place : ListEnd) (count : Nat) (items : List Bytes) :
    place.remaining count (place.remaining 1 items) = place.remaining (count + 1) items := by
  cases place with
  | left => simp [ListEnd.remaining]
  | right =>
    simp only [ListEnd.remaining, List.take_take, List.length_take]
    congr 1
    omega

theorem remaining_nil (place : ListEnd) (count : Nat) : place.remaining count [] = [] := by
  cases place with
  | left => exact List.drop_nil
  | right => exact List.take_nil

theorem popMany_spec (h : l.WF) (place : ListEnd) (count : Nat) :
    (place.popMany count l).2.WF ∧
      (place.popMany count l).2.toList = place.remaining count l.toList := by
  induction count generalizing l with
  | zero =>
    refine ⟨h, ?_⟩
    cases place with
    | left => rfl
    | right => exact List.take_length.symm
  | succ count ih =>
    obtain ⟨hw, hl, hnone⟩ := pop_spec h place
    rw [ListEnd.popMany]
    rcases hp : place.pop l with ⟨_ | value, l'⟩
    · rw [hp] at hw hl hnone
      rw [hnone rfl, remaining_nil] at hl ⊢
      exact ⟨hw, hl⟩
    · rw [hp] at hw hl
      obtain ⟨hw', hl'⟩ := ih hw
      refine ⟨hw', ?_⟩
      rw [← remaining_succ, ← hl]
      exact hl'

theorem insert?_of_mem {a b : List Bytes} {pivot : Bytes} (h : pivot ∉ a) (side : Side)
    (value : Bytes) :
    side.insert? pivot value (a ++ pivot :: b) = some (a ++ (side.around pivot value ++ b)) := by
  induction a with
  | nil => exact if_pos rfl
  | cons x a ih =>
    obtain ⟨hx, ha⟩ : pivot ≠ x ∧ pivot ∉ a := by simpa using h
    rw [List.cons_append, Side.insert?, if_neg (Ne.symm hx), ih ha]
    rfl

theorem insert?_of_not_mem {items : List Bytes} {pivot : Bytes} (h : pivot ∉ items) (side : Side)
    (value : Bytes) : side.insert? pivot value items = none := by
  induction items with
  | nil => rfl
  | cons x items ih =>
    obtain ⟨hx, ha⟩ : pivot ≠ x ∧ pivot ∉ items := by simpa using h
    rw [Side.insert?, if_neg (Ne.symm hx), ih ha]
    rfl

theorem insert?_ne_nil {items items' : List Bytes} {side : Side} {pivot value : Bytes}
    (h : side.insert? pivot value items = some items') : items' ≠ [] := by
  rintro rfl
  cases items with
  | nil => cases h
  | cons x xs =>
    rw [Side.insert?] at h
    split at h
    · cases side <;> simp [Side.around] at h
    · simp at h

/-- Inserting beside the first pivot, which is found or not. -/
theorem inserted_spec (h : l.WF) (side : Side) (pivot value : Bytes) :
    match (l.find? pivot).bind fun id =>
      match side with
      | .before => l.insertBefore? id value
      | .after => l.insertAfter? id value with
    | none => side.insert? pivot value l.toList = none
    | some r => r.2.WF ∧ side.insert? pivot value l.toList = some r.2.toList := by
  rcases l.find?_split h pivot with ⟨hnone, hmem⟩ | ⟨a, id, b, hsome, hr, hid, ha⟩
  · rw [hnone]
    exact insert?_of_not_mem hmem side value
  · have hlist : l.toList = a.filterMap l.get? ++ pivot :: b.filterMap l.get? := by
      rw [hr.toList_eq, List.filterMap_append, List.filterMap_cons_some hid]
    rw [hsome, hlist, insert?_of_mem ha]
    cases side with
    | before =>
      obtain ⟨r, hins, hw, hl⟩ := LinkedList.insertBefore?_spec hr hid value
      rw [Option.bind_some, hins]
      exact ⟨hw, congrArg some hl.symm⟩
    | after =>
      obtain ⟨r, hins, hw, hl⟩ := LinkedList.insertAfter?_spec hr hid value
      rw [Option.bind_some, hins]
      exact ⟨hw, congrArg some hl.symm⟩

end LinkedList

/-! ## Changes -/

variable [Digest String] {db : Db} {now : Nat} {key : String}

open Db Value

omit [Digest String] in
theorem list_isEmpty {l : LinkedList} (h : l.WF) :
    (Data.list l).content.isEmpty = l.isEmpty := by
  rw [Bool.eq_iff_iff, LinkedList.isEmpty_iff h]
  exact List.isEmpty_iff

theorem list_wf {l : LinkedList} (h : l.WF) (hne : l.toList ≠ []) : (Data.list l).WF where
  sound := h
  nonempty := by simpa [Data.content, Content.isEmpty] using hne

/-- No stored list is empty. -/
theorem ne_nil_of_read {v : Value} {absent : Option (List Bytes)} {items : List Bytes}
    (h : SlotWF (some v))
    (hread : Change.read Content.list? absent ((some v).map entry) = some items) : items ≠ [] := by
  rintro rfl
  obtain ⟨d, t⟩ := v
  have hd := (h _ rfl).nonempty
  cases d with
  | list l =>
    have hnil : l.toList = [] := Option.some.inj hread
    simp [Data.content, Content.isEmpty, hnil] at hd
  | _ => cases hread

theorem push_respects (place : ListEnd) {values : List Bytes} (hvalues : values ≠ []) :
    ReplyRespects (fun slot => do
      let l ← slot.elim (pure .empty) Value.asList
      let l := values.foldl place.push l
      return (.count l.size, Value.store slot (.list l))) (.push place values) := by
  intro slot hslot
  rcases slot_reads asList_reads .empty LinkedList.wf_empty (Eq.refl []) hslot with
    ⟨l, hl, hw, hread⟩ | ⟨he, hread⟩
  · obtain ⟨hw', hl'⟩ := foldl_push_spec hw place values
    have hne : (values.foldl place.push l).toList ≠ [] := by
      rw [hl']
      cases place <;> simp [ListEnd.extend, hvalues]
    simp only [hl]
    refine ⟨store_edits hread ?_ (list_wf hw' hne), nofun⟩
    rw [← hl']
    rfl
  · simp only [he]
    exact Change.edit_of_read_none hread

theorem pop_respects (place : ListEnd) (count : Option Nat) :
    ReplyRespects (fun slot =>
      match slot with
      | none => return (.null, none)
      | some v => do
        let l ← v.asList
        let (reply, l) := match count with
          | none =>
            let (value, l) := place.pop l
            (Frame.ofOption .bulk value, l)
          | some count =>
            let (values, l) := place.popMany count l
            (Frame.ofList .bulk values, l)
        return (reply, Value.storeUnless l.isEmpty slot (.list l)))
      (.pop place (count.getD 1)) := by
  intro slot hslot
  cases slot with
  | none => exact ⟨⟨slotWF_none, rfl⟩, nofun⟩
  | some v =>
    rcases some_reads asList_reads hslot with ⟨l, hl, hw, hread⟩ | ⟨he, hread⟩
    · simp only [hl]
      cases count with
      | none =>
        obtain ⟨hw', hl', -⟩ := pop_spec hw place
        refine ⟨storeUnless_edits (x := l.toList) hread ?_ hw' (list_isEmpty hw'), ?_⟩
        · exact congrArg (fun items => some (Content.list items)) hl'.symm
        · intro m
          cases (place.pop l).1 <;> exact nofun
      | some count =>
        obtain ⟨hw', hl'⟩ := popMany_spec hw place count
        refine ⟨storeUnless_edits (x := l.toList) hread ?_ hw' (list_isEmpty hw'), nofun⟩
        exact congrArg (fun items => some (Content.list items)) hl'.symm
    · simp only [he]
      exact Change.edit_of_read_none hread

theorem setItem_respects (i : Int) (value : Bytes) :
    ReplyRespects (fun slot =>
      match slot with
      | none => throw .noSuchKey
      | some v => do
        let l ← v.asList
        match l.index? i with
        | none => throw .indexOutOfRange
        | some id => return (.ok, Value.store slot (.list (l.set id value).2)))
      (.setItem i value) := by
  intro slot hslot
  cases slot with
  | none => exact rfl
  | some v =>
    rcases some_reads asList_reads hslot with ⟨l, hl, hw, hread⟩ | ⟨he, hread⟩
    · cases hi : l.index? i with
      | none =>
        simp only [hl, hi, bind, Except.bind]
        refine Change.edit_of_refused hread ?_
        rw [LinkedList.position?_eq_none_of_index? hw hi]
        rfl
      | some id =>
        obtain ⟨hw', k, hk, hl'⟩ := LinkedList.set_spec hw hi value
        simp only [hl, hi, bind, Except.bind]
        have hne : (l.set id value).2.toList ≠ [] := by
          rw [hl', Ne, List.set_eq_nil_iff]
          intro hnil
          have := LinkedList.position?_lt hk
          rw [hnil] at this
          exact Nat.not_lt_zero k this
        refine ⟨store_edits (x := l.toList) hread ?_ (list_wf hw' hne), nofun⟩
        rw [hk]
        exact congrArg (fun items => some (Content.list items)) hl'.symm
    · simp only [he]
      exact Change.edit_of_read_none hread

theorem insertItem_respects (side : Side) (pivot value : Bytes) :
    ReplyRespects (fun slot =>
      match slot with
      | none => return (.integer 0, none)
      | some v => do
        let l ← v.asList
        let inserted := (l.find? pivot).bind fun id =>
          match side with
          | .before => l.insertBefore? id value
          | .after => l.insertAfter? id value
        match inserted with
        | none => return (.integer (-1), slot)
        | some (_, l) => return (.count l.size, Value.store slot (.list l)))
      (.insertItem side pivot value) := by
  intro slot hslot
  cases slot with
  | none => exact ⟨⟨slotWF_none, rfl⟩, nofun⟩
  | some v =>
    rcases some_reads asList_reads hslot with ⟨l, hl, hw, hread⟩ | ⟨he, hread⟩
    · have hins := inserted_spec hw side pivot value
      simp only [hl, bind, Except.bind]
      generalize (l.find? pivot).bind _ = r at hins ⊢
      cases r with
      | none =>
        refine ⟨⟨hslot, (Change.edit_of_refused hread ?_).symm⟩, nofun⟩
        rw [hins]
        rfl
      | some r =>
        have hne : r.2.toList ≠ [] := insert?_ne_nil hins.2
        refine ⟨store_edits hread ?_ (list_wf hins.1 hne), nofun⟩
        rw [hins.2]
        rfl
    · simp only [he]
      exact Change.edit_of_read_none hread

theorem removeItem_respects (count : Int) (value : Bytes) :
    ReplyRespects (fun slot =>
      match slot with
      | none => return (.count 0, none)
      | some v => do
        let (n, l) := (← v.asList).removeValues value count
        return (.count n, Value.storeUnless l.isEmpty slot (.list l)))
      (.removeItem count value) := by
  intro slot hslot
  cases slot with
  | none => exact ⟨⟨slotWF_none, rfl⟩, nofun⟩
  | some v =>
    rcases some_reads asList_reads hslot with ⟨l, hl, hw, hread⟩ | ⟨he, hread⟩
    · obtain ⟨-, hw', hl'⟩ := LinkedList.removeValues_spec hw value count
      simp only [hl]
      refine ⟨storeUnless_edits hread ?_ hw' (list_isEmpty hw'), nofun⟩
      exact congrArg (fun items => some (Content.list items)) hl'.symm
    · simp only [he]
      exact Change.edit_of_read_none hread

theorem rotate_respects :
    ReplyRespects (fun slot =>
      match slot with
      | none => return (.null, none)
      | some v => do
        let l := (← v.asList).rotate
        return (.ofOption .bulk (l.head.bind l.get?), Value.store slot (.list l))) .rotate := by
  intro slot hslot
  cases slot with
  | none => exact ⟨⟨slotWF_none, rfl⟩, nofun⟩
  | some v =>
    rcases some_reads asList_reads hslot with ⟨l, hl, hw, hread⟩ | ⟨he, hread⟩
    · obtain ⟨hw', hl'⟩ := LinkedList.rotate_spec hw
      have hne : l.rotate.toList ≠ [] := by
        rw [hl']
        cases h : l.toList.getLast? with
        | some x => simp
        | none => exact absurd (List.getLast?_eq_none_iff.mp h) (ne_nil_of_read hslot hread)
      simp only [hl]
      refine ⟨store_edits hread ?_ (list_wf hw' hne), fun m => ?_⟩
      · exact congrArg (fun items => some (Content.list items)) hl'.symm
      · rw [LinkedList.head_bind_get? hw']
        cases l.rotate.toList.head? <;> exact nofun
    · simp only [he]
      exact Change.edit_of_read_none hread

/-! ## Moving an element -/

/-- What `moveTail` did to two slots: nothing unless both are lists, one of which may be absent. -/
inductive Moved (x y : Option Value) : Except StoreError (Frame × Option Value × Option Value) → Prop
  | moved {items others : List Bytes} {value : Bytes} {x' y' : Option Value} (hx : SlotWF x')
    (hy : SlotWF y') (hitems : Change.read Content.list? none (x.map entry) = some items)
    (hothers : Change.read Content.list? (some []) (y.map entry) = some others)
    (hvalue : items.getLast? = some value)
    (hx' : x'.map entry = Entry.store (x.map entry) (.list items.dropLast))
    (hy' : y'.map entry = Entry.store (y.map entry) (.list (value :: others))) :
    Moved x y (.ok (.bulk value, x', y'))
  | absent (hx : Change.read Content.list? none (x.map entry) = none) :
    Moved x y (.ok (.null, x, y))
  | refused (e : StoreError) (h : Change.read Content.list? none (x.map entry) = none ∨
      Change.read Content.list? (some []) (y.map entry) = none) : Moved x y (.error e)

theorem moveTail_moved {x y : Option Value} (hx : SlotWF x) (hy : SlotWF y) :
    Moved x y (moveTail x y) := by
  cases x with
  | none => exact .absent rfl
  | some v =>
    unfold moveTail
    rcases some_reads asList_reads hx with ⟨src, hsrc, hw, hread⟩ | ⟨he, hread⟩
    · rcases slot_reads asList_reads .empty LinkedList.wf_empty (Eq.refl []) hy with
        ⟨dst, hdst, hw', hread'⟩ | ⟨he, hread'⟩
      · obtain ⟨hvalue, hpop, hitems⟩ := LinkedList.popBack_spec hw
        cases hlast : src.toList.getLast? with
        | none => exact absurd (List.getLast?_eq_none_iff.mp hlast) (ne_nil_of_read hx hread)
        | some value =>
          obtain ⟨hpush, hothers⟩ := LinkedList.pushFront_spec hw' value
          have hne : (dst.pushFront value).2.toList ≠ [] := by simp [hothers]
          have hpopped : (Data.list src.popBack.2).Sound := hpop
          have hsource := storeUnless_spec (some v) hpopped (list_isEmpty hpop)
          have hdestination := store_spec y (list_wf hpush hne)
          simp only [hsrc, hdst, bind, Except.bind, hvalue, hlast]
          refine .moved hsource.1 hdestination.1 hread hread' hlast ?_ ?_
          · rw [hsource.2, Data.content, hitems]
          · rw [hdestination.2, Data.content, hothers]
      · simp only [hsrc, he, bind, Except.bind]
        exact .refused _ (.inr hread')
    · simp only [he, bind, Except.bind]
      exact .refused _ (.inl hread)

omit [Digest String] in
theorem move_of_none {v : View} {source destination : String}
    (h : Change.read Content.list? none (v source) = none ∨
      Change.read Content.list? (some []) (v destination) = none) :
    v.move now source destination = v := by
  unfold View.move
  split
  · next hsource hdestination =>
    rw [hsource, hdestination] at h
    rcases h with h | h
    · cases h
    · cases h
  · rfl

/-- `moveTail` with an answer and two slots in any case. -/
def movePair (x y : Option Value) : Except StoreError Frame × Option Value × Option Value :=
  match moveTail x y with
  | .ok (reply, x, y) => (.ok reply, x, y)
  | .error e => (.error e, x, y)

theorem runMove_eq (source destination : String) :
    runMove now db source destination =
      (.ofExcept (db.computePair now source destination movePair).1,
        (db.computePair now source destination movePair).2) := by
  simp only [runMove]
  rfl

theorem runMove_performs {source destination : String} (h : db.WF) (hne : source ≠ destination) :
    Performs now db (runMove now db source destination).1 (runMove now db source destination).2
      (.move source destination) := by
  have hx := h.slot now source
  have hy := h.slot now destination
  have hself : ((db.view now).write now source (db.view now source)).write now destination
      (db.view now destination) = db.view now := by
    rw [View.write_self view_live, View.write_self view_live]
  have hmoved := moveTail_moved hx hy
  simp only [runMove_eq]
  generalize hm : moveTail (db.slot now source) (db.slot now destination) = m at hmoved
  cases hmoved with
  | @moved items others value x' y' hx' hy' hitems hothers hvalue hx'' hy'' =>
    refine computePair_performs (r := (.ok (.bulk value), x', y')) h hne (by rw [movePair, hm]) hx' hy' ?_
      nofun
    show View.move now _ _ _ = _
    rw [hx'', hy'']
    unfold View.move
    rw [show Change.read Content.list? none (db.view now source) = some items from hitems,
      show Change.read Content.list? (some []) (db.view now destination) = some others from hothers]
    simp only [hvalue]
    rfl
  | absent hnone =>
    have hsame : (Write.move source destination).apply now (db.view now) = db.view now :=
      move_of_none (.inl hnone)
    exact computePair_performs (r := (.ok .null, db.slot now source, db.slot now destination))
      h hne (by rw [movePair, hm]) hx hy (hsame.trans hself.symm) nofun
  | refused e hnone =>
    have hsame : (Write.move source destination).apply now (db.view now) = db.view now :=
      move_of_none hnone
    exact computePair_performs (r := (.error e, db.slot now source, db.slot now destination))
      (f := movePair) h hne (by rw [movePair, hm]) hx hy (hsame.trans hself.symm) fun _ _ => hsame

/-! ## Commands -/

theorem run_performs (h : db.WF) (g : Draws) (c : ListCommand) (hc : c.Proper) :
    Performs now db (c.run now db g).reply (c.run now db g).db c.write := by
  cases c with
  | push place key values =>
    show Performs now db (runPush now db place key values).1 (runPush now db place key values).2 _
    exact replying_performs h (push_respects place hc)
  | pop place key count =>
    show Performs now db (runPop now db place key count).1 (runPop now db place key count).2 _
    exact replying_performs h (pop_respects place count)
  | length key => exact reading_performs h _ _
  | range key start stop => exact reading_performs h _ _
  | index key i => exact reading_performs h _ _
  | set key i value =>
    show Performs now db (runSet now db key i.toInt value).1 (runSet now db key i.toInt value).2 _
    exact replying_performs h (setItem_respects i.toInt value)
  | insert side key pivot value =>
    show Performs now db (runInsert now db side key pivot value).1
      (runInsert now db side key pivot value).2 _
    exact replying_performs h (insertItem_respects side pivot value)
  | remove key count value =>
    show Performs now db (runRemove now db key count.toInt value).1
      (runRemove now db key count.toInt value).2 _
    exact replying_performs h (removeItem_respects count.toInt value)
  | popPush source destination =>
    unfold run write
    by_cases heq : source = destination
    · simp only [if_pos heq]
      exact replying_performs h rotate_respects
    · simp only [if_neg heq]
      exact runMove_performs h heq

end ListCommand

end RespStore
