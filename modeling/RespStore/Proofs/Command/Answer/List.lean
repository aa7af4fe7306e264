import RespStore.Proofs.Command.Answer.Basic
import RespStore.Proofs.Command.List

/-!
# Answers of commands on lists
-/

namespace RespStore

/-- The items that popping takes, in the order in which it takes them. -/
def ListEnd.popped (place : ListEnd) (count : Nat) (items : List Bytes) : List Bytes :=
  match place with
  | left => items.take count
  | right => items.reverse.take count

namespace ListCommand

/-- What is replied when a list takes items from an end: an array of as many as there are if a count
is given, otherwise one item. -/
def popReply (place : ListEnd) (count : Option Nat) (items : List Bytes) : Frame :=
  match count with
  | none => .ofOption .bulk (place.popped 1 items).head?
  | some count => .ofList .bulk (place.popped count items)

/-- What is replied when the last element of a list moves to another list. -/
def moveAnswer (source destination : Option Entry) : Frame :=
  Entry.answer Content.list? .null (fun items =>
    match Change.read Content.list? (some []) destination with
    | some _ => .ofOption .bulk items.getLast?
    | none => .wrongType) source

/-- What is replied to a command. -/
def answer (v : View) : ListCommand → Frame
  | push place key values => Entry.answer Content.list? (.count values.length)
      (fun items => .count (place.extend values items).length) (v key)
  | pop place key count => Entry.answer Content.list? .null (popReply place count) (v key)
  | length key => Entry.answer Content.list? (.count 0) (fun items => .count items.length) (v key)
  | range key start stop => Entry.answer Content.list? (.array [])
      (fun items => .ofList .bulk (sliceRange start.toInt stop.toInt items)) (v key)
  | index key i => Entry.answer Content.list? .null
      (fun items => .ofOption .bulk
        ((LinkedList.position? items.length i.toInt).bind (items[·]?))) (v key)
  | set key i _ => Entry.answer Content.list? (.error StoreError.noSuchKey.message)
      (fun items => (LinkedList.position? items.length i.toInt).elim
        (.error StoreError.indexOutOfRange.message) fun _ => .ok) (v key)
  | insert side key pivot value => Entry.answer Content.list? (.integer 0)
      (fun items => (side.insert? pivot value items).elim (.integer (-1)) (.count ·.length)) (v key)
  | remove key count value => Entry.answer Content.list? (.count 0)
      (fun items => .count (LinkedList.eraseValues items value count.toInt).1) (v key)
  | popPush source destination =>
    if source = destination then
      Entry.answer Content.list? .null (fun items => .ofOption .bulk items.getLast?) (v source)
    else moveAnswer (v source) (v destination)

/-! ## Linked lists -/

section LinkedList

variable {l : LinkedList}

theorem pop_fst (h : l.WF) (place : ListEnd) :
    (place.pop l).1 = (place.popped 1 l.toList).head? := by
  cases place with
  | left =>
    refine (l.popFront_spec h).1.trans ?_
    cases l.toList <;> rfl
  | right =>
    refine (l.popBack_spec h).1.trans ?_
    rw [← List.head?_reverse]
    show l.toList.reverse.head? = (l.toList.reverse.take 1).head?
    cases l.toList.reverse <;> rfl

theorem popped_nil (place : ListEnd) (count : Nat) : place.popped count [] = [] := by
  cases place with
  | left => exact List.take_nil
  | right => exact List.take_nil

theorem popped_succ {place : ListEnd} {items : List Bytes} {value : Bytes}
    (h : (place.popped 1 items).head? = some value) (count : Nat) :
    place.popped (count + 1) items = value :: place.popped count (place.remaining 1 items) := by
  cases place with
  | left =>
    cases items with
    | nil => cases h
    | cons x items =>
      cases h
      rfl
  | right =>
    cases items using List.reverseRecOn with
    | nil => cases h
    | append_singleton items x =>
      simp only [ListEnd.popped, List.reverse_append, List.reverse_singleton, List.singleton_append,
        List.take_succ_cons, List.head?_cons, Option.some.injEq] at h
      subst h
      simp [ListEnd.popped, ListEnd.remaining]

theorem popMany_fst (h : l.WF) (place : ListEnd) (count : Nat) :
    (place.popMany count l).1 = place.popped count l.toList := by
  induction count generalizing l with
  | zero => cases place <;> rfl
  | succ count ih =>
    have hfst := pop_fst h place
    obtain ⟨hw, hl, hnone⟩ := pop_spec h place
    rw [ListEnd.popMany]
    rcases hp : place.pop l with ⟨_ | value, l'⟩
    · rw [hp] at hnone
      rw [hnone rfl, popped_nil]
    · rw [hp] at hw hl hfst
      rw [popped_succ hfst.symm, ← hl, ← ih hw]

end LinkedList

variable [Digest String] {db : Db} {now : Nat} {key : String}

open Db Value

theorem runPush_answer (h : db.WF) (place : ListEnd) (values : List Bytes) :
    (runPush now db place key values).1 = Entry.answer Content.list? (.count values.length)
      (fun items => .count (place.extend values items).length) (db.view now key) := by
  have hcount : ∀ l : LinkedList, l.WF →
      Frame.count (values.foldl place.push l).size = .count (place.extend values l.toList).length := by
    intro l hw
    obtain ⟨hw', hl'⟩ := foldl_push_spec hw place values
    rw [LinkedList.size_eq_length hw', hl']
  refine replying_answers h asList_reads (fun _ => rfl) ?_ ?_
  · refine (hcount .empty LinkedList.wf_empty).trans (congrArg Frame.count ?_)
    rw [show LinkedList.empty.toList = [] from rfl]
    cases place <;> simp [ListEnd.extend]
  · exact fun v l hw => hcount l hw

theorem runPop_answer (h : db.WF) (place : ListEnd) (count : Option Nat) :
    (runPop now db place key count).1 =
      Entry.answer Content.list? .null (popReply place count) (db.view now key) := by
  refine replying_answers h asList_reads (fun _ => rfl) rfl fun v l hw => ?_
  cases count with
  | none => exact congrArg (Frame.ofOption .bulk) (pop_fst hw place)
  | some count => exact congrArg (Frame.ofList .bulk) (popMany_fst hw place count)

theorem runSet_answer (h : db.WF) (i : Int) (value : Bytes) :
    (runSet now db key i value).1 = Entry.answer Content.list? (.error StoreError.noSuchKey.message)
      (fun items => (LinkedList.position? items.length i).elim
        (.error StoreError.indexOutOfRange.message) fun _ => .ok) (db.view now key) := by
  refine replying_answers h asList_reads (fun _ => rfl) rfl fun v l hw => ?_
  cases hi : l.index? i with
  | none =>
    rw [LinkedList.position?_eq_none_of_index? hw hi]
    rfl
  | some id =>
    obtain ⟨-, k, hk, -⟩ := LinkedList.set_spec hw hi value
    rw [hk]
    rfl

theorem runInsert_answer (h : db.WF) (side : Side) (pivot value : Bytes) :
    (runInsert now db side key pivot value).1 = Entry.answer Content.list? (.integer 0)
      (fun items => (side.insert? pivot value items).elim (.integer (-1)) (.count ·.length))
      (db.view now key) := by
  refine replying_answers h asList_reads (fun _ => rfl) rfl fun v l hw => ?_
  have hins := inserted_spec hw side pivot value
  generalize (l.find? pivot).bind _ = r at hins ⊢
  cases r with
  | none =>
    rw [hins]
    rfl
  | some r =>
    rw [hins.2, Option.elim_some, ← LinkedList.size_eq_length hins.1]
    rfl

theorem runRemove_answer (h : db.WF) (count : Int) (value : Bytes) :
    (runRemove now db key count value).1 = Entry.answer Content.list? (.count 0)
      (fun items => .count (LinkedList.eraseValues items value count).1) (db.view now key) := by
  exact replying_answers h asList_reads (fun _ => rfl) rfl fun v l hw =>
    congrArg Frame.count (LinkedList.removeValues_spec hw value count).1

theorem runRotate_answer (h : db.WF) :
    (runRotate now db key).1 = Entry.answer Content.list? .null
      (fun items => .ofOption .bulk items.getLast?) (db.view now key) := by
  refine replying_answers h asList_reads (fun _ => rfl) rfl fun v l hw => ?_
  obtain ⟨hw', hl'⟩ := LinkedList.rotate_spec hw
  refine congrArg (Frame.ofOption .bulk) ((LinkedList.head_bind_get? hw').trans ?_)
  rw [hl']
  cases hlast : l.toList.getLast? with
  | none => rw [List.getLast?_eq_none_iff.mp hlast]; rfl
  | some x => rfl

theorem runMove_answer (h : db.WF) {source destination : String} (hne : source ≠ destination) :
    (runMove now db source destination).1 =
      moveAnswer (db.view now source) (db.view now destination) := by
  rw [runMove_eq, computePair_fst h hne movePair]
  refine slot_answers
    (fun x => Frame.ofExcept (movePair x (db.slot now destination)).1) asList_reads (R := Eq)
    rfl ?_ ?_ (h.slot now source)
  · intro v src hsrc hw
    obtain ⟨hvalue, -, -⟩ := LinkedList.popBack_spec hw
    rw [show db.view now destination = (db.slot now destination).map entry from rfl]
    rcases slot_reads asList_reads .empty LinkedList.wf_empty (Eq.refl [])
      (h.slot now destination) with ⟨dst, hdst, -, hread⟩ | ⟨herr, hread⟩
    · rw [hread, ← hvalue]
      simp only [movePair, moveTail, hsrc, hdst, bind, Except.bind]
      cases src.popBack.1 <;> rfl
    · rw [hread]
      simp only [movePair, moveTail, hsrc, herr, bind, Except.bind]
      rfl
  · intro v herr
    simp only [movePair, moveTail, herr, bind, Except.bind]
    rfl

theorem run_answer (h : db.WF) (g : Draws) (c : ListCommand) :
    (c.run now db g).reply = c.answer (db.view now) := by
  cases c with
  | push place key values => exact runPush_answer h place values
  | pop place key count => exact runPop_answer h place count
  | length key => exact reading_eq h asList_reads fun l hw => by rw [LinkedList.size_eq_length hw]
  | range key start stop => exact reading_eq h asList_reads fun _ _ => rfl
  | index key i => exact reading_eq h asList_reads fun l hw => by rw [LinkedList.index?_bind_get? hw]
  | set key i value => exact runSet_answer h i.toInt value
  | insert side key pivot value => exact runInsert_answer h side pivot value
  | remove key count value => exact runRemove_answer h count.toInt value
  | popPush source destination =>
    unfold run answer
    by_cases heq : source = destination
    · simp only [if_pos heq]
      exact runRotate_answer h
    · simp only [if_neg heq]
      exact runMove_answer h heq

end ListCommand

end RespStore
