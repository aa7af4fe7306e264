import RespStore.Proofs.Command.Answer.Basic
import RespStore.Proofs.Command.String

/-!
# Answers of commands on strings
-/

namespace RespStore.StringCommand

/-- The sum of an integer and `delta`, or an error if 64 bits do not hold it. -/
def sumReply (delta n : Int) : Frame :=
  match IntFormat.int64.add? n delta with
  | some sum => .integer (Int64.ofInt sum)
  | none => .error StoreError.overflow.message

/-- What is replied when `delta` is added to an integer. -/
def incrAnswer (delta : Int) (slot : Option Entry) : Frame :=
  Entry.answer Content.string? (sumReply delta 0) (fun bytes =>
    (IntFormat.int64.parse? bytes).elim (.error StoreError.notInteger.message) (sumReply delta)) slot

/-- The sum of a float and `delta`, or an error if it is not finite. -/
def floatSumReply (delta x : Binary64) : Frame :=
  if (x + delta).isFinite then .number (x + delta) else .error StoreError.notFinite.message

/-- What is replied when `delta` is added to a float. -/
def incrFloatAnswer (delta : Binary64) (slot : Option Entry) : Frame :=
  Entry.answer Content.string? (floatSumReply delta .zero) (fun bytes =>
    ((Binary64.read? bytes).filter (·.isFinite)).elim (.error StoreError.notFloat.message)
      (floatSumReply delta)) slot

/-- Whether a string is stored over an entry or none. -/
def storedReply (condition : SetCondition) (slot : Option Entry) : Frame :=
  match condition, slot with
  | .ifAbsent, some _ | .ifPresent, none => .null
  | _, _ => .ok

/-- What is replied to a command. -/
def answer (now : Nat) (v : View) : StringCommand → Frame
  | get key => Entry.answer Content.string? .null .bulk (v key)
  | set key _ condition none => storedReply condition (v key)
  | set key _ condition (some expiry) =>
    match Expiry.deadline? expiry now with
    | none => .error (CommandError.badExpireTime "set").message
    | some _ => storedReply condition (v key)
  | setnx key _ => .ofBool (v key).isNone
  | getdel key => Entry.answer Content.string? .null .bulk (v key)
  | mget keys => .ofList (fun key => .ofOption .bulk ((v key).bind (·.content.string?))) keys
  | mset _ => .ok
  | incr key => incrAnswer 1 (v key)
  | decr key => incrAnswer (-1) (v key)
  | incrBy key delta => incrAnswer delta.toInt (v key)
  | decrBy key delta =>
    if delta = Int64.minValue then .error StoreError.overflow.message
    else incrAnswer (-delta.toInt) (v key)
  | incrByFloat key delta => incrFloatAnswer delta (v key)
  | append key value => Entry.answer Content.string? (.count value.length)
      (fun bytes => .count (bytes ++ value).length) (v key)
  | strlen key => Entry.answer Content.string? (.count 0) (fun bytes => .count bytes.length) (v key)

variable [Digest String] {db : Db} {now : Nat} {key : String}

open Db Value

theorem runSet_answer (value : Bytes) (condition : SetCondition) (deadline : Option Nat) :
    (runSet now db key value condition deadline).1 = storedReply condition (db.view now key) := by
  rw [runSet_fst, show db.view now key = (db.slot now key).map entry from rfl]
  cases condition <;> cases db.slot now key <;> rfl

theorem readAll_fst (h : db.WF) (now : Nat) (keys : List String) :
    (readAll now keys db).1 =
      keys.map fun key => .ofOption .bulk ((db.view now key).bind (·.content.string?)) := by
  induction keys generalizing db with
  | nil => rfl
  | cons key keys ih =>
    obtain ⟨hw, hv⟩ := get_unchanged db now key h
    show .ofOption .bulk ((db.get now key).1.bind fun v => v.asString.toOption) ::
      (readAll now keys (db.get now key).2).1 = _
    rw [ih hw, hv, get_fst, List.map_cons, show db.view now key = (db.slot now key).map entry from rfl]
    congr 2
    cases db.slot now key with
    | none => rfl
    | some v =>
      obtain ⟨d, t⟩ := v
      cases d <;> rfl

theorem runIncr_answer (h : db.WF) (delta : Int) :
    (runIncr now db key delta).1 = incrAnswer delta (db.view now key) := by
  show Frame.ofExcept ((db.incrBy now key .int64 delta).1.map _) = _
  rw [Db.incrBy]
  refine edit_answers h asString_reads (fun _ => rfl) ?_ ?_
  · dsimp only [sumReply, pure, Except.pure, bind, Except.bind]
    cases IntFormat.int64.add? 0 delta <;> rfl
  · intro v bytes _
    dsimp only [id]
    cases IntFormat.int64.parse? bytes with
    | none => rfl
    | some n =>
      dsimp only [Option.elim_some, sumReply, pure, Except.pure, bind, Except.bind]
      cases IntFormat.int64.add? n delta <;> rfl

theorem incrByFloat_answer (h : db.WF) (delta : Binary64) :
    .ofExcept ((db.incrByFloat now key delta).1.map .number) =
      incrFloatAnswer delta (db.view now key) := by
  rw [Db.incrByFloat]
  refine edit_answers h asString_reads (fun _ => rfl) ?_ ?_
  · dsimp only [floatSumReply, pure, Except.pure, bind, Except.bind]
    cases (Binary64.zero + delta).isFinite <;> rfl
  · intro v bytes _
    dsimp only [id]
    cases (Binary64.read? bytes).filter (·.isFinite) with
    | none => rfl
    | some x =>
      dsimp only [Option.elim_some, floatSumReply, pure, Except.pure, bind, Except.bind]
      cases (x + delta).isFinite <;> rfl

theorem getdel_answer (h : db.WF) :
    (db.replying now key fun slot =>
      match slot with
      | none => return (.null, none)
      | some v => return (.bulk (← v.asString), none)).1 =
      Entry.answer Content.string? .null .bulk (db.view now key) :=
  replying_answers h asString_reads (fun _ => rfl) rfl fun _ _ _ => rfl

theorem runAppend_answer (h : db.WF) (value : Bytes) :
    (runAppend now db key value).1 = Entry.answer Content.string? (.count value.length)
      (fun bytes => .count (bytes ++ value).length) (db.view now key) :=
  replying_answers h asString_reads (fun _ => rfl) rfl fun _ _ _ => rfl

theorem run_answer (h : db.WF) (g : Draws) (c : StringCommand) :
    (c.run now db g).reply = c.answer now (db.view now) := by
  cases c with
  | get key => exact reading_eq h asString_reads fun _ _ => rfl
  | set key value condition expiry =>
    cases expiry with
    | none => exact runSet_answer value condition none
    | some expiry =>
      rw [run, answer]
      cases Expiry.deadline? expiry now with
      | none => rfl
      | some t => exact runSet_answer value condition (some t)
  | setnx key value =>
    show Frame.ofBool (db.setIfAbsent now key (.string value)).1 = .ofBool (db.view now key).isNone
    rw [setIfAbsent, compute_fst, view, Option.isNone_map]
    cases db.slot now key <;> rfl
  | getdel key => exact getdel_answer h
  | mget keys => exact congrArg Frame.array (readAll_fst h now keys)
  | mset pairs => rfl
  | incr key => exact runIncr_answer h 1
  | decr key => exact runIncr_answer h (-1)
  | incrBy key delta => exact runIncr_answer h delta.toInt
  | decrBy key delta =>
    rw [run, answer]
    split
    · rfl
    · exact runIncr_answer h (-delta.toInt)
  | incrByFloat key delta => exact incrByFloat_answer h delta
  | append key value => exact runAppend_answer h value
  | strlen key => exact reading_eq h asString_reads fun _ _ => rfl

end RespStore.StringCommand
