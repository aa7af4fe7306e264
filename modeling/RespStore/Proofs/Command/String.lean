import RespStore.Command.String.Run
import RespStore.Proofs.Keyspace.Write

/-!
# Writes of commands on strings
-/

namespace RespStore

namespace Content

/-- The integer that a string reads as. -/
def integer? (c : Content) : Option Int := c.string?.bind IntFormat.int64.parse?

/-- The finite float that a string reads as. -/
def float? (c : Content) : Option Binary64 :=
  c.string?.bind fun bytes => (Binary64.read? bytes).filter (·.isFinite)

end Content

namespace Change

/-- Stores a string under a deadline if a condition on what is there holds. -/
def setString (value : Bytes) (condition : SetCondition) (deadline : Option Nat) : Change :=
  fun slot =>
    match condition, slot with
    | .ifAbsent, some e => some e
    | .ifPresent, none => none
    | _, _ => some ⟨.string value, deadline.map (max 1)⟩

/-- Takes a string away; other content stays. -/
def takeString : Change
  | some ⟨.string _, _⟩ => none
  | slot => slot

def incrBy (delta : Int) : Change :=
  edit Content.integer? (some 0) fun n =>
    (IntFormat.int64.add? n delta).map fun n => .string (Decimal.ofInt n)

def incrByFloat (delta : Binary64) : Change :=
  edit Content.float? (some .zero) fun x =>
    if (x + delta).isFinite then some (.string (x + delta).text) else none

def append (value : Bytes) : Change :=
  edit Content.string? (some []) fun bytes => some (.string (bytes ++ value))

end Change

namespace StringCommand

/-- What a command writes to its database. -/
def write (now : Nat) : StringCommand → Write
  | get _ | mget _ | strlen _ => .nothing
  | set key value condition none => .change key (.setString value condition none)
  | set key value condition (some expiry) =>
    match Expiry.deadline? expiry now with
    | none => .nothing
    | some t => .change key (.setString value condition (some t))
  | setnx key value => .change key (.setString value .ifAbsent none)
  | getdel key => .change key .takeString
  | mset pairs => .puts (pairs.map fun p => (p.1, some ⟨.string p.2, none⟩))
  | incr key => .change key (.incrBy 1)
  | decr key => .change key (.incrBy (-1))
  | incrBy key delta => .change key (.incrBy delta.toInt)
  | decrBy key delta =>
    if delta = Int64.minValue then .nothing else .change key (.incrBy (-delta.toInt))
  | incrByFloat key delta => .change key (.incrByFloat delta)
  | append key value => .change key (.append value)

variable [Digest String] {db : Db} {now : Nat} {key : String} {value : Bytes} {slot : Option Value}

open Db Value

theorem string_wf (bytes : Bytes) : (Data.string bytes).WF := ⟨trivial, rfl⟩

/-! ## Changes -/

theorem set_respects (value : Bytes) (condition : SetCondition) (deadline : Option Nat) :
    Respects (fun slot =>
      if SetCondition.allows condition slot then
        (true, some (Value.withExpiry (.string value) deadline))
      else (false, slot)) (.setString value condition deadline) := by
  intro slot hslot
  have hnew : SlotWF (some (Value.withExpiry (.string value) deadline)) :=
    slotWF_some (string_wf value)
  cases condition with
  | always => exact ⟨hnew, rfl⟩
  | ifAbsent =>
    cases slot with
    | none => exact ⟨hnew, rfl⟩
    | some v => exact ⟨hslot, rfl⟩
  | ifPresent =>
    cases slot with
    | none => exact ⟨hslot, rfl⟩
    | some v => exact ⟨hnew, rfl⟩

theorem setIfAbsent_respects (value : Bytes) :
    Respects (fun slot : Option Value =>
      if slot.isSome then (false, slot) else (true, some (Value.string value)))
      (.setString value .ifAbsent none) := by
  intro slot hslot
  cases slot with
  | none => exact ⟨slotWF_some (string_wf value), rfl⟩
  | some v => exact ⟨hslot, rfl⟩

/-- An edit that reads a number from a string, with `zero` for an absent one, and goes on by `k`. -/
theorem number_respects {α β : Type} {p : Bytes → Option α} {zero : α}
    {f : Option Value → Except StoreError (β × Option Value)}
    {k : Option Value → α → Except StoreError (β × Option Value)} {F : α → Option Content}
    (hnone : f none = k none zero)
    (hsome : ∀ v bytes n, v.asString = .ok bytes → p bytes = some n → f (some v) = k (some v) n)
    (hnumber : ∀ v bytes, v.asString = .ok bytes → p bytes = none → ∃ e, f (some v) = .error e)
    (hstring : ∀ v e, v.asString = .error e → f (some v) = .error e)
    (hk : ∀ slot n, match k slot n with
      | .ok r => ∃ bytes, r.2 = Value.store slot (.string bytes) ∧ F n = some (.string bytes)
      | .error _ => F n = none) :
    EditRespects f (Change.edit (fun c => c.string?.bind p) (some zero) F) := by
  intro slot hslot
  have step : ∀ n, Change.read (fun c => c.string?.bind p) (some zero) (slot.map entry) = some n →
      match k slot n with
      | .ok r => SlotWF r.2 ∧ r.2.map entry =
        Change.edit (fun c => c.string?.bind p) (some zero) F (slot.map entry)
      | .error _ => Change.edit (fun c => c.string?.bind p) (some zero) F (slot.map entry) =
        slot.map entry := by
    intro n hread
    have hn := hk slot n
    cases hkn : k slot n with
    | ok r =>
      simp only [hkn] at hn ⊢
      obtain ⟨bytes, hr, hF⟩ := hn
      rw [hr]
      exact store_edits hread hF (string_wf bytes)
    | error e =>
      simp only [hkn] at hn ⊢
      exact Change.edit_of_refused hread hn
  cases slot with
  | none =>
    rw [hnone]
    exact step zero rfl
  | some v =>
    have hread : Change.read (fun c => c.string?.bind p) (some zero) ((some v).map entry) =
        v.data.content.string?.bind p := rfl
    rcases asString_reads (hslot v rfl) with ⟨bytes, hb, -, hc⟩ | ⟨he, hc⟩
    · rw [hc] at hread
      cases hp : p bytes with
      | some n =>
        rw [hsome v bytes n hb hp]
        exact step n (hread.trans hp)
      | none =>
        obtain ⟨e, he⟩ := hnumber v bytes hb hp
        rw [he]
        exact Change.edit_of_read_none (hread.trans hp)
    · rw [hc] at hread
      rw [hstring v _ he]
      exact Change.edit_of_read_none hread

/-- Adding to the integer under a key is an edit of its value. -/
theorem exists_incrBy_edit (delta : Int) :
    ∃ f, EditRespects f (.incrBy delta) ∧
      ∀ (db : Db) now key, db.incrBy now key .int64 delta = db.edit now key f := by
  refine ⟨_, number_respects
    (k := fun slot n => (IntFormat.int64.add? n delta).elim (.error .overflow) fun n =>
      .ok (n, Value.store slot (.string (Decimal.ofInt n)))) ?_ ?_ ?_ ?_ ?_, fun _ _ _ => rfl⟩
  · dsimp only [pure, Except.pure, bind, Except.bind]
    cases IntFormat.int64.add? 0 delta <;> rfl
  · intro v bytes n hb hp
    simp only [hb, hp, bind, Except.bind, pure, Except.pure]
    cases IntFormat.int64.add? n delta <;> rfl
  · intro v bytes hb hp
    exact ⟨.notInteger, by simp only [hb, hp, bind, Except.bind]⟩
  · intro v e he
    simp only [he, bind, Except.bind]
  · intro slot n
    cases hadd : IntFormat.int64.add? n delta with
    | none => rfl
    | some m => exact ⟨Decimal.ofInt m, rfl, rfl⟩

theorem runIncr_performs (h : db.WF) (delta : Int) :
    Performs now db (runIncr now db key delta).1 (runIncr now db key delta).2
      (.change key (.incrBy delta)) := by
  obtain ⟨f, hf, hedit⟩ := exists_incrBy_edit delta
  show Performs now db (.ofExcept ((db.incrBy now key .int64 delta).1.map _))
    (db.incrBy now key .int64 delta).2 _
  rw [hedit]
  refine edit_performs h hf fun r hr m => ?_
  rw [edit_fst, hr]
  exact nofun

theorem incrByFloat_performs (h : db.WF) (delta : Binary64) :
    Performs now db (.ofExcept ((db.incrByFloat now key delta).1.map .number))
      (db.incrByFloat now key delta).2 (.change key (.incrByFloat delta)) := by
  refine edit_performs (F := .incrByFloat delta) h (number_respects
    (p := fun bytes => (Binary64.read? bytes).filter (·.isFinite))
    (k := fun slot x => if (x + delta).isFinite then
        .ok (x + delta, Value.store slot (.string (x + delta).text))
      else .error .notFinite) rfl ?_ ?_ ?_ ?_) ?_
  · intro v bytes x hb hp
    simp only [hb, hp, bind, Except.bind, pure, Except.pure]
    rfl
  · intro v bytes hb hp
    exact ⟨.notFloat, by simp only [hb, hp, bind, Except.bind]⟩
  · intro v e he
    simp only [he, bind, Except.bind]
  · intro slot x
    cases hfin : (x + delta).isFinite with
    | false => simp
    | true => exact ⟨(x + delta).text, rfl, rfl⟩
  · intro r hr m
    have hfst : (db.incrByFloat now key delta).1 = .ok r.1 :=
      (edit_fst db now key _).trans (congrArg (Except.map (·.1)) hr)
    rw [hfst]
    exact nofun

theorem append_respects (value : Bytes) :
    ReplyRespects (fun slot => do
      let current ← slot.elim (pure []) Value.asString
      let value := current ++ value
      return (.count value.length, Value.store slot (.string value))) (.append value) := by
  intro slot hslot
  rcases slot_reads asString_reads [] trivial rfl hslot with
    ⟨bytes, hb, -, hread⟩ | ⟨he, hread⟩
  · simp only [hb]
    exact ⟨store_edits (x := bytes) hread rfl (string_wf _), nofun⟩
  · simp only [he]
    exact Change.edit_of_read_none hread

theorem getdel_respects :
    ReplyRespects (fun slot =>
      match slot with
      | none => return (.null, none)
      | some v => return (.bulk (← v.asString), none)) .takeString := by
  intro slot hslot
  cases slot with
  | none => exact ⟨⟨slotWF_none, rfl⟩, nofun⟩
  | some v =>
    obtain ⟨d, t⟩ := v
    cases d with
    | string bytes => exact ⟨⟨slotWF_none, rfl⟩, nofun⟩
    | _ => exact rfl

/-! ## Commands -/

theorem readAll_unchanged (now : Nat) (keys : List String) (db : Db) :
    Unchanged now db (readAll now keys db).2 := by
  induction keys generalizing db with
  | nil => exact .rfl
  | cons key keys ih => exact (get_unchanged db now key).trans (ih _)

theorem runSet_performs (h : db.WF) (value : Bytes) (condition : SetCondition)
    (deadline : Option Nat) :
    Performs now db (runSet now db key value condition deadline).1
      (runSet now db key value condition deadline).2
      (.change key (.setString value condition deadline)) := by
  have hreply : ∀ (stored : Bool) m, (if stored then Frame.ok else .null) ≠ .error m := by
    intro stored m
    cases stored with
    | true => exact nofun
    | false => exact nofun
  exact compute_performs h (set_respects value condition deadline) (hreply _)

/-- Strings put under keys one after the other. -/
theorem mset_performs (h : db.WF) (pairs : List (String × Bytes)) :
    Performs now db .ok (pairs.foldl (fun db p => db.set p.1 (.string p.2)) db)
      (.puts (pairs.map fun p => (p.1, some ⟨.string p.2, none⟩))) := by
  induction pairs generalizing db with
  | nil => exact ⟨h, rfl, nofun⟩
  | cons p pairs ih =>
    obtain ⟨hw, hv⟩ := set_spec h (v := .string p.2) (string_wf p.2) p.1 now
    have hrest := ih hw
    refine ⟨hrest.wf, ?_, nofun⟩
    show (pairs.foldl _ (db.set p.1 (.string p.2))).view now = _
    rw [hrest.view, hv]
    rfl

theorem run_performs (h : db.WF) (g : Draws) (c : StringCommand) :
    Performs now db (c.run now db g).reply (c.run now db g).db (c.write now) := by
  cases c with
  | get key => exact reading_performs h _ _
  | set key value condition expiry =>
    cases expiry with
    | none => exact runSet_performs h value condition none
    | some expiry =>
      rw [run, write]
      cases Expiry.deadline? expiry now with
      | none => exact Unchanged.rfl.performs h
      | some t => exact runSet_performs h value condition (some t)
  | setnx key value => exact compute_performs h (setIfAbsent_respects value) nofun
  | getdel key => exact replying_performs h getdel_respects
  | mget keys => exact (readAll_unchanged now keys db).performs h
  | mset pairs => exact mset_performs h pairs
  | incr key => exact runIncr_performs h 1
  | decr key => exact runIncr_performs h (-1)
  | incrBy key delta => exact runIncr_performs h delta.toInt
  | decrBy key delta =>
    rw [run, write]
    by_cases hmin : delta = Int64.minValue
    · rw [if_pos hmin, if_pos hmin]
      exact Unchanged.rfl.performs h
    · rw [if_neg hmin, if_neg hmin]
      exact runIncr_performs h (-delta.toInt)
  | incrByFloat key delta => exact incrByFloat_performs h delta
  | append key value => exact replying_performs h (append_respects value)
  | strlen key => exact reading_performs h _ _

theorem runSet_fst (db : Db) (now : Nat) (key : String) (value : Bytes) (condition : SetCondition)
    (deadline : Option Nat) :
    (runSet now db key value condition deadline).1 =
      if SetCondition.allows condition (db.slot now key) then .ok else .null := by
  have hfst := compute_fst db now key fun slot =>
    if SetCondition.allows condition slot then
      (true, some (Value.withExpiry (.string value) deadline))
    else (false, slot)
  unfold runSet
  simp only [hfst]
  cases SetCondition.allows condition (db.slot now key) <;> rfl

/-- A command that stores a string fails, or tells whether it has stored it. -/
theorem set_reply (db : Db) (now : Nat) (g : Draws) (key : String) (value : Bytes)
    (condition : SetCondition) (expiry : Option Expiry) :
    (∃ m, (run now db g (.set key value condition expiry)).reply = .error m) ∨
      ∃ deadline, deadline.isSome = expiry.isSome ∧
        write now (.set key value condition expiry) =
          .change key (.setString value condition deadline) ∧
        ((run now db g (.set key value condition expiry)).reply = .null ∧
            Change.setString value condition deadline (db.view now key) = db.view now key ∨
          (run now db g (.set key value condition expiry)).reply = .ok ∧
            Change.setString value condition deadline (db.view now key) =
              some ⟨.string value, deadline.map (max 1)⟩) := by
  have hstored : ∀ deadline,
      (runSet now db key value condition deadline).1 = .null ∧
          Change.setString value condition deadline (db.view now key) = db.view now key ∨
        (runSet now db key value condition deadline).1 = .ok ∧
          Change.setString value condition deadline (db.view now key) =
            some ⟨.string value, deadline.map (max 1)⟩ := by
    intro deadline
    have hview : db.view now key = (db.slot now key).map entry := rfl
    rw [runSet_fst, hview]
    cases condition with
    | always => exact .inr ⟨rfl, rfl⟩
    | ifAbsent =>
      cases db.slot now key with
      | none => exact .inr ⟨rfl, rfl⟩
      | some v => exact .inl ⟨rfl, rfl⟩
    | ifPresent =>
      cases db.slot now key with
      | none => exact .inl ⟨rfl, rfl⟩
      | some v => exact .inr ⟨rfl, rfl⟩
  cases expiry with
  | none => exact .inr ⟨none, rfl, rfl, hstored none⟩
  | some expiry =>
    rw [run, write]
    cases Expiry.deadline? expiry now with
    | none => exact .inl ⟨_, rfl⟩
    | some t => exact .inr ⟨some t, rfl, rfl, hstored (some t)⟩

end StringCommand

end RespStore
