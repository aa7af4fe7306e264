import RespStore.Proofs.Command.Write
import RespStore.Proofs.Keyspace.Store

/-!
# Running commands on views

A command does to what shows of the databases what its write says, and nothing if it replies with
an error.
-/

namespace RespStore.Command

/-- What a command makes of what shows of the databases, in a session that has selected the `i`-th
one. -/
def effect (now : Nat) (popped : List String) (i : Nat) (c : Command) (vs : Nat → View) :
    Nat → View :=
  if c.isFlushAll then fun _ => View.empty
  else Function.update vs i ((c.write now popped).apply now (vs i))

variable [Digest String] {now : Nat} {s : Session} {k : Keyspace} {c : Command}
  {popped : List String} {e : Effect}

/-- Selecting a database that there is not leaves the session as it is. -/
theorem runSelect_eq (now : Nat) (s : Session) (k : Keyspace) (i : Nat) :
    runServer now s k (.select i) =
      if i < k.store.size then ⟨.ok, ⟨i⟩, k⟩
      else ⟨.error StoreError.dbIndexOutOfRange.message, s, k⟩ := by
  unfold runServer
  simp only [Store.select?_eq]
  by_cases hi : i < k.store.size
  · simp only [if_pos hi]
  · simp only [if_neg hi]

/-- Only one command selects another database. -/
theorem run_session [Matcher] (h : c.isSelect = false) : (c.run now s k).session = s := by
  cases c with
  | server c =>
    cases c with
    | select i => cases h
    | _ => rfl
  | _ => rfl

/-- Selecting a database leaves the keyspace alone. -/
theorem run_keyspace_of_isSelect [Matcher] (h : c.isSelect = true) : (c.run now s k).keyspace = k := by
  cases c with
  | server c =>
    cases c with
    | select i =>
      show (runServer now s k (.select i)).keyspace = k
      rw [runSelect_eq]
      split <;> rfl
    | _ => cases h
  | _ => cases h

/-- No command adds or takes away a database. -/
theorem run_size [Matcher] : (c.run now s k).keyspace.store.size = k.store.size := by
  have hdb : ∀ f : Db → Draws → Outcome, (inDb s k f).keyspace.store.size = k.store.size :=
    fun f => Store.size_setDb
  cases c with
  | server c =>
    cases c with
    | select i =>
      show (runServer now s k (.select i)).keyspace.store.size = _
      rw [runSelect_eq]
      split <;> rfl
    | flushAll => exact Store.size_flushAll
    | dbSize => exact hdb _
    | flushDb => exact hdb _
    | objectEncoding name => exact hdb _
    | _ => rfl
  | _ => exact hdb _

/-- What a command that has run leaves behind. -/
structure Ran (now : Nat) (s : Session) (k : Keyspace) (c : Command) (popped : List String)
    (e : Effect) : Prop where
  wf : e.keyspace.store.WF
  selected : e.session.selected < k.store.size
  view : e.keyspace.store.view now = c.effect now popped s.selected (k.store.view now)
  refused : ∀ m, e.reply = .error m →
    e.keyspace.store.view now = k.store.view now ∧ e.session = s

omit [Digest String] in
theorem effect_of_nothing {i : Nat} {vs : Nat → View} (hflush : c.isFlushAll = false)
    (h : c.write now popped = .nothing) : c.effect now popped i vs = vs := by
  rw [effect, hflush, h]
  exact Function.update_eq_self i vs

/-- A command that leaves the databases alone. -/
theorem ran_of_nothing (h : k.store.WF) (hs : s.selected < k.store.size)
    (hflush : c.isFlushAll = false) (hnothing : c.write now popped = .nothing) (reply : Frame) :
    Ran now s k c popped ⟨reply, s, k⟩ where
  wf := h
  selected := hs
  view := (effect_of_nothing hflush hnothing).symm
  refused := fun _ _ => ⟨rfl, rfl⟩

/-- A command that runs in the selected database. -/
theorem ran_of_performs (h : k.store.WF) (hs : s.selected < k.store.size)
    (hflush : c.isFlushAll = false) (f : Db → Draws → Outcome)
    (hf : Db.Performs now (k.store.db s.selected) (f (k.store.db s.selected) k.draws).reply
      (f (k.store.db s.selected) k.draws).db (c.write now popped)) :
    Ran now s k c popped (inDb s k f) where
  wf := h.setDb hs hf.wf
  selected := hs
  view := by
    show (k.store.setDb _ _).view now = _
    rw [Store.view_setDb hs, hf.view, effect, hflush]
    rfl
  refused := fun m hm => by
    refine ⟨?_, rfl⟩
    show (k.store.setDb _ _).view now = _
    rw [Store.view_setDb hs, hf.view, hf.refused m hm]
    exact Function.update_eq_self _ _

theorem runSelect_ran (h : k.store.WF) (hs : s.selected < k.store.size) (i : Nat) :
    Ran now s k (.server (.select i)) popped (runServer now s k (.select i)) := by
  have hsame : (server (.select i)).effect now popped s.selected (k.store.view now) =
      k.store.view now := effect_of_nothing rfl rfl
  rw [runSelect_eq]
  split
  · next hi => exact ⟨h, hi, hsame.symm, nofun⟩
  · exact ⟨h, hs, hsame.symm, fun _ _ => ⟨rfl, rfl⟩⟩

theorem runServer_ran (h : k.store.WF) (hs : s.selected < k.store.size) (c : ServerCommand) :
    Ran now s k (.server c) popped (runServer now s k c) := by
  cases c with
  | select i => exact runSelect_ran h hs i
  | dbSize =>
    exact ran_of_performs h hs rfl (fun db g => ⟨.count db.size, db, g⟩)
      (Db.Unchanged.rfl.performs (h _))
  | flushDb =>
    have hflush := Db.flush_spec (h s.selected) now
    exact ran_of_performs h hs rfl (fun db g => ⟨.ok, db.flush, g⟩) ⟨hflush.1, hflush.2, nofun⟩
  | flushAll =>
    have hflush := Store.flushAll_spec h now
    exact ⟨hflush.1, hs, hflush.2, nofun⟩
  | objectEncoding name =>
    have hget := Db.get_unchanged (k.store.db s.selected) now name (h s.selected)
    show Ran now s k _ popped (inDb s k fun db g =>
      ⟨.ofOption (fun v => .text v.encoding) (db.get now name).1, (db.get now name).2, g⟩)
    exact ran_of_performs h hs rfl _ ⟨hget.1, hget.2, fun _ _ => rfl⟩
  | ping payload => exact ran_of_nothing h hs rfl rfl _
  | echo payload => exact ran_of_nothing h hs rfl rfl _
  | quit => exact ran_of_nothing h hs rfl rfl _
  | commandList => exact ran_of_nothing h hs rfl rfl _
  | commandCount => exact ran_of_nothing h hs rfl rfl _
  | commandInfo names => exact ran_of_nothing h hs rfl rfl _
  | commandDocs => exact ran_of_nothing h hs rfl rfl _

variable [Matcher]

variable (now) in
/-- A random removal takes members that its reply names. -/
theorem runPop_ran (h : k.store.WF) (hs : s.selected < k.store.size) (key : String)
    (count : Option Nat) :
    let popped := SetCommand.popped count k.draws ((k.store.db s.selected).slot now key)
    Ran now s k (.set (.pop key count)) popped (run (.set (.pop key count)) now s k) ∧
      ((run (.set (.pop key count)) now s k).reply = SetCommand.popReply count popped ∧
          popped.length ≤ count.getD 1 ∨
        (run (.set (.pop key count)) now s k).reply = .error StoreError.wrongType.message) := by
  obtain ⟨hperforms, hreply⟩ := SetCommand.runPop_performs (h s.selected) k.draws key count
  exact ⟨ran_of_performs h hs rfl (fun db g => (SetCommand.pop key count).run now db g)
    hperforms, hreply⟩

variable (now) in
theorem run_ran (h : k.store.WF) (hs : s.selected < k.store.size) (hc : c.Proper)
    (hpop : c.rewriting ≠ .removal) : Ran now s k c [] (c.run now s k) := by
  cases c with
  | server c => exact runServer_ran h hs c
  | key c => exact ran_of_performs h hs rfl (fun db g => c.run now db g) (c.run_performs (h _) _)
  | string c =>
    exact ran_of_performs h hs rfl (fun db g => c.run now db g) (c.run_performs (h _) _)
  | list c =>
    exact ran_of_performs h hs rfl (fun db g => c.run now db g) (c.run_performs (h _) _ hc)
  | hash c =>
    exact ran_of_performs h hs rfl (fun db g => c.run now db g) (c.run_performs (h _) _ hc)
  | set c =>
    refine ran_of_performs h hs rfl (fun db g => c.run now db g)
      (c.run_performs (h _) _ hc fun key count hpopc => hpop ?_)
    rw [hpopc]
    rfl
  | sortedSet c =>
    exact ran_of_performs h hs rfl (fun db g => c.run now db g) (c.run_performs (h _) _ hc)

/-- The members that a command takes out of a set at random. -/
def taken (now : Nat) (db : Db) (g : Draws) : Command → List String
  | set (.pop name count) => SetCommand.popped count g (db.slot now name)
  | _ => []

variable (now) in
/-- Every command runs, with the members that it takes at random if it does. -/
theorem run_taken (h : k.store.WF) (hs : s.selected < k.store.size) (hc : c.Proper) :
    Ran now s k c (c.taken now (k.store.db s.selected) k.draws) (c.run now s k) := by
  by_cases hpop : ∃ key count, c = .set (.pop key count)
  · obtain ⟨key, count, rfl⟩ := hpop
    exact (runPop_ran now h hs key count).1
  · have hnone : c.taken now (k.store.db s.selected) k.draws = [] := by
      unfold taken
      split
      · next key count => exact absurd ⟨key, count, rfl⟩ hpop
      · rfl
    rw [hnone]
    refine run_ran now h hs hc fun hremoval => hpop ?_
    rcases c with c | c | c | c | c | c | c
    case set =>
      cases c with
      | pop key count => exact ⟨key, count, rfl⟩
      | _ => cases hremoval
    case key => cases c <;> cases hremoval
    case string => cases c <;> cases hremoval
    all_goals cases hremoval

variable (now) in
theorem exists_ran (h : k.store.WF) (hs : s.selected < k.store.size) (hc : c.Proper) :
    ∃ popped, Ran now s k c popped (c.run now s k) := ⟨_, run_taken now h hs hc⟩

/-- A session can only select a database whose number was read from an argument. -/
theorem run_selected_le (hc : c.Proper) (hs : s.selected ≤ maxInteger) :
    (c.run now s k).session.selected ≤ maxInteger := by
  cases hselect : c.isSelect with
  | false =>
    rw [run_session hselect]
    exact hs
  | true =>
    rcases c with c | c | c | c | c | c | c
    case server =>
      cases c with
      | select i =>
        show (runServer now s k (.select i)).session.selected ≤ _
        rw [runSelect_eq]
        split
        · exact hc
        · exact hs
      | _ => cases hselect
    all_goals cases hselect

end RespStore.Command
