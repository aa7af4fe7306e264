import RespStore.Proofs.Command.Run
import RespStore.Proofs.Command.Timeless
import RespStore.Proofs.Log.Readback

/-!
# Records

What the log has of a command that has run: nothing if nothing has changed, the request as it came
if that does the same at all times, and otherwise a request in words of its own.
-/

namespace RespStore

namespace Log

open Command

/-- A request in the log's own words that stands for a command which made one view of another, and
the command that the request is read as. -/
inductive Rewritten (now : Nat) (v v' : View) : Request → Command → Prop where
  | delete {k : Bytes} {key : String} (hkey : Utf8.decode? k = some key)
      (hv : v' = v.write now key none) :
      Rewritten now v v' [word "DEL", k] (.key (.del [key]))
  | deadline {k : Bytes} {key : String} {e : Entry} {t : Nat} (hkey : Utf8.decode? k = some key)
      (ht : t ≤ maxInteger) (hold : v key = some e) (hlive : now < t)
      (hv : v' = v.write now key (some { e with expiresAt := some t })) :
      Rewritten now v v' [word "PEXPIREAT", k, Decimal.ofNat t]
        (.key (.expire .unixMilliseconds key (Int64.ofInt t)))
  | store {k value : Bytes} {key : String} {t : Nat} (hkey : Utf8.decode? k = some key)
      (hlive : now < t) (hv : v' = v.write now key (some ⟨.string value, some t⟩)) :
      Rewritten now v v' [word "SET", k, value, word "PXAT", Decimal.ofNat t]
        (.string (.set key value .always (some ⟨.unixMilliseconds, t⟩)))
  | removal {k : Bytes} {key : String} {popped : List String} (hkey : Utf8.decode? k = some key)
      (hne : popped ≠ []) (hv : v' = v.change now key (.removeMembers popped)) :
      Rewritten now v v' (word "SREM" :: k :: popped.map Utf8.encode) (.set (.remove key popped))

namespace Rewritten

variable {now t : Nat} {v v' : View} {r : Request} {c : Command}

theorem ne_nil (h : Rewritten now v v' r c) : r ≠ [] := by
  cases h with
  | delete => exact List.cons_ne_nil _ _
  | deadline => exact List.cons_ne_nil _ _
  | store => exact List.cons_ne_nil _ _
  | removal => exact List.cons_ne_nil _ _

theorem loggable (h : Rewritten now v v' r c) : c.Loggable := by
  cases h with
  | delete => exact ⟨rfl, nofun, fun _ _ => rfl⟩
  | deadline => exact ⟨rfl, nofun, fun _ _ => rfl⟩
  | store => exact ⟨rfl, nofun, fun _ _ => rfl⟩
  | removal => exact ⟨rfl, nofun, fun _ _ => rfl⟩

theorem isFlushAll (h : Rewritten now v v' r c) : c.isFlushAll = false := by
  cases h <;> rfl

/-- The request is read as the command that it is meant for, unless its deadline is too late. -/
theorem ofFrame (h : Rewritten now v v' r c) (hr : ¬TooLate r) :
    Command.ofFrame r.toFrame = .ok c := by
  cases h with
  | delete hkey hv => exact ofFrame_deleteRecord hkey
  | deadline hkey ht hold hlive hv => exact ofFrame_deadlineRecord hkey ht
  | @store k value key d hkey hlive hv =>
    have hd : d ≤ maxInteger := Nat.le_of_not_lt fun hd => hr ⟨k, value, d, hd, rfl⟩
    exact ofFrame_storeRecord hkey value (Nat.zero_lt_of_lt hlive) hd
  | removal hkey hne hv => exact ofFrame_removalRecord hkey hne

/-- A deadline that is too late shows. -/
theorem tooLate (h : Rewritten now v v' r c) (hr : TooLate r) :
    ∃ key e t, v' key = some e ∧ e.expiresAt = some t ∧ maxInteger < t := by
  obtain ⟨x, hx⟩ := hr.ofFrame
  cases h with
  | delete hkey hv =>
    rw [ofFrame_deleteRecord hkey] at hx
    cases hx
  | deadline hkey ht hold hlive hv =>
    rw [ofFrame_deadlineRecord hkey ht] at hx
    cases hx
  | @store k value key d hkey hlive hv =>
    refine ⟨key, ⟨.string value, some d⟩, d, ?_, rfl, ?_⟩
    · rw [hv, View.write_apply]
      exact Option.filter_eq_some_iff.mpr ⟨rfl, (Entry.isLive_iff rfl).mpr hlive⟩
    · apply Nat.lt_of_not_le
      intro hd
      rw [ofFrame_storeRecord hkey value (Nat.zero_lt_of_lt hlive) hd] at hx
      cases hx
  | removal hkey hne hv =>
    rw [ofFrame_removalRecord hkey hne] at hx
    cases hx

/-- The command that the request is read as makes the same of the view. -/
theorem apply_eq (h : Rewritten now v v' r c) (hv : v.Uncrossed now t) (hv' : v'.Uncrossed now t) :
    (c.write t []).apply t v = v' := by
  cases h with
  | delete hkey hw =>
    rw [hw]
    rfl
  | @deadline k key e d hkey ht hold hlive hw =>
    have hdeadline : (Command.key (.expire .unixMilliseconds key (Int64.ofInt d))).write t [] =
        .change key (.setDeadline (some d)) := by
      show Write.change key (.setDeadline (some (Int64.ofInt d).toInt.toNat)) = _
      rw [toInt_ofInt ht]
      rfl
    subst hw
    rw [hdeadline]
    show v.write t key (Change.setDeadline (some d) (v key)) = _
    rw [hold]
    exact View.write_eq_of_live ((Entry.isLive_iff rfl).mpr hlive) hv'
  | @store k value key d hkey hlive hw =>
    subst hw
    have hmax : max 1 d = d := by omega
    show v.write t key (some ⟨.string value, some (max 1 d)⟩) = _
    rw [hmax]
    exact View.write_eq_of_live ((Entry.isLive_iff rfl).mpr hlive) hv'
  | @removal k key popped hkey hne hw =>
    have hkeeps : (Write.change key (.removeMembers popped)).Keeps := Change.edit_keeps _ _ _
    exact (Write.apply_eq hkeeps hv).symm.trans hw.symm

end Rewritten

/-! ## The words of the log -/

section Words

variable [Digest String] {now : Nat} {db : Db} {v : View} {k : Bytes} {key : String}

theorem deadline?_eq (hkey : Utf8.decode? k = some key) :
    deadline? now db k = ((db.view now key).bind (·.expiresAt), (db.get now key).2) := by
  unfold deadline?
  rw [hkey]
  show ((db.get now key).1.bind (·.expiresAt), (db.get now key).2) = _
  rw [Db.get_fst, Db.view, Value.expiresAt_entry]

theorem deadlineRecord_eq (hkey : Utf8.decode? k = some key) :
    deadlineRecord now db k =
      (match (db.view now key).bind (·.expiresAt) with
        | some t => [word "PEXPIREAT", k, Decimal.ofNat t]
        | none => [word "DEL", k], (db.get now key).2) := by
  rw [deadlineRecord, deadline?_eq hkey]
  cases (db.view now key).bind (·.expiresAt) <;> rfl

theorem storeRecord_eq (hkey : Utf8.decode? k = some key) (value : Bytes) :
    storeRecord now db k value =
      (match (db.view now key).bind (·.expiresAt) with
        | some t => [word "SET", k, value, word "PXAT", Decimal.ofNat t]
        | none => [word "DEL", k], (db.get now key).2) := by
  rw [storeRecord, deadline?_eq hkey]
  cases (db.view now key).bind (·.expiresAt) <;> rfl

/-- After a deadline was set, the record sets it again or deletes the key. -/
theorem rewritten_deadlineRecord (hkey : Utf8.decode? k = some key) {t : Nat} (ht : t ≤ maxInteger)
    (hv : db.view now = v.change now key (.setDeadline (some t))) :
    ∃ c, Rewritten now v (db.view now) (deadlineRecord now db k).1 c := by
  have hcases := v.write_cases now key (Change.setDeadline (some t) (v key))
  rw [show v.write now key (Change.setDeadline (some t) (v key)) = db.view now from hv.symm] at hcases
  rw [deadlineRecord_eq hkey]
  rcases hcases with ⟨e, he, hlive, hshows⟩ | ⟨hnone, hdead⟩
  · obtain ⟨old, hold, rfl⟩ := Option.map_eq_some_iff.mp he
    simp only [hshows, Option.bind_some]
    refine ⟨_, .deadline hkey ht hold ((Entry.isLive_iff rfl).mp hlive) ?_⟩
    rw [hv, View.change, he]
  · simp only [hnone, Option.bind_none]
    exact ⟨_, .delete hkey hdead⟩

/-- After a string was stored under a deadline, the record stores it again or deletes the key. -/
theorem rewritten_storeRecord (hkey : Utf8.decode? k = some key) (value : Bytes) {t : Nat}
    (hv : db.view now = v.write now key (some ⟨.string value, some t⟩)) :
    ∃ c, Rewritten now v (db.view now) (storeRecord now db k value).1 c := by
  have hcases := v.write_cases now key (some ⟨.string value, some t⟩)
  rw [← hv] at hcases
  rw [storeRecord_eq hkey]
  rcases hcases with ⟨e, he, hlive, hshows⟩ | ⟨hnone, hdead⟩
  · cases he
    simp only [hshows, Option.bind_some]
    exact ⟨_, .store hkey ((Entry.isLive_iff rfl).mp hlive) hv⟩
  · simp only [hnone, Option.bind_none]
    exact ⟨_, .delete hkey hdead⟩

end Words

/-! ## What is put down -/

/-- What the log has of a request that was read as `c`, ran in the `i`-th database and made what shows
of the databases into something else. -/
inductive Records (now i : Nat) (r : Request) (c : Command) (vs vs' : Nat → View) :
    List Request → Prop where
  | nothing (h : vs' = vs) : Records now i r c vs vs' []
  | same (hc : c.Plain) : Records now i r c vs vs' [r]
  | rewritten {r' : Request} {c' : Command} (hc : c.isFlushAll = false)
      (h : Rewritten now (vs i) (vs' i) r' c') : Records now i r c vs vs' [r']

section Records

variable [Digest String] {now : Nat} {s : Session} {k : Keyspace} {r : Request} {c : Command}
  {spec : CommandSpec} {name : Bytes} {args : List Bytes} {db : Db} {reply : Frame}

theorem records_of_error (m : String) : records now db r (.error m) = ([], db) := by
  unfold records
  rfl

/-- Looking up a deadline for a record does not show, whatever was requested. -/
theorem records_unchanged (now : Nat) (db : Db) (r : Request) (reply : Frame) :
    Db.Unchanged now db (records now db r reply).2 := by
  have hdeadline : ∀ key, Db.Unchanged now db (deadline? now db key).2 := by
    intro key
    unfold deadline?
    cases Utf8.decode? key with
    | none => exact .rfl
    | some key => exact Db.get_unchanged db now key
  have hdeadlineRecord : ∀ key, Db.Unchanged now db (deadlineRecord now db key).2 := by
    intro key
    have hkey := hdeadline key
    unfold deadlineRecord
    split <;> next heq => rwa [heq] at hkey
  have hstoreRecord : ∀ key value, Db.Unchanged now db (storeRecord now db key value).2 := by
    intro key value
    have hkey := hdeadline key
    unfold storeRecord
    split <;> next heq => rwa [heq] at hkey
  unfold records
  split
  · exact .rfl
  · exact .rfl
  · dsimp only
    split
    · split
      · exact hdeadlineRecord _
      · exact .rfl
    · split
      · split
        · exact .rfl
        · split
          · exact hstoreRecord _ _
          · exact .rfl
      · split
        · split <;> exact .rfl
        · exact .rfl

theorem records_of_none (h : ReadAs r c spec name args) (hc : c.rewriting = .none)
    (hreply : ∀ m, reply ≠ .error m) : records now db r reply = ([r], db) := by
  have hdeadline : ¬isDeadlineCommand (Bytes.lower name) = true := by
    rw [h.isDeadlineCommand_iff, hc]
    exact nofun
  have hset : ¬Bytes.lower name = word "set" := by
    rw [h.set_iff, hc]
    exact nofun
  have hspop : ¬Bytes.lower name = word "spop" := by
    rw [h.spop_iff, hc]
    exact nofun
  rw [h.parts]
  unfold records
  cases reply with
  | error m => exact absurd rfl (hreply m)
  | _ => simp only [if_neg hdeadline, if_neg hset, if_neg hspop]

theorem records_of_deadline (h : ReadAs r c spec name args) (hc : c.rewriting = .deadline)
    (found : Bool) :
    records now db r (.ofBool found) =
      if found then
        ([(deadlineRecord now db (args.headD [])).1], (deadlineRecord now db (args.headD [])).2)
      else ([], db) := by
  have hdeadline : isDeadlineCommand (Bytes.lower name) = true := h.isDeadlineCommand_iff.mpr hc
  rw [h.parts]
  unfold records Frame.ofBool
  cases found with
  | true =>
    simp only [if_pos hdeadline]
    rfl
  | false =>
    simp only [if_pos hdeadline]
    rfl

theorem records_of_null (h : ReadAs r c spec name args) (hc : c.rewriting = .store) :
    records now db r .null = ([], db) := by
  have hdeadline : ¬isDeadlineCommand (Bytes.lower name) = true := by
    rw [h.isDeadlineCommand_iff, hc]
    exact nofun
  rw [h.parts]
  unfold records
  simp only [if_neg hdeadline, if_pos (h.set_iff.mpr hc)]

theorem records_of_store (h : ReadAs r c spec name args) (hc : c.rewriting = .store) :
    records now db r .ok =
      if (args.drop 2).any isExpiryOption then
        ([(storeRecord now db (args.headD []) (args[1]?.getD [])).1],
          (storeRecord now db (args.headD []) (args[1]?.getD [])).2)
      else ([r], db) := by
  have hdeadline : ¬isDeadlineCommand (Bytes.lower name) = true := by
    rw [h.isDeadlineCommand_iff, hc]
    exact nofun
  rw [h.parts]
  unfold records
  simp only [if_neg hdeadline, if_pos (h.set_iff.mpr hc), Frame.ok]

theorem records_of_removal (h : ReadAs r c spec name args) (hc : c.rewriting = .removal)
    (hreply : ∀ m, reply ≠ .error m) :
    records now db r reply =
      (if poppedMembers reply = [] then []
        else [word "SREM" :: args.headD [] :: poppedMembers reply], db) := by
  have hdeadline : ¬isDeadlineCommand (Bytes.lower name) = true := by
    rw [h.isDeadlineCommand_iff, hc]
    exact nofun
  have hset : ¬Bytes.lower name = word "set" := by
    rw [h.set_iff, hc]
    exact nofun
  have hspop := h.spop_iff.mpr hc
  rw [h.parts]
  unfold records
  cases reply with
  | error m => exact absurd rfl (hreply m)
  | _ =>
    simp only [if_neg hdeadline, if_neg hset, if_pos hspop]
    split
    · next hp => rw [if_pos hp]
    · next hp => rw [if_neg hp]

omit [Digest String] in
theorem poppedMembers_popReply {count : Option Nat} {popped : List String}
    (h : popped.length ≤ count.getD 1) :
    poppedMembers (SetCommand.popReply count popped) = popped.map Utf8.encode := by
  cases count with
  | none =>
    match popped, h with
    | [], _ => rfl
    | [m], _ => rfl
  | some n =>
    show (popped.map Frame.text).filterMap _ = _
    rw [List.filterMap_map]
    exact congrFun (List.filterMap_eq_map (f := Utf8.encode)) popped

/-- What a command that has run leaves in the log, and that looking up a deadline does not show. -/
structure Logs (now : Nat) (s : Session) (k : Keyspace) (r : Request) (c : Command) (e : Effect) :
    Prop where
  records : Records now s.selected r c (k.store.view now) (e.keyspace.store.view now)
    (Log.records now (e.keyspace.store.db s.selected) r e.reply).1
  unchanged : Db.Unchanged now (e.keyspace.store.db s.selected)
    (Log.records now (e.keyspace.store.db s.selected) r e.reply).2

variable {e : Effect} {popped : List String}

theorem logs_of_error (hran : Ran now s k c popped e) {m : String} (hm : e.reply = .error m) :
    Logs now s k r c e := by
  constructor
  · rw [hm, records_of_error]
    exact .nothing (hran.refused m hm).1
  · rw [hm, records_of_error]
    exact .rfl

theorem logs_of_none (hran : Ran now s k c popped e) (h : ReadAs r c spec name args)
    (hc : c.rewriting = .none) : Logs now s k r c e := by
  by_cases hreply : ∃ m, e.reply = .error m
  · obtain ⟨m, hm⟩ := hreply
    exact logs_of_error hran hm
  · have hrecords : records now (e.keyspace.store.db s.selected) r e.reply = _ :=
      records_of_none h hc fun m hm => hreply ⟨m, hm⟩
    constructor
    · rw [hrecords]
      exact .same (.inl hc)
    · rw [hrecords]
      exact .rfl

/-- What a command that writes only where it runs makes of the view there. -/
theorem view_selected (hran : Ran now s k c popped e) (hflush : c.isFlushAll = false) :
    e.keyspace.store.view now s.selected =
      (c.write now popped).apply now (k.store.view now s.selected) := by
  rw [hran.view, effect, hflush]
  exact Function.update_self ..

/-- If nothing has changed where such a command ran, nothing has changed at all. -/
theorem view_eq_of_change (hran : Ran now s k c popped e) (hflush : c.isFlushAll = false)
    {key : String} {F : Change} (hwrite : c.write now popped = .change key F)
    (hF : F (k.store.view now s.selected key) = k.store.view now s.selected key) :
    e.keyspace.store.view now = k.store.view now := by
  have hsame : (c.write now popped).apply now (k.store.view now s.selected) =
      k.store.view now s.selected := by
    rw [hwrite]
    exact View.change_self Db.view_live hF
  rw [hran.view, effect, hflush, hsame]
  exact Function.update_eq_self ..

variable {kb value : Bytes} {rest options : List Bytes} {key : String} {t : Nat}

/-- A deadline was set if there was a key to set it for. -/
theorem logs_of_found (hran : Ran now s k c [] e) (h : ReadAs r c spec name (kb :: rest))
    (hc : c.rewriting = .deadline) (hflush : c.isFlushAll = false)
    (hkey : Utf8.decode? kb = some key) (ht : t ≤ maxInteger)
    (hwrite : c.write now [] = .change key (.setDeadline (some t)))
    (hreply : e.reply = .ofBool (k.store.view now s.selected key).isSome) : Logs now s k r c e := by
  have hrecords : ∀ found, records now (e.keyspace.store.db s.selected) r (.ofBool found) = _ :=
    records_of_deadline h hc
  cases hslot : k.store.view now s.selected key with
  | none =>
    have hnone : records now (e.keyspace.store.db s.selected) r e.reply =
        ([], e.keyspace.store.db s.selected) := by
      rw [hreply, hrecords, hslot]
      rfl
    constructor
    · rw [hnone]
      refine .nothing (view_eq_of_change hran hflush hwrite ?_)
      rw [hslot]
      rfl
    · rw [hnone]
      exact .rfl
  | some x =>
    have hsome : records now (e.keyspace.store.db s.selected) r e.reply =
        ([(deadlineRecord now (e.keyspace.store.db s.selected) kb).1],
          (deadlineRecord now (e.keyspace.store.db s.selected) kb).2) := by
      rw [hreply, hrecords, hslot]
      rfl
    have hview := view_selected hran hflush
    rw [hwrite] at hview
    obtain ⟨c', hc'⟩ := rewritten_deadlineRecord hkey ht hview
    constructor
    · rw [hsome]
      exact .rewritten hflush hc'
    · rw [hsome]
      show Db.Unchanged now _ (deadlineRecord now _ kb).2
      rw [deadlineRecord_eq hkey]
      exact Db.get_unchanged _ now key

theorem logs_of_deadline [Matcher] (hran : Ran now s k c [] (c.run now s k))
    (h : ReadAs r c spec name args) (hc : c.rewriting = .deadline) : Logs now s k r c (c.run now s k) := by
  obtain ⟨unit, kb, rest, key, n, rfl, hkey, rfl⟩ := h.expire hc
  rcases KeyCommand.expire_reply (k.store.db s.selected) now k.draws unit key n with
    ⟨m, hm⟩ | ⟨t, ht, hwrite, hreply⟩
  · exact logs_of_error hran hm
  · exact logs_of_found hran h hc rfl hkey ht hwrite hreply

/-- A string was stored. -/
theorem logs_of_stored {deadline : Option Nat}
    (h : ReadAs r c spec name (kb :: value :: options)) (hc : c.rewriting = .store)
    (hflush : c.isFlushAll = false) (hkey : Utf8.decode? kb = some key)
    (hplain : deadline = none → c.Plain) (hoptions : deadline.isSome = options.any isExpiryOption)
    (hview : e.keyspace.store.view now s.selected =
      (k.store.view now s.selected).write now key (some ⟨.string value, deadline.map (max 1)⟩))
    (hreply : e.reply = .ok) : Logs now s k r c e := by
  have hrecords : records now (e.keyspace.store.db s.selected) r .ok = _ := records_of_store h hc
  rw [show (kb :: value :: options).drop 2 = options from rfl, ← hoptions] at hrecords
  cases deadline with
  | none =>
    have hsame : records now (e.keyspace.store.db s.selected) r e.reply =
        ([r], e.keyspace.store.db s.selected) := by
      rw [hreply, hrecords]
      rfl
    constructor
    · rw [hsame]
      exact .same (hplain rfl)
    · rw [hsame]
      exact .rfl
  | some t =>
    have hown : records now (e.keyspace.store.db s.selected) r e.reply =
        ([(storeRecord now (e.keyspace.store.db s.selected) kb value).1],
          (storeRecord now (e.keyspace.store.db s.selected) kb value).2) := by
      rw [hreply, hrecords]
      rfl
    obtain ⟨c', hc'⟩ := rewritten_storeRecord hkey value hview
    constructor
    · rw [hown]
      exact .rewritten hflush hc'
    · rw [hown]
      show Db.Unchanged now _ (storeRecord now _ kb value).2
      rw [storeRecord_eq hkey]
      exact Db.get_unchanged _ now key

theorem logs_of_store [Matcher] (hran : Ran now s k c [] (c.run now s k)) (h : ReadAs r c spec name args)
    (hc : c.rewriting = .store) : Logs now s k r c (c.run now s k) := by
  obtain ⟨kb, value, options, key, condition, expiry, rfl, hkey, rfl, hexpiry, -⟩ := h.set hc
  rcases StringCommand.set_reply (k.store.db s.selected) now k.draws key value condition expiry with
    ⟨m, hm⟩ | ⟨deadline, hdeadline, hwrite, ⟨hnull, hsame⟩ | ⟨hok, hstored⟩⟩
  · exact logs_of_error hran hm
  · have hreply : ((Command.string (.set key value condition expiry)).run now s k).reply = .null :=
      hnull
    constructor
    · rw [hreply, records_of_null h hc]
      exact .nothing (view_eq_of_change hran rfl hwrite hsame)
    · rw [hreply, records_of_null h hc]
      exact .rfl
  · have hview := view_selected hran rfl
    rw [show (Command.string (.set key value condition expiry)).write now [] = _ from hwrite] at hview
    refine logs_of_stored h hc rfl hkey (fun hnone => ?_) (hdeadline.trans hexpiry) ?_ hok
    · rw [hnone] at hdeadline
      cases expiry with
      | none => exact .inr ⟨key, value, condition, rfl⟩
      | some expiry => cases hdeadline
    · rw [hview, ← hstored]
      rfl

theorem logs_of_removal [Matcher] (hk : k.store.WF) (hs : s.selected < k.store.size)
    (h : ReadAs r c spec name args) (hc : c.rewriting = .removal) :
    ∃ popped, Ran now s k c popped (c.run now s k) ∧ Logs now s k r c (c.run now s k) := by
  obtain ⟨kb, rest, key, count, rfl, hkey, rfl⟩ := h.pop hc
  have hpop := runPop_ran now hk hs key count
  generalize SetCommand.popped _ _ _ = popped at hpop
  obtain ⟨hran, ⟨hreply, hcount⟩ | hm⟩ := hpop
  · refine ⟨popped, hran, ?_⟩
    have hrecords : records now
        (((Command.set (.pop key count)).run now s k).keyspace.store.db s.selected) r _ = _ :=
      records_of_removal h hc (SetCommand.popReply_ne_error count popped)
    rw [poppedMembers_popReply hcount] at hrecords
    constructor
    · rw [hreply, hrecords]
      cases popped with
      | nil =>
        refine .nothing (view_eq_of_change hran rfl rfl ?_)
        exact Change.removeMembers_nil ((hk s.selected).view_nonempty now key)
      | cons m ms =>
        have hview := view_selected hran rfl
        exact .rewritten rfl (.removal hkey (List.cons_ne_nil m ms) hview)
    · rw [hreply, hrecords]
      exact .rfl
  · exact ⟨popped, hran, logs_of_error hran hm⟩

variable (now) in
/-- What a request leaves in the log when its command has run. -/
theorem logs_of_run [Matcher] (hk : k.store.WF) (hs : s.selected < k.store.size)
    (h : ReadAs r c spec name args) :
    ∃ popped, Ran now s k c popped (c.run now s k) ∧ Logs now s k r c (c.run now s k) := by
  have hran : c.rewriting ≠ .removal → Ran now s k c [] (c.run now s k) := run_ran now hk hs h.fits.proper
  cases hc : c.rewriting with
  | none =>
    have hran := hran (by rw [hc]; exact nofun)
    exact ⟨[], hran, logs_of_none hran h hc⟩
  | deadline =>
    have hran := hran (by rw [hc]; exact nofun)
    exact ⟨[], hran, logs_of_deadline hran h hc⟩
  | store =>
    have hran := hran (by rw [hc]; exact nofun)
    exact ⟨[], hran, logs_of_store hran h hc⟩
  | removal => exact logs_of_removal hk hs h hc

/-! ## What records make of the databases -/

variable (now) in
/-- What is read from a log runs in any database, and draws nothing. -/
theorem ran_of_read [Matcher] (hc : Command.ofFrame r.toFrame = .ok c) (h : c.Loggable) (hk : k.store.WF)
    {i : Nat} (hi : i < k.store.size) : Ran now ⟨i⟩ k c [] (c.run now ⟨i⟩ k) := by
  obtain ⟨spec, name, args, hread⟩ := Command.exists_readAs hc
  exact Command.run_ran now hk hi hread.fits.proper h.drawless

/-- A record for the `i`-th database, which is read as a command that does at any time, with no
deadline in between, what the log was written for. -/
structure Reproduces (now i : Nat) (vs vs' : Nat → View) (r : Request) (c : Command) : Prop where
  ne_nil : r ≠ []
  loggable : c.Loggable
  read : ¬TooLate r → Command.ofFrame r.toFrame = .ok c
  late : TooLate r → ∃ key e t, vs' i key = some e ∧ e.expiresAt = some t ∧ maxInteger < t
  effect : ∀ t, (vs i).Uncrossed now t → (vs' i).Uncrossed now t → c.effect t [] i vs = vs'

/-- A request that a log may hold. -/
structure IsRecord (r : Request) : Prop where
  ne_nil : r ≠ []
  loggable : ∀ c, Command.ofFrame r.toFrame = .ok c → c.Loggable

omit [Digest String] in
theorem Reproduces.isRecord {i : Nat} {vs vs' : Nat → View} (h : Reproduces now i vs vs' r c) :
    IsRecord r where
  ne_nil := h.ne_nil
  loggable := fun c' hc' => by
    have hearly : ¬TooLate r := fun hlate => by
      obtain ⟨x, hx⟩ := hlate.ofFrame
      rw [hc'] at hx
      cases hx
    have hc := h.read hearly
    rw [hc'] at hc
    cases hc
    exact h.loggable

theorem reproduces_same (hran : Ran now s k c popped e) (h : ReadAs r c spec name args)
    (hread : Command.ofFrame r.toFrame = .ok c) (hc : c.Plain) (hstays : c.isSelect = false) :
    Reproduces now s.selected (k.store.view now) (e.keyspace.store.view now) r c where
  ne_nil := by
    rw [h.parts]
    exact List.cons_ne_nil name args
  loggable := hc.loggable hstays
  read := fun _ => hread
  late := fun hlate => by
    obtain ⟨x, hx⟩ := hlate.ofFrame
    rw [hread] at hx
    cases hx
  effect := fun t hv _ => by
    rw [hran.view, Command.effect, Command.effect, ← hc.timeless now t popped,
      Write.apply_eq (hc.keeps now popped) hv]

theorem reproduces_rewritten {r' : Request} {c' : Command} (hran : Ran now s k c popped e)
    (hflush : c.isFlushAll = false)
    (h : Rewritten now (k.store.view now s.selected) (e.keyspace.store.view now s.selected) r' c') :
    Reproduces now s.selected (k.store.view now) (e.keyspace.store.view now) r' c' where
  ne_nil := h.ne_nil
  loggable := h.loggable
  read := h.ofFrame
  late := h.tooLate
  effect := fun t hv hv' => by
    have hview : e.keyspace.store.view now = Function.update (k.store.view now) s.selected
        (e.keyspace.store.view now s.selected) := by
      rw [view_selected hran hflush, hran.view, Command.effect, hflush]
      rfl
    rw [Command.effect, h.isFlushAll, h.apply_eq hv hv']
    exact hview.symm

/-- A command that has run left no record and no trace, or one record, which reproduces it. -/
theorem Logs.reproduces (hlogs : Logs now s k r c e) (hran : Ran now s k c popped e)
    (h : ReadAs r c spec name args) (hread : Command.ofFrame r.toFrame = .ok c)
    (hstays : c.isSelect = false) :
    ((Log.records now (e.keyspace.store.db s.selected) r e.reply).1 = [] ∧
        e.keyspace.store.view now = k.store.view now) ∨
      ∃ r' c', (Log.records now (e.keyspace.store.db s.selected) r e.reply).1 = [r'] ∧
        Reproduces now s.selected (k.store.view now) (e.keyspace.store.view now) r' c' := by
  have hrecords := hlogs.records
  generalize (Log.records now (e.keyspace.store.db s.selected) r e.reply).1 = rs at hrecords
  cases hrecords with
  | nothing hsame => exact .inl ⟨rfl, hsame⟩
  | same hc => exact .inr ⟨r, c, rfl, reproduces_same hran h hread hc hstays⟩
  | @rewritten r' c' hflush hown =>
    exact .inr ⟨r', c', rfl, reproduces_rewritten hran hflush hown⟩

end Records

end Log

end RespStore
