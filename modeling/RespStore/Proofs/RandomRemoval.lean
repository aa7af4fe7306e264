import RespStore.Proofs.Clients
import RespStore.Proofs.Command.OneKey
import RespStore.Proofs.Log.Replay
import RespStore.Text.Fingerprint

/-!
# Random removal

A random removal leaves under a key the members that it has not taken out, or no key if it has taken
them all. What the log puts down for it does the same to any database that has the set, without
drawing anything.
-/

namespace RespStore

namespace SetCommand

variable [Digest String]

/-- A random removal runs the loop on the set that it finds. -/
theorem runPop_of_set {db : Db} {now : Nat} {key : String} {s : Dict String Unit}
    (h : setIn? (db.slot now key) = some s) (g : Draws) (count : Option Nat) :
    (runPop now db g key count).reply = popReply count (popMany (count.getD 1) s g).1 ∧
      (runPop now db g key count).draws = (popMany (count.getD 1) s g).2.2 := by
  rw [runPop_eq, Db.edit_fst]
  generalize db.slot now key = slot at h
  obtain ⟨v, rfl, hv⟩ := Option.bind_eq_some_iff.mp h
  cases hs : v.asSet with
  | error e =>
    rw [hs] at hv
    cases hv
  | ok d =>
    rw [hs] at hv
    cases hv
    simp only [popEdit, hs, bind, Except.bind]
    exact ⟨rfl, rfl⟩

end SetCommand

/-- What is left of a set, under the deadline that it had. -/
def Entry.leftover (S : Finset String) (popped : List String) (deadline : Option Nat) :
    Option Entry :=
  if S \ popped.toFinset = ∅ then none else some ⟨.set (S \ popped.toFinset), deadline⟩

theorem Entry.store_set (S : Finset String) (popped : List String) (deadline : Option Nat) :
    store (some ⟨.set S, deadline⟩) (.set (S \ popped.toFinset)) = leftover S popped deadline := by
  unfold store leftover
  exact if_congr decide_eq_true_iff rfl rfl

namespace Command

variable [Digest String] {now : Nat} {s : Session} {k : Keyspace} {c : Command}
  {popped members : List String} {e : Effect} {key : String} {count : Option Nat} {S : Finset String}
  {deadline : Option Nat}

/-- A command that removes members from a set leaves the rest of it. -/
theorem Ran.leaves (h : Ran now s k c popped e) (hflush : c.isFlushAll = false)
    (hwrite : c.write now popped = .change key (.removeMembers members))
    (hS : k.store.view now s.selected key = some ⟨.set S, deadline⟩) :
    e.keyspace.store.view now =
      View.replace (k.store.view now) s.selected key (Entry.leftover S members deadline) := by
  have hread : Change.read Content.set? (some ∅) (k.store.view now s.selected key) = some S := by
    rw [hS]
    rfl
  have hempty : (Content.set (∅ \ members.toFinset)).isEmpty = true := by
    rw [Finset.empty_sdiff]
    rfl
  rw [h.view_edit hflush hwrite (.inr ⟨rfl, hempty⟩) hread, hS, Entry.store_set]

/-- A dictionary holds the set that shows under a key. -/
theorem exists_setIn (h : k.store.WF)
    (hS : k.store.view now s.selected key = some ⟨.set S, deadline⟩) :
    ∃ d, SetCommand.setIn? ((k.store.db s.selected).slot now key) = some d ∧ d.WF ∧
      d.toFinmap.keys = S := by
  have hslot := (h s.selected).slot now key
  obtain ⟨v, hv, hentry⟩ := Option.map_eq_some_iff.mp hS
  have hset : Content.set? v.entry.content = some S := by
    rw [hentry]
    rfl
  rw [hv] at hslot ⊢
  rcases Value.asSet_reads (hslot v rfl) with ⟨d, hd, hw, hget⟩ | ⟨-, hget⟩
  · refine ⟨d, ?_, hw, Option.some.inj (hget.symm.trans hset)⟩
    rw [SetCommand.setIn?, Option.bind_some, hd]
    rfl
  · cases hget.symm.trans hset

end Command

/-! ## Records of random removals -/

namespace Log

variable [Digest String] [Matcher] {key : String} {popped : List String} {S : Finset String}

/-- Run in any database that has the set under the key, the records leave the rest of it there. -/
def Removes (key : String) (S : Finset String) (popped : List String) (records : List Request) :
    Prop :=
  ∀ (now i : Nat) (k : Keyspace) (deadline : Option Nat), k.store.WF → i < k.store.size →
    k.store.view now i key = some ⟨.set S, deadline⟩ →
    ∃ k', runRecords now (records.map (i, ·)) k = some k' ∧
      k'.store.view now = View.replace (k.store.view now) i key (Entry.leftover S popped deadline)

/-- With nothing popped there is nothing to run. -/
theorem removes_nil : Removes key S [] [] := by
  intro now i k deadline hwf hi hS
  have hne : ¬S = ∅ := of_decide_eq_false ((hwf i).view_nonempty now key _ hS)
  refine ⟨k, rfl, ?_⟩
  rw [Entry.leftover, List.toFinset_nil, Finset.sdiff_empty, if_neg hne, ← hS, View.replace_self]

/-- The record names what it removes. -/
theorem removes_record {kb : Bytes} (hkey : Utf8.decode? kb = some key) (hne : popped ≠ []) :
    Removes key S popped [word "SREM" :: kb :: popped.map Utf8.encode] := by
  intro now i k deadline hwf hi hS
  have hread := Command.ofFrame_removalRecord hkey hne
  have hran := Command.run_ran now (s := ⟨i⟩) hwf hi (c := .set (.remove key popped)) trivial nofun
  refine ⟨_, runRecords_cons hread, ?_⟩
  exact hran.leaves rfl rfl hS

theorem removes_popped {kb : Bytes} (hkey : Utf8.decode? kb = some key) (popped : List String) :
    Removes key S popped
      (if popped = [] then [] else [word "SREM" :: kb :: popped.map Utf8.encode]) := by
  by_cases hnil : popped = []
  · rw [if_pos hnil, hnil]
    exact removes_nil
  · rw [if_neg hnil]
    exact removes_record hkey hnil

omit [Matcher] in
/-- What the log puts down for a random removal of `popped`. -/
theorem records_of_pop (now : Nat) (db : Db) {r : Request} {count : Option Nat}
    (hr : Command.ofFrame r.toFrame = .ok (.set (.pop key count)))
    (hlen : popped.length ≤ count.getD 1) :
    ∃ kb, Utf8.decode? kb = some key ∧
      (records now db r (SetCommand.popReply count popped)).1 =
        if popped = [] then [] else [word "SREM" :: kb :: popped.map Utf8.encode] := by
  obtain ⟨spec, name, args, hread⟩ := Command.exists_readAs hr
  obtain ⟨kb, rest, key', count', rfl, hkey, hc⟩ := hread.pop rfl
  cases hc
  refine ⟨kb, hkey, ?_⟩
  rw [records_of_removal hread rfl (SetCommand.popReply_ne_error count popped),
    poppedMembers_popReply hlen]
  exact if_congr List.map_eq_nil_iff rfl rfl

end Log

namespace Clients

variable [Digest String] [Matcher] {n : Nat} {x : Clients}

/-- Whatever has been run before and whatever is drawn, a random removal from a set comes to an end
with as many distinct members as are asked for or all that there are. It leaves the rest under the
deadline of the key, or no key if there is no rest, and its records do the same to any database that
has the set. -/
theorem Reachable.pop_splits (h : Reachable n x) (client now : Nat) (count : Option Nat)
    {key : String} {S : Finset String} {deadline : Option Nat}
    (hS : x.keyspace.store.view now (x.sessions client).selected key = some ⟨.set S, deadline⟩) :
    let s := x.sessions client
    let k := x.keyspace
    let e := (Command.set (.pop key count)).run now s k
    ∃ d popped rest,
      SetCommand.setIn? ((k.store.db s.selected).slot now key) = some d ∧ d.toFinmap.keys = S ∧
      (∀ r, SetCommand.Pops (count.getD 1) [] d k.draws r ↔ r = (popped, rest, e.keyspace.draws)) ∧
      e.reply = SetCommand.popReply count popped ∧
      popped.Nodup ∧ popped.toFinset ⊆ S ∧ popped.length = min (count.getD 1) S.card ∧
      e.keyspace.store.view now =
        View.replace (k.store.view now) s.selected key (Entry.leftover S popped deadline) ∧
      ∀ r, Command.ofFrame r.toFrame = .ok (.set (.pop key count)) →
        let records := (Log.records now (e.keyspace.store.db s.selected) r e.reply).1
        (∃ k, Utf8.decode? k = some key ∧ records =
          if popped = [] then [] else [Log.word "SREM" :: k :: popped.map Utf8.encode]) ∧
        Log.Removes key S popped records := by
  intro s k e
  have hwf : k.store.WF := h.sound.wf
  have hs : s.selected < k.store.size := h.sound.selected_lt client
  obtain ⟨d, hd, hw, rfl⟩ := Command.exists_setIn hwf hS
  obtain ⟨hran, -⟩ := Command.runPop_ran now hwf hs key count
  obtain ⟨hreply, hdraws⟩ := SetCommand.runPop_of_set hd k.draws count
  have hpopped : SetCommand.popped count k.draws ((k.store.db s.selected).slot now key) =
      (SetCommand.popMany (count.getD 1) d k.draws).1 := by
    rw [SetCommand.popped, hd]
    rfl
  rw [hpopped] at hran
  have hpops : ∀ {r}, SetCommand.Pops (count.getD 1) [] d k.draws r ↔
    r = SetCommand.popMany (count.getD 1) d k.draws := SetCommand.pops_iff hw
  obtain ⟨hsplits, hlength⟩ := SetCommand.popMany_splits (count.getD 1) hw k.draws
  generalize SetCommand.popMany (count.getD 1) d k.draws = out at *
  obtain ⟨popped, rest, g⟩ := out
  refine ⟨d, popped, rest, hd, rfl, fun r => ?_, hreply, hsplits.nodup, hsplits.subset, hlength,
    hran.leaves rfl rfl hS, fun r hr => ?_⟩
  · rw [hpops]
    exact (congrArg (fun g => r = (popped, rest, g)) hdraws.symm).to_iff
  · have hlen : popped.length ≤ count.getD 1 := hlength.le.trans (Nat.min_le_left _ _)
    obtain ⟨kb, hkey, hrecords⟩ :=
      Log.records_of_pop now (e.keyspace.store.db s.selected) hr hlen
    rw [show e.reply = _ from hreply, hrecords]
    exact ⟨⟨kb, hkey, rfl⟩, Log.removes_popped hkey popped⟩

end Clients

namespace Clients

/-- A set of two members under a deadline. -/
def paired : Clients :=
  ((new 1 ⟨fun _ => 0, 0⟩).request 0 5 (.ofList .text ["SADD", "s", "a", "b"])).request 0 6
    (.ofList .text ["PEXPIREAT", "s", "9"])

/-- One of two members is popped, and the record of it pops the same one where no draws are made. -/
theorem paired_pop_splits :
    let s := paired.sessions 0
    let k := paired.keyspace
    let pop := Command.set (.pop "s" (some 1))
    let e := pop.run 8 s k
    let request : Request := [Log.word "SPOP", Log.word "s", Log.word "1"]
    let records := (Log.records 8 (e.keyspace.store.db s.selected) request e.reply).1
    Reachable 1 paired ∧
      k.store.view 8 s.selected "s" = some ⟨.set {"b", "a"}, some 9⟩ ∧
      Command.ofFrame request.toFrame = .ok pop ∧
      ∃ popped, popped.length = 1 ∧ popped.toFinset ⊆ {"b", "a"} ∧
        e.reply = .array (popped.map .text) ∧
        e.keyspace.store.view 8 s.selected "s" =
          Entry.leftover {"b", "a"} popped (some 9) ∧
        ∃ k', Log.runRecords 8 (records.map (s.selected, ·)) k = some k' ∧
          k'.store.view 8 = e.keyspace.store.view 8 := by
  intro s k pop e request records
  have hreachable : Reachable 1 paired := ((Reachable.new _).request 0 5 _).request 0 6 _
  have hS : k.store.view 8 s.selected "s" = some ⟨.set {"b", "a"}, some 9⟩ := by decide +kernel
  have hread : Command.ofFrame request.toFrame = .ok pop := rfl
  obtain ⟨-, popped, -, -, -, -, hreply, -, hsubset, hlength, hview, hlogged⟩ :=
    hreachable.pop_splits 0 8 (some 1) hS
  obtain ⟨-, hremoves⟩ := hlogged request hread
  obtain ⟨k', hk', hview'⟩ := hremoves 8 s.selected k (some 9) hreachable.sound.wf
    (hreachable.sound.selected_lt 0) hS
  refine ⟨hreachable, hS, hread, popped, hlength, hsubset, hreply, ?_, k', hk', ?_⟩
  · rw [hview, View.replace_apply]
  · exact hview'.trans hview.symm

end Clients

end RespStore
