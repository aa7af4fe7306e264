import RespStore.Proofs.Command.Popping
import RespStore.Proofs.Keyspace.Write

/-!
# Writes of commands on sets

Which members a random removal takes is up to the draws, so what it writes is stated for the
members that it took.
-/

namespace RespStore

namespace Change

def addMembers (members : List String) : Change :=
  edit Content.set? (some ∅) fun s => some (.set (s ∪ members.toFinset))

def removeMembers (members : List String) : Change :=
  edit Content.set? none fun s => some (.set (s \ members.toFinset))

/-- Taking nothing away from what is not empty. -/
theorem removeMembers_nil {slot : Option Entry}
    (h : ∀ e, slot = some e → e.content.isEmpty = false) : removeMembers [] slot = slot := by
  cases slot with
  | none => rfl
  | some e =>
    have hempty := h e rfl
    obtain ⟨c, t⟩ := e
    cases c with
    | set s =>
      have hread : read Content.set? none (some ⟨.set s, t⟩) = some s := rfl
      rw [removeMembers, edit_of_some hread rfl, List.toFinset_nil, Finset.sdiff_empty,
        Entry.store_of_nonempty hempty]
      rfl
    | _ => rfl

end Change

namespace SetCommand

/-- What a command writes to its database, where `popped` are the members that a random removal
took. -/
def write (popped : List String) : SetCommand → Write
  | add key members => .change key (.addMembers members)
  | remove key members => .change key (.removeMembers members)
  | pop key _ => .change key (.removeMembers popped)
  | contains _ _ | size _ | listing _ | random _ _ => .nothing

/-- Something is added. -/
def Proper : SetCommand → Prop
  | add _ members => members ≠ []
  | _ => True

variable [Digest String] {db : Db} {now : Nat} {key : String}

open Db Value

theorem set_isEmpty {s : Dict String Unit} (hw : s.WF) :
    (Data.set s).content.isEmpty = s.isEmpty := by
  rw [Bool.eq_iff_iff, Dict.isEmpty_iff_keys hw]
  exact decide_eq_true_iff

/-! ## Changes -/

theorem addMembers_respects {members : List String} (hne : members ≠ []) :
    ReplyRespects (fun slot => do
      let (n, s) := (← slot.elim (pure .empty) Value.asSet).addAll (members.map (·, ()))
      return (.count n, Value.store slot (.set s))) (.addMembers members) := by
  intro slot hslot
  have hempty : (Dict.empty : Dict String Unit).toFinmap.keys = ∅ := by
    rw [Dict.toFinmap_empty, Finmap.keys_empty]
  rcases slot_reads asSet_reads .empty Dict.wf_empty hempty hslot with
    ⟨s, hs, hw, hread⟩ | ⟨he, hread⟩
  · obtain ⟨hw', hkeys⟩ := Dict.addAll_keys hw members
    have hwf : (Data.set (s.addAll (members.map (·, ()))).2).WF := by
      refine ⟨hw', decide_eq_false fun hnone => ?_⟩
      rw [hkeys, Finset.union_eq_empty, List.toFinset_eq_empty_iff] at hnone
      exact hne hnone.2
    simp only [hs]
    refine ⟨store_edits hread ?_ hwf, nofun⟩
    exact congrArg (fun s => some (Content.set s)) hkeys.symm
  · simp only [he]
    exact Change.edit_of_read_none hread

theorem removeMembers_respects (members : List String) :
    ReplyRespects (fun slot =>
      match slot with
      | none => return (.count 0, none)
      | some v => do
        let (n, s) := (← v.asSet).removeAll members
        return (.count n, Value.storeUnless s.isEmpty slot (.set s))) (.removeMembers members) := by
  intro slot hslot
  cases slot with
  | none => exact ⟨⟨slotWF_none, rfl⟩, nofun⟩
  | some v =>
    rcases some_reads asSet_reads hslot with ⟨s, hs, hw, hread⟩ | ⟨he, hread⟩
    · obtain ⟨hw', hkeys⟩ := Dict.removeAll_keys hw members
      simp only [hs]
      refine ⟨storeUnless_edits hread ?_ hw' (set_isEmpty hw'), nofun⟩
      exact congrArg (fun s => some (Content.set s)) hkeys.symm
    · simp only [he]
      exact Change.edit_of_read_none hread

/-! ## Random removal -/

/-- What a random removal does to the value of its key. -/
def popEdit (count : Option Nat) (g : Draws) (slot : Option Value) :
    Except StoreError ((List String × Draws) × Option Value) :=
  match slot with
  | none => return (([], g), none)
  | some v => do
    let (popped, s, g) := popMany (count.getD 1) (← v.asSet) g
    return ((popped, g), Value.storeUnless s.isEmpty slot (.set s))

/-- The set in a slot, if there is one. -/
def setIn? (slot : Option Value) : Option (Dict String Unit) :=
  slot.bind fun v => v.asSet.toOption

/-- The members that a random removal takes out of the set in a slot. -/
def popped (count : Option Nat) (g : Draws) (slot : Option Value) : List String :=
  (setIn? slot).elim [] fun s => (popMany (count.getD 1) s g).1

theorem popEdit_popped {slot : Option Value} (hslot : SlotWF slot) (count : Option Nat) (g : Draws) :
    match popEdit count g slot with
    | .ok r => popped count g slot = r.1.1
    | .error _ => popped count g slot = [] := by
  cases slot with
  | none => rfl
  | some v =>
    rcases asSet_reads (hslot v rfl) with ⟨s, hs, -, -⟩ | ⟨he, -⟩
    · simp only [popEdit, popped, setIn?, Option.bind_some, hs]
      rfl
    · simp only [popEdit, popped, setIn?, Option.bind_some, he]
      rfl

theorem popEdit_spec {slot : Option Value} (hslot : SlotWF slot) {count : Option Nat} {g : Draws}
    {r : (List String × Draws) × Option Value} (hr : popEdit count g slot = .ok r) :
    SlotWF r.2 ∧ r.2.map entry = Change.removeMembers r.1.1 (slot.map entry) ∧
      r.1.1.length ≤ count.getD 1 := by
  cases slot with
  | none =>
    cases hr
    exact ⟨slotWF_none, rfl, Nat.zero_le _⟩
  | some v =>
    rcases some_reads asSet_reads hslot with ⟨s, hs, hw, hread⟩ | ⟨he, -⟩
    · obtain ⟨hsplits, hlen⟩ := popMany_splits (count.getD 1) hw g
      simp only [popEdit, hs, bind, Except.bind] at hr
      cases hr
      have hset : some (Content.set (s.toFinmap.keys \ (popMany (count.getD 1) s g).1.toFinset)) =
          some (Data.set (popMany (count.getD 1) s g).2.1).content :=
        congrArg (fun s => some (Content.set s)) hsplits.keys_eq.symm
      obtain ⟨hwf, hentry⟩ := storeUnless_edits (f := fun s => some (.set (s \ _))) hread hset
        hsplits.wf (set_isEmpty hsplits.wf)
      exact ⟨hwf, hentry, hlen.le.trans (Nat.min_le_left _ _)⟩
    · simp only [popEdit, he, bind, Except.bind] at hr
      cases hr

theorem popEdit_error {slot : Option Value} {count : Option Nat} {g : Draws} {e : StoreError}
    (he : popEdit count g slot = .error e) : e = .wrongType := by
  cases slot with
  | none => cases he
  | some v =>
    obtain ⟨d, t⟩ := v
    cases d <;> cases he
    all_goals rfl

theorem runPop_eq (now : Nat) (db : Db) (g : Draws) (key : String) (count : Option Nat) :
    runPop now db g key count =
      match (db.edit now key (popEdit count g)).1 with
      | .ok (popped, g') => ⟨popReply count popped, (db.edit now key (popEdit count g)).2, g'⟩
      | .error e => ⟨.error e.message, (db.edit now key (popEdit count g)).2, g⟩ := (rfl)

omit [Digest String] in
theorem popReply_ne_error (count : Option Nat) (popped : List String) (m : String) :
    popReply count popped ≠ .error m := by
  cases count with
  | none => cases popped <;> exact nofun
  | some count => exact nofun

/-- A random removal removes the members that its reply names, and none if it fails. -/
theorem runPop_performs (h : db.WF) (g : Draws) (key : String) (count : Option Nat) :
    let popped := popped count g (db.slot now key)
    Performs now db (runPop now db g key count).reply (runPop now db g key count).db
      (.change key (.removeMembers popped)) ∧
      ((runPop now db g key count).reply = popReply count popped ∧
          popped.length ≤ count.getD 1 ∨
        (runPop now db g key count).reply = .error StoreError.wrongType.message) := by
  intro popped
  have hfst := edit_fst db now key (popEdit count g)
  have hpopped := popEdit_popped (h.slot now key) count g
  have hnil : (db.view now).change now key (.removeMembers []) = db.view now := by
    unfold View.change
    rw [Change.removeMembers_nil (h.view_nonempty now key), View.write_self view_live]
  rw [runPop_eq]
  cases hr : popEdit count g (db.slot now key) with
  | error e =>
    simp only [hr] at hpopped
    rw [hr] at hfst
    obtain ⟨hw, hv⟩ := edit_error h hr
    rw [show popped = [] from hpopped, hfst]
    refine ⟨⟨hw, hv.trans hnil.symm, fun _ _ => hnil⟩, .inr ?_⟩
    exact congrArg (fun e : StoreError => Frame.error e.message) (popEdit_error hr)
  | ok r =>
    simp only [hr] at hpopped
    rw [hr] at hfst
    obtain ⟨hslot, hentry, hlen⟩ := popEdit_spec (h.slot now key) hr
    obtain ⟨hw, hv⟩ := edit_at h hr hslot
    rw [show popped = r.1.1 from hpopped, hfst]
    refine ⟨⟨hw, ?_, fun m hm => ?_⟩, .inl ⟨rfl, hlen⟩⟩
    · rw [hentry] at hv
      exact hv
    · exact absurd hm (popReply_ne_error count r.1.1 m)

/-! ## Commands -/

theorem runRandom_unchanged (now : Nat) (db : Db) (g : Draws) (key : String)
    (count : Option Int64) : Unchanged now db (runRandom now db g key count).db := by
  have hget := get_unchanged db now key
  unfold runRandom
  rcases hg : db.get now key with ⟨_ | v, db'⟩
  · rw [hg] at hget
    exact hget
  · rw [hg] at hget
    cases hs : v.asSet with
    | error e => simpa only [hs] using hget
    | ok s => simpa only [hs] using hget

theorem run_performs (h : db.WF) (g : Draws) (c : SetCommand) (hc : c.Proper)
    (hpop : ∀ key count, c ≠ .pop key count) :
    Performs now db (c.run now db g).reply (c.run now db g).db (c.write []) := by
  cases c with
  | add key members =>
    show Performs now db (runAdd now db key members).1 (runAdd now db key members).2 _
    exact replying_performs h (addMembers_respects hc)
  | remove key members =>
    show Performs now db (runRemove now db key members).1 (runRemove now db key members).2 _
    exact replying_performs h (removeMembers_respects members)
  | contains key member => exact reading_performs h _ _
  | size key => exact reading_performs h _ _
  | listing key => exact reading_performs h _ _
  | pop key count => exact absurd rfl (hpop key count)
  | random key count => exact (runRandom_unchanged now db g key count).performs h

end SetCommand

end RespStore
