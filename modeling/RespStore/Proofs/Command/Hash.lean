import RespStore.Command.Hash.Run
import RespStore.Proofs.Keyspace.Write

/-!
# Writes of commands on hashes
-/

namespace RespStore

namespace Change

def putFields (pairs : List (String × Bytes)) : Change :=
  edit Content.hash? (some ∅) fun fields =>
    some (.hash (pairs.foldl (fun m e => m.insert e.1 e.2) fields))

def removeFields (names : List String) : Change :=
  edit Content.hash? none fun fields => some (.hash (names.foldl (fun m k => m.erase k) fields))

/-- The integer in a field, which starts from zero, and `delta`, if they have a sum. -/
def fieldSum? (current : Option Bytes) (delta : Int) : Option Int :=
  (current.elim (some 0) IntFormat.int64.parse?).bind (IntFormat.int64.add? · delta)

def incrField (field : String) (delta : Int) : Change :=
  edit Content.hash? (some ∅) fun fields =>
    (fieldSum? (fields.lookup field) delta).map fun n =>
      .hash (fields.insert field (Decimal.ofInt n))

end Change

theorem Content.isEmpty_hash_insert (fields : Finmap fun _ : String => Bytes) (field : String)
    (value : Bytes) : (Content.hash (fields.insert field value)).isEmpty = false := by
  refine decide_eq_false fun hempty => ?_
  have hmem : field ∈ fields.insert field value := Finmap.mem_insert.mpr (.inl rfl)
  rw [hempty] at hmem
  exact Finmap.notMem_empty hmem

namespace HashCommand

/-- What a command writes to its database. -/
def write : HashCommand → Write
  | set key pairs => .change key (.putFields pairs)
  | del key fields => .change key (.removeFields fields)
  | incrBy key field delta => .change key (.incrField field delta.toInt)
  | get _ _ | .exists _ _ | length _ | listing _ _ => .nothing

/-- Something is set. -/
def Proper : HashCommand → Prop
  | set _ pairs => pairs ≠ []
  | _ => True

variable [Digest String] {db : Db} {now : Nat} {key : String}

open Db Value

theorem hash_isEmpty {h : Dict String Bytes} (hw : h.WF) :
    (Data.hash h).content.isEmpty = h.isEmpty := by
  rw [Bool.eq_iff_iff, Dict.isEmpty_iff_toFinmap hw]
  exact decide_eq_true_iff

theorem hash_wf {h : Dict String Bytes} {k : String} (hw : h.WF) (hk : k ∈ h.toFinmap) :
    (Data.hash h).WF where
  sound := hw
  nonempty := by
    refine decide_eq_false fun hempty => ?_
    rw [hempty] at hk
    exact Finmap.notMem_empty hk

omit [Digest String] in
/-- Something is in a map after something was put there. -/
theorem exists_mem_foldl_insert {pairs : List (String × Bytes)} (hne : pairs ≠ [])
    (m : Finmap fun _ : String => Bytes) :
    ∃ key, key ∈ pairs.foldl (fun m e => m.insert e.1 e.2) m := by
  cases pairs using List.reverseRecOn with
  | nil => exact absurd rfl hne
  | append_singleton pairs e =>
    refine ⟨e.1, ?_⟩
    rw [List.foldl_append, List.foldl_cons, List.foldl_nil, Finmap.mem_insert]
    exact .inl rfl

/-! ## Changes -/

theorem putFields_respects {pairs : List (String × Bytes)} (hne : pairs ≠ []) :
    ReplyRespects (fun slot => do
      let (n, h) := (← slot.elim (pure .empty) Value.asHash).putAll pairs
      return (.count n, Value.store slot (.hash h))) (.putFields pairs) := by
  intro slot hslot
  rcases slot_reads asHash_reads .empty Dict.wf_empty Dict.toFinmap_empty hslot with
    ⟨h, hh, hw, hread⟩ | ⟨he, hread⟩
  · obtain ⟨hw', hm⟩ := Dict.putAll_toFinmap hw pairs
    obtain ⟨k, hk⟩ := exists_mem_foldl_insert hne h.toFinmap
    simp only [hh]
    refine ⟨store_edits hread ?_ (hash_wf hw' (hm ▸ hk)), nofun⟩
    exact congrArg (fun m => some (Content.hash m)) hm.symm
  · simp only [he]
    exact Change.edit_of_read_none hread

theorem removeFields_respects (names : List String) :
    ReplyRespects (fun slot =>
      match slot with
      | none => return (.count 0, none)
      | some v => do
        let (n, h) := (← v.asHash).removeAll names
        return (.count n, Value.storeUnless h.isEmpty slot (.hash h))) (.removeFields names) := by
  intro slot hslot
  cases slot with
  | none => exact ⟨⟨slotWF_none, rfl⟩, nofun⟩
  | some v =>
    rcases some_reads asHash_reads hslot with ⟨h, hh, hw, hread⟩ | ⟨he, hread⟩
    · obtain ⟨hw', hm⟩ := Dict.removeAll_toFinmap hw names
      simp only [hh]
      refine ⟨storeUnless_edits hread ?_ hw' (hash_isEmpty hw'), nofun⟩
      exact congrArg (fun m => some (Content.hash m)) hm.symm
    · simp only [he]
      exact Change.edit_of_read_none hread

omit [Digest String] in
theorem toOption_incremented (current : Option Bytes) (delta : Int) :
    (incremented current delta).toOption = Change.fieldSum? current delta := by
  unfold incremented Change.fieldSum?
  cases current with
  | none =>
    dsimp only [Option.elim_none, pure, Except.pure, bind, Except.bind, Option.bind_some]
    cases IntFormat.int64.add? 0 delta <;> rfl
  | some bytes =>
    dsimp only [Option.elim_some]
    cases IntFormat.int64.parse? bytes with
    | none => rfl
    | some n =>
      dsimp only [pure, Except.pure, bind, Except.bind, Option.bind_some]
      cases IntFormat.int64.add? n delta <;> rfl

theorem incrField_respects (field : String) (delta : Int) :
    ReplyRespects (fun slot => do
      let h ← slot.elim (pure .empty) Value.asHash
      let n ← incremented (h.get? field) delta
      let (_, h) := h.put field (Decimal.ofInt n)
      return (.integer (Int64.ofInt n), Value.store slot (.hash h)))
      (.incrField field delta) := by
  intro slot hslot
  rcases slot_reads asHash_reads .empty Dict.wf_empty Dict.toFinmap_empty hslot with
    ⟨h, hh, hw, hread⟩ | ⟨he, hread⟩
  · have hsum := toOption_incremented (h.get? field) delta
    rw [← Dict.lookup_toFinmap hw] at hsum
    cases hi : incremented (h.toFinmap.lookup field) delta with
    | ok n =>
      rw [hi] at hsum
      obtain ⟨hw', hm⟩ := Dict.put_toFinmap hw field (Decimal.ofInt n)
      simp only [hh, ← Dict.lookup_toFinmap hw, hi, bind, Except.bind]
      refine ⟨store_edits hread ?_ (hash_wf (k := field) hw' ?_), fun _ hm => by cases hm⟩
      · rw [← hsum, Data.content, hm]
        rfl
      · rw [hm, Finmap.mem_insert]
        exact .inl rfl
    | error e =>
      rw [hi] at hsum
      simp only [hh, ← Dict.lookup_toFinmap hw, hi, bind, Except.bind]
      refine Change.edit_of_refused hread ?_
      rw [← hsum]
      rfl
  · simp only [he]
    exact Change.edit_of_read_none hread

/-! ## Commands -/

theorem run_performs (h : db.WF) (g : Draws) (c : HashCommand) (hc : c.Proper) :
    Performs now db (c.run now db g).reply (c.run now db g).db c.write := by
  cases c with
  | set key pairs =>
    show Performs now db (runSet now db key pairs).1 (runSet now db key pairs).2 _
    exact replying_performs h (putFields_respects hc)
  | get key field => exact reading_performs h _ _
  | del key fields =>
    show Performs now db (runDel now db key fields).1 (runDel now db key fields).2 _
    exact replying_performs h (removeFields_respects fields)
  | «exists» key field => exact reading_performs h _ _
  | length key => exact reading_performs h _ _
  | listing part key => exact reading_performs h _ _
  | incrBy key field delta =>
    show Performs now db (runIncrBy now db key field delta.toInt).1
      (runIncrBy now db key field delta.toInt).2 _
    exact replying_performs h (incrField_respects field delta.toInt)

end HashCommand

end RespStore
