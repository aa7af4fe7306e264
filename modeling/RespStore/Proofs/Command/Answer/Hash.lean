import RespStore.Proofs.Collection.DictHistory
import RespStore.Proofs.Command.Answer.Basic
import RespStore.Proofs.Command.Hash

/-!
# Answers of commands on hashes

A listing of a hash is stated in the alphabetical order of the fields; the replies have it in some
order.
-/

namespace RespStore

/-- How many items a listing has for a field. -/
def HashPart.width : HashPart → Nat
  | .both => 2
  | .fields | .values => 1

theorem HashPart.width_ne_zero (part : HashPart) : part.width ≠ 0 := by
  cases part <;> decide

namespace HashCommand

/-- The fields of a hash in alphabetical order, with their values. -/
def listed (fields : Finmap fun _ : String => Bytes) : List (String × Bytes) :=
  (alphabetical fields.keys).filterMap fun field => (fields.lookup field).map (field, ·)

/-- What is replied when fields are listed. -/
def listedReply (part : HashPart) (fields : List (String × Bytes)) : Frame :=
  match part with
  | .both => .ofPairs .text .bulk fields
  | .fields => .ofList (fun e => .text e.1) fields
  | .values => .ofList (fun e => .bulk e.2) fields

/-- What is replied when `delta` is added to a field. -/
def incrReply (field : String) (delta : Int) (fields : Finmap fun _ : String => Bytes) : Frame :=
  .ofExcept ((incremented (fields.lookup field) delta).map fun n => .integer (Int64.ofInt n))

/-- What is replied to a command. -/
def answer (v : View) : HashCommand → Frame
  | set key pairs => Entry.answer Content.hash? (.count (pairs.map (·.1)).toFinset.card)
      (fun fields => .count ((pairs.map (·.1)).toFinset \ fields.keys).card) (v key)
  | get key field => Entry.answer Content.hash? .null
      (fun fields => .ofOption .bulk (fields.lookup field)) (v key)
  | del key names => Entry.answer Content.hash? (.count 0)
      (fun fields => .count (fields.keys ∩ names.toFinset).card) (v key)
  | .exists key field => Entry.answer Content.hash? (.count 0)
      (fun fields => .ofBool (fields.lookup field).isSome) (v key)
  | length key => Entry.answer Content.hash? (.count 0)
      (fun fields => .count fields.keys.card) (v key)
  | listing part key => Entry.answer Content.hash? (.array [])
      (fun fields => listedReply part (listed fields)) (v key)
  | incrBy key field delta => Entry.answer Content.hash? (incrReply field delta.toInt ∅)
      (incrReply field delta.toInt) (v key)

/-- Whether a reply lists what has no order. -/
def lists : HashCommand → Bool
  | listing _ _ => true
  | _ => false

theorem mem_listed {fields : Finmap fun _ : String => Bytes} {e : String × Bytes} :
    e ∈ listed fields ↔ fields.lookup e.1 = some e.2 := by
  obtain ⟨field, value⟩ := e
  simp only [listed, List.mem_filterMap, mem_alphabetical, Option.map_eq_some_iff, Prod.mk.injEq]
  constructor
  · rintro ⟨_, -, _, hv, rfl, rfl⟩
    exact hv
  · intro hv
    exact ⟨field, Finmap.mem_keys.mpr (Finmap.mem_of_lookup_eq_some hv), value, hv, rfl, rfl⟩

theorem nodup_listed (fields : Finmap fun _ : String => Bytes) : (listed fields).Nodup := by
  refine (nodup_alphabetical _).filterMap ?_
  intro a b e ha hb
  obtain ⟨_, -, rfl⟩ := Option.map_eq_some_iff.mp ha
  obtain ⟨_, -, h⟩ := Option.map_eq_some_iff.mp hb
  exact (congrArg Prod.fst h).symm

variable [Digest String] {db : Db} {now : Nat} {key : String}

open Db Value

theorem toList_perm_listed {h : Dict String Bytes} (hw : h.WF) :
    h.toList.Perm (listed h.toFinmap) := by
  refine (List.perm_ext_iff_of_nodup hw.holds.shows.toList_nodup (nodup_listed _)).mpr fun e => ?_
  rw [mem_listed, hw.holds.shows.mem_toList]

theorem listingReply_shuffled {h : Dict String Bytes} (hw : h.WF) (part : HashPart) :
    Frame.Shuffled part.width (listingReply h part)
      (listedReply part (listed h.toFinmap)) := by
  have hperm := toList_perm_listed hw
  cases part with
  | both => exact .ofPairs _ _ hperm
  | fields => exact .ofList _ hperm
  | values => exact .ofList _ hperm

theorem runSet_answer (h : db.WF) (pairs : List (String × Bytes)) :
    (runSet now db key pairs).1 =
      Entry.answer Content.hash? (.count (pairs.map (·.1)).toFinset.card)
        (fun fields => .count ((pairs.map (·.1)).toFinset \ fields.keys).card)
        (db.view now key) := by
  refine replying_answers h asHash_reads (fun _ => rfl) ?_ ?_
  · refine congrArg Frame.count ((Dict.putAll_fst Dict.wf_empty pairs).trans ?_)
    rw [Dict.toFinmap_empty, Finmap.keys_empty, Finset.sdiff_empty]
  · exact fun v d hw => congrArg Frame.count (Dict.putAll_fst hw pairs)

theorem runDel_answer (h : db.WF) (names : List String) :
    (runDel now db key names).1 = Entry.answer Content.hash? (.count 0)
      (fun fields => .count (fields.keys ∩ names.toFinset).card) (db.view now key) := by
  exact replying_answers h asHash_reads (fun _ => rfl) rfl fun v d hw =>
    congrArg Frame.count (Dict.removeAll_fst hw names)

theorem runIncrBy_answer (h : db.WF) (field : String) (delta : Int) :
    (runIncrBy now db key field delta).1 = Entry.answer Content.hash? (incrReply field delta ∅)
      (incrReply field delta) (db.view now key) := by
  have hincr : ∀ (slot : Option Value) (d : Dict String Bytes), d.WF →
      Frame.ofExcept (Except.map (·.1) (do
        let n ← incremented (d.get? field) delta
        return ((.integer (Int64.ofInt n) : Frame),
          Value.store slot (.hash (d.put field (Decimal.ofInt n)).2)))) =
      incrReply field delta d.toFinmap := by
    intro slot d hw
    rw [incrReply, Dict.lookup_toFinmap hw]
    cases incremented (d.get? field) delta <;> rfl
  refine replying_answers h asHash_reads (fun _ => rfl) ?_ ?_
  · refine (hincr none .empty Dict.wf_empty).trans ?_
    rw [Dict.toFinmap_empty]
  · exact fun v d hw => hincr (some v) d hw

theorem run_answer (h : db.WF) (g : Draws) (c : HashCommand) (hc : c.lists = false) :
    (c.run now db g).reply = c.answer (db.view now) := by
  cases c with
  | set key pairs => exact runSet_answer h pairs
  | get key field => exact reading_eq h asHash_reads fun d hw => by rw [Dict.lookup_toFinmap hw]
  | del key names => exact runDel_answer h names
  | «exists» key field =>
    exact reading_eq h asHash_reads fun d hw => by rw [Dict.lookup_toFinmap hw, Dict.contains]
  | length key => exact reading_eq h asHash_reads fun d hw => by rw [hw.holds.size_eq]
  | listing part key => cases hc
  | incrBy key field delta => exact runIncrBy_answer h field delta.toInt

variable (now) in
/-- A listing has what is listed, in some order. -/
theorem listing_shuffled (h : db.WF) (g : Draws) (part : HashPart) (key : String) :
    Frame.Shuffled part.width (run now db g (.listing part key)).reply
      (answer (db.view now) (.listing part key)) :=
  reading_answers h asHash_reads .same fun _ hw => listingReply_shuffled hw part

end HashCommand

end RespStore
