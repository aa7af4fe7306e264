import RespStore.Proofs.Command.Answer.Basic
import RespStore.Proofs.Command.Key

/-!
# Answers of commands on keys
-/

namespace RespStore

namespace Content

def typeName : Content → String
  | string _ => "string"
  | list _ => "list"
  | hash _ => "hash"
  | set _ => "set"
  | sortedSet _ => "zset"

end Content

namespace Value

theorem typeName_eq [Digest String] (v : Value) : v.typeName = v.entry.content.typeName := by
  obtain ⟨d, t⟩ := v
  cases d <;> rfl

end Value

/-- How long an entry lives after a time. -/
def Entry.lifetime (now : Nat) (slot : Option Entry) : Lifetime :=
  slot.elim .missing fun e => e.expiresAt.elim .persistent fun t => .expiresIn (t - now)

namespace KeyCommand

/-- What is replied, where the entries that show settle it. -/
def answer? (now : Nat) (v : View) : KeyCommand → Option Frame
  | del keys => some (.count (keys.toFinset.filter fun key => (v key).isSome).card)
  | .exists keys => some (.count (keys.countP fun key => (v key).isSome))
  | type key => some (.simple ((v key).elim "none" fun e => e.content.typeName))
  | matching _ | randomKey => none
  | expire unit key amount => some <|
    match unit.deadline? .int64 amount.toInt now with
    | none => .error (CommandError.badExpireTime (expireName unit)).message
    | some _ => .ofBool (v key).isSome
  | ttl key => some (.integer (lifetimeReply roundToSeconds (Entry.lifetime now (v key))))
  | pttl key => some (.integer (lifetimeReply id (Entry.lifetime now (v key))))
  | persist key => some (.ofBool ((v key).any (·.expiresAt.isSome)))

variable [Digest String] {db db' : Db} {now : Nat} {key : String}

open Db Value

omit [Digest String] in
/-- Of the keys that are there, one less is there once one of them is gone. -/
theorem card_present_cons (now : Nat) (v : View) (key : String) (keys : List String) :
    ((key :: keys).toFinset.filter fun k => (v k).isSome).card =
      (if (v key).isSome then 1 else 0) +
        (keys.toFinset.filter fun k => ((v.write now key none) k).isSome).card := by
  have hrest : (keys.toFinset.filter fun k => ((v.write now key none) k).isSome) =
      (keys.toFinset.filter fun k => (v k).isSome).erase key := by
    ext k
    by_cases hk : k = key
    · subst hk
      simp [View.write_apply]
    · have hkept : (v.write now key none) k = v k := Function.update_of_ne hk _ _
      simp [hkept, hk]
  rw [hrest, List.toFinset_cons, Finset.filter_insert]
  split
  · rw [Finset.card_insert_eq_ite]
    split
    · next hmem => rw [Finset.card_erase_of_mem hmem]; have := Finset.card_pos.mpr ⟨key, hmem⟩; omega
    · next hmem => rw [Finset.erase_eq_of_notMem hmem]; omega
  · next hnone =>
    rw [Finset.erase_eq_of_notMem (by simp [hnone]), Nat.zero_add]

theorem delete_fst (h : db.WF) (now : Nat) (keys : List String) :
    (db.delete now keys).1 =
      (keys.toFinset.filter fun key => (db.view now key).isSome).card := by
  induction keys generalizing db with
  | nil => rfl
  | cons key keys ih =>
    obtain ⟨hw, hv, hfst⟩ := take_spec h now key
    rw [card_present_cons now, ← hv, ← ih hw, view, Option.isSome_map, ← hfst]
    rfl

theorem countPresent_fst (h : db.WF) (now : Nat) (keys : List String) :
    (countPresent now keys db).1 = keys.countP fun key => (db.view now key).isSome := by
  induction keys generalizing db with
  | nil => rfl
  | cons key keys ih =>
    obtain ⟨hw, hv⟩ := get_unchanged db now key h
    have hfst : (db.get now key).1.isSome = (db.view now key).isSome := by
      rw [get_fst, view, Option.isSome_map]
    show (if (db.get now key).1.isSome then 1 else 0) + (countPresent now keys (db.get now key).2).1 = _
    rw [ih hw, hv, hfst, List.countP_cons, Nat.add_comm]

theorem lifetime_fst (db : Db) (now : Nat) (key : String) :
    (db.lifetime now key).1 = Entry.lifetime now (db.view now key) := by
  have hget := get_fst db now key
  unfold lifetime
  rcases hk : db.get now key with ⟨_ | v, db'⟩
  · rw [hk] at hget
    rw [view, ← hget]
    rfl
  · rw [hk] at hget
    rw [view, ← hget]
    rfl

variable [Matcher]

theorem run_answer (h : db.WF) (g : Draws) {c : KeyCommand} {r : Frame}
    (hr : c.answer? now (db.view now) = some r) : (c.run now db g).reply = r := by
  have hview : ∀ key, db.view now key = (db.slot now key).map entry := fun _ => rfl
  cases c with
  | del keys =>
    cases hr
    exact congrArg Frame.count (delete_fst h now keys)
  | «exists» keys =>
    cases hr
    exact congrArg Frame.count (countPresent_fst h now keys)
  | type key =>
    cases hr
    show Frame.simple ((db.get now key).1.elim "none" Value.typeName) = _
    rw [get_fst, hview, Option.elim_map]
    cases db.slot now key with
    | none => rfl
    | some v => exact congrArg Frame.simple v.typeName_eq
  | matching pattern => cases hr
  | randomKey => cases hr
  | expire unit key amount =>
    cases hr
    rw [run]
    cases hd : unit.deadline? .int64 amount.toInt now with
    | none => rfl
    | some t =>
      show Frame.ofBool (db.expireAt now key t.toNat).1 = _
      rw [hview, Option.isSome_map]
      refine congrArg Frame.ofBool ((compute_fst db now key (expireSlot now t.toNat)).trans ?_)
      cases db.slot now key <;> rfl
  | ttl key =>
    cases hr
    exact congrArg (fun life => Frame.integer (lifetimeReply roundToSeconds life))
      (lifetime_fst db now key)
  | pttl key =>
    cases hr
    exact congrArg (fun life => Frame.integer (lifetimeReply id life)) (lifetime_fst db now key)
  | persist key =>
    cases hr
    show Frame.ofBool (db.persist now key).1 = _
    rw [Db.persist, compute_fst, hview]
    cases db.slot now key <;> rfl

/-! ## Keys by pattern -/

/-- The keys that match a pattern are those that show, each once. -/
theorem keys_spec (h : db.WF) (now : Nat) (pattern : String) :
    (db.keys now pattern).Nodup ∧ ∀ key, key ∈ db.keys now pattern ↔ (db.view now key).isSome ∧
      (pattern == "*" || Matcher.isMatch pattern key) = true := by
  have hnodup : (db.entries.toList.map (·.1)).Nodup := Dict.nodup_keys h.entries
  refine ⟨hnodup.sublist (List.filter_sublist.map _), fun key => ?_⟩
  rw [Db.keys, List.mem_map, view, Option.isSome_map, Option.isSome_iff_exists]
  constructor
  · rintro ⟨⟨_, v⟩, hmem, rfl⟩
    obtain ⟨hentry, hlive⟩ := List.mem_filter.mp hmem
    obtain ⟨hlive, hmatch⟩ := Bool.and_eq_true_iff.mp hlive
    have hget := (Dict.mem_toList_iff h.entries).mp hentry
    exact ⟨⟨v, Option.filter_eq_some_iff.mpr ⟨hget, hlive⟩⟩, hmatch⟩
  · rintro ⟨⟨v, hv⟩, hmatch⟩
    obtain ⟨hget, hlive⟩ := Option.filter_eq_some_iff.mp hv
    refine ⟨(key, v), List.mem_filter.mpr ⟨(Dict.mem_toList_iff h.entries).mpr hget, ?_⟩, rfl⟩
    exact Bool.and_eq_true_iff.mpr ⟨hlive, hmatch⟩

theorem mem_keys_all (h : db.WF) : key ∈ db.keys now "*" ↔ (db.view now key).isSome := by
  rw [(keys_spec h now "*").2, beq_self_eq_true, Bool.true_or, and_iff_left rfl]

theorem matching_shuffled (h : db.WF) (h' : db'.WF) (hview : db.view now = db'.view now)
    (pattern : String) (g g' : Draws) :
    Frame.Shuffled 1 (run now db g (.matching pattern)).reply
      (run now db' g' (.matching pattern)).reply := by
  obtain ⟨hnodup, hmem⟩ := keys_spec h now pattern
  obtain ⟨hnodup', hmem'⟩ := keys_spec h' now pattern
  refine .ofList .text ((List.perm_ext_iff_of_nodup hnodup hnodup').mpr fun key => ?_)
  rw [hmem, hmem', hview]

end KeyCommand

end RespStore
