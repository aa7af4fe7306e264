import RespStore.Command.Key.Run
import RespStore.Proofs.Keyspace.Write
import RespStore.Proofs.Number.Decimal

/-!
# Writes of commands on keys
-/

namespace RespStore

/-- A deadline that is worked out in signed 64-bit integers is one of them. -/
theorem TimeUnit.deadline?_le {unit : TimeUnit} {amount : Int64} {now : Nat} {t : Int}
    (h : unit.deadline? .int64 amount.toInt now = some t) : t.toNat ≤ 9223372036854775807 := by
  have hfits : ∀ n : Int, IntFormat.int64.Fits n → n.toNat ≤ 9223372036854775807 := by
    intro n hn
    have hgreatest : IntFormat.int64.greatest = 9223372036854775807 := by decide
    have hle := hn.2
    omega
  cases unit with
  | seconds =>
    obtain ⟨n, -, hadd⟩ := Option.bind_eq_some_iff.mp h
    obtain ⟨rfl, ht⟩ := IntFormat.add?_eq_some_iff.mp hadd
    exact hfits _ ht
  | milliseconds =>
    obtain ⟨rfl, ht⟩ := IntFormat.add?_eq_some_iff.mp h
    exact hfits _ ht
  | unixSeconds =>
    obtain ⟨rfl, ht⟩ := IntFormat.check?_eq_some_iff.mp h
    exact hfits _ ht
  | unixMilliseconds =>
    cases h
    have hlt := amount.toInt_lt
    omega

/-- Gives an entry a deadline or lifts it. -/
def Change.setDeadline (t : Option Nat) : Change := fun slot =>
  slot.map fun e => { e with expiresAt := t }

namespace KeyCommand

/-- What a command writes to its database. -/
def write (now : Nat) : KeyCommand → Write
  | del keys => .puts (keys.map fun key => (key, none))
  | expire unit key amount =>
    match unit.deadline? .int64 amount.toInt now with
    | none => .nothing
    | some t => .change key (.setDeadline (some t.toNat))
  | persist key => .change key (.setDeadline none)
  | .exists _ | type _ | matching _ | randomKey | ttl _ | pttl _ => .nothing

variable [Digest String] {db : Db} {now : Nat} {key : String}

open Db Value

/-! ## Writing -/

theorem del_performs (h : db.WF) (n : Nat) (keys : List String) :
    Performs now db (.count n) (db.delete now keys).2
      (.puts (keys.map fun key => (key, none))) := by
  obtain ⟨hw, hv⟩ := delete_spec h now keys
  refine ⟨hw, hv.trans ?_, nofun⟩
  show _ = (keys.map fun key => (key, none)).foldl _ _
  rw [List.foldl_map]

omit [Digest String] in
/-- A deadline that has passed is as good as none of the value. -/
theorem write_expired {v : View} {e : Entry} {t : Nat} (h : t ≤ now) (key : String) :
    v.write now key (some { e with expiresAt := some t }) = v.write now key none := by
  have hdead : ({ e with expiresAt := some t } : Entry).isLive now = false := by
    simpa [Entry.isLive] using h
  unfold View.write
  rw [Option.filter_some, hdead]
  rfl

/-- What a new deadline does to the value of its key. -/
def expireSlot (now t : Nat) (slot : Option Value) : Bool × Option Value :=
  match slot with
  | none => (false, none)
  | some v => (true, if t ≤ now then none else some (v.setExpiresAt (some t)))

theorem expireSlot_spec (t : Nat) {slot : Option Value} (hslot : SlotWF slot) (v : View) :
    SlotWF (expireSlot now t slot).2 ∧
      v.write now key ((expireSlot now t slot).2.map entry) =
        v.write now key (Change.setDeadline (some t) (slot.map entry)) := by
  cases slot with
  | none => exact ⟨slotWF_none, rfl⟩
  | some x =>
    dsimp only [expireSlot]
    by_cases hle : t ≤ now
    · rw [if_pos hle]
      exact ⟨slotWF_none, (write_expired (e := x.entry) hle key).symm⟩
    · rw [if_neg hle]
      refine ⟨slotWF_some (hslot x rfl), ?_⟩
      have hmax : max 1 t = t := by omega
      show v.write now key (some ⟨x.data.content, some (max 1 t)⟩) = _
      rw [hmax]
      rfl

theorem expireAt_performs (h : db.WF) (key : String) (t : Nat) :
    Performs now db (.ofBool (db.expireAt now key t).1) (db.expireAt now key t).2
      (.change key (.setDeadline (some t))) := by
  obtain ⟨hslot, hwrite⟩ := expireSlot_spec t (h.slot now key) (db.view now)
  obtain ⟨hw, hv⟩ := compute_at h now key (expireSlot now t) hslot
  exact ⟨hw, hv.trans hwrite, nofun⟩

theorem persist_respects :
    Respects (fun slot =>
      match slot with
      | none => (false, none)
      | some v => (v.expiresAt.isSome, some (v.setExpiresAt none))) (.setDeadline none) := by
  intro slot hslot
  cases slot with
  | none => exact ⟨slotWF_none, rfl⟩
  | some v => exact ⟨slotWF_some (hslot v rfl), rfl⟩

/-! ## Reading -/

theorem countPresent_unchanged (now : Nat) (keys : List String) (db : Db) :
    Unchanged now db (countPresent now keys db).2 := by
  induction keys generalizing db with
  | nil => exact .rfl
  | cons key keys ih => exact (get_unchanged db now key).trans (ih _)

theorem randomKeyWith_unchanged (now attempts : Nat) (db : Db) (g : Draws) :
    Unchanged now db (randomKeyWith now attempts db g).2.1 := by
  induction attempts generalizing db g with
  | zero => exact .rfl
  | succ attempts ih =>
    unfold randomKeyWith
    rcases db.entries.randomKey g with ⟨_ | key, g'⟩
    · exact .rfl
    · have hget := get_unchanged db now key
      dsimp only
      rcases hk : db.get now key with ⟨_ | v, db'⟩
      · rw [hk] at hget
        exact hget.trans (ih _ _)
      · rw [hk] at hget
        exact hget

theorem lifetime_unchanged (now : Nat) (db : Db) (key : String) :
    Unchanged now db (db.lifetime now key).2 := by
  have hget := get_unchanged db now key
  unfold lifetime
  rcases hk : db.get now key with ⟨_ | v, db'⟩
  · rw [hk] at hget
    exact hget
  · rw [hk] at hget
    exact hget

/-! ## Commands -/

variable [Matcher]

theorem run_performs (h : db.WF) (g : Draws) (c : KeyCommand) :
    Performs now db (c.run now db g).reply (c.run now db g).db (c.write now) := by
  cases c with
  | del keys => exact del_performs h _ keys
  | «exists» keys => exact (countPresent_unchanged now keys db).performs h
  | type key => exact (get_unchanged db now key).performs h
  | matching pattern => exact Unchanged.rfl.performs h
  | randomKey => exact (randomKeyWith_unchanged now randomAttempts db g).performs h
  | expire unit key amount =>
    rw [run, write]
    cases unit.deadline? .int64 amount.toInt now with
    | none => exact Unchanged.rfl.performs h
    | some t => exact expireAt_performs h key t.toNat
  | ttl key => exact (lifetime_unchanged now db key).performs h
  | pttl key => exact (lifetime_unchanged now db key).performs h
  | persist key => exact compute_performs h persist_respects nofun

/-- A command that sets a deadline fails, or tells whether there is a key to set it for. -/
theorem expire_reply (db : Db) (now : Nat) (g : Draws) (unit : TimeUnit) (key : String)
    (amount : Int64) :
    (∃ m, (run now db g (.expire unit key amount)).reply = .error m) ∨
      ∃ t, t ≤ 9223372036854775807 ∧
        write now (.expire unit key amount) = .change key (.setDeadline (some t)) ∧
        (run now db g (.expire unit key amount)).reply = .ofBool (db.view now key).isSome := by
  rw [run, write]
  cases hd : unit.deadline? .int64 amount.toInt now with
  | none => exact .inl ⟨_, rfl⟩
  | some t =>
    refine .inr ⟨t.toNat, TimeUnit.deadline?_le hd, rfl, ?_⟩
    have hfst := compute_fst db now key (expireSlot now t.toNat)
    show Frame.ofBool (db.compute now key (expireSlot now t.toNat)).1 = _
    rw [hfst, view, Option.isSome_map]
    cases db.slot now key <;> rfl

end KeyCommand

end RespStore
