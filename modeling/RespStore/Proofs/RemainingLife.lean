import RespStore.Proofs.Clients
import RespStore.Proofs.Command.Answer.Key
import RespStore.Proofs.Command.Timeless
import RespStore.Proofs.Log.Request
import RespStore.Text.Fingerprint

/-!
# Remaining lives

What is reported of how long a key lives on, for every deadline that a request can give it. A
deadline in unsigned 64 bits may be further away than a signed reply can tell.
-/

namespace RespStore

namespace View

variable {v : View} {now d : Nat} {key k : String} {slot : Option Entry} {F : Change}

/-- The deadline of a key, if it is there and has one. -/
def deadline? (v : View) (key : String) : Option Nat := (v key).bind (·.expiresAt)

/-- A deadline that shows has not passed. -/
theorem lt_of_deadline? {e : Entry} (h : v.Live now) (he : v key = some e)
    (hd : e.expiresAt = some d) : now < d :=
  (Entry.isLive_iff hd).mp (Option.filter_eq_some_iff.mp ((h.filter_eq key).trans he)).2

/-- A deadline that shows after a write has been written or has shown before. -/
theorem deadline?_write (h : (v.write now key slot).deadline? k = some d) :
    v.deadline? k = some d ∨ k = key ∧ slot.bind (·.expiresAt) = some d := by
  by_cases hk : k = key
  · subst hk
    rw [deadline?, write_apply] at h
    obtain ⟨e, he, hd⟩ := Option.bind_eq_some_iff.mp h
    rw [(Option.filter_eq_some_iff.mp he).1]
    exact .inr ⟨rfl, hd⟩
  · rw [deadline?, write_of_ne hk] at h
    exact .inl h

theorem deadline?_write_store {c : Content}
    (h : (v.write now key (Entry.store slot c)).deadline? k = some d) :
    v.deadline? k = some d ∨ k = key ∧ slot.bind (·.expiresAt) = some d := by
  refine (deadline?_write h).imp_right fun ⟨hk, hd⟩ => ⟨hk, ?_⟩
  obtain ⟨e, he, hd⟩ := Option.bind_eq_some_iff.mp hd
  rw [← Entry.expiresAt_store he, hd]

/-- A deadline that only shows after a change is one that the change has put there. -/
theorem deadline?_change (h : (v.change now key F).deadline? k = some d)
    (hnew : v.deadline? k ≠ some d) : k = key ∧ (F (v key)).bind (·.expiresAt) = some d :=
  (deadline?_write h).resolve_left hnew

end View

/-- A write that keeps deadlines shows no deadline that has not shown before. -/
theorem Write.Keeps.deadline? {w : Write} {v : View} {now d : Nat} {key : String} (hw : w.Keeps)
    (h : (w.apply now v).deadline? key = some d) : v.deadline? key = some d := by
  cases w with
  | nothing => exact h
  | clear => cases h
  | change k F =>
    rcases View.deadline?_write h with hold | ⟨rfl, hd⟩
    · exact hold
    · obtain ⟨e, he, hd⟩ := Option.bind_eq_some_iff.mp hd
      rcases hw _ e he with hnone | hkept
      · rw [hnone] at hd
        cases hd
      · rw [hkept] at hd
        exact hd
  | puts entries =>
    have h : (entries.foldl (fun v e => v.write now e.1 e.2) v).deadline? key = some d := h
    induction entries generalizing v with
    | nil => exact h
    | cons p entries ih =>
      obtain ⟨hp, hrest⟩ := List.forall_mem_cons.mp hw
      rcases View.deadline?_write (ih hrest h h) with hold | ⟨rfl, hd⟩
      · exact hold
      · obtain ⟨e, he, hd⟩ := Option.bind_eq_some_iff.mp hd
        rw [hp e he] at hd
        cases hd
  | move source destination =>
    have h : (v.move now source destination).deadline? key = some d := h
    rcases View.move_cases v now source destination with hsame | ⟨c, c', hmoved⟩
    · rw [hsame] at h
      exact h
    · rw [hmoved] at h
      rcases View.deadline?_write_store h with h | ⟨rfl, hd⟩
      · rcases View.deadline?_write_store h with h | ⟨rfl, hd⟩
        · exact h
        · exact hd
      · exact hd

/-! ## Deadlines that commands set -/

namespace TimeUnit

variable {unit : TimeUnit} {amount now : Nat} {t : Int}

/-- A deadline in unsigned 64-bit integers is one of them, and how far it is away depends on the
unit: only whole seconds reach further than signed integers do. -/
theorem deadline?_uint64 (h : unit.deadline? .uint64 amount now = some t)
    (hamount : amount ≤ Command.maxInteger) :
    0 ≤ t ∧ t ≤ 18446744073709551615 ∧ t ≤ now + 18446744073709551000 ∧
      (t ≤ now + Command.maxInteger ∨ unit = seconds ∨ unit = unixSeconds) := by
  unfold Command.maxInteger at *
  cases unit with
  | seconds =>
    obtain ⟨n, hcheck, hadd⟩ := Option.bind_eq_some_iff.mp h
    obtain ⟨rfl, hn⟩ := IntFormat.check?_eq_some_iff.mp hcheck
    obtain ⟨rfl, ht⟩ := IntFormat.add?_eq_some_iff.mp hadd
    rw [IntFormat.uint64_fits_iff] at hn ht
    refine ⟨ht.1, ht.2, ?_, .inr (.inl rfl)⟩
    omega
  | milliseconds =>
    obtain ⟨rfl, ht⟩ := IntFormat.add?_eq_some_iff.mp h
    rw [IntFormat.uint64_fits_iff] at ht
    omega
  | unixSeconds =>
    obtain ⟨rfl, ht⟩ := IntFormat.check?_eq_some_iff.mp h
    rw [IntFormat.uint64_fits_iff] at ht
    refine ⟨ht.1, ht.2, ?_, .inr (.inr rfl)⟩
    omega
  | unixMilliseconds =>
    cases h
    omega

end TimeUnit

theorem Change.expiresAt_setString {value : Bytes} {condition : SetCondition} {t d : Nat}
    {slot : Option Entry}
    (h : (setString value condition (some t) slot).bind (·.expiresAt) = some d) :
    slot.bind (·.expiresAt) = some d ∨ d = max 1 t := by
  unfold setString at h
  split at h
  · exact .inl h
  · cases h
  · cases h
    exact .inr rfl

namespace StringCommand

open ArgReader

theorem yields_readAmount_bounds (args : List Frame) :
    Yields readAmount args fun n _ => 0 < n ∧ n ≤ Command.maxInteger := by
  apply yields_bind_any
  intro n rest
  split
  · next hpos =>
    have hlt := n.toInt_lt
    have hpos : (0 : Int) < n.toInt := Int64.lt_iff_toInt_lt.mp hpos
    refine yields_pure ?_
    unfold Command.maxInteger
    omega
  · exact yields_fail _

theorem yields_readSetOptions_bounds (fuel : Nat) (condition : SetCondition)
    {expiry : Option Expiry} (h : ∀ e, expiry = some e → 0 < e.amount ∧ e.amount ≤ Command.maxInteger)
    (args : List Frame) :
    Yields (readSetOptions fuel condition expiry) args fun p _ =>
      ∀ e, p.2 = some e → 0 < e.amount ∧ e.amount ≤ Command.maxInteger := by
  induction fuel generalizing condition expiry args with
  | zero => exact yields_pure h
  | succ fuel ih =>
    apply yields_bind_any
    intro more rest
    split
    · apply yields_bind_any
      intro s rest
      split
      · exact yields_fail _
      · split
        · exact yields_fail _
        · exact ih _ h _
      · apply yields_bind_any
        intro next rest
        split
        · exact yields_fail _
        · apply yields_bind
          intro amount rest hamount
          refine ih condition ?_ rest
          rintro _ ⟨⟩
          exact yields_readAmount_bounds _ _ _ hamount
    · exact yields_pure h

end StringCommand

namespace Command

open ArgReader

/-- The amount of an expiry is positive, and it was read as a signed integer. -/
theorem amount_bounds {frame : Frame} {key : String} {value : Bytes} {condition : SetCondition}
    {e : Expiry} (h : ofFrame frame = .ok (.string (.set key value condition (some e)))) :
    0 < e.amount ∧ e.amount ≤ maxInteger := by
  obtain ⟨spec, hread⟩ := exists_readUnder_of_ofFrame h
  have hname : spec.name = "set" := Rewriting.ofName_eq_store_iff.mp hread.fits.rewriting.symm
  obtain ⟨-, hlookup, args, rest, -, hrun⟩ := hread
  rw [hname] at hlookup
  obtain rfl := Option.some.inj hlookup
  have hyields : Yields (Command.string <$> StringCommand.readSet) args fun c _ =>
      ∀ key value condition e, c = .string (.set key value condition (some e)) →
        0 < e.amount ∧ e.amount ≤ maxInteger := by
    apply yields_map
    apply yields_bind_any
    intro k rest
    apply yields_bind_any
    intro v rest
    apply yields_bind_any
    intro n rest
    apply yields_bind
    intro p rest hp
    have hbounds := StringCommand.yields_readSetOptions_bounds _ _ (fun _ he => by cases he) _ p
      rest hp
    refine yields_pure fun key value condition e hc => hbounds e ?_
    exact (StringCommand.set.inj (Command.string.inj hc)).2.2.2
  exact hyields _ _ hrun _ _ _ _ rfl

/-- A deadline that only shows after a command for it is the one that its amount stands for. -/
theorem deadline?_expire {v : View} {now d : Nat} {key name : String} {unit : TimeUnit}
    {amount : Int64} (hold : v.deadline? key ≠ some d)
    (hnew : ((KeyCommand.write now (.expire unit name amount)).apply now v).deadline? key = some d) :
    name = key ∧ ∃ t, unit.deadline? .int64 amount.toInt now = some t ∧ d = t.toNat := by
  cases ht : unit.deadline? .int64 amount.toInt now with
  | none =>
    rw [KeyCommand.write, ht] at hnew
    exact absurd hnew hold
  | some t =>
    rw [KeyCommand.write, ht] at hnew
    obtain ⟨rfl, hset⟩ := View.deadline?_change hnew hold
    obtain ⟨old, hslot, hd⟩ := Option.bind_eq_some_iff.mp hset
    obtain ⟨_, -, rfl⟩ := Option.map_eq_some_iff.mp hslot
    cases hd
    exact ⟨rfl, t, rfl, rfl⟩

/-- The same for a command that stores a string. -/
theorem deadline?_set {v : View} {now d : Nat} {key name : String} {value : Bytes}
    {condition : SetCondition} {expiry : Expiry} (hold : v.deadline? key ≠ some d)
    (hnew : ((StringCommand.write now (.set name value condition (some expiry))).apply now
      v).deadline? key = some d) :
    name = key ∧ ∃ t, StringCommand.Expiry.deadline? expiry now = some t ∧ d = max 1 t := by
  cases ht : StringCommand.Expiry.deadline? expiry now with
  | none =>
    rw [StringCommand.write, ht] at hnew
    exact absurd hnew hold
  | some t =>
    rw [StringCommand.write, ht] at hnew
    obtain ⟨rfl, hset⟩ := View.deadline?_change hnew hold
    exact ⟨rfl, t, rfl, (Change.expiresAt_setString hset).resolve_left hold⟩

variable [Digest String] {now : Nat} {s : Session} {k : Keyspace} {c : Command}
  {popped : List String} {e : Effect} {key : String} {d : Nat}

/-- A deadline that shows after a command shows in what the command writes. -/
theorem Ran.deadline?_write (h : Ran now s k c popped e)
    (hnew : (e.keyspace.store.view now s.selected).deadline? key = some d) :
    ((c.write now popped).apply now (k.store.view now s.selected)).deadline? key = some d := by
  cases hflush : c.isFlushAll with
  | true =>
    rw [h.view, effect, hflush] at hnew
    cases hnew
  | false =>
    rw [h.view, effect, hflush] at hnew
    have hnew : (Function.update (k.store.view now) s.selected _ s.selected).deadline? key = _ :=
      hnew
    rwa [Function.update_self] at hnew

/-- A deadline that only shows after a command is one that the command sets. -/
theorem Ran.sets (h : Ran now s k c popped e)
    (hold : (k.store.view now s.selected).deadline? key ≠ some d)
    (hnew : (e.keyspace.store.view now s.selected).deadline? key = some d) :
    (∃ unit amount t, c = .key (.expire unit key amount) ∧
      unit.deadline? .int64 amount.toInt now = some t ∧ d = t.toNat) ∨
    ∃ value condition expiry t, c = .string (.set key value condition (some expiry)) ∧
      StringCommand.Expiry.deadline? expiry now = some t ∧ d = max 1 t := by
  have hwritten := h.deadline?_write hnew
  by_cases hexpire : ∃ unit name amount, c = .key (.expire unit name amount)
  · obtain ⟨unit, name, amount, rfl⟩ := hexpire
    obtain ⟨rfl, t, ht, hd⟩ := deadline?_expire hold hwritten
    exact .inl ⟨unit, amount, t, rfl, ht, hd⟩
  · by_cases hset : ∃ name value condition expiry,
        c = .string (.set name value condition (some expiry))
    · obtain ⟨name, value, condition, expiry, rfl⟩ := hset
      obtain ⟨rfl, t, ht, hd⟩ := deadline?_set hold hwritten
      exact .inr ⟨value, condition, expiry, t, rfl, ht, hd⟩
    · refine absurd ?_ hold
      refine (write_keeps ?_ ?_ now popped).deadline? hwritten
      · exact fun unit name amount hc => hexpire ⟨unit, name, amount, hc⟩
      · exact fun name value condition expiry hc => hset ⟨name, value, condition, expiry, hc⟩

end Command

/-! ## Wrapping -/

theorem toInt_ofNat_of_le {n : Nat} (h : n ≤ Command.maxInteger) : (Int64.ofNat n).toInt = n :=
  Int64.toInt_ofNat_of_lt (Nat.lt_succ_of_le h)

theorem toInt_ofNat_of_lt {n : Nat} (h : Command.maxInteger < n) (hn : n < 18446744073709551616) :
    (Int64.ofNat n).toInt = n - 18446744073709551616 := by
  have hsize : Int64.size = 18446744073709551616 := rfl
  unfold Command.maxInteger at h
  rw [Int64.toInt_ofNat', Int.bmod_def, hsize]
  omega

namespace KeyCommand

/-- The sum wraps around at half a second from the end of the unsigned integers. -/
theorem roundToSeconds_eq {ms : Nat} (h : ms ≤ 18446744073709551615) :
    roundToSeconds ms = if ms + 500 ≤ 18446744073709551615 then (ms + 500) / 1000 else 0 := by
  have hms : (UInt64.ofNat ms).toNat = ms := UInt64.toNat_ofNat_of_lt' (Nat.lt_succ_of_le h)
  have hround : roundToSeconds ms = (ms + 500) % 18446744073709551616 / 1000 := by
    rw [roundToSeconds, UInt64.toNat_div, UInt64.toNat_add, hms]
    rfl
  rw [hround]
  split <;> omega

/-- Seconds fit in a signed reply, so that they are never negative. -/
theorem toInt_roundToSeconds {ms : Nat} (h : ms ≤ 18446744073709551615) :
    (Int64.ofNat (roundToSeconds ms)).toInt =
      (if ms + 500 ≤ 18446744073709551615 then (ms + 500) / 1000 else 0 : Nat) := by
  have hrounded := roundToSeconds_eq h
  have hfits : roundToSeconds ms ≤ Command.maxInteger := by
    unfold Command.maxInteger
    split at hrounded <;> omega
  rw [toInt_ofNat_of_le hfits, hrounded]

variable {now d : Nat} {e : Entry} {scale : Nat → Nat}

theorem lifetimeReply_persistent (h : e.expiresAt = none) :
    lifetimeReply scale (Entry.lifetime now (some e)) = -1 := by
  rw [Entry.lifetime, Option.elim_some, h]
  rfl

theorem lifetimeReply_expiresIn (h : e.expiresAt = some d) :
    lifetimeReply scale (Entry.lifetime now (some e)) = Int64.ofNat (scale (d - now)) := by
  rw [Entry.lifetime, Option.elim_some, h]
  rfl

end KeyCommand

namespace Clients

variable [Digest String] [Matcher] {n : Nat} {x : Clients} {client now t₀ d : Nat} {frame : Frame}
  {key : String}

/-- A request gives a key of the database that its client has selected a deadline that the key has
not had. -/
def Attaches (x : Clients) (client t₀ : Nat) (frame : Frame) (key : String) (d : Nat) : Prop :=
  let i := (x.sessions client).selected
  (x.keyspace.store.view t₀ i).deadline? key ≠ some d ∧
    ((x.request client t₀ frame).keyspace.store.view t₀ i).deadline? key = some d

/-- A request that stores a string under a key, with a deadline in whole seconds. -/
def SetsInSeconds (frame : Frame) (key : String) : Prop :=
  ∃ value condition e, Command.ofFrame frame = .ok (.string (.set key value condition (some e))) ∧
    (e.unit = .seconds ∨ e.unit = .unixSeconds)

/-- The deadlines that requests attach fit in signed integers, unless a string is stored. -/
theorem Attaches.cases (hx : Reachable n x) (h : x.Attaches client t₀ frame key d) :
    d ≤ Command.maxInteger ∨ d ≤ 18446744073709551615 ∧ d ≤ t₀ + 18446744073709551000 ∧
      (d ≤ t₀ + Command.maxInteger ∨ SetsInSeconds frame key) := by
  obtain ⟨hold, hnew⟩ := h
  unfold request at hnew
  cases hc : Command.ofFrame frame with
  | error e =>
    rw [hc] at hnew
    exact absurd hnew hold
  | ok c =>
    rw [hc] at hnew
    obtain ⟨popped, hran⟩ := hx.sound.exists_ran client t₀ hc
    rcases hran.sets hold hnew with
      ⟨unit, amount, t, rfl, ht, rfl⟩ | ⟨value, condition, e, t, rfl, ht, rfl⟩
    · exact .inl (TimeUnit.deadline?_le ht)
    · obtain ⟨n, hn, rfl⟩ := Option.map_eq_some_iff.mp ht
      obtain ⟨-, hamount⟩ := Command.amount_bounds hc
      obtain ⟨hnonneg, hle, haway, hunit⟩ := TimeUnit.deadline?_uint64 hn hamount
      refine .inr ⟨by omega, by omega, hunit.imp (fun hnear => ?_) fun hseconds => ?_⟩
      · unfold Command.maxInteger at *
        omega
      · exact ⟨value, condition, e, hc, hseconds⟩

theorem Attaches.le (hx : Reachable n x) (h : x.Attaches client t₀ frame key d) :
    d ≤ 18446744073709551615 := by
  rcases h.cases hx with hle | ⟨hle, -⟩
  · unfold Command.maxInteger at hle
    omega
  · exact hle

/-- A deadline that is further away than a reply can tell was given in whole seconds. -/
theorem Attaches.of_far (hx : Reachable n x) (h : x.Attaches client t₀ frame key d)
    (ht : t₀ ≤ now) (hfar : Command.maxInteger < d - now) :
    d - now ≤ 18446744073709551000 ∧ SetsInSeconds frame key := by
  rcases h.cases hx with hle | ⟨-, haway, hunit⟩
  · omega
  · exact ⟨by omega, hunit.resolve_left (by omega)⟩

/-- What is replied about the remaining life of a key, to the millisecond and to the second. -/
def lives (x : Clients) (client now : Nat) (key : String) : Frame × Frame :=
  let reply c := (Command.run (.key c) now (x.sessions client) x.keyspace).reply
  (reply (.pttl key), reply (.ttl key))

theorem lives_eq (hx : Reachable n x) (client now : Nat) (key : String) :
    let life := Entry.lifetime now (x.keyspace.store.view now (x.sessions client).selected key)
    x.lives client now key = (.integer (KeyCommand.lifetimeReply id life),
      .integer (KeyCommand.lifetimeReply KeyCommand.roundToSeconds life)) := by
  have hdb : (x.keyspace.store.db (x.sessions client).selected).WF := hx.sound.wf _
  refine Prod.ext ?_ ?_
  · exact KeyCommand.run_answer (c := .pttl key) hdb x.keyspace.draws rfl
  · exact KeyCommand.run_answer (c := .ttl key) hdb x.keyspace.draws rfl

/-- The replies tell whether a key is there and has a deadline. For every deadline that a request
can attach, the number of seconds, rounded, is right just when the sum that rounds it does not wrap
around, which it does not from the time of attaching on, and it is never negative. The number of
milliseconds is right just when a signed integer holds it. Otherwise, from the time of attaching on,
it is negative, though never one that stands for something else, and the deadline was set in whole
seconds by a command that stores a string. -/
theorem Reachable.lives_reported (hx : Reachable n x) (client now : Nat) (key : String) :
    let slot := x.keyspace.store.view now (x.sessions client).selected key
    (slot = none → x.lives client now key = (.integer (-2), .integer (-2))) ∧
    (∀ e, slot = some e → e.expiresAt = none →
      x.lives client now key = (.integer (-1), .integer (-1))) ∧
    ∀ e d, slot = some e → e.expiresAt = some d →
      ∀ n' y client' t₀ frame key', Reachable n' y → Attaches y client' t₀ frame key' d →
      ∃ milliseconds seconds : Int64,
        x.lives client now key = (.integer milliseconds, .integer seconds) ∧ now < d ∧
        (milliseconds.toInt = (d - now : Nat) ↔ d - now ≤ Command.maxInteger) ∧
        (seconds.toInt = ((d - now + 500) / 1000 : Nat) ↔ d - now + 500 ≤ 18446744073709551615) ∧
        0 ≤ seconds.toInt ∧
        (t₀ ≤ now → d - now + 500 ≤ 18446744073709551615 ∧
          (Command.maxInteger < d - now → milliseconds.toInt ≤ -616 ∧
            milliseconds.toInt = (d - now : Nat) - (18446744073709551616 : Int) ∧
            SetsInSeconds frame key')) := by
  intro slot
  rw [lives_eq hx]
  refine ⟨?_, ?_, ?_⟩
  · intro hslot
    rw [show x.keyspace.store.view now (x.sessions client).selected key = none from hslot]
    rfl
  · intro e hslot hnone
    rw [show x.keyspace.store.view now (x.sessions client).selected key = some e from hslot,
      KeyCommand.lifetimeReply_persistent hnone, KeyCommand.lifetimeReply_persistent hnone]
  · intro e d hslot hd n' y client' t₀ frame key' hy hattach
    rw [show x.keyspace.store.view now (x.sessions client).selected key = some e from hslot,
      KeyCommand.lifetimeReply_expiresIn hd, KeyCommand.lifetimeReply_expiresIn hd]
    have hlive : now < d := View.lt_of_deadline? Db.view_live hslot hd
    have hle := hattach.le hy
    have hwrapped : Command.maxInteger < d - now →
        (Int64.ofNat (d - now)).toInt = (d - now : Nat) - (18446744073709551616 : Int) :=
      fun hfar => toInt_ofNat_of_lt hfar (by omega)
    have hseconds := KeyCommand.toInt_roundToSeconds (Nat.le_trans (Nat.sub_le d now) hle)
    refine ⟨_, _, rfl, hlive, ⟨fun hexact => ?_, fun hnear => toInt_ofNat_of_le hnear⟩, ?_, ?_,
      fun ht => ⟨?_, fun hfar => ?_⟩⟩
    · by_contra hfar
      have hwrapped := (hwrapped (Nat.lt_of_not_le hfar)).symm.trans hexact
      omega
    · rw [hseconds]
      split <;> omega
    · rw [hseconds]
      split <;> omega
    · by_cases hfar : Command.maxInteger < d - now
      · have := (hattach.of_far hy ht hfar).1
        omega
      · unfold Command.maxInteger at hfar
        omega
    · obtain ⟨haway, hseconds⟩ := hattach.of_far hy ht hfar
      refine ⟨(hwrapped hfar).trans_le ?_, hwrapped hfar, hseconds⟩
      omega

end Clients

namespace Clients

/-- Stores a string that lives on for a little more milliseconds than a signed integer holds. -/
def endless : Frame := .ofList .text ["SET", "k", "v", "EX", "9223372036854776"]

/-- The milliseconds left are reported as a negative number, and the seconds as they are. -/
theorem endless_reported :
    let y := new 1 ⟨fun _ => 0, 0⟩
    let x := y.request 0 5 endless
    let e : Entry := ⟨.string [118], some 9223372036854776005⟩
    Reachable 1 y ∧ Reachable 1 x ∧ x.keyspace.store.view 6 (x.sessions 0).selected "k" = some e ∧
      y.Attaches 0 5 endless "k" 9223372036854776005 ∧
      ∃ milliseconds seconds : Int64,
        x.lives 0 6 "k" = (.integer milliseconds, .integer seconds) ∧
          milliseconds.toInt = -9223372036854775617 ∧ seconds.toInt = 9223372036854776 := by
  intro y x e
  have hy : Reachable 1 y := .new _
  have hx : Reachable 1 x := hy.request 0 5 _
  have hview : x.keyspace.store.view 6 (x.sessions 0).selected "k" = some e := by decide +kernel
  have hattaches : y.Attaches 0 5 endless "k" 9223372036854776005 := by
    refine ⟨?_, ?_⟩ <;> decide +kernel
  obtain ⟨milliseconds, seconds, hlives, -, -, hseconds, -, hfar⟩ :=
    (hx.lives_reported 0 6 "k").2.2 e _ hview rfl 1 y 0 5 endless "k" hy hattaches
  obtain ⟨-, hwrapped, -⟩ := (hfar (by decide)).2 (by decide)
  exact ⟨hy, hx, hview, hattaches, milliseconds, seconds, hlives, hwrapped,
    hseconds.mpr (by decide)⟩

end Clients

end RespStore
