import RespStore.Log.Record
import RespStore.Proofs.Command.Table
import RespStore.Proofs.Text.LetterCase

/-!
# What a log reads off a request

The log looks at the arguments of a request, as bytes, where the command has parsed them. Both see
the same key, the same value and the same options.
-/

namespace RespStore

open ArgReader

namespace Command

/-- A request that is read as a command, under an entry of the table. -/
structure ReadAs (r : Request) (c : Command) (spec : CommandSpec) (name : Bytes)
    (args : List Bytes) : Prop where
  parts : r = name :: args
  named : ∃ s, Utf8.decode? name = some s ∧ CommandSpec.lookup? (LetterCase.lower s) = some spec
  accepted : spec.arity.accepts args.length = true
  read : ∃ rest, spec.read.run (bulks args) = .ok (c, rest)

theorem takes_readName : Takes readName fun b => (Utf8.decode? b).map LetterCase.lower := by
  intro bs s rest hrun
  cases bs with
  | nil => cases hrun
  | cons b bs =>
    rw [bulks, List.map_cons, run_readName_bulk] at hrun
    cases hd : Utf8.decode? b with
    | none =>
      rw [hd] at hrun
      cases hrun
    | some t =>
      rw [hd] at hrun
      cases hrun
      exact ⟨b, bs, rfl, rfl, congrArg (Option.map LetterCase.lower) hd⟩

theorem yields_read (r : Request) :
    Yields read (bulks r) fun c _ => ∃ spec name args, ReadAs r c spec name args := by
  refine takes_readName.yields_bind fun name args n hr hn => ?_
  obtain ⟨s, hs, rfl⟩ := Option.map_eq_some_iff.mp hn
  split
  · exact yields_fail _
  · next spec hlookup =>
    apply yields_bind
    intro k rest hk
    obtain ⟨rfl, rfl⟩ := yields_remaining k rest hk
    split
    · next haccepts =>
      intro c rest hrun
      exact ⟨spec, name, args, hr, ⟨s, hs, hlookup⟩, by simpa [bulks] using haccepts, rest, hrun⟩
    · exact yields_fail _

theorem ofFrame_toFrame (r : Request) :
    Command.ofFrame r.toFrame = (read.run (bulks r)).map (·.1) := rfl

theorem exists_readAs {r : Request} {c : Command} (h : Command.ofFrame r.toFrame = .ok c) :
    ∃ spec name args, ReadAs r c spec name args := by
  cases hrun : read.run (bulks r) with
  | error e =>
    rw [ofFrame_toFrame, hrun] at h
    cases h
  | ok p =>
    rw [ofFrame_toFrame, hrun] at h
    cases h
    exact yields_read r p.1 p.2 hrun

variable {r : Request} {c : Command} {spec : CommandSpec} {name : Bytes} {args : List Bytes}

theorem ReadAs.mem_table (h : ReadAs r c spec name args) : spec ∈ CommandSpec.table := by
  obtain ⟨s, -, hlookup⟩ := h.named
  exact List.mem_of_find?_eq_some hlookup

theorem ReadAs.fits (h : ReadAs r c spec name args) : spec.Fits c := by
  obtain ⟨rest, hrun⟩ := h.read
  have haccepts : spec.arity.accepts (bulks args).length = true := by
    simpa [bulks] using h.accepted
  exact CommandSpec.sound_table spec h.mem_table (bulks args) haccepts c rest hrun

/-- The entry is the one that tells whether the request is a write. -/
theorem ReadAs.ofRequest? (h : ReadAs r c spec name args) :
    CommandSpec.ofRequest? r.toFrame = some spec := by
  obtain ⟨s, hs, hlookup⟩ := h.named
  rw [h.parts]
  show (Utf8.decode? name).bind _ = _
  rw [hs, Option.bind_some, hlookup]

theorem ReadAs.name_eq (h : ReadAs r c spec name args) :
    ∃ s, Utf8.decode? name = some s ∧ spec.name = LetterCase.lower s := by
  obtain ⟨s, hs, hlookup⟩ := h.named
  have hname := List.find?_some (p := fun spec : CommandSpec => spec.name == LetterCase.lower s)
    hlookup
  exact ⟨s, hs, eq_of_beq hname⟩

/-- The entry has a name that the log looks for just when the log finds it. -/
theorem ReadAs.name_iff (h : ReadAs r c spec name args) {w : String}
    (hw : LetterCase.IsName w) : spec.name = w ↔ Bytes.lower name = Log.word w := by
  obtain ⟨s, hs, hname⟩ := h.name_eq
  rw [hname, LetterCase.lower_eq_iff hw, Utf8.encode_of_decode? hs]
  rfl

/-- The entry that has a name is found under it. -/
theorem ReadAs.lookup? (h : ReadAs r c spec name args) :
    CommandSpec.lookup? spec.name = some spec := by
  obtain ⟨s, hs, hlookup⟩ := h.named
  obtain ⟨s', hs', hname⟩ := h.name_eq
  rw [hs] at hs'
  cases hs'
  rw [hname, hlookup]

end Command

/-! ## Names -/

namespace Rewriting

variable {name : String}

theorem ofName_eq_deadline_iff :
    ofName name = .deadline ↔
      name = "expire" ∨ name = "pexpire" ∨ name = "expireat" ∨ name = "pexpireat" := by
  constructor
  · intro h
    unfold ofName at h
    split at h
    · assumption
    · split at h
      · cases h
      · split at h <;> cases h
  · rintro (rfl | rfl | rfl | rfl) <;> rfl

theorem ofName_eq_store_iff : ofName name = .store ↔ name = "set" := by
  constructor
  · intro h
    unfold ofName at h
    split at h
    · cases h
    · split at h
      · assumption
      · split at h <;> cases h
  · rintro rfl
    rfl

theorem ofName_eq_removal_iff : ofName name = .removal ↔ name = "spop" := by
  constructor
  · intro h
    unfold ofName at h
    split at h
    · cases h
    · split at h
      · cases h
      · split at h
        · assumption
        · cases h
  · rintro rfl
    rfl

end Rewriting

namespace Command

variable {r : Request} {c : Command} {spec : CommandSpec} {name : Bytes} {args : List Bytes}

theorem isName_of_list : ∀ w ∈ ["expire", "pexpire", "expireat", "pexpireat", "set", "spop"],
    LetterCase.IsName w := by
  decide +kernel

theorem ReadAs.isDeadlineCommand_iff (h : ReadAs r c spec name args) :
    Log.isDeadlineCommand (Bytes.lower name) = true ↔ c.rewriting = .deadline := by
  have hname := fun w hw => h.name_iff (isName_of_list w hw)
  rw [h.fits.rewriting, Rewriting.ofName_eq_deadline_iff, hname "expire" (by decide),
    hname "pexpire" (by decide), hname "expireat" (by decide), hname "pexpireat" (by decide),
    Log.isDeadlineCommand, List.contains_iff_mem]
  simp only [List.mem_cons, List.not_mem_nil, or_false]

theorem ReadAs.set_iff (h : ReadAs r c spec name args) :
    Bytes.lower name = Log.word "set" ↔ c.rewriting = .store := by
  rw [h.fits.rewriting, Rewriting.ofName_eq_store_iff, h.name_iff (isName_of_list _ (by decide))]

theorem ReadAs.spop_iff (h : ReadAs r c spec name args) :
    Bytes.lower name = Log.word "spop" ↔ c.rewriting = .removal := by
  rw [h.fits.rewriting, Rewriting.ofName_eq_removal_iff, h.name_iff (isName_of_list _ (by decide))]

/-! ## Arguments -/

/-- An entry with a name that is looked up reads as the one that is found. -/
theorem ReadAs.run_read (h : ReadAs r c spec name args) {w : String} (hw : spec.name = w)
    {spec' : CommandSpec} (hw' : CommandSpec.lookup? w = some spec') :
    ∃ rest, spec'.read.run (bulks args) = .ok (c, rest) := by
  have hlookup := h.lookup?
  rw [hw, hw'] at hlookup
  cases hlookup
  exact h.read

theorem yields_readExpire (unit : TimeUnit) (args : List Bytes) :
    Yields (Command.key <$> KeyCommand.readExpire unit) (bulks args) fun c _ =>
      ∃ k rest key n, args = k :: rest ∧ Utf8.decode? k = some key ∧
        c = .key (.expire unit key n) := by
  apply yields_map
  refine takes_text.yields_bind fun k rest key hargs hkey => ?_
  apply yields_bind_any
  intro n _
  exact yields_pure ⟨k, rest, key, n, hargs, hkey, rfl⟩

/-- The key of a command that sets a deadline. -/
theorem ReadAs.expire (h : ReadAs r c spec name args) (hc : c.rewriting = .deadline) :
    ∃ unit k rest key n, args = k :: rest ∧ Utf8.decode? k = some key ∧
      c = .key (.expire unit key n) := by
  have hunit : ∃ unit rest, (Command.key <$> KeyCommand.readExpire unit).run (bulks args) =
      .ok (c, rest) := by
    rw [h.fits.rewriting, Rewriting.ofName_eq_deadline_iff] at hc
    rcases hc with hw | hw | hw | hw
    · exact ⟨.seconds, h.run_read hw rfl⟩
    · exact ⟨.milliseconds, h.run_read hw rfl⟩
    · exact ⟨.unixSeconds, h.run_read hw rfl⟩
    · exact ⟨.unixMilliseconds, h.run_read hw rfl⟩
  obtain ⟨unit, rest, hrun⟩ := hunit
  exact ⟨unit, yields_readExpire unit args c rest hrun⟩

/-- The key of a random removal. -/
theorem ReadAs.pop (h : ReadAs r c spec name args) (hc : c.rewriting = .removal) :
    ∃ k rest key count, args = k :: rest ∧ Utf8.decode? k = some key ∧
      c = .set (.pop key count) := by
  rw [h.fits.rewriting, Rewriting.ofName_eq_removal_iff] at hc
  obtain ⟨rest, hrun⟩ := h.run_read hc rfl
  have hyields : Yields (Command.set <$> SetCommand.readPop) (bulks args) fun c _ =>
      ∃ k rest key count, args = k :: rest ∧ Utf8.decode? k = some key ∧
        c = .set (.pop key count) := by
    apply yields_map
    refine takes_text.yields_bind fun k rest key hargs hkey => ?_
    apply yields_bind_any
    intro count _
    exact yields_pure ⟨k, rest, key, count, hargs, hkey, rfl⟩
  exact hyields c rest hrun

/-! ## Options -/

/-- The log takes for an expiry option what the command takes for one. -/
theorem isExpiryOption_iff {b : Bytes} {s : String} (h : Utf8.decode? b = some s) :
    Log.isExpiryOption b = true ↔ ∃ unit, StringCommand.setOption? s = some (.expiry unit) := by
  have hsame : ∀ w, Bytes.lower (Utf8.encode w) = Log.word w →
      (sameLetters s w = true ↔ Bytes.lower b = Log.word w) := by
    intro w hw
    rw [sameLetters, Utf8.encode_of_decode? h, hw]
    exact beq_iff_eq
  have hany : Log.isExpiryOption b = true ↔ sameLetters s "ex" = true ∨ sameLetters s "px" = true ∨
      sameLetters s "exat" = true ∨ sameLetters s "pxat" = true := by
    rw [hsame "ex" rfl, hsame "px" rfl, hsame "exat" rfl, hsame "pxat" rfl, Log.isExpiryOption,
      List.contains_iff_mem]
    simp only [List.mem_cons, List.not_mem_nil, or_false]
  rw [hany]
  unfold StringCommand.setOption?
  constructor
  · intro hany
    split
    · exact ⟨_, rfl⟩
    · split
      · exact ⟨_, rfl⟩
      · split
        · exact ⟨_, rfl⟩
        · split
          · exact ⟨_, rfl⟩
          · rcases hany with h | h | h | h <;> contradiction
  · rintro ⟨unit, hunit⟩
    split at hunit
    · next h => exact .inl h
    · split at hunit
      · next h => exact .inr (.inl h)
      · split at hunit
        · next h => exact .inr (.inr (.inl h))
        · split at hunit
          · next h => exact .inr (.inr (.inr h))
          · split at hunit
            · cases hunit
            · split at hunit <;> cases hunit

theorem yields_readAmount (bs : List Bytes) :
    Yields StringCommand.readAmount (bulks bs) fun n rest =>
      0 < n ∧ ∃ a bs', bs = a :: bs' ∧ rest = bulks bs' := by
  refine takes_integer.yields_bind fun a bs' n hbs _ => ?_
  split
  · next hpos =>
    refine yields_pure ⟨?_, a, bs', hbs, rfl⟩
    have : (0 : Int) < n.toInt := Int64.lt_iff_toInt_lt.mp hpos
    omega
  · exact yields_fail _

/-- The options of a command tell of an expiry if the log finds the option for one. -/
theorem yields_readSetOptions (fuel : Nat) (condition : SetCondition) (expiry : Option Expiry)
    (hexpiry : ∀ e, expiry = some e → 0 < e.amount) {bs : List Bytes} (hfuel : bs.length ≤ fuel) :
    Yields (StringCommand.readSetOptions fuel condition expiry) (bulks bs) fun p _ =>
      (p.2.isSome = (expiry.isSome || bs.any Log.isExpiryOption)) ∧
        ∀ e, p.2 = some e → 0 < e.amount := by
  induction fuel generalizing condition expiry bs with
  | zero =>
    obtain rfl := List.length_eq_zero_iff.mp (Nat.le_zero.mp hfuel)
    exact yields_pure ⟨(Bool.or_false _).symm, hexpiry⟩
  | succ fuel ih =>
    apply yields_bind
    intro more rest hmore
    obtain ⟨rfl, rfl⟩ := yields_hasNext more rest hmore
    cases bs with
    | nil => exact yields_pure ⟨(Bool.or_false _).symm, hexpiry⟩
    | cons b bs =>
      have hlen : bs.length ≤ fuel := Nat.le_of_succ_le_succ hfuel
      refine takes_text.yields_bind fun b' bs' s hbs hs => ?_
      obtain ⟨rfl, rfl⟩ := List.cons.inj hbs
      have hoption := isExpiryOption_iff hs
      split
      · exact yields_fail _
      · next c hc =>
        have hno : Log.isExpiryOption b = false := by
          rw [Bool.eq_false_iff]
          intro h
          obtain ⟨unit, hunit⟩ := hoption.mp h
          rw [hc] at hunit
          cases hunit
        split
        · exact yields_fail _
        · rw [List.any_cons, hno, Bool.false_or]
          exact ih c expiry hexpiry hlen
      · next unit hunit =>
        have hyes : Log.isExpiryOption b = true := hoption.mpr ⟨unit, hunit⟩
        apply yields_bind
        intro next rest hnext
        obtain ⟨rfl, rfl⟩ := yields_hasNext next rest hnext
        split
        · exact yields_fail _
        · apply yields_bind
          intro amount rest hamount
          obtain ⟨hpos, a, bs', rfl, rfl⟩ := yields_readAmount bs amount rest hamount
          have hlen' : bs'.length ≤ fuel := Nat.le_of_succ_le hlen
          refine (ih condition (some ⟨unit, amount⟩) ?_ hlen').mono fun p _ hp => ?_
          · rintro _ ⟨⟩
            exact hpos
          · rw [List.any_cons, hyes, Bool.true_or, Bool.or_true]
            exact hp

/-- The key, the value and the options of a command that stores a string. -/
theorem ReadAs.set (h : ReadAs r c spec name args) (hc : c.rewriting = .store) :
    ∃ k value options key condition expiry, args = k :: value :: options ∧
      Utf8.decode? k = some key ∧ c = .string (.set key value condition expiry) ∧
      expiry.isSome = options.any Log.isExpiryOption ∧ ∀ e, expiry = some e → 0 < e.amount := by
  rw [h.fits.rewriting, Rewriting.ofName_eq_store_iff] at hc
  obtain ⟨rest, hrun⟩ := h.run_read hc rfl
  have hyields : Yields (Command.string <$> StringCommand.readSet) (bulks args) fun c _ =>
      ∃ k value options key condition expiry, args = k :: value :: options ∧
        Utf8.decode? k = some key ∧ c = .string (.set key value condition expiry) ∧
        expiry.isSome = options.any Log.isExpiryOption ∧
        ∀ e, expiry = some e → 0 < e.amount := by
    apply yields_map
    refine takes_text.yields_bind fun k rest key hargs hkey => ?_
    refine takes_bytes.yields_bind fun value options _ hrest hvalue => ?_
    cases hvalue
    apply yields_bind
    intro n rest' hn
    obtain ⟨rfl, rfl⟩ := yields_remaining n rest' hn
    have hfuel : options.length ≤ (bulks options).length := by simp [bulks]
    apply yields_bind
    intro p rest'' hp
    obtain ⟨hany, hpos⟩ := yields_readSetOptions _ .always none (fun _ he => by cases he) hfuel p rest'' hp
    exact yields_pure ⟨k, value, options, key, p.1, p.2, by rw [hargs, hrest], hkey, rfl, hany, hpos⟩
  exact hyields c rest hrun

end Command

end RespStore
