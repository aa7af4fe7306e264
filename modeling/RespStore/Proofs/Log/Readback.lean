import RespStore.Proofs.Log.Request

/-!
# Reading back the log's own words

The records that a log puts in words of its own are read as the commands that they are meant for,
unless a deadline among their arguments is more than a reader of integers takes.
-/

namespace RespStore.Command

open ArgReader

variable {k : Bytes} {key : String}

/-- A request under a name that is found is read by the entry. -/
theorem run_read {name : Bytes} {s : String} {spec : CommandSpec} {args : List Bytes}
    (hs : Utf8.decode? name = some s) (hlookup : CommandSpec.lookup? (LetterCase.lower s) = some spec)
    (haccepts : spec.arity.accepts args.length = true) :
    read.run (bulks (name :: args)) = spec.read.run (bulks args) := by
  have hname : readName.run (bulks (name :: args)) = .ok (LetterCase.lower s, bulks args) := by
    rw [bulks, List.map_cons, run_readName_bulk, hs]
    rfl
  have hentry : read.run (bulks (name :: args)) = _ := run_bind_ok hname
  rw [hentry, hlookup]
  show (if spec.arity.accepts (bulks args).length = true then spec.read
    else fail (.wrongArity (LetterCase.lower s)) : ArgReader Command).run (bulks args) = _
  rw [bulks, List.length_map, if_pos haccepts]

theorem ofFrame_of_run {name : String} {spec : CommandSpec} {args : List Bytes} {c : Command}
    {rest : List Frame} (hlookup : CommandSpec.lookup? (LetterCase.lower name) = some spec)
    (haccepts : spec.arity.accepts args.length = true)
    (hrun : spec.read.run (bulks args) = .ok (c, rest)) :
    Command.ofFrame (Request.toFrame (Log.word name :: args)) = .ok c := by
  have hread := run_read (Utf8.decode?_encode name) hlookup haccepts
  rw [ofFrame_toFrame, show Log.word name = Utf8.encode name from rfl, hread, hrun]
  rfl

/-- Setting the deadline that a key has. -/
theorem ofFrame_deadlineRecord (hkey : Utf8.decode? k = some key) {t : Nat} (ht : t ≤ maxInteger) :
    Command.ofFrame (Request.toFrame [Log.word "PEXPIREAT", k, Decimal.ofNat t]) =
      .ok (.key (.expire .unixMilliseconds key (Int64.ofInt t))) := by
  have hrun : (KeyCommand.readExpire .unixMilliseconds).run (bulks [k, Decimal.ofNat t]) =
      .ok (.expire .unixMilliseconds key (Int64.ofInt t), []) :=
    (run_bind_ok (run_text hkey)).trans (run_bind_ok (run_integer (readInt64?_ofNat ht)))
  have hlookup : CommandSpec.lookup? (LetterCase.lower "PEXPIREAT") = some _ := rfl
  exact ofFrame_of_run hlookup rfl (run_map_ok hrun)

/-- Deleting a key. -/
theorem ofFrame_deleteRecord (hkey : Utf8.decode? k = some key) :
    Command.ofFrame (Request.toFrame [Log.word "DEL", k]) = .ok (.key (.del [key])) := by
  have htexts := run_texts [key]
  rw [List.map_singleton, Utf8.encode_of_decode? hkey] at htexts
  have hrun : KeyCommand.readDel.run (bulks [k]) = .ok (.del [key], []) := run_bind_ok htexts
  have hlookup : CommandSpec.lookup? (LetterCase.lower "DEL") = some _ := rfl
  exact ofFrame_of_run hlookup rfl (run_map_ok hrun)

/-- Removing the members that a random removal took. -/
theorem ofFrame_removalRecord (hkey : Utf8.decode? k = some key) {members : List String}
    (hne : members ≠ []) :
    Command.ofFrame (Request.toFrame (Log.word "SREM" :: k :: members.map Utf8.encode)) =
      .ok (.set (.remove key members)) := by
  have hrun : SetCommand.readRemove.run (bulks (k :: members.map Utf8.encode)) =
      .ok (.remove key members, []) :=
    (run_bind_ok (run_text hkey)).trans (run_bind_ok (run_texts members))
  have hlookup : CommandSpec.lookup? (LetterCase.lower "SREM") = some _ := rfl
  refine ofFrame_of_run hlookup ?_ (run_map_ok hrun)
  obtain ⟨m, ms, rfl⟩ := List.exists_cons_of_ne_nil hne
  show decide (2 ≤ (k :: (m :: ms).map Utf8.encode).length) = true
  simp

theorem toInt_ofInt {t : Nat} (ht : t ≤ maxInteger) : (Int64.ofInt t).toInt = t :=
  toInt_ofInt_of_fits (IntFormat.int64_fits_iff.mpr ht)

/-- Selecting a database. -/
theorem ofFrame_selectRecord {i : Nat} (hi : i ≤ maxInteger) :
    Command.ofFrame (Request.toFrame [Log.word "SELECT", Decimal.ofNat i]) =
      .ok (.server (.select i)) := by
  have hnonneg : (0 : Int64) ≤ Int64.ofInt i := by
    rw [Int64.le_iff_toInt_le, toInt_ofInt hi]
    exact Int.natCast_nonneg i
  have hrun : ServerCommand.readSelect.run (bulks [Decimal.ofNat i]) = .ok (.select i, []) := by
    refine (run_bind_ok (run_integer (readInt64?_ofNat hi))).trans ?_
    rw [if_pos hnonneg, toInt_ofInt hi]
    rfl
  have hlookup : CommandSpec.lookup? (LetterCase.lower "SELECT") = some _ := rfl
  exact ofFrame_of_run hlookup rfl (run_map_ok hrun)

/-! ## Storing a string under a deadline -/

theorem run_readAmount {t : Nat} (hpos : 0 < t) (ht : t ≤ maxInteger) (bs : List Bytes) :
    StringCommand.readAmount.run (bulks (Decimal.ofNat t :: bs)) = .ok (t, bulks bs) := by
  have hlt : (0 : Int64) < Int64.ofInt t := by
    rw [Int64.lt_iff_toInt_lt, toInt_ofInt ht]
    exact Int.natCast_pos.mpr hpos
  refine (run_bind_ok (run_integer (readInt64?_ofNat ht))).trans ?_
  rw [if_pos hlt, toInt_ofInt ht]
  rfl

/-- The option that names a deadline is read as its amount is. -/
theorem run_readSetOptions (fuel : Nat) (a : Bytes) :
    (StringCommand.readSetOptions (fuel + 1) .always none).run (bulks [Log.word "PXAT", a]) =
      (StringCommand.readAmount >>= fun n =>
        StringCommand.readSetOptions fuel .always (some ⟨.unixMilliseconds, n⟩)).run (bulks [a]) := by
  have hnext : ∀ (b : Bytes) (bs : List Bytes), hasNext.run (bulks (b :: bs)) =
      .ok (true, bulks (b :: bs)) := fun _ _ => rfl
  have hword : text.run (bulks [Log.word "PXAT", a]) = .ok ("PXAT", bulks [a]) :=
    run_text (Utf8.decode?_encode "PXAT")
  rw [StringCommand.readSetOptions, run_bind_ok (hnext _ _), if_pos rfl, run_bind_ok hword]
  exact run_bind_ok (hnext a [])

theorem run_readSet (hkey : Utf8.decode? k = some key) (value a : Bytes) :
    StringCommand.readSet.run (bulks [k, value, Log.word "PXAT", a]) =
      (StringCommand.readAmount >>= fun n => do
        let p ← StringCommand.readSetOptions 1 .always (some ⟨.unixMilliseconds, n⟩)
        return .set key value p.1 p.2).run (bulks [a]) := by
  have hoptions := run_readSetOptions 1 a
  have hvalue : bytes.run (bulks [value, Log.word "PXAT", a]) =
      .ok (value, bulks [Log.word "PXAT", a]) := rfl
  have hremaining : remaining.run (bulks [Log.word "PXAT", a]) =
      .ok (2, bulks [Log.word "PXAT", a]) := rfl
  rw [StringCommand.readSet, run_bind_ok (run_text hkey), run_bind_ok hvalue,
    run_bind_ok hremaining, run_bind_congr hoptions, bind_assoc]

theorem ofFrame_storeRecord (hkey : Utf8.decode? k = some key) (value : Bytes) {t : Nat}
    (hpos : 0 < t) (ht : t ≤ maxInteger) :
    Command.ofFrame (Request.toFrame
        [Log.word "SET", k, value, Log.word "PXAT", Decimal.ofNat t]) =
      .ok (.string (.set key value .always (some ⟨.unixMilliseconds, t⟩))) := by
  have hrun : StringCommand.readSet.run (bulks [k, value, Log.word "PXAT", Decimal.ofNat t]) =
      .ok (.set key value .always (some ⟨.unixMilliseconds, t⟩), []) :=
    (run_readSet hkey value _).trans (run_bind_ok (run_readAmount hpos ht []))
  have hlookup : CommandSpec.lookup? (LetterCase.lower "SET") = some _ := rfl
  exact ofFrame_of_run hlookup rfl (run_map_ok hrun)

/-- No deadline beyond the greatest integer is read. -/
theorem ofFrame_storeRecord_error (hkey : Utf8.decode? k = some key) (value : Bytes) {t : Nat}
    (ht : maxInteger < t) :
    Command.ofFrame (Request.toFrame
      [Log.word "SET", k, value, Log.word "PXAT", Decimal.ofNat t]) = .error .notInteger := by
  have hamount : StringCommand.readAmount.run (bulks [Decimal.ofNat t]) = .error .notInteger :=
    run_bind_error (run_integer_error (readInt64?_ofNat_of_lt ht))
  have hrun := (run_readSet hkey value (Decimal.ofNat t)).trans (run_bind_error hamount)
  have hlookup : CommandSpec.lookup? (LetterCase.lower "SET") = some _ := rfl
  have hread : read.run (bulks [Log.word "SET", k, value, Log.word "PXAT", Decimal.ofNat t]) =
      .error .notInteger :=
    (run_read (Utf8.decode?_encode "SET") hlookup rfl).trans (run_map_error hrun)
  rw [ofFrame_toFrame, hread]
  rfl

end RespStore.Command

namespace RespStore.Log

open Command

/-- Stores a string under a deadline that no reader of integers takes. -/
def TooLate (r : Request) : Prop :=
  ∃ k value t, maxInteger < t ∧ r = [word "SET", k, value, word "PXAT", Decimal.ofNat t]

theorem TooLate.ofFrame {r : Request} (h : TooLate r) :
    ∃ e, Command.ofFrame r.toFrame = .error e := by
  obtain ⟨k, value, t, ht, rfl⟩ := h
  cases hc : Command.ofFrame _ with
  | error e => exact ⟨e, rfl⟩
  | ok c =>
    obtain ⟨spec, name, args, hread⟩ := exists_readAs hc
    obtain ⟨rfl, rfl⟩ := List.cons.inj hread.parts
    have hstore : c.rewriting = .store := hread.set_iff.mp rfl
    obtain ⟨k', value', options, key, condition, expiry, hargs, hkey, -⟩ := hread.set hstore
    obtain ⟨rfl, -⟩ := List.cons.inj hargs
    have herror := ofFrame_storeRecord_error hkey value ht
    rw [hc] at herror
    cases herror

end RespStore.Log
