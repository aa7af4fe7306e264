import RespStore.Proofs.Frame.RoundTrip

/-!
# What a frame is parsed from

The bytes of which a number, a payload, a bulk string or an array of items is parsed, whatever follows
them. Numbers and lengths have many spellings, so these are more than what is written for a frame.
-/

namespace RespStore

namespace Frame

variable {α β : Type} {bs rest a digits : Bytes} {n fuel : Nat} {item : Frame} {items : List Frame}

theorem bind_eq_ok_iff {x : Except ParseError α} {g : α → Except ParseError β} {b : β} :
    x.bind g = .ok b ↔ ∃ a, x = .ok a ∧ g a = .ok b := by
  cases x with
  | error e => exact iff_of_false nofun fun ⟨_, h, _⟩ => nomatch h
  | ok a => exact ⟨fun h => ⟨a, rfl, h⟩, fun ⟨_, h, hg⟩ => Except.ok.inj h ▸ hg⟩

theorem map_eq_ok_iff {x : Except ParseError α} {g : α → β} {b : β} :
    x.map g = .ok b ↔ ∃ a, x = .ok a ∧ g a = b := by
  cases x with
  | error e => exact iff_of_false nofun fun ⟨_, h, _⟩ => nomatch h
  | ok a =>
    exact ⟨fun h => ⟨a, rfl, Except.ok.inj h⟩, fun ⟨_, h, hg⟩ => congrArg _ (Except.ok.inj h ▸ hg)⟩

/-! ## What is taken -/

theorem takeInteger_eq_ok_iff {n : Int64} :
    takeInteger bs = .ok (n, rest) ↔ ∃ digits, Bytes.IsLine digits ∧
      IntFormat.int64.parse? digits = some n.toInt ∧ bs = digits ++ Bytes.crlf ++ rest := by
  rw [takeInteger_eq, bind_eq_ok_iff]
  constructor
  · rintro ⟨⟨line, rest'⟩, hline, hread⟩
    obtain ⟨hisLine, rfl⟩ := takeLine_eq_ok_iff.mp hline
    cases hn : readInt64? line with
    | none =>
      rw [hn] at hread
      cases hread
    | some m =>
      rw [hn] at hread
      cases hread
      exact ⟨line, hisLine, readInt64?_eq_some_iff.mp hn, rfl⟩
  · rintro ⟨digits, hline, hn, rfl⟩
    refine ⟨(digits, rest), takeLine_append hline rest, ?_⟩
    rw [readInt64?_eq_some_iff.mpr hn]
    rfl

/-- A length is taken where its digits stand in a line. -/
theorem takeLength_eq_some_iff {negative : ParseError} :
    takeLength negative bs = .ok (some n, rest) ↔ ∃ digits, Bytes.IsLine digits ∧
      IntFormat.int64.parse? digits = some (n : Int) ∧ bs = digits ++ Bytes.crlf ++ rest := by
  rw [takeLength_eq, bind_eq_ok_iff]
  constructor
  · rintro ⟨⟨m, rest'⟩, hm, hlength⟩
    dsimp only at hlength
    split at hlength
    · cases hlength
    · split at hlength
      · cases hlength
      · next hneg =>
        have hnonneg : 0 ≤ m.toInt := by
          rw [Int64.lt_iff_toInt_lt, Int.not_lt] at hneg
          exact hneg
        cases hlength
        rw [Int.toNat_of_nonneg hnonneg]
        exact takeInteger_eq_ok_iff.mp hm
  · rintro ⟨digits, hline, hn, rfl⟩
    have hint := toInt_ofInt_of_fits (IntFormat.fits_of_parse? hn)
    have hminus : Int64.ofInt n ≠ -1 := fun h => by
      rw [← Int64.toInt_inj, hint] at h
      simp at h
    have hneg : ¬Int64.ofInt n < 0 := by
      rw [Int64.lt_iff_toInt_lt, hint]
      simp
    rw [← hint] at hn
    refine ⟨(Int64.ofInt n, rest), takeInteger_eq_ok_iff.mpr ⟨digits, hline, hn, rfl⟩, ?_⟩
    dsimp only
    rw [if_neg hminus, if_neg hneg, hint, Int.toNat_natCast]

theorem takePayload_eq_ok_iff :
    takePayload n bs = .ok (a, rest) ↔ a.length = n ∧ bs = a ++ Bytes.crlf ++ rest := by
  constructor
  · intro h
    unfold takePayload at h
    split at h
    · next c d tail hdrop =>
      split at h
      · next hcrlf =>
        obtain ⟨rfl, rfl⟩ := hcrlf
        cases h
        have hn : n ≤ bs.length := by
          have := congrArg List.length hdrop
          simp only [List.length_drop, List.length_cons] at this
          omega
        have htail : Bytes.crlf ++ rest = bs.drop n := hdrop.symm
        refine ⟨List.length_take_of_le hn, ?_⟩
        rw [List.append_assoc, htail, List.take_append_drop]
      · cases h
    · cases h
  · rintro ⟨rfl, rfl⟩
    exact takePayload_append a rest

theorem takeMany_succ_eq_ok_iff {one : Bytes → Except ParseError (Frame × Bytes)} :
    takeMany one (n + 1) bs = .ok (item :: items, rest) ↔
      ∃ mid, one bs = .ok (item, mid) ∧ takeMany one n mid = .ok (items, rest) := by
  rw [takeMany_succ, bind_eq_ok_iff]
  constructor
  · rintro ⟨⟨item', mid⟩, hone, hmany⟩
    obtain ⟨⟨items', rest'⟩, hitems, heq⟩ := map_eq_ok_iff.mp hmany
    cases heq
    exact ⟨mid, hone, hitems⟩
  · rintro ⟨mid, hone, hmany⟩
    exact ⟨(item, mid), hone, map_eq_ok_iff.mpr ⟨(items, rest), hmany, rfl⟩⟩

theorem length_of_takeMany {one : Bytes → Except ParseError (Frame × Bytes)}
    (h : takeMany one n bs = .ok (items, rest)) : items.length = n := by
  induction n generalizing bs items with
  | zero =>
    cases h
    rfl
  | succ n ih =>
    rw [takeMany_succ, bind_eq_ok_iff] at h
    obtain ⟨p, -, hmany⟩ := h
    obtain ⟨⟨items', rest'⟩, hitems, heq⟩ := map_eq_ok_iff.mp hmany
    cases heq
    exact congrArg Nat.succ (ih hitems)

/-! ## Bulk strings and arrays of them -/

/-- A payload is parsed only behind a dollar sign. -/
theorem dollar_of_parseWith {type : UInt8}
    (h : parseWith (fuel + 1) (type :: bs) = .ok (bulk a, rest)) : type = Ascii.dollar := by
  cases typeByte type with
  | plus =>
    rw [parseWith_plus] at h
    obtain ⟨_, -, hframe⟩ := map_eq_ok_iff.mp h
    cases hframe
  | minus =>
    rw [parseWith_minus] at h
    obtain ⟨_, -, hframe⟩ := map_eq_ok_iff.mp h
    cases hframe
  | colon =>
    rw [parseWith_colon] at h
    obtain ⟨_, -, hframe⟩ := map_eq_ok_iff.mp h
    cases hframe
  | dollar => rfl
  | star =>
    rw [parseWith_star] at h
    obtain ⟨⟨_ | n, rest'⟩, -, hitems⟩ := bind_eq_ok_iff.mp h
    · cases hitems
    · obtain ⟨_, -, hframe⟩ := map_eq_ok_iff.mp hitems
      cases hframe
  | unknown hunknown =>
    rw [hunknown] at h
    cases h

theorem isLine_cons_iff {b : UInt8} (hb : b ≠ Ascii.cr) :
    Bytes.IsLine (b :: digits) ↔ Bytes.IsLine digits :=
  Bytes.isLine_cons.trans (and_iff_right fun h => hb h.1)

theorem parseWith_eq_bulk_iff :
    parseWith (fuel + 1) bs = .ok (bulk a, rest) ↔ ∃ digits,
      Bytes.IsLine (Ascii.dollar :: digits) ∧ IntFormat.int64.parse? digits = some (a.length : Int) ∧
        bs = (Ascii.dollar :: digits) ++ Bytes.crlf ++ (a ++ Bytes.crlf ++ rest) := by
  constructor
  · intro h
    cases bs with
    | nil => cases h
    | cons type bs =>
      obtain rfl := dollar_of_parseWith h
      rw [parseWith_dollar] at h
      obtain ⟨⟨_ | n, rest'⟩, hlength, hpayload⟩ := bind_eq_ok_iff.mp h
      · cases hpayload
      · obtain ⟨⟨payload, rest''⟩, htake, heq⟩ := map_eq_ok_iff.mp hpayload
        cases heq
        obtain ⟨digits, hline, hn, rfl⟩ := takeLength_eq_some_iff.mp hlength
        obtain ⟨rfl, rfl⟩ := takePayload_eq_ok_iff.mp htake
        exact ⟨digits, (isLine_cons_iff (by decide)).mpr hline, hn, rfl⟩
  · rintro ⟨digits, hline, hn, rfl⟩
    have hlength : takeLength .badBulkLength (digits ++ Bytes.crlf ++ (a ++ Bytes.crlf ++ rest)) =
        .ok (some a.length, a ++ Bytes.crlf ++ rest) :=
      takeLength_eq_some_iff.mpr ⟨digits, (isLine_cons_iff (by decide)).mp hline, hn, rfl⟩
    show parseWith (fuel + 1) (Ascii.dollar :: (digits ++ Bytes.crlf ++ _)) = _
    rw [parseWith_dollar, hlength]
    exact map_eq_ok_iff.mpr ⟨(a, rest), takePayload_append a rest, rfl⟩

/-- An array with items is parsed where its count stands in a line and the items behind it. -/
theorem parse_eq_array_iff (hstar : bs.head? = some Ascii.star) :
    parse bs = .ok (array items, rest) ↔ ∃ digits tail,
      Bytes.IsLine (Ascii.star :: digits) ∧
        IntFormat.int64.parse? digits = some (items.length : Int) ∧
        takeMany (parseWith bs.length) items.length tail = .ok (items, rest) ∧
        bs = (Ascii.star :: digits) ++ Bytes.crlf ++ tail := by
  cases bs with
  | nil => cases hstar
  | cons type bs =>
    obtain rfl : type = Ascii.star := Option.some.inj hstar
    rw [parse, parseWith_star, bind_eq_ok_iff]
    constructor
    · rintro ⟨⟨_ | n, tail⟩, hlength, hitems⟩
      · cases hitems
      · obtain ⟨⟨items', rest'⟩, htake, heq⟩ := map_eq_ok_iff.mp hitems
        cases heq
        obtain ⟨digits, hline, hn, rfl⟩ := takeLength_eq_some_iff.mp hlength
        obtain rfl := length_of_takeMany htake
        exact ⟨digits, tail, (isLine_cons_iff (by decide)).mpr hline, hn, htake, rfl⟩
    · rintro ⟨digits, tail, hline, hn, htake, hbs⟩
      have hbs : bs = digits ++ Bytes.crlf ++ tail := (List.cons.inj hbs).2
      refine ⟨(some items.length, tail), takeLength_eq_some_iff.mpr ⟨digits, ?_, hn, hbs⟩, ?_⟩
      · exact (isLine_cons_iff (by decide)).mp hline
      · exact map_eq_ok_iff.mpr ⟨(items, rest), htake, rfl⟩

end Frame

end RespStore
