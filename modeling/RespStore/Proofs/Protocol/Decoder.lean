import RespStore.Frame.Wire
import RespStore.Proofs.Number.Decimal
import RespStore.Proofs.Protocol.WireForm

/-!
# Decoding encoded requests

A request within the limits is encoded in one of its wire forms, so it is decoded back, whatever
follows it. One beyond the limits is refused.
-/

namespace RespStore

/-- No more arguments than a request may have, and none of them too long. -/
structure Request.WithinLimits (r : Request) : Prop where
  count : r.length ≤ Limits.arguments
  sizes : ∀ a ∈ r, a.length ≤ Limits.bulk

instance (r : Request) : Decidable r.WithinLimits :=
  decidable_of_iff (r.length ≤ Limits.arguments ∧ ∀ a ∈ r, a.length ≤ Limits.bulk)
    ⟨fun h => ⟨h.1, h.2⟩, fun h => ⟨h.count, h.sizes⟩⟩

/-- An argument as it is encoded. -/
def wireArgument (a : Bytes) : Bytes := (Frame.bulk a).serialize

namespace Decoder

variable {r : Request} {d : Decoder} {buf : Bytes}

theorem length?_ofNat {least greatest : Int} {n : Nat} (hleast : least ≤ 0)
    (hgreatest : greatest ≤ 9223372036854775807) :
    length? least greatest (Decimal.ofNat n) = if n ≤ greatest then some (n : Int) else none := by
  unfold length?
  rw [IntFormat.parse?_ofNat, IntFormat.check?]
  have hfits := IntFormat.int64_fits_iff (n := n)
  by_cases hle : (n : Int) ≤ greatest
  · have h64 : IntFormat.int64.Fits n := hfits.mpr (by omega)
    have hn : least ≤ (n : Int) := by omega
    rw [if_pos h64, if_pos hle]
    simp [Option.filter, hn, hle]
  · rw [if_neg hle]
    by_cases h64 : IntFormat.int64.Fits n
    · rw [if_pos h64]
      simp [Option.filter, hle]
    · rw [if_neg h64]
      rfl

theorem bulkLength?_ofNat (n : Nat) :
    bulkLength? (Decimal.ofNat n) = if n ≤ Limits.bulk then some n else none := by
  have hbound : ((Limits.bulk : Nat) : Int) ≤ 9223372036854775807 := by decide
  rw [bulkLength?, length?_ofNat (by decide) hbound]
  by_cases hle : n ≤ Limits.bulk
  · rw [if_pos hle, if_pos (Int.ofNat_le.mpr hle)]
    rfl
  · rw [if_neg hle, if_neg fun h => hle (Int.ofNat_le.mp h)]
    rfl

theorem multibulkLength?_ofNat (n : Nat) :
    multibulkLength? (Decimal.ofNat n) =
      if n ≤ Limits.arguments then some (n : Int) else none := by
  have hbound : ((Limits.arguments : Nat) : Int) ≤ 9223372036854775807 := by decide
  rw [multibulkLength?, length?_ofNat (by decide) hbound]
  by_cases hle : n ≤ Limits.arguments
  · rw [if_pos hle, if_pos (Int.ofNat_le.mpr hle)]
  · rw [if_neg hle, if_neg fun h => hle (Int.ofNat_le.mp h)]

/-! ## Arguments -/

theorem isLine_ofNat {b : UInt8} (hb : b ≠ Ascii.cr) (n : Nat) :
    Bytes.IsLine (b :: Decimal.ofNat n) :=
  Bytes.isLine_of_cr_notMem fun hmem => (List.mem_cons.mp hmem).elim (fun h => hb h.symm)
    (Decimal.cr_not_mem_ofNat n)

theorem wireArgument_eq (a : Bytes) :
    wireArgument a =
      (Ascii.dollar :: Decimal.ofNat a.length) ++ Bytes.crlf ++ a ++ Bytes.crlf := by
  rw [wireArgument, Frame.serialize, Frame.encode, Frame.line]

theorem wireArguments_flatMap {args : List Bytes} (h : ∀ a ∈ args, a.length ≤ Limits.bulk) :
    WireArguments (args.flatMap wireArgument) args := by
  induction args with
  | nil => exact .nil
  | cons a args ih =>
    obtain ⟨ha, hargs⟩ := List.forall_mem_cons.mp h
    have hlen := (bulkLength?_ofNat a.length).trans (if_pos ha)
    exact .cons ⟨_, isLine_ofNat (by decide) _, hlen, wireArgument_eq a⟩ (ih hargs)

theorem arrival_wireArgument {a : Bytes} (h : Limits.bulk < a.length) (rest : Bytes) :
    arrival (wireArgument a ++ rest) = .failed .invalidBulkLength := by
  have hsplit : (wireArgument a ++ rest).splitLine? =
      some (Ascii.dollar :: Decimal.ofNat a.length, a ++ Bytes.crlf ++ rest) := by
    rw [wireArgument_eq]
    exact Bytes.splitLine?_eq_some_iff.mpr
      ⟨isLine_ofNat (by decide) _, by simp only [List.append_assoc]⟩
  rw [arrival, hsplit]
  dsimp only
  rw [if_neg (not_not_intro rfl), bulkLength?_ofNat, if_neg (Nat.not_le.mpr h)]

/-- Collecting stops at the first argument that is too long. -/
theorem collect_failed {args : List Bytes} (h : ∃ a ∈ args, Limits.bulk < a.length)
    (p : Pending) (rest : Bytes) :
    collect args.length p (args.flatMap wireArgument ++ rest) = .failed .invalidBulkLength := by
  induction args generalizing p with
  | nil => simp at h
  | cons a args ih =>
    rw [List.length_cons, collect_succ, List.flatMap_cons, List.append_assoc]
    by_cases ha : a.length ≤ Limits.bulk
    · have hlen := (bulkLength?_ofNat a.length).trans (if_pos ha)
      have hlater : ∃ b ∈ args, Limits.bulk < b.length := by
        obtain ⟨b, hb, hlong⟩ := h
        rcases List.mem_cons.mp hb with rfl | hb
        · exact absurd ha (Nat.not_le.mpr hlong)
        · exact ⟨b, hb, hlong⟩
      have harrival := arrival_of_wireArgument (isLine_ofNat (by decide) _) hlen
        (args.flatMap wireArgument ++ rest)
      rw [wireArgument_eq, List.append_assoc, List.append_assoc, ← List.append_assoc a, harrival]
      exact ih hlater _
    · rw [arrival_wireArgument (Nat.lt_of_not_le ha)]

/-! ## Requests -/

theorem serialize_toFrame (h : r ≠ []) :
    r.toFrame.serialize =
      (Ascii.star :: Decimal.ofNat r.length) ++ Bytes.crlf ++ r.flatMap wireArgument := by
  cases r with
  | nil => exact absurd rfl h
  | cons a args =>
    have hall : ∀ args : List Bytes,
        Frame.encodeAll .array (args.map Frame.bulk) = args.flatMap wireArgument := by
      intro args
      rw [Frame.encodeAll_eq_flatMap, List.flatMap_map]
      rfl
    show Frame.line Ascii.star (Decimal.ofNat ((args.map Frame.bulk).length + 1)) ++
      (wireArgument a ++ Frame.encodeAll .array (args.map Frame.bulk)) = _
    rw [hall, List.length_map]
    simp [Frame.line]

theorem wireForm_serialize (h : r ≠ []) (hr : r.WithinLimits) :
    WireForm r.toFrame.serialize r := by
  rw [serialize_toFrame h]
  exact .multibulk (isLine_ofNat (by decide) _)
    ((multibulkLength?_ofNat r.length).trans (if_pos hr.count)) h (wireArguments_flatMap hr.sizes)

theorem decode_eq (hbuf : buf ≠ []) :
    d.decode buf =
      match d.decodeAny buf with
      | ⟨d', rest, .ok (some [])⟩ => d'.decode rest
      | o => o := by
  rw [decode, dif_neg hbuf]
  dsimp only
  split
  · next h =>
    generalize d.decodeAny buf = o at h
    obtain ⟨d', rest, result⟩ := o
    cases h
    rfl
  · next h =>
    generalize d.decodeAny buf = o at h
    obtain ⟨d', rest, result⟩ := o
    split
    · next ho =>
      cases ho
      exact (h rfl).elim
    · rfl

theorem eq_new (hd : d.pending = none) : d = new d.maxFrame := by
  cases d
  cases hd
  rfl

/-- A request within the limits comes back from its wire form, whatever follows. -/
theorem decode_serialize (h : r ≠ []) (hr : r.WithinLimits) (hd : d.pending = none)
    (rest : Bytes) : d.decode (r.toFrame.serialize ++ rest) = ⟨d, rest, .ok (some r)⟩ := by
  have hform := wireForm_serialize h hr
  rw [eq_new hd, decode_eq (List.append_ne_nil_of_left_ne_nil hform.ne_nil rest),
    decodeAny_of_wireForm hform]
  cases r with
  | nil => exact absurd rfl h
  | cons a args => rfl

/-- A request beyond the limits is refused. -/
theorem decode_serialize_error (h : r ≠ []) (hr : ¬r.WithinLimits) (hd : d.pending = none)
    (rest : Bytes) : ∃ e, (d.decode (r.toFrame.serialize ++ rest)).result = .error e := by
  have hdecode : ∃ e, (d.decodeAny (r.toFrame.serialize ++ rest)).result = .error e := by
    rw [eq_new hd, serialize_toFrame h, List.append_assoc,
      decodeAny_header (isLine_ofNat (by decide) _), multibulkLength?_ofNat]
    by_cases hcount : r.length ≤ Limits.arguments
    · have hlong : ∃ a ∈ r, Limits.bulk < a.length := by
        apply Classical.byContradiction
        intro hall
        simp only [not_exists, not_and, Nat.not_lt] at hall
        exact hr ⟨hcount, hall⟩
      have hpos : ¬(r.length : Int) ≤ 0 := by
        have := List.length_pos_iff.mpr h
        omega
      rw [if_pos hcount]
      dsimp only
      rw [if_neg hpos, Int.toNat_natCast, resume_opened, collect_failed hlong]
      exact ⟨_, rfl⟩
    · rw [if_neg hcount]
      exact ⟨_, rfl⟩
  obtain ⟨e, he⟩ := hdecode
  have hbuf : r.toFrame.serialize ++ rest ≠ [] := by
    rw [serialize_toFrame h]
    exact List.cons_ne_nil _ _
  refine ⟨e, ?_⟩
  rw [decode_eq hbuf]
  split
  · next ho =>
    rw [ho] at he
    cases he
  · exact he

end Decoder

end RespStore
