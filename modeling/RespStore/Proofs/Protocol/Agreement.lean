import RespStore.Proofs.Frame.Parse
import RespStore.Proofs.Protocol.Decoder
import RespStore.Proofs.Protocol.Front

/-!
# Requests as frames

A request is read in two ways: by the decoder, from where its arguments stand in a buffer, and by the
frame parser, one item after the other. Both take the same multi-bulk requests off the front of a
buffer, in all their spellings, but for the limits, which are the decoder's alone.
-/

namespace RespStore

namespace Decoder

variable {max fuel : Nat} {buf bs rest digits w : Bytes} {r : Request}

/-! ## The same lengths -/

theorem length?_eq_some_iff {least greatest n : Int} :
    length? least greatest digits = some n ↔
      IntFormat.int64.parse? digits = some n ∧ least ≤ n ∧ n ≤ greatest := by
  rw [length?, Option.filter_eq_some_iff, decide_eq_true_iff]

theorem multibulkLength?_eq_some_iff {n : Nat} :
    multibulkLength? digits = some (n : Int) ↔
      IntFormat.int64.parse? digits = some (n : Int) ∧ n ≤ Limits.arguments := by
  rw [multibulkLength?, length?_eq_some_iff]
  refine and_congr_right fun hn => ?_
  have hfits := IntFormat.fits_of_parse? hn
  exact ⟨fun h => Int.ofNat_le.mp h.2, fun h => ⟨hfits.1, Int.ofNat_le.mpr h⟩⟩

theorem bulkLength?_eq_some_iff {n : Nat} :
    bulkLength? digits = some n ↔
      IntFormat.int64.parse? digits = some (n : Int) ∧ n ≤ Limits.bulk := by
  rw [bulkLength?, Option.map_eq_some_iff]
  constructor
  · rintro ⟨m, hm, rfl⟩
    obtain ⟨hparse, hnonneg, hle⟩ := length?_eq_some_iff.mp hm
    rw [Int.toNat_of_nonneg hnonneg]
    exact ⟨hparse, Int.toNat_le.mpr hle⟩
  · rintro ⟨hparse, hle⟩
    have hlength := length?_eq_some_iff.mpr ⟨hparse, Int.natCast_nonneg n, Int.ofNat_le.mpr hle⟩
    exact ⟨n, hlength, Int.toNat_natCast n⟩

/-! ## The same requests -/

theorem sizes_of_wireArguments {args : List Bytes} (h : WireArguments w args) :
    ∀ a ∈ args, a.length ≤ Limits.bulk := by
  induction h with
  | nil => exact nofun
  | cons hv hw ih =>
    obtain ⟨digits, -, hlen, -⟩ := hv
    exact List.forall_mem_cons.mpr ⟨(bulkLength?_eq_some_iff.mp hlen).2, ih⟩

/-- Within the limits, arguments are parsed just where they are decoded. -/
theorem takeMany_bulks_iff {args : List Bytes} (h : ∀ a ∈ args, a.length ≤ Limits.bulk) :
    Frame.takeMany (Frame.parseWith (fuel + 1)) args.length bs = .ok (args.map .bulk, rest) ↔
      ∃ w, WireArguments w args ∧ bs = w ++ rest := by
  induction args generalizing bs with
  | nil =>
    constructor
    · rintro ⟨⟩
      exact ⟨[], .nil, rfl⟩
    · rintro ⟨w, ⟨⟩, rfl⟩
      rfl
  | cons a args ih =>
    obtain ⟨ha, hargs⟩ := List.forall_mem_cons.mp h
    rw [List.length_cons, List.map_cons, Frame.takeMany_succ_eq_ok_iff]
    constructor
    · rintro ⟨mid, hone, hmany⟩
      obtain ⟨digits, hline, hn, rfl⟩ := Frame.parseWith_eq_bulk_iff.mp hone
      obtain ⟨w, hw, rfl⟩ := (ih hargs).mp hmany
      refine ⟨_, .cons ⟨digits, hline, bulkLength?_eq_some_iff.mpr ⟨hn, ha⟩, rfl⟩ hw, ?_⟩
      simp only [List.append_assoc]
    · rintro ⟨_, hwire, rfl⟩
      cases hwire with
      | @cons _ w _ _ hv hw =>
        obtain ⟨digits, hline, hlen, rfl⟩ := hv
        refine ⟨w ++ rest, Frame.parseWith_eq_bulk_iff.mpr ⟨digits, hline, ?_, ?_⟩, ?_⟩
        · exact (bulkLength?_eq_some_iff.mp hlen).1
        · simp only [List.append_assoc]
        · exact (ih hargs).mpr ⟨w, hw, rfl⟩

/-- A wire form that starts with a star and has arguments is parsed as a frame. -/
theorem parse_eq_toFrame_iff (hstar : buf.head? = some Ascii.star) (hr : r ≠ [])
    (hlimits : r.WithinLimits) :
    Frame.parse buf = .ok (r.toFrame, rest) ↔ ∃ w, WireForm w r ∧ buf = w ++ rest := by
  have hframe : r.toFrame = .array (r.map .bulk) := rfl
  obtain ⟨fuel, hfuel⟩ : ∃ n, buf.length = n + 1 :=
    Nat.exists_eq_succ_of_ne_zero fun h => by
      rw [List.length_eq_zero_iff.mp h] at hstar
      cases hstar
  rw [hframe, Frame.parse_eq_array_iff hstar, List.length_map, hfuel]
  constructor
  · rintro ⟨digits, tail, hline, hcount, hitems, rfl⟩
    obtain ⟨w, hw, rfl⟩ := (takeMany_bulks_iff hlimits.sizes).mp hitems
    refine ⟨_, .multibulk hline (multibulkLength?_eq_some_iff.mpr ⟨hcount, hlimits.count⟩) hr hw, ?_⟩
    simp only [List.append_assoc]
  · rintro ⟨w, hw, rfl⟩
    cases hw with
    | @multibulk digits w r hline hcount hr hw =>
      refine ⟨digits, w ++ rest, hline, (multibulkLength?_eq_some_iff.mp hcount).1, ?_, ?_⟩
      · exact (takeMany_bulks_iff hlimits.sizes).mpr ⟨w, hw, rfl⟩
      · simp only [List.append_assoc]
    | blank => exact absurd rfl hr
    | @inline line r hline hstar' hr' =>
      cases line with
      | nil => cases hstar
      | cons b line => exact absurd hstar hstar'

/-- A multi-bulk request holds no more than the decoder takes. -/
theorem withinLimits_of_wireForm (hw : WireForm w r) (hr : r ≠ [])
    (hstar : (w ++ rest).head? = some Ascii.star) : r.WithinLimits := by
  cases hw with
  | multibulk hline hcount hr hw =>
    exact ⟨(multibulkLength?_eq_some_iff.mp hcount).2, sizes_of_wireArguments hw⟩
  | blank => exact absurd rfl hr
  | @inline line r hline hstar' hr' =>
    cases line with
    | nil => cases hstar
    | cons b line => exact absurd hstar hstar'

/-- A new decoder surfaces a request from the very front of a buffer, with nothing skipped. -/
structure SurfacesFirst (max : Nat) (buf : Bytes) (r : Request) (rest : Bytes) : Prop where
  decode : (new max).decode buf = ⟨new max, rest, .ok (some r)⟩
  first : (new max).decodeAny buf = (new max).decode buf

theorem surfacesFirst_iff_decodeAny :
    SurfacesFirst max buf r rest ↔
      r ≠ [] ∧ (new max).decodeAny buf = ⟨new max, rest, .ok (some r)⟩ := by
  constructor
  · rintro ⟨hdecode, hfirst⟩
    have hany := hfirst.trans hdecode
    refine ⟨?_, hany⟩
    rintro rfl
    -- A skipped request would leave as much as it has taken.
    have hbuf : buf ≠ [] := by
      rintro rfl
      rw [Decoder.decode, dif_pos rfl] at hdecode
      cases hdecode
    rw [decode_eq hbuf, hany] at hdecode
    replace hdecode : (new max).decode rest = ⟨new max, rest, .ok (some [])⟩ := hdecode
    have hlt := decode_length_lt (congrArg Outcome.result hdecode)
    rw [hdecode] at hlt
    exact Nat.lt_irrefl _ hlt
  · rintro ⟨hr, hany⟩
    have hbuf : buf ≠ [] := by
      rintro rfl
      cases hany
    have hdecode : (new max).decode buf = ⟨new max, rest, .ok (some r)⟩ := by
      rw [decode_eq hbuf, hany]
      cases r with
      | nil => exact absurd rfl hr
      | cons a r => rfl
    exact ⟨hdecode, hany.trans hdecode.symm⟩

/-- The decoder and the frame parser take the same multi-bulk requests off the front of a buffer, but for
the limits on the count and the size of arguments. -/
theorem surfacesFirst_iff_parse (hstar : buf.head? = some Ascii.star) :
    SurfacesFirst max buf r rest ↔
      r ≠ [] ∧ r.WithinLimits ∧ Frame.parse buf = .ok (r.toFrame, rest) := by
  rw [surfacesFirst_iff_decodeAny, decodeAny_eq_ok_iff]
  refine and_congr_right fun hr => ?_
  constructor
  · rintro ⟨w, hw, rfl⟩
    have hlimits := withinLimits_of_wireForm hw hr hstar
    exact ⟨hlimits, (parse_eq_toFrame_iff hstar hr hlimits).mpr ⟨w, hw, rfl⟩⟩
  · rintro ⟨hlimits, hparse⟩
    exact (parse_eq_toFrame_iff hstar hr hlimits).mp hparse

/-- Two arguments under lengths in unusual spellings, and the beginning of another request. -/
def spelled : Bytes := Utf8.encode "*+2\r\n$003\r\nGET\r\n$-0\r\n\r\n*1\r\n"

/-- Parsed as a frame, and so surfaced even under a limit of one byte. -/
theorem spelled_surfacesFirst :
    spelled.head? = some Ascii.star ∧
      Frame.parse spelled =
        .ok (Request.toFrame [Utf8.encode "GET", []], Utf8.encode "*1\r\n") ∧
      SurfacesFirst 1 spelled [Utf8.encode "GET", []] (Utf8.encode "*1\r\n") := by
  have hstar : spelled.head? = some Ascii.star := by decide +kernel
  have hparse : Frame.parse spelled =
      .ok (Request.toFrame [Utf8.encode "GET", []], Utf8.encode "*1\r\n") := rfl
  have hlimits : Request.WithinLimits [Utf8.encode "GET", []] := by decide +kernel
  exact ⟨hstar, hparse, (surfacesFirst_iff_parse hstar).mpr ⟨List.cons_ne_nil _ _, hlimits, hparse⟩⟩

end Decoder

end RespStore
