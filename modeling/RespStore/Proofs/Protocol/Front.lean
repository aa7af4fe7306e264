import RespStore.Proofs.Protocol.WireForm

/-!
# The front of a buffer

What the decoder makes of a buffer depends on what stands at its front: a whole request, bytes that
no request starts with, or a request that is cut off. The first two verdicts stay, whatever comes
later. A cut-off request is waited for as long as it is not too long, and one that is parked is as
far as a new decoder gets with the same bytes.
-/

namespace RespStore

/-- About the size of what has come in, and not about its form. -/
def ProtocolError.isSizeLimit : ProtocolError → Bool
  | frameTooLarge _ | tooBigInline | tooBigMultibulkCount | tooBigBulkCount => true
  | invalidMultibulkLength | invalidBulkLength | expectedBulk _ | missingCrlf | unbalancedQuotes =>
    false

namespace Decoder

variable {max n m k : Nat} {buf bs rest rest' more digits line : Bytes} {p q : Pending} {r : Request}
  {d : Decoder} {e : ProtocolError}

/-- At the front of `buf` is a request that is cut off, of which `p` is what is whole. -/
inductive Parked : Pending → Bytes → Prop where
  | intro {digits rest rest' : Bytes} {p : Pending} {n k : Nat}
      (hline : Bytes.IsLine (Ascii.star :: digits))
      (hcount : multibulkLength? digits = some (n : Int)) (hk : k < n)
      (h : Reaches k (opened digits n) rest p rest') :
      Parked p ((Ascii.star :: digits) ++ Bytes.crlf ++ rest)

/-- A buffer ends in a header `line` that has no end yet. -/
inductive OpenLine : Bytes → Bytes → Prop where
  | count {line : Bytes} (hstar : line.head? = some Ascii.star) (hline : Bytes.IsLine line) :
      OpenLine line line
  | length {digits w line : Bytes} {args : List Bytes} {n : Nat}
      (hopen : Bytes.IsLine (Ascii.star :: digits))
      (hcount : multibulkLength? digits = some (n : Int)) (hw : WireArguments w args)
      (hargs : args.length < n) (hline : Bytes.IsLine line) :
      OpenLine ((Ascii.star :: digits) ++ Bytes.crlf ++ (w ++ line)) line

/-- Of a cut-off request there is more than a decoder waits with. -/
def TooLong (max : Nat) (buf : Bytes) : Prop :=
  if buf.head? = some Ascii.star then
    max < buf.length ∨ ∃ line, OpenLine buf line ∧ Limits.inline < line.length
  else Limits.inline < buf.length

theorem tooLong_inline (h : buf.head? ≠ some Ascii.star) :
    TooLong max buf ↔ Limits.inline < buf.length := by
  rw [TooLong, if_neg h]

theorem tooLong_star (h : buf.head? = some Ascii.star) :
    TooLong max buf ↔ max < buf.length ∨ ∃ line, OpenLine buf line ∧ Limits.inline < line.length := by
  rw [TooLong, if_pos h]

/-- What a decoder that has nothing parked makes of a buffer. -/
inductive Front (max : Nat) (buf : Bytes) : Outcome → Prop where
  | whole {w rest : Bytes} {r : Request} (hw : WireForm w r) (hbuf : buf = w ++ rest) :
      Front max buf ⟨new max, rest, .ok (some r)⟩
  | refused {rest : Bytes} {e : ProtocolError} (he : e.isSizeLimit = false)
      (h : ∀ more, ((new max).decodeAny (buf ++ more)).result = .error e) :
      Front max buf ⟨new max, rest, .error e⟩
  | waiting {pending : Option Pending} (hp : ∀ p, pending = some p → Parked p buf)
      (hlong : ¬TooLong max buf) : Front max buf ⟨⟨max, pending⟩, buf, .ok none⟩
  | oversized {e : ProtocolError} (he : e.isSizeLimit = true) (hlong : TooLong max buf) :
      Front max buf ⟨new max, buf, .error e⟩

/-! ## Inline lines -/

theorem front_inline (hstar : buf.head? ≠ some Ascii.star) :
    Front max buf ((new max).decodeAny buf) := by
  by_cases hlf : Ascii.lf ∈ buf
  · obtain ⟨line, rest, rfl, hline⟩ := List.eq_append_cons_of_mem hlf
    have hhead : ∀ more, (line ++ Ascii.lf :: more).head? = (line ++ Ascii.lf :: rest).head? := by
      intro more
      cases line <;> rfl
    have hdecode (more : Bytes) : (new max).decodeAny (line ++ Ascii.lf :: more) = _ :=
      (decodeAny_inline (by rwa [hhead])).trans (decodeInline_of_line hline more)
    cases hr : Inline.split? (chomp line) with
    | some r =>
      have hlineStar : line.head? ≠ some Ascii.star := by
        cases line with
        | nil => exact fun h => by cases h
        | cons b line => exact hstar
      rw [hdecode, hr]
      exact .whole (.inline hline hlineStar hr) (List.append_cons _ _ _)
    | none =>
      rw [hdecode, hr]
      refine .refused rfl fun more => ?_
      rw [List.append_assoc, List.cons_append, hdecode, hr]
      rfl
  · rw [decodeAny_inline hstar, decodeInline_of_open hlf]
    split
    · next hlong => exact .oversized rfl ((tooLong_inline hstar).mpr hlong)
    · next hshort =>
      exact .waiting (fun _ hp => by cases hp) fun hlong => hshort ((tooLong_inline hstar).mp hlong)

/-! ## Multi-bulk requests -/

theorem arrival_eq_cutHeader_iff : arrival bs = .cutHeader ↔ Bytes.IsLine bs := by
  rw [← Bytes.splitLine?_eq_none_iff, arrival]
  constructor
  · intro h
    split at h
    · assumption
    · cases h
    · split at h
      · cases h
      · split at h
        · cases h
        · split at h
          · split at h <;> cases h
          · cases h
  · intro h
    rw [h]

theorem isSizeLimit_of_arrival (h : arrival bs = .failed e) : e.isSizeLimit = false := by
  unfold arrival at h
  split at h
  · cases h
  · cases h
    rfl
  · split at h
    · cases h
      rfl
    · split at h
      · cases h
        rfl
      · split at h
        · split at h <;> cases h
          rfl
        · cases h

/-- Where a header is open, collecting arguments stops in front of it. -/
theorem OpenLine.collect_eq (hopen : Bytes.IsLine (Ascii.star :: digits))
    (hcount : multibulkLength? digits = some (n : Int))
    (h : OpenLine ((Ascii.star :: digits) ++ Bytes.crlf ++ rest) line) :
    ∃ q, collect n (opened digits n) rest = .cutHeader q ∧
      ((Ascii.star :: digits) ++ Bytes.crlf ++ rest).drop q.offset = line := by
  have hsplit := Bytes.splitLine?_eq_some_iff.mpr
    ⟨hopen, Eq.refl ((Ascii.star :: digits) ++ Bytes.crlf ++ rest)⟩
  generalize hbuf : (Ascii.star :: digits) ++ Bytes.crlf ++ rest = buf at h hsplit ⊢
  cases h with
  | count hstar hline =>
    rw [Bytes.splitLine?_eq_none_iff.mpr hline] at hsplit
    cases hsplit
  | @length digits' w line args n' hopen' hcount' hw hargs hline =>
    rw [Bytes.splitLine?_eq_some_iff.mpr ⟨hopen', rfl⟩] at hsplit
    cases hsplit
    rw [hcount] at hcount'
    obtain rfl : n = n' := Int.ofNat.inj (Option.some.inj hcount')
    obtain ⟨q, -, hq, hoffset, -⟩ := reaches_of_wireArguments hw (opened digits n) line
    refine ⟨q, ?_, ?_⟩
    · rw [hq.collect_of_lt hargs, collect_succ, arrival_eq_cutHeader_iff.mpr hline]
    · rw [hoffset, ← List.drop_drop, drop_opened, List.drop_left]

theorem openLine_of_reaches (hopen : Bytes.IsLine (Ascii.star :: digits))
    (hcount : multibulkLength? digits = some (n : Int)) (hk : k < n)
    (h : Reaches k (opened digits n) rest p line) (ha : arrival line = .cutHeader) :
    OpenLine ((Ascii.star :: digits) ++ Bytes.crlf ++ rest) line := by
  obtain ⟨w, args, hw, rfl, rfl⟩ := h.exists_wireArguments
  exact .length hopen hcount hw hk (arrival_eq_cutHeader_iff.mp ha)

/-- Parks a request that is cut off, if it is not too long. -/
theorem front_park (hp : Parked p buf) (hstar : buf.head? = some Ascii.star)
    (hshort : ∀ line, OpenLine buf line → line.length ≤ Limits.inline) :
    Front max buf ((new max).park p buf) := by
  unfold park
  split
  · next hlong => exact .oversized rfl ((tooLong_star hstar).mpr (.inl hlong))
  · next hfits =>
    refine .waiting (fun q hq => Option.some.inj hq ▸ hp) fun htooLong => ?_
    rcases (tooLong_star hstar).mp htooLong with hlong | ⟨line, hline, hlong⟩
    · exact hfits hlong
    · exact absurd (hshort line hline) (Nat.not_le.mpr hlong)

/-- Refuses an open header that is too long. -/
theorem front_unterminated {offset : Nat} {tooBig : ProtocolError} {o : Outcome}
    (hstar : buf.head? = some Ascii.star) (hlimit : tooBig.isSizeLimit = true)
    (hopen : OpenLine buf line) (hlen : line.length = buf.length - offset)
    (h : buf.length ≤ max → line.length ≤ Limits.inline → Front max buf o) :
    Front max buf
      (match (new max).unterminated? buf offset tooBig with
      | some e => (new max).fail buf e
      | none => o) := by
  by_cases hlong : max < buf.length
  · have hu : (new max).unterminated? buf offset tooBig = some (.frameTooLarge max) := if_pos hlong
    rw [hu]
    exact .oversized rfl ((tooLong_star hstar).mpr (.inl hlong))
  · by_cases hlineLong : Limits.inline < line.length
    · have hu : (new max).unterminated? buf offset tooBig = some tooBig :=
        (if_neg hlong).trans (if_pos (hlen ▸ hlineLong))
      rw [hu]
      exact .oversized hlimit ((tooLong_star hstar).mpr (.inr ⟨line, hopen, hlineLong⟩))
    · have hu : (new max).unterminated? buf offset tooBig = none :=
        (if_neg hlong).trans (if_neg (hlen ▸ hlineLong))
      rw [hu]
      exact h (Nat.not_lt.mp hlong) (Nat.not_lt.mp hlineLong)

theorem front_resume (hline : Bytes.IsLine (Ascii.star :: digits))
    (hcount : multibulkLength? digits = some (n : Int)) (hn : n ≠ 0) (rest : Bytes) :
    Front max ((Ascii.star :: digits) ++ Bytes.crlf ++ rest)
      ((new max).resume (opened digits n) ((Ascii.star :: digits) ++ Bytes.crlf ++ rest)) := by
  have hdecode : ∀ more, (new max).decodeAny ((Ascii.star :: digits) ++ Bytes.crlf ++ more) =
      (new max).resume (opened digits n) ((Ascii.star :: digits) ++ Bytes.crlf ++ more) := by
    intro more
    rw [decodeAny_header hline, hcount]
    exact if_neg (by omega)
  have hcollected := collected n (opened digits n) rest
  have hresume := resume_opened max n digits rest
  generalize hc : collect n (opened digits n) rest = progress at hcollected hresume
  cases hcollected with
  | complete h =>
    obtain ⟨w, args, hw, rfl, rfl⟩ := h.exists_wireArguments
    rw [resume_wireArguments hw]
    have hargs : args ≠ [] := fun hnil => hn (congrArg List.length hnil)
    exact .whole (.multibulk hline hcount hargs hw) (List.append_assoc _ _ _).symm
  | failed hk h ha =>
    rw [hresume]
    refine .refused ?_ fun more => ?_
    · exact isSizeLimit_of_arrival ha
    · have hfailed := (h.append more).collect_of_lt hk
      rw [collect_succ, (arrival_append more).2 _ ha] at hfailed
      rw [List.append_assoc, hdecode, resume_opened, hfailed]
      rfl
  | @cutHeader k q line hk h ha =>
    rw [hresume]
    have hopen := openLine_of_reaches hline hcount hk h ha
    have hunique : ∀ line', OpenLine ((Ascii.star :: digits) ++ Bytes.crlf ++ rest) line' →
        line'.length = ((Ascii.star :: digits) ++ Bytes.crlf ++ rest).length - q.offset := by
      intro line' hopen'
      obtain ⟨q', hq', hdrop⟩ := hopen'.collect_eq hline hcount
      rw [hc] at hq'
      cases hq'
      rw [← hdrop, List.length_drop]
    have hlen := hunique line hopen
    refine front_unterminated rfl rfl hopen hlen fun _ hshort => ?_
    refine front_park (.intro hline hcount hk h) rfl fun line' hopen' => ?_
    rw [hunique line' hopen', ← hlen]
    exact hshort
  | cutPayload hk h ha =>
    rw [hresume]
    refine front_park (.intro hline hcount hk h) rfl fun line hopen => ?_
    obtain ⟨q, hq, -⟩ := hopen.collect_eq hline hcount
    rw [hc] at hq
    cases hq

/-- The count of a request is still to come. -/
theorem front_count (hstar : buf.head? = some Ascii.star) (hline : Bytes.IsLine buf) :
    Front max buf ((new max).decodeAny buf) := by
  rw [decodeAny_star hstar, decodeMultibulk, Bytes.splitLine?_eq_none_iff.mpr hline]
  refine front_unterminated hstar rfl (.count hstar hline) rfl fun hfits hshort => ?_
  refine .waiting (fun _ hp => by cases hp) fun htooLong => ?_
  rcases (tooLong_star hstar).mp htooLong with hlong | ⟨line, hopen, hlong⟩
  · exact absurd hfits (Nat.not_le.mpr hlong)
  · cases hopen with
    | count => exact absurd hshort (Nat.not_le.mpr hlong)
    | length => exact hline ⟨_, _, rfl⟩

theorem front (max : Nat) (buf : Bytes) : Front max buf ((new max).decodeAny buf) := by
  by_cases hstar : buf.head? = some Ascii.star
  · cases hs : buf.splitLine? with
    | none => exact front_count hstar (Bytes.splitLine?_eq_none_iff.mp hs)
    | some split =>
      obtain ⟨line, rest⟩ := split
      obtain ⟨digits, -, hline, rfl⟩ := exists_digits hstar hs
      have hdecode (rest : Bytes) : (new max).decodeAny _ = _ := decodeAny_header hline rest
      cases hcount : multibulkLength? digits with
      | none =>
        simp only [hcount] at hdecode
        rw [hdecode]
        refine .refused rfl fun more => ?_
        rw [List.append_assoc, hdecode]
        rfl
      | some n =>
        simp only [hcount] at hdecode
        rw [hdecode]
        split
        · next hle => exact .whole (.blank hline hcount hle) rfl
        · next hpos =>
          obtain ⟨n, rfl⟩ : ∃ m : Nat, n = m := Int.eq_ofNat_of_zero_le (by omega)
          exact front_resume hline hcount (by omega) rest
  · exact front_inline hstar

/-- A new decoder takes a request off the front just when one of its wire forms stands there. -/
theorem decodeAny_eq_ok_iff :
    (new max).decodeAny buf = ⟨new max, rest, .ok (some r)⟩ ↔ ∃ w, WireForm w r ∧ buf = w ++ rest := by
  constructor
  · intro h
    have hfront := front max buf
    rw [h] at hfront
    cases hfront with
    | whole hw hbuf => exact ⟨_, hw, hbuf⟩
  · rintro ⟨w, hw, rfl⟩
    exact decodeAny_of_wireForm hw rest

end Decoder

end RespStore
