import RespStore.Log.Writer
import RespStore.Proofs.Protocol.Limits

/-!
# Pipelined requests

Encoded requests one behind the other, in reads that end anywhere. While none of them is longer than
a decoder takes, what has come in never looks too long either: a cut-off request is shorter than the
whole, and its open header is a number of a few digits. So every request is taken off as it came, and
as soon as its last byte is there.
-/

namespace RespStore

open Log

/-- A header that is open ends before the line end that it has in the whole. -/
theorem Bytes.IsLine.length_lt {line header rest : Bytes} (h : IsLine line)
    (hline : line <+: header ++ crlf ++ rest) : line.length < header.length + 2 := by
  have hlen : (header ++ crlf).length = header.length + 2 := by rw [List.length_append]; rfl
  have hnot : ¬header ++ crlf <+: line := fun hp =>
    h ((List.suffix_append header crlf).isInfix.trans hp.isInfix)
  have hwhole : header ++ crlf <+: header ++ crlf ++ rest := List.prefix_append _ rest
  rcases List.prefix_or_prefix_of_prefix hline hwhole with hp | hp
  · rw [← hlen]
    exact Nat.lt_of_le_of_ne hp.length_le fun heq => hnot (hp.eq_of_length heq ▸ List.prefix_rfl)
  · exact absurd hp hnot

namespace Decoder

variable {max : Nat} {w line cut : Bytes} {args : List Bytes} {r : Request}

/-- The bytes behind some arguments of a request, of which there are more, are those of the next. -/
theorem exists_wireArgument_of_prefix (hw : WireArguments w args)
    (hr : ∀ a ∈ r, a.length ≤ Limits.bulk) (hargs : args.length < r.length)
    (h : w ++ line <+: r.flatMap wireArgument) :
    ∃ a ∈ r, ∃ rest, line <+: wireArgument a ++ rest := by
  induction hw generalizing r with
  | nil =>
    cases r with
    | nil => cases hargs
    | cons a r => exact ⟨a, List.mem_cons_self, _, h⟩
  | @cons v w b args hv hw ih =>
    cases r with
    | nil => cases hargs
    | cons a r =>
      obtain ⟨ha, hr⟩ := List.forall_mem_cons.mp hr
      obtain ⟨digits, hline, hlen, rfl⟩ := hv
      obtain ⟨more, hmore⟩ := h
      -- Both spellings stand at the front of the same bytes, and these arrive in one way only.
      have harrives := arrival_of_wireArgument hline hlen (w ++ line ++ more)
      have harrives' := arrival_of_wireArgument (isLine_ofNat (by decide) _)
        ((bulkLength?_ofNat a.length).trans (if_pos ha)) (r.flatMap wireArgument)
      rw [List.flatMap_cons, wireArgument_eq] at hmore
      simp only [List.append_assoc] at harrives harrives' hmore
      rw [hmore, harrives'] at harrives
      have hrest : w ++ line <+: r.flatMap wireArgument :=
        ⟨more, by rw [List.append_assoc]; exact (Arrival.whole.inj harrives).2.2.symm⟩
      obtain ⟨a', ha', hline'⟩ := ih hr (Nat.lt_of_succ_lt_succ hargs) hrest
      exact ⟨a', List.mem_cons_of_mem a ha', hline'⟩

/-- An open header of an encoded request is short. -/
theorem OpenLine.length_le (h : OpenLine cut line) (hne : r ≠ []) (hr : r.WithinLimits)
    (hcut : cut <+: Writer.encode r) : line.length ≤ Limits.inline := by
  have hshort : ∀ {k n : Nat} {b : UInt8} {rest : Bytes}, n < Nat.pow 10 (k + 1) → k ≤ 9 →
      Bytes.IsLine line → line <+: (b :: Decimal.ofNat n) ++ Bytes.crlf ++ rest →
      line.length ≤ Limits.inline := by
    intro k n b rest hn hk hline hp
    have hlen := hline.length_lt hp
    have hdigits := Decimal.length_ofNat_le hn
    rw [List.length_cons] at hlen
    unfold Limits.inline
    omega
  have hcount : r.length < Nat.pow 10 (6 + 1) := Nat.lt_of_le_of_lt hr.count (by decide)
  rw [Writer.encode, serialize_toFrame hne] at hcut
  cases h with
  | count hstar hline => exact hshort hcount (by decide) hline hcut
  | @length digits w line args n hopen hn hw hargs hline =>
    obtain ⟨more, hmore⟩ := hcut
    rw [List.append_assoc] at hmore
    have hsplit := Bytes.splitLine?_eq_some_iff.mpr
      ⟨isLine_ofNat (b := Ascii.star) (by decide) r.length, Eq.refl (_ ++ r.flatMap wireArgument)⟩
    rw [← hmore, Bytes.splitLine?_eq_some_iff.mpr ⟨hopen, rfl⟩] at hsplit
    obtain ⟨hheader, hargsEq⟩ := Prod.mk.inj (Option.some.inj hsplit)
    rw [(List.cons.inj hheader).2, multibulkLength?_ofNat, if_pos hr.count] at hn
    obtain rfl : r.length = n := Int.ofNat.inj (Option.some.inj hn)
    obtain ⟨a, ha, rest, hp⟩ := exists_wireArgument_of_prefix hw hr.sizes hargs ⟨more, hargsEq⟩
    have hsize : a.length < Nat.pow 10 (8 + 1) := Nat.lt_of_le_of_lt (hr.sizes a ha) (by decide)
    rw [wireArgument_eq, List.append_assoc, List.append_assoc] at hp
    exact hshort hsize (by decide) hline hp

end Decoder

namespace Wired

variable {max : Nat} {w : Wired} {ws : List Wired} {rs : List Request} {cut bs : Bytes}

/-- As it is encoded, within the limits of a request and not longer than `max` bytes. -/
structure Encoded (max : Nat) (w : Wired) : Prop where
  bytes : w.bytes = Writer.encode w.request
  ne : w.request ≠ []
  limits : w.request.WithinLimits
  fits : w.bytes.length ≤ max

/-- Requests that are encoded one behind the other. -/
theorem exists_encoded (h : ∀ r ∈ rs, r ≠ [] ∧ r.WithinLimits ∧ (Writer.encode r).length ≤ max) :
    ∃ ws : List Wired, ws.map request = rs ∧ ∀ w ∈ ws, w.Encoded max := by
  induction rs with
  | nil => exact ⟨[], rfl, nofun⟩
  | cons r rs ih =>
    obtain ⟨⟨hne, hlimits, hfits⟩, hrest⟩ := List.forall_mem_cons.mp h
    obtain ⟨ws, rfl, hws⟩ := ih hrest
    exact ⟨⟨Writer.encode r, r, Decoder.wireForm_serialize hne hlimits⟩ :: ws, rfl,
      List.forall_mem_cons.mpr ⟨⟨rfl, hne, hlimits, hfits⟩, hws⟩⟩

theorem stream_encoded (h : ∀ w ∈ ws, w.Encoded max) :
    stream ws = (ws.map request).flatMap Writer.encode := by
  rw [List.flatMap_map]
  exact List.flatMap_congr fun w hw => (h w hw).bytes

theorem requests_encoded (h : ∀ w ∈ ws, w.Encoded max) : requests ws = ws.map request := by
  refine List.filter_eq_self.mpr fun r hr => ?_
  obtain ⟨w, hw, rfl⟩ := List.mem_map.mp hr
  exact decide_eq_true (h w hw).ne

/-- What there is of an encoded request never looks too long. -/
theorem Encoded.not_tooLong (h : w.Encoded max) (hcut : w.IsCut cut) :
    ¬Decoder.TooLong max cut := by
  intro hlong
  by_cases hstar : cut.head? = some Ascii.star
  · rcases (Decoder.tooLong_star hstar).mp hlong with hmax | ⟨line, hopen, hline⟩
    · have := hcut.length_lt
      have := h.fits
      omega
    · have hp : cut <+: Writer.encode w.request := h.bytes ▸ hcut.isPrefix
      exact absurd (hopen.length_le h.ne h.limits hp) (Nat.not_le.mpr hline)
  · have hnil : cut = [] := by
      cases cut with
      | nil => rfl
      | cons b cut =>
        obtain ⟨rest, hrest⟩ := hcut.isPrefix
        rw [h.bytes, Writer.encode, Decoder.serialize_toFrame h.ne] at hrest
        exact absurd (congrArg some (List.cons.inj hrest).1) hstar
    rw [hnil] at hstar hlong
    exact absurd ((Decoder.tooLong_inline hstar).mp hlong) (Nat.not_lt_zero _)

end Wired

namespace Decoder

variable {max : Nat} {ws : List Wired} {rs : List Request} {chunks : List Bytes} {bs : Bytes}

/-- Of encoded requests some bytes are there: the first `n` are whole and taken off, and what there is
of the next one is kept. -/
structure TakesOff (rs : List Request) (bs : Bytes) (o : Drained) (n : Nat) : Prop where
  requests : o.requests = rs.take n
  failure : o.failure = none
  arrived : bs = (rs.take n).flatMap Writer.encode ++ o.buffer
  missing : ∀ r, rs[n]? = some r → o.buffer <+: Writer.encode r ∧ o.buffer ≠ Writer.encode r

/-- Once all bytes are there, all requests are taken off. -/
theorem TakesOff.all {o : Drained} {n : Nat} (h : TakesOff rs (rs.flatMap Writer.encode) o n) :
    o.requests = rs ∧ o.buffer = [] := by
  have harrived := h.arrived
  by_cases hn : n < rs.length
  · have hsplit : rs.flatMap Writer.encode = (rs.take n).flatMap Writer.encode ++
        (Writer.encode rs[n] ++ (rs.drop (n + 1)).flatMap Writer.encode) := by
      rw [← List.flatMap_cons, ← List.drop_eq_getElem_cons hn, ← List.flatMap_append,
        List.take_append_drop]
    rw [hsplit, List.append_cancel_left_eq] at harrived
    obtain ⟨hbegin, hne⟩ := h.missing rs[n] (List.getElem?_eq_getElem hn)
    exact absurd (hbegin.eq_of_length_le (List.IsPrefix.length_le ⟨_, harrived⟩)) hne
  · have htake := List.take_of_length_le (Nat.le_of_not_lt hn)
    rw [htake] at harrived
    refine ⟨h.requests.trans htake, ?_⟩
    exact List.append_right_eq_self.mp harrived.symm

theorem drain_takesOff (hws : ∀ w ∈ ws, w.Encoded max) (h : bs <+: Wired.stream ws) :
    ∃ n, TakesOff (ws.map Wired.request) bs ((new max).drain bs) n := by
  have hp : bs <+: Wired.stream ws ++ [] := by rwa [List.append_nil]
  rcases Wired.stream_prefix_or_cut hp with hall | ⟨vs, w, us, cut, rfl, rfl, hcut⟩
  · obtain rfl : bs = Wired.stream ws := h.eq_of_length_le hall.length_le
    have hdrain : (new max).drain (Wired.stream ws ++ []) = _ := drain_stream ws []
    rw [List.append_nil, show (new max).drain [] = _ from drain_new_eq,
      Wired.requests_encoded hws] at hdrain
    refine ⟨(ws.map Wired.request).length, ?_⟩
    rw [hdrain]
    refine ⟨?_, rfl, ?_, fun r hr => ?_⟩
    · rw [List.take_length]
      exact List.append_nil _
    · rw [List.take_length, Wired.stream_encoded hws]
      exact (List.append_nil _).symm
    · rw [List.getElem?_eq_none (Nat.le_refl _)] at hr
      cases hr
  · have hvs : ∀ v ∈ vs, v.Encoded max := fun v hv => hws v (List.mem_append_left _ hv)
    have hw : w.Encoded max := hws w (List.mem_append_right _ List.mem_cons_self)
    obtain ⟨hrequests, hfailure⟩ := drain_cut max hcut
    have hnone := hfailure.mpr (hw.not_tooLong hcut)
    have hbuffer := buffer_drain_cut hcut hnone
    refine ⟨(vs.map Wired.request).length, ?_⟩
    rw [drain_stream, Wired.requests_encoded hvs, List.map_append]
    refine ⟨?_, hnone, ?_, fun r hr => ?_⟩
    · rw [List.take_left, Drained.after, hrequests, List.append_nil]
    · rw [List.take_left, Wired.stream_encoded hvs]
      exact congrArg _ hbuffer.symm
    · rw [List.getElem?_append_right (Nat.le_refl _), Nat.sub_self] at hr
      cases hr
      show ((new max).drain cut).buffer <+: _ ∧ ((new max).drain cut).buffer ≠ _
      rw [hbuffer, ← hw.bytes]
      exact ⟨hcut.isPrefix, hcut.ne⟩

/-- Chunk by chunk, a decoder comes as far with encoded requests as with all chunks at once. -/
theorem feedAll_takesOff (hws : ∀ w ∈ ws, w.Encoded max) (h : chunks.flatten <+: Wired.stream ws) :
    ∃ n, TakesOff (ws.map Wired.request) chunks.flatten ((new max).feedAll [] chunks) n := by
  obtain ⟨k, hk⟩ := feedAll_fed (waits_new max) chunks
  have hrequests := hk.requests
  have hbuffer := hk.buffer
  have hfailure := hk.failure
  rw [List.nil_append] at hrequests hbuffer hfailure
  have htake : (chunks.take k).flatten <+: Wired.stream ws := (List.take_prefix k chunks).flatten.trans h
  obtain ⟨n, hn⟩ := drain_takesOff hws htake
  have hall := hk.all (hfailure.trans hn.failure)
  rw [hall, List.take_length] at hrequests hbuffer hfailure hn
  refine ⟨n, hrequests.trans hn.requests, hfailure.trans hn.failure, ?_, ?_⟩
  · rw [hbuffer]
    exact hn.arrived
  · rw [hbuffer]
    exact hn.missing

/-- Encoded requests come back as they are, however many there are and wherever the reads end: each
with the read that brings its last byte, and nothing is refused or left over. -/
theorem feedAll_encoded (hrs : ∀ r ∈ rs, r ≠ [] ∧ r.WithinLimits ∧ (Writer.encode r).length ≤ max)
    (hchunks : chunks.flatten = rs.flatMap Writer.encode) :
    let o := (new max).feedAll [] chunks
    (o.requests = rs ∧ o.failure = none ∧ o.buffer = []) ∧
      ∀ k, ∃ n, TakesOff rs (chunks.take k).flatten ((new max).feedAll [] (chunks.take k)) n := by
  obtain ⟨ws, rfl, hws⟩ := Wired.exists_encoded hrs
  rw [← Wired.stream_encoded hws] at hchunks
  have hall : chunks.flatten <+: Wired.stream ws := hchunks ▸ List.prefix_rfl
  obtain ⟨n, hn⟩ := feedAll_takesOff hws hall
  refine ⟨?_, fun k => feedAll_takesOff hws (hchunks ▸ (List.take_prefix k chunks).flatten)⟩
  rw [hchunks, Wired.stream_encoded hws] at hn
  exact ⟨hn.all.1, hn.failure, hn.all.2⟩

/-- Two requests, the first with what looks like the second in an argument. -/
def echoPing : List Request :=
  [[Utf8.encode "ECHO", Writer.encode [Utf8.encode "PING"]], [Utf8.encode "PING"]]

/-- Byte by byte, and the longer one has just the size that is taken. -/
theorem echoPing_encoded :
    (∀ r ∈ echoPing, r ≠ [] ∧ r.WithinLimits ∧ (Writer.encode r).length ≤ 35) ∧
    let chunks := (echoPing.flatMap Writer.encode).map ([·])
    let o := (new 35).feedAll [] chunks
    (o.requests = echoPing ∧ o.failure = none ∧ o.buffer = []) ∧
      ∀ k, ∃ n, TakesOff echoPing (chunks.take k).flatten
        ((new 35).feedAll [] (chunks.take k)) n := by
  have hrs : ∀ r ∈ echoPing, r ≠ [] ∧ r.WithinLimits ∧ (Writer.encode r).length ≤ 35 := by
    decide +kernel
  exact ⟨hrs, feedAll_encoded hrs (by decide +kernel)⟩

end Decoder

end RespStore
