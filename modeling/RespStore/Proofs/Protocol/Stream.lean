import RespStore.Proofs.Protocol.Decoder
import RespStore.Proofs.Protocol.Front
import RespStore.Text.Utf8

/-!
# Byte streams in chunks

A stream is fed to a decoder in chunks, and the decoder takes off what is whole after each. As long
as it refuses nothing for its size, the requests, the refusal and the bytes left over are those of
the whole stream in one chunk.
-/

namespace RespStore

/-- A request in one of its wire forms. -/
structure Wired where
  bytes : Bytes
  request : Request
  form : WireForm bytes request

namespace Wired

/-- One behind the other. -/
def stream (ws : List Wired) : Bytes := ws.flatMap bytes

/-- Those that have arguments. -/
def requests (ws : List Wired) : List Request := (ws.map request).filter (· ≠ [])

variable {w : Wired} {ws vs : List Wired}

@[simp] theorem stream_nil : stream [] = [] := rfl

@[simp] theorem stream_cons : stream (w :: ws) = w.bytes ++ stream ws := rfl

@[simp] theorem stream_append : stream (ws ++ vs) = stream ws ++ stream vs := List.flatMap_append

@[simp] theorem requests_nil : requests [] = [] := rfl

theorem requests_singleton (w : Wired) :
    requests [w] = if w.request = [] then [] else [w.request] := by
  rw [requests, List.map_singleton, List.filter_singleton]
  by_cases h : w.request = [] <;> simp [h]

theorem requests_cons (w : Wired) (ws : List Wired) :
    requests (w :: ws) = requests [w] ++ requests ws :=
  List.filter_append [w.request] (ws.map request)

@[simp] theorem requests_append : requests (ws ++ vs) = requests ws ++ requests vs := by
  rw [requests, List.map_append, List.filter_append]
  rfl

end Wired

namespace Decoder

variable {max n : Nat} {buf rest more : Bytes} {p : Pending} {r : Request} {d d' : Decoder}
  {e : ProtocolError} {w : Wired} {ws : List Wired} {o : Drained}

/-! ## Going on where a request is parked -/

/-- Going on with a parked request comes to the same as starting over. -/
theorem Parked.resume_eq (h : Parked p buf) (max : Nat) (more : Bytes) :
    (new max).resume p (buf ++ more) = (new max).decodeAny (buf ++ more) := by
  obtain @⟨digits, rest, rest', p, n, k, hline, hcount, hk, h⟩ := h
  obtain ⟨m, hoffset, hlen, hdrop⟩ := h.offset
  have hleft : p.expected - p.args.size = n - k := by
    rw [h.expected_eq, h.size_eq]
    simp [opened]
  have hrest : ((Ascii.star :: digits) ++ Bytes.crlf ++ (rest ++ more)).drop p.offset =
      rest' ++ more := by
    rw [hoffset, ← List.drop_drop, drop_opened, List.drop_append_of_le_length (by omega), hdrop]
  have hcollect : collect (n - k) p (rest' ++ more) = collect n (opened digits n) (rest ++ more) := by
    rw [← (h.append more).collect, Nat.add_sub_cancel' (Nat.le_of_lt hk)]
  have hpos : ¬(n : Int) ≤ 0 := by omega
  rw [List.append_assoc, decodeAny_header hline, hcount]
  dsimp only
  rw [if_neg hpos, Int.toNat_natCast, resume_opened, resume, hleft, hrest, hcollect]
  rfl

theorem Parked.ne_nil (h : Parked p buf) : buf ≠ [] := by
  cases h
  exact nofun

/-- Whatever is parked is what there is of the request at the front of the buffer. -/
def Tracks (d : Decoder) (buf : Bytes) : Prop := ∀ p, d.pending = some p → Parked p buf

theorem tracks_new (max : Nat) (buf : Bytes) : (new max).Tracks buf := nofun

theorem Tracks.decodeAny_eq (h : d.Tracks buf) (more : Bytes) :
    d.decodeAny (buf ++ more) = (new d.maxFrame).decodeAny (buf ++ more) := by
  obtain ⟨max, pending⟩ := d
  cases pending with
  | none => rfl
  | some p => exact (h p rfl).resume_eq max more

/-! ## Taking off what is whole -/

/-- With requests that were taken off before. -/
def Drained.after (o : Drained) (rs : List Request) : Drained := { o with requests := rs ++ o.requests }

@[simp] theorem Drained.after_nil (o : Drained) : o.after [] = o := rfl

theorem Drained.after_after (o : Drained) (rs rs' : List Request) :
    (o.after rs).after rs' = o.after (rs' ++ rs) :=
  congrArg (Drained.mk · o.decoder o.buffer o.failure) (List.append_assoc _ _ _).symm

theorem drain_eq :
    d.drain buf =
      match d.decode buf with
      | ⟨d', rest, .ok none⟩ => ⟨[], d', rest, none⟩
      | ⟨d', rest, .error e⟩ => ⟨[], d', rest, some e⟩
      | ⟨d', rest, .ok (some r)⟩ => (d'.drain rest).after [r] := by
  rw [drain]
  dsimp only
  split <;>
  · next h =>
    generalize d.decode buf = o at h
    obtain ⟨d', rest, result⟩ := o
    cases h
    rfl

theorem drain_decode :
    d.drain buf =
      match (d.decode buf).result with
      | .ok none => ⟨[], (d.decode buf).decoder, (d.decode buf).buffer, none⟩
      | .error e => ⟨[], (d.decode buf).decoder, (d.decode buf).buffer, some e⟩
      | .ok (some r) => ((d.decode buf).decoder.drain (d.decode buf).buffer).after [r] := by
  rw [drain_eq]
  rcases d.decode buf with ⟨d', rest, e | _ | r⟩ <;> rfl

/-- What a new decoder takes off depends on `decodeAny` alone. -/
theorem drain_new_eq :
    (new max).drain buf =
      match (new max).decodeAny buf with
      | ⟨d', rest, .ok none⟩ => ⟨[], d', rest, none⟩
      | ⟨d', rest, .error e⟩ => ⟨[], d', rest, some e⟩
      | ⟨d', rest, .ok (some [])⟩ => d'.drain rest
      | ⟨d', rest, .ok (some (a :: r))⟩ => (d'.drain rest).after [a :: r] := by
  by_cases hbuf : buf = []
  · subst hbuf
    rw [drain_eq, decode]
    rfl
  · rw [drain_eq, decode_eq hbuf]
    rcases (new max).decodeAny buf with ⟨d', rest, e | _ | _ | ⟨a, r⟩⟩
    · rfl
    · rfl
    · exact drain_eq.symm
    · rfl

theorem Tracks.drain_eq (h : d.Tracks buf) (more : Bytes) :
    d.drain (buf ++ more) = (new d.maxFrame).drain (buf ++ more) := by
  by_cases hbuf : buf ++ more = []
  · obtain ⟨max, pending⟩ := d
    cases pending with
    | none => rfl
    | some p => exact absurd (List.append_eq_nil_iff.mp hbuf).1 (h p rfl).ne_nil
  · rw [Decoder.drain_eq, Decoder.drain_eq, decode_eq hbuf, decode_eq hbuf, h.decodeAny_eq]

/-! ## Requests in their wire forms -/

theorem drain_wired (w : Wired) (rest : Bytes) :
    (new max).drain (w.bytes ++ rest) = ((new max).drain rest).after (Wired.requests [w]) := by
  obtain ⟨bytes, request, form⟩ := w
  rw [drain_new_eq, decodeAny_of_wireForm form]
  cases request <;> rfl

theorem drain_stream (ws : List Wired) (rest : Bytes) :
    (new max).drain (Wired.stream ws ++ rest) =
      ((new max).drain rest).after (Wired.requests ws) := by
  induction ws with
  | nil => rfl
  | cons w ws ih =>
    rw [Wired.stream_cons, List.append_assoc, drain_wired, ih, Drained.after_after,
      Wired.requests_cons w ws]

/-- What is drained where no request is whole at the front. -/
inductive Stuck (max : Nat) (buf : Bytes) : Drained → Prop where
  | waiting {pending : Option Pending} (hp : ∀ p, pending = some p → Parked p buf)
      (hlong : ¬TooLong max buf) : Stuck max buf ⟨[], ⟨max, pending⟩, buf, none⟩
  | refused {rest : Bytes} {e : ProtocolError} (he : e.isSizeLimit = false)
      (h : ∀ more, ∃ rest', (new max).drain (buf ++ more) = ⟨[], new max, rest', some e⟩) :
      Stuck max buf ⟨[], new max, rest, some e⟩
  | oversized {e : ProtocolError} (he : e.isSizeLimit = true) (hlong : TooLong max buf) :
      Stuck max buf ⟨[], new max, buf, some e⟩

theorem stuck_or_wired (max : Nat) (buf : Bytes) :
    Stuck max buf ((new max).drain buf) ∨ ∃ (w : Wired) (rest : Bytes), buf = w.bytes ++ rest := by
  have hfront := front max buf
  have hdrain : (new max).drain buf = _ := drain_new_eq
  generalize hdecode : (new max).decodeAny buf = o at hfront hdrain
  cases hfront with
  | @whole w rest r hw hbuf => exact .inr ⟨⟨w, r, hw⟩, rest, hbuf⟩
  | @refused rest e he h =>
    refine .inl (hdrain ▸ .refused he fun more => ?_)
    have hfront' := front max (buf ++ more)
    rw [drain_new_eq]
    have hresult := h more
    generalize (new max).decodeAny (buf ++ more) = o' at hfront' hresult
    cases hfront' with
    | whole => cases hresult
    | refused => cases hresult; exact ⟨_, rfl⟩
    | waiting => cases hresult
    | oversized => cases hresult; exact ⟨_, rfl⟩
  | waiting hp hlong => exact .inl (hdrain ▸ .waiting hp hlong)
  | oversized he hlong => exact .inl (hdrain ▸ .oversized he hlong)

/-- A buffer is some requests and what is left when they are taken off. -/
theorem exists_stream (max : Nat) (buf : Bytes) :
    ∃ ws rest, buf = Wired.stream ws ++ rest ∧ Stuck max rest ((new max).drain rest) := by
  induction hn : buf.length using Nat.strong_induction_on generalizing buf with
  | _ n ih =>
    obtain hstuck | ⟨w, rest, rfl⟩ := stuck_or_wired max buf
    · exact ⟨[], buf, rfl, hstuck⟩
    · have hlt : rest.length < n := by
        have := List.length_pos_iff.mpr w.form.ne_nil
        rw [List.length_append] at hn
        omega
      obtain ⟨ws, rest', rfl, hstuck⟩ := ih _ hlt rest rfl
      refine ⟨w :: ws, rest', ?_, hstuck⟩
      rw [Wired.stream_cons, List.append_assoc]

/-! ## What comes later -/

theorem Stuck.requests_eq (h : Stuck max buf o) : o.requests = [] := by
  cases h <;> rfl

theorem exists_stream_drain (max : Nat) (buf : Bytes) :
    ∃ ws rest, buf = Wired.stream ws ++ rest ∧
      ((new max).drain buf).requests = Wired.requests ws ∧
      (((new max).drain buf).failure = none → ((new max).drain buf).buffer = rest) := by
  obtain ⟨ws, rest, rfl, hstuck⟩ := exists_stream max buf
  rw [drain_stream]
  generalize (new max).drain rest = o at hstuck ⊢
  refine ⟨ws, rest, rfl, ?_, fun h => ?_⟩
  · rw [Drained.after, hstuck.requests_eq, List.append_nil]
  · cases hstuck with
    | waiting => rfl
    | refused => cases h
    | oversized => cases h

/-- Nothing is whole in `buf` and nothing is refused, and what `d` has parked is of `buf`. -/
structure Waits (max : Nat) (d : Decoder) (buf : Bytes) : Prop where
  maxFrame : d.maxFrame = max
  tracks : d.Tracks buf
  drain : ∃ d', (new max).drain buf = ⟨[], d', buf, none⟩

theorem waits_new (max : Nat) : (new max).Waits max [] := ⟨rfl, tracks_new max [], _, drain_new_eq⟩

theorem Waits.feed_eq (h : Waits max d buf) (chunk : Bytes) :
    d.feed buf chunk = (new max).drain (buf ++ chunk) := by
  rw [feed, h.tracks.drain_eq, h.maxFrame]

/-- While nothing is refused, what is left and what comes later is a stream of its own. -/
theorem drain_append (h : ((new max).drain buf).failure = none) :
    Waits max ((new max).drain buf).decoder ((new max).drain buf).buffer ∧
      ∀ more, (new max).drain (buf ++ more) =
        ((new max).drain (((new max).drain buf).buffer ++ more)).after
          ((new max).drain buf).requests := by
  obtain ⟨ws, rest, rfl, hstuck⟩ := exists_stream max buf
  rw [drain_stream] at h ⊢
  generalize hrest : (new max).drain rest = o at h hstuck ⊢
  cases hstuck with
  | waiting hp hlong =>
    refine ⟨⟨rfl, hp, _, hrest⟩, fun more => ?_⟩
    rw [List.append_assoc, drain_stream]
    simp only [Drained.after, List.append_nil]
  | refused => cases h
  | oversized => cases h

/-- What is refused for its form stays refused. -/
theorem drain_append_of_refused (h : ((new max).drain buf).failure = some e)
    (he : e.isSizeLimit = false) (more : Bytes) :
    ((new max).drain (buf ++ more)).requests = ((new max).drain buf).requests ∧
      ((new max).drain (buf ++ more)).failure = some e := by
  obtain ⟨ws, rest, rfl, hstuck⟩ := exists_stream max buf
  rw [List.append_assoc, drain_stream, drain_stream]
  rw [drain_stream] at h
  generalize (new max).drain rest = o at h hstuck ⊢
  cases hstuck with
  | waiting => cases h
  | refused _ hmore =>
    cases h
    obtain ⟨rest', hrest'⟩ := hmore more
    rw [hrest']
    exact ⟨rfl, rfl⟩
  | oversized hlimit =>
    cases h
    rw [he] at hlimit
    cases hlimit

/-- Requests that were taken off are not taken back. -/
theorem requests_mono {buf' : Bytes} (h : buf <+: buf') :
    ((new max).drain buf).requests <+: ((new max).drain buf').requests := by
  obtain ⟨more, rfl⟩ := h
  obtain ⟨ws, rest, rfl, hstuck⟩ := exists_stream max buf
  rw [List.append_assoc, drain_stream, drain_stream, Drained.after, hstuck.requests_eq,
    List.append_nil]
  exact List.prefix_append _ _

/-! ## Chunk by chunk -/

/-- Feeds chunks up to the first refusal. -/
def feedAll (d : Decoder) (buf : Bytes) : List Bytes → Drained
  | [] => ⟨[], d, buf, none⟩
  | chunk :: chunks =>
    let o := d.feed buf chunk
    match o.failure with
    | some _ => o
    | none => (o.decoder.feedAll o.buffer chunks).after o.requests

/-- What comes of the first `k` of some chunks, up to what is parked. -/
structure Fed (max : Nat) (buf : Bytes) (chunks : List Bytes) (o : Drained) (k : Nat) : Prop where
  le : k ≤ chunks.length
  requests : o.requests = ((new max).drain (buf ++ (chunks.take k).flatten)).requests
  buffer : o.buffer = ((new max).drain (buf ++ (chunks.take k).flatten)).buffer
  failure : o.failure = ((new max).drain (buf ++ (chunks.take k).flatten)).failure
  before : ∀ j < k, ((new max).drain (buf ++ (chunks.take j).flatten)).failure = none
  all : o.failure = none → k = chunks.length

/-- Chunk by chunk, a decoder comes as far as with the chunks before the first refusal at once. -/
theorem feedAll_fed (h : Waits max d buf) (chunks : List Bytes) :
    ∃ k, Fed max buf chunks (d.feedAll buf chunks) k := by
  induction chunks generalizing d buf with
  | nil =>
    obtain ⟨d', hdrain⟩ := h.drain
    refine ⟨0, ⟨Nat.le_refl _, ?_, ?_, ?_, nofun, fun _ => rfl⟩⟩ <;>
    · rw [List.take_nil, List.flatten_nil, List.append_nil, hdrain]
      rfl
  | cons chunk chunks ih =>
    have hfeed : d.feed buf chunk = (new max).drain (buf ++ chunk) := by
      rw [feed, h.tracks.drain_eq, h.maxFrame]
    have hbefore : ((new max).drain (buf ++ ((chunk :: chunks).take 0).flatten)).failure = none := by
      obtain ⟨d', hdrain⟩ := h.drain
      rw [List.take_zero, List.flatten_nil, List.append_nil, hdrain]
    rw [feedAll, hfeed]
    cases hfailure : ((new max).drain (buf ++ chunk)).failure with
    | some e =>
      have htake : ((chunk :: chunks).take 1).flatten = chunk := by simp
      refine ⟨1, ⟨Nat.succ_le_succ (Nat.zero_le _), ?_, ?_, ?_, ?_, ?_⟩⟩
      · rw [htake]
      · rw [htake]
      · rw [htake]
      · intro j hj
        obtain rfl : j = 0 := Nat.lt_one_iff.mp hj
        exact hbefore
      · exact fun hnone => nomatch hfailure.symm.trans hnone
    | none =>
      obtain ⟨hwaits, hmore⟩ := drain_append hfailure
      obtain ⟨k, hk⟩ := ih hwaits
      have htake : ∀ j, (new max).drain (buf ++ ((chunk :: chunks).take (j + 1)).flatten) =
          ((new max).drain (((new max).drain (buf ++ chunk)).buffer ++
            (chunks.take j).flatten)).after ((new max).drain (buf ++ chunk)).requests := by
        intro j
        rw [List.take_succ_cons, List.flatten_cons, ← List.append_assoc, hmore]
      dsimp only
      refine ⟨k + 1, ⟨Nat.succ_le_succ hk.le, ?_, ?_, ?_, ?_, ?_⟩⟩
      · rw [htake, Drained.after, Drained.after, hk.requests]
      · rw [htake]
        exact hk.buffer
      · rw [htake]
        exact hk.failure
      · rintro (_ | j) hj
        · exact hbefore
        · rw [htake]
          exact hk.before j (Nat.lt_of_succ_lt_succ hj)
      · intro hnone
        rw [List.length_cons, hk.all hnone]

/-- How a stream is cut into chunks does not matter, as long as nothing is refused for its size. -/
theorem feedAll_eq_feed_flatten {chunks : List Bytes}
    (h : ∀ e, ((new max).feedAll [] chunks).failure = some e → e.isSizeLimit = false) :
    ((new max).feed [] chunks.flatten).requests = ((new max).feedAll [] chunks).requests ∧
      ((new max).feed [] chunks.flatten).failure = ((new max).feedAll [] chunks).failure ∧
      (((new max).feedAll [] chunks).failure = none →
        ((new max).feed [] chunks.flatten).buffer = ((new max).feedAll [] chunks).buffer) := by
  obtain ⟨k, hk⟩ := feedAll_fed (waits_new max) chunks
  rw [feed, List.nil_append, hk.requests, hk.failure, hk.buffer, List.nil_append]
  cases hfailure : ((new max).feedAll [] chunks).failure with
  | none =>
    rw [hk.all hfailure, List.take_length]
    exact ⟨rfl, rfl, fun _ => rfl⟩
  | some e =>
    have hrefused : ((new max).drain (chunks.take k).flatten).failure = some e := by
      rw [← hfailure, hk.failure, List.nil_append]
    obtain ⟨hrequests, hfail⟩ :=
      drain_append_of_refused hrefused (h e hfailure) (chunks.drop k).flatten
    rw [← List.flatten_append, List.take_append_drop] at hrequests hfail
    refine ⟨hrequests, hfail.trans hrefused.symm, fun hnone => ?_⟩
    rw [hrefused] at hnone
    cases hnone

/-- An inline request, an empty one, one with line ends in an argument, and a broken one; byte by
byte. -/
def bytewise : List Bytes :=
  (Utf8.encode "PING\r\n*0\r\n*2\r\n$4\r\nECHO\r\n$5\r\na\r\n\r\n\r\n*1\r\n+OK\r\n").map ([·])

theorem bytewise_eq_feed :
    ((new 40).feedAll [] bytewise).requests =
      [[Utf8.encode "PING"], [Utf8.encode "ECHO", Utf8.encode "a\r\n\r\n"]] ∧
    ((new 40).feed [] bytewise.flatten).requests = ((new 40).feedAll [] bytewise).requests ∧
    ((new 40).feed [] bytewise.flatten).failure = some (.expectedBulk '+') := by
  have hfailure : ((new 40).feedAll [] bytewise).failure = some (.expectedBulk '+') := by
    decide +kernel
  obtain ⟨hrequests, hfail, -⟩ := @feedAll_eq_feed_flatten 40 bytewise fun e he => by
    rw [hfailure] at he
    cases he
    rfl
  exact ⟨by decide +kernel, hrequests, hfail.trans hfailure⟩

end Decoder

end RespStore
