import RespStore.Proofs.Protocol.Stream

/-!
# Calls of a decoder

A decoder is called any number of times while its buffer grows with every read. What it has consumed is
whole requests and lines in which quotes do not balance. A request that is refused stands at the front of
the buffer as it came, and is refused again for the same reason; only a line with unbalanced quotes is
gone.
-/

namespace RespStore

/-- An inline line that is refused. -/
structure Unbalanced (line : Bytes) : Prop where
  lf : Ascii.lf ∉ line
  star : line.head? ≠ some Ascii.star
  split : Inline.split? (Decoder.chomp line) = none

/-- Bytes that stand behind each other as they are consumed, and the requests among them that have
arguments. -/
inductive Consumed : Bytes → List Request → Prop where
  | nil : Consumed [] []
  | requests {bs : Bytes} {rs : List Request} (h : Consumed bs rs) (ws : List Wired) :
      Consumed (bs ++ Wired.stream ws) (rs ++ Wired.requests ws)
  | unbalanced {bs line : Bytes} {rs : List Request} (h : Consumed bs rs) (hline : Unbalanced line) :
      Consumed (bs ++ (line ++ [Ascii.lf])) rs

namespace Decoder

variable {max : Nat} {stream buf rest more line : Bytes} {rs : List Request} {p : Pending}
  {d d' : Decoder} {e : ProtocolError} {w : Wired} {ws : List Wired}

/-- What a call surfaces. -/
def Outcome.surfaced (o : Outcome) : List Request :=
  match o.result with
  | .ok (some r) => [r]
  | _ => []

/-- A decoder that has received `stream` and surfaced `rs`, with `buf` left, after reads and calls in any
order. -/
inductive Received (max : Nat) : Bytes → List Request → Decoder → Bytes → Prop where
  | start : Received max [] [] (new max) []
  | read {stream buf : Bytes} {rs : List Request} {d : Decoder} (h : Received max stream rs d buf)
      (chunk : Bytes) : Received max (stream ++ chunk) rs d (buf ++ chunk)
  | decode {stream buf : Bytes} {rs : List Request} {d : Decoder} (h : Received max stream rs d buf) :
      Received max stream (rs ++ (d.decode buf).surfaced) (d.decode buf).decoder (d.decode buf).buffer

/-! ## Refusals -/

theorem ne_unbalancedQuotes_of_arrival (h : arrival buf = .failed e) : e ≠ .unbalancedQuotes := by
  rintro rfl
  unfold arrival at h
  split at h
  · cases h
  · cases h
  · split at h
    · cases h
    · split at h
      · cases h
      · split at h
        · split at h <;> cases h
        · cases h

theorem park_cases (d : Decoder) (p : Pending) (buf : Bytes) :
    d.park p buf = d.fail buf (.frameTooLarge d.maxFrame) ∨
      d.park p buf = ⟨{ d with pending := some p }, buf, .ok none⟩ :=
  ite_eq_or_eq _ _ _

theorem unterminated?_ne {offset : Nat} {tooBig : ProtocolError}
    (h : d.unterminated? buf offset tooBig = some e) (htooBig : tooBig ≠ .unbalancedQuotes) :
    e ≠ .unbalancedQuotes := by
  unfold unterminated? at h
  split at h
  · cases h
    exact nofun
  · split at h
    · cases h
      exact htooBig
    · cases h

/-- Whatever is refused of a multi-bulk request, the buffer stays as it is. -/
theorem resume_of_error (h : (d.resume p buf).result = .error e) :
    d.resume p buf = d.fail buf e ∧ e ≠ .unbalancedQuotes := by
  have hpark : ∀ q, (d.park q buf).result = .error e →
      d.park q buf = d.fail buf e ∧ e ≠ .unbalancedQuotes := by
    intro q hq
    rcases park_cases d q buf with hfail | hparked
    · rw [hfail] at hq ⊢
      cases hq
      exact ⟨rfl, fun h => by cases h⟩
    · rw [hparked] at hq
      cases hq
  have hcollected := collected (p.expected - p.args.size) p (buf.drop p.offset)
  rw [resume] at h ⊢
  generalize collect (p.expected - p.args.size) p (buf.drop p.offset) = progress at hcollected h ⊢
  cases hcollected with
  | complete => cases h
  | @cutHeader k q =>
    dsimp only at h ⊢
    cases hopen : d.unterminated? buf q.offset .tooBigBulkCount with
    | none =>
      rw [hopen] at h
      exact hpark q h
    | some e' =>
      rw [hopen] at h
      cases h
      exact ⟨rfl, unterminated?_ne hopen fun h => by cases h⟩
  | cutPayload => exact hpark _ h
  | failed _ _ ha =>
    cases h
    exact ⟨rfl, ne_unbalancedQuotes_of_arrival ha⟩

theorem decodeMultibulk_of_error (h : (d.decodeMultibulk buf).result = .error e) :
    d.decodeMultibulk buf = d.fail buf e ∧ e ≠ .unbalancedQuotes := by
  unfold decodeMultibulk at h ⊢
  cases hline : Bytes.splitLine? buf with
  | none =>
    rw [hline] at h
    dsimp only at h ⊢
    cases hopen : d.unterminated? buf 0 .tooBigMultibulkCount with
    | none =>
      rw [hopen] at h
      cases h
    | some e' =>
      rw [hopen] at h
      cases h
      exact ⟨rfl, unterminated?_ne hopen nofun⟩
  | some split =>
    rw [hline] at h
    dsimp only at h ⊢
    cases hcount : multibulkLength? split.1.tail with
    | none =>
      rw [hcount] at h
      cases h
      exact ⟨rfl, nofun⟩
    | some n =>
      rw [hcount] at h
      dsimp only at h ⊢
      by_cases hn : n ≤ 0
      · rw [if_pos hn] at h
        cases h
      · rw [if_neg hn] at h ⊢
        exact resume_of_error h

/-- A refusal leaves the buffer as it is, or takes a line with unbalanced quotes off it. -/
theorem decodeAny_of_error (h : (new max).decodeAny buf = ⟨d', rest, .error e⟩) :
    d' = new max ∧
      ((e ≠ .unbalancedQuotes ∧ rest = buf) ∨
        e = .unbalancedQuotes ∧ ∃ line, Unbalanced line ∧ buf = line ++ [Ascii.lf] ++ rest) := by
  by_cases hstar : buf.head? = some Ascii.star
  · rw [decodeAny_star hstar] at h
    obtain ⟨hfail, he⟩ := decodeMultibulk_of_error (congrArg Outcome.result h)
    rw [hfail] at h
    cases h
    exact ⟨rfl, .inl ⟨he, rfl⟩⟩
  · rw [decodeAny_inline hstar] at h
    by_cases hlf : Ascii.lf ∈ buf
    · obtain ⟨line, rest', rfl, hline⟩ := List.eq_append_cons_of_mem hlf
      rw [decodeInline_of_line hline] at h
      cases hsplit : Inline.split? (chomp line) with
      | some args =>
        rw [hsplit] at h
        cases h
      | none =>
        rw [hsplit] at h
        cases h
        have hhead : line.head? ≠ some Ascii.star := by
          cases line with
          | nil => exact nofun
          | cons b line => exact hstar
        exact ⟨rfl, .inr ⟨rfl, line, ⟨hline, hhead, hsplit⟩, List.append_cons _ _ _⟩⟩
    · rw [decodeInline_of_open hlf] at h
      split at h
      · cases h
        exact ⟨rfl, .inl ⟨nofun, rfl⟩⟩
      · cases h

/-! ## One call -/

theorem Tracks.decode_eq (h : d.Tracks buf) : d.decode buf = (new d.maxFrame).decode buf := by
  by_cases hbuf : buf = []
  · subst hbuf
    have hpending : d.pending = none :=
      Option.eq_none_iff_forall_ne_some.mpr fun p hp => (h p hp).ne_nil rfl
    rw [eq_new hpending]
    rfl
  · have hany := h.decodeAny_eq []
    rw [List.append_nil] at hany
    rw [Decoder.decode_eq hbuf, Decoder.decode_eq hbuf, hany]

/-- What one call makes of a buffer, `ws` being the empty requests that it skips. -/
inductive Called (max : Nat) (buf : Bytes) (ws : List Wired) : Outcome → Prop where
  | surfaced {w : Wired} {rest : Bytes} (hw : w.request ≠ [])
      (hbuf : buf = Wired.stream ws ++ w.bytes ++ rest) :
      Called max buf ws ⟨new max, rest, .ok (some w.request)⟩
  | waiting {pending : Option Pending} {rest : Bytes} (hp : ∀ p, pending = some p → Parked p rest)
      (hbuf : buf = Wired.stream ws ++ rest) :
      Called max buf ws ⟨⟨max, pending⟩, rest, .ok none⟩
  | refused {rest : Bytes} {e : ProtocolError} (he : e ≠ .unbalancedQuotes)
      (hbuf : buf = Wired.stream ws ++ rest) (hrest : rest ≠ [])
      (hany : (new max).decodeAny rest = ⟨new max, rest, .error e⟩) :
      Called max buf ws ⟨new max, rest, .error e⟩
  | unbalanced {line rest : Bytes} (hline : Unbalanced line)
      (hbuf : buf = Wired.stream ws ++ (line ++ [Ascii.lf]) ++ rest) :
      Called max buf ws ⟨new max, rest, .error .unbalancedQuotes⟩

/-- One more request is skipped in front. -/
theorem Called.skip {o : Outcome} (h : Called max rest ws o) (w : Wired) :
    Called max (w.bytes ++ rest) (w :: ws) o := by
  cases h with
  | surfaced hw hbuf => exact .surfaced hw (by rw [hbuf]; simp only [Wired.stream_cons, List.append_assoc])
  | waiting hp hbuf => exact .waiting hp (by rw [hbuf]; simp only [Wired.stream_cons, List.append_assoc])
  | refused he hbuf hrest hany =>
    exact .refused he (by rw [hbuf]; simp only [Wired.stream_cons, List.append_assoc]) hrest hany
  | unbalanced hline hbuf =>
    exact .unbalanced hline (by rw [hbuf]; simp only [Wired.stream_cons, List.append_assoc])

theorem called (max : Nat) (buf : Bytes) :
    ∃ ws, Wired.requests ws = [] ∧ Called max buf ws ((new max).decode buf) := by
  induction hn : buf.length using Nat.strong_induction_on generalizing buf with
  | _ n ih =>
    by_cases hbuf : buf = []
    · subst hbuf
      refine ⟨[], rfl, ?_⟩
      rw [decode, dif_pos rfl]
      exact .waiting (fun p hp => by cases hp) rfl
    have hfront := front max buf
    have hdecode := Decoder.decode_eq (d := new max) hbuf
    generalize hany : (new max).decodeAny buf = o at hfront hdecode
    have hrefused : ∀ d' rest e, o = ⟨d', rest, .error e⟩ → Called max buf [] o := by
      rintro d' rest e rfl
      obtain ⟨rfl, ⟨he, rfl⟩ | ⟨rfl, line, hline, hcut⟩⟩ := decodeAny_of_error hany
      · exact .refused he rfl hbuf hany
      · exact .unbalanced hline hcut
    cases hfront with
    | @whole w rest r hw hcut =>
      cases r with
      | nil =>
        have hlt : rest.length < n := by
          have := List.length_pos_iff.mpr hw.ne_nil
          rw [hcut, List.length_append] at hn
          omega
        obtain ⟨ws, hws, hcalled⟩ := ih _ hlt rest rfl
        refine ⟨⟨w, [], hw⟩ :: ws, ?_, ?_⟩
        · rw [Wired.requests_cons, hws, Wired.requests_singleton, if_pos rfl]
          rfl
        · rw [hdecode, hcut]
          exact hcalled.skip ⟨w, [], hw⟩
      | cons a r =>
        refine ⟨[], rfl, ?_⟩
        rw [hdecode]
        exact .surfaced (w := ⟨w, a :: r, hw⟩) (List.cons_ne_nil a r) hcut
    | waiting hp hlong => exact ⟨[], rfl, hdecode ▸ .waiting hp rfl⟩
    | refused => exact ⟨[], rfl, hdecode ▸ hrefused _ _ _ rfl⟩
    | oversized => exact ⟨[], rfl, hdecode ▸ hrefused _ _ _ rfl⟩

/-! ## Any number of calls -/

theorem Parked.append (h : Parked p buf) (more : Bytes) : Parked p (buf ++ more) := by
  cases h with
  | intro hline hcount hk h =>
    rw [List.append_assoc]
    exact .intro hline hcount hk (h.append more)

/-- Between calls a decoder keeps track of what is in front, which is where the consumed bytes end. -/
structure Steady (max : Nat) (stream : Bytes) (rs : List Request) (d : Decoder) (buf : Bytes) : Prop where
  maxFrame : d.maxFrame = max
  tracks : d.Tracks buf
  consumed : ∃ bs, Consumed bs rs ∧ stream = bs ++ buf

theorem Steady.called (h : Steady max stream rs d buf) :
    ∃ ws, Wired.requests ws = [] ∧ Called max buf ws (d.decode buf) := by
  rw [h.tracks.decode_eq, h.maxFrame]
  exact Decoder.called max buf

theorem Steady.read (h : Steady max stream rs d buf) (chunk : Bytes) :
    Steady max (stream ++ chunk) rs d (buf ++ chunk) where
  maxFrame := h.maxFrame
  tracks := fun p hp => (h.tracks p hp).append chunk
  consumed := by
    obtain ⟨bs, hbs, rfl⟩ := h.consumed
    exact ⟨bs, hbs, List.append_assoc _ _ _⟩

theorem Steady.decode (h : Steady max stream rs d buf) :
    Steady max stream (rs ++ (d.decode buf).surfaced) (d.decode buf).decoder (d.decode buf).buffer := by
  obtain ⟨ws, hws, hcalled⟩ := h.called
  obtain ⟨bs, hbs, rfl⟩ := h.consumed
  have hskipped := hbs.requests ws
  rw [hws] at hskipped
  generalize d.decode buf = o at hcalled
  cases hcalled with
  | @surfaced w rest hw hbuf =>
    have hwhole := hskipped.requests [w]
    rw [List.append_nil, Wired.requests_singleton, if_neg hw] at hwhole
    refine ⟨rfl, tracks_new max rest, _, hwhole, ?_⟩
    rw [hbuf]
    simp
  | waiting hp hbuf => exact ⟨rfl, hp, _, hskipped, by rw [hbuf, List.append_assoc]⟩
  | @refused rest e he hbuf =>
    exact ⟨rfl, tracks_new max rest, _, hskipped, by rw [hbuf, List.append_assoc]⟩
  | @unbalanced line rest hline hbuf =>
    refine ⟨rfl, tracks_new max rest, _, hskipped.unbalanced hline, ?_⟩
    rw [hbuf]
    simp

theorem Received.steady (h : Received max stream rs d buf) : Steady max stream rs d buf := by
  induction h with
  | start => exact ⟨rfl, tracks_new max [], [], .nil, rfl⟩
  | read h chunk ih => exact ih.read chunk
  | decode h ih => exact ih.decode

/-- An empty request is no beginning of one that is parked. -/
theorem Parked.not_prefix (h : Parked p buf) (hw : WireForm more []) : ¬more <+: buf := by
  rintro ⟨rest, hbuf⟩
  cases h with
  | @intro digits rest' _ _ n k hline hcount hk =>
    cases hw with
    | multibulk _ _ hr => exact hr rfl
    | @blank digits' n' hline' hcount' hn' =>
      have hsplit := Bytes.splitLine?_eq_some_iff.mpr ⟨hline', Eq.refl (_ ++ rest)⟩
      rw [hbuf, Bytes.splitLine?_eq_some_iff.mpr ⟨hline, rfl⟩] at hsplit
      cases hsplit
      rw [hcount] at hcount'
      cases hcount'
      omega
    | @inline line _ _ hstar =>
      cases line with
      | nil => exact absurd (List.cons.inj hbuf).1 (by decide)
      | cons b line => exact hstar (congrArg some (List.cons.inj hbuf).1)

theorem Parked.skipped_eq_nil (h : Parked p buf) (hws : Wired.requests ws = [])
    (hbuf : Wired.stream ws <+: buf) : ws = [] := by
  cases ws with
  | nil => rfl
  | cons w ws =>
    rw [Wired.requests_cons, List.append_eq_nil_iff, Wired.requests_singleton] at hws
    have hw : w.request = [] := by
      by_contra hne
      rw [if_neg hne] at hws
      cases hws.1
    exact absurd ((List.prefix_append _ _).trans hbuf) (h.not_prefix (hw ▸ w.form))

/-- A refusal leaves a decoder as a new one, with nothing parked. Unless quotes do not balance, the request
stands at the front of the buffer as it came, behind empty requests only, and the same call comes to the
same again. A line with unbalanced quotes is consumed with its line feed. -/
theorem Received.refused (h : Received max stream rs d buf) (he : (d.decode buf).result = .error e) :
    (d.decode buf).decoder = new max ∧ ∃ bs ws, Consumed bs rs ∧ stream = bs ++ buf ∧
      Wired.requests ws = [] ∧ (d.pending ≠ none → ws = []) ∧
      (e ≠ .unbalancedQuotes →
        buf = Wired.stream ws ++ (d.decode buf).buffer ∧ (d.decode buf).buffer ≠ [] ∧
          (new max).decodeAny (d.decode buf).buffer = d.decode buf ∧
          (new max).decode (d.decode buf).buffer = d.decode buf) ∧
      (e = .unbalancedQuotes → ∃ line, Unbalanced line ∧
        buf = Wired.stream ws ++ (line ++ [Ascii.lf]) ++ (d.decode buf).buffer) := by
  have hsteady := h.steady
  obtain ⟨ws, hws, hcalled⟩ := hsteady.called
  obtain ⟨bs, hbs, hstream⟩ := hsteady.consumed
  have hparked : Wired.stream ws <+: buf → d.pending ≠ none → ws = [] := by
    intro hbuf hpending
    obtain ⟨p, hp⟩ := Option.ne_none_iff_exists'.mp hpending
    exact (hsteady.tracks p hp).skipped_eq_nil hws hbuf
  generalize d.decode buf = o at he hcalled
  cases hcalled with
  | surfaced => cases he
  | waiting => cases he
  | refused hne hbuf hrest hany =>
    cases he
    have hagain : (new max).decode _ = _ := (Decoder.decode_eq hrest).trans (by rw [hany])
    exact ⟨rfl, bs, ws, hbs, hstream, hws, hparked ⟨_, hbuf.symm⟩,
      fun _ => ⟨hbuf, hrest, hany, hagain⟩, fun heq => absurd heq hne⟩
  | unbalanced hline hbuf =>
    cases he
    have hskipped := hbuf.trans (List.append_assoc _ _ _)
    exact ⟨rfl, bs, ws, hbs, hstream, hws, hparked ⟨_, hskipped.symm⟩, fun hne => absurd rfl hne,
      fun _ => ⟨_, hline, hbuf⟩⟩

/-- A whole request, an empty one, and the beginning of a third. -/
def pingEcho : Bytes := Utf8.encode "PING\r\n*0\r\n*2\r\n$4\r\nECHO\r\n"

/-- After two calls the beginning is parked. -/
def parkedEcho : Outcome :=
  ((new 100).decode pingEcho).decoder.decode ((new 100).decode pingEcho).buffer

theorem received_parkedEcho :
    Received 100 pingEcho [[Utf8.encode "PING"]] parkedEcho.decoder parkedEcho.buffer := by
  have hstart : Received 100 [] [] (new 100) [] := .start
  have hcalls := (hstart.read pingEcho).decode.decode
  have hsurfaced : [] ++ ((new 100).decode pingEcho).surfaced ++ parkedEcho.surfaced =
      [[Utf8.encode "PING"]] := by decide +kernel
  exact hsurfaced ▸ hcalls

/-- The parked request goes on with a header that is refused. -/
theorem parkedEcho_refused :
    (Received 100 (pingEcho ++ Utf8.encode "$x\r\n") [[Utf8.encode "PING"]] parkedEcho.decoder
        (parkedEcho.buffer ++ Utf8.encode "$x\r\n") ∧
      (parkedEcho.decoder.decode (parkedEcho.buffer ++ Utf8.encode "$x\r\n")).result =
        .error .invalidBulkLength) ∧
    parkedEcho.decoder.pending ≠ none ∧
    (parkedEcho.decoder.decode (parkedEcho.buffer ++ Utf8.encode "$x\r\n")).decoder = new 100 ∧
    (parkedEcho.decoder.decode (parkedEcho.buffer ++ Utf8.encode "$x\r\n")).buffer =
      Utf8.encode "*2\r\n$4\r\nECHO\r\n$x\r\n" ∧
    (new 100).decode (Utf8.encode "*2\r\n$4\r\nECHO\r\n$x\r\n") =
      parkedEcho.decoder.decode (parkedEcho.buffer ++ Utf8.encode "$x\r\n") := by
  have hreceived := received_parkedEcho.read (Utf8.encode "$x\r\n")
  have herror : (parkedEcho.decoder.decode (parkedEcho.buffer ++ Utf8.encode "$x\r\n")).result =
      .error .invalidBulkLength := by decide +kernel
  have hpending : parkedEcho.decoder.pending ≠ none := by
    rw [ne_eq, ← Option.isNone_iff_eq_none]
    decide +kernel
  have hbuffer : (parkedEcho.decoder.decode (parkedEcho.buffer ++ Utf8.encode "$x\r\n")).buffer =
      Utf8.encode "*2\r\n$4\r\nECHO\r\n$x\r\n" := by decide +kernel
  obtain ⟨hnew, bs, ws, -, -, -, -, hkept, -⟩ := hreceived.refused herror
  have hagain := (hkept nofun).2.2.2
  rw [hbuffer] at hagain
  exact ⟨⟨hreceived, herror⟩, hpending, hnew, hbuffer, hagain⟩

end Decoder

end RespStore
