import RespStore.Proofs.Protocol.Stream

/-!
# Size limits

Sizes are looked at only while a request is cut off. So whether a request is refused for its size
depends on where the reads end: what is refused is a beginning that is too long, and a request that
is whole before that is taken off, however long it is.
-/

namespace RespStore

namespace Wired

variable {v w : Wired} {vs ws : List Wired} {bs : Bytes}

/-- No wire form goes on where another one ends. -/
theorem bytes_eq_of_prefix (h : v.bytes <+: w.bytes) : v.bytes = w.bytes := by
  obtain ⟨rest, hrest⟩ := h
  have hv : (Decoder.new 0).decodeAny _ = _ := Decoder.decodeAny_of_wireForm v.form rest
  have hw : (Decoder.new 0).decodeAny _ = _ := Decoder.decodeAny_of_wireForm w.form []
  rw [List.append_nil, ← hrest, hv] at hw
  rw [← hrest, (Decoder.Outcome.mk.inj hw).2.1, List.append_nil]

/-- With `cut` of `w` there, which is not all of it. -/
structure IsCut (w : Wired) (cut : Bytes) : Prop where
  isPrefix : cut <+: w.bytes
  ne : cut ≠ w.bytes

theorem IsCut.length_lt {cut : Bytes} (h : w.IsCut cut) : cut.length < w.bytes.length :=
  Nat.lt_of_not_le fun hle => h.ne (h.isPrefix.eq_of_length_le hle)

theorem length_requests_le (h : vs <+: ws) : (requests vs).length ≤ (requests ws).length := by
  obtain ⟨us, rfl⟩ := h
  rw [requests_append, List.length_append]
  exact Nat.le_add_right _ _

/-- There are more requests up to one that has arguments than in front of one of these. -/
theorem length_requests_lt (hw : w.request ≠ []) {us : List Wired} (h : ws ++ [w] = vs ++ v :: us) :
    (requests vs).length < (requests (ws ++ [w])).length := by
  have hlength : vs.length ≤ ws.length := by
    have := congrArg List.length h
    simp only [List.length_append, List.length_cons, List.length_nil] at this
    omega
  have hle := length_requests_le
    (List.prefix_of_prefix_length_le ⟨v :: us, h.symm⟩ (List.prefix_append ws [w]) hlength)
  have hsingle : requests [w] = [w.request] := by simp [requests, hw]
  rw [requests_append, hsingle, List.length_append]
  exact Nat.lt_succ_of_le hle

/-- Bytes of a stream hold all of its requests or end inside one. -/
theorem stream_prefix_or_cut {more : Bytes} (h : bs <+: stream ws ++ more) :
    stream ws <+: bs ∨
      ∃ vs w us cut, ws = vs ++ w :: us ∧ bs = stream vs ++ cut ∧ IsCut w cut := by
  induction ws generalizing bs with
  | nil => exact .inl (List.nil_prefix)
  | cons w ws ih =>
    rw [stream_cons, List.append_assoc] at h
    by_cases hw : w.bytes <+: bs
    · obtain ⟨bs, rfl⟩ := hw
      rcases ih ((List.prefix_append_right_inj _).mp h) with hws | ⟨vs, v, us, cut, rfl, rfl, hcut⟩
      · exact .inl ((List.prefix_append_right_inj _).mpr hws)
      · exact .inr ⟨w :: vs, v, us, cut, rfl, (List.append_assoc _ _ _).symm, hcut⟩
    · have hbs := (List.prefix_or_prefix_of_prefix (List.prefix_append w.bytes _) h).resolve_left hw
      exact .inr ⟨[], w, ws, bs, rfl, rfl, hbs, fun heq => hw (heq ▸ List.prefix_rfl)⟩

end Wired

namespace Decoder

variable {max : Nat} {chunks : List Bytes} {ws vs us : List Wired} {w : Wired} {cut more : Bytes}

/-- Nothing is whole in what there is of a request. -/
theorem stuck_of_cut (max : Nat) (h : w.IsCut cut) : Stuck max cut ((new max).drain cut) := by
  obtain ⟨⟨rest, hrest⟩, hne⟩ := h
  rcases stuck_or_wired max cut with hstuck | ⟨v, rest', rfl⟩
  · exact hstuck
  · have hv := Wired.bytes_eq_of_prefix (v := v) (w := w)
      ⟨rest' ++ rest, (List.append_assoc _ _ _).symm.trans hrest⟩
    refine absurd (List.IsPrefix.eq_of_length_le ⟨rest, hrest⟩ ?_) hne
    rw [← hv, List.length_append]
    exact Nat.le_add_right _ _

/-- What is there of a request is waited for unless it is too long, and refused if it is. -/
theorem drain_cut (max : Nat) (h : w.IsCut cut) :
    ((new max).drain cut).requests = [] ∧
      (((new max).drain cut).failure = none ↔ ¬TooLong max cut) := by
  have hstuck := stuck_of_cut max h
  obtain ⟨rest, hrest⟩ := h.isPrefix
  refine ⟨hstuck.requests_eq, ?_⟩
  generalize (new max).drain cut = o at hstuck
  cases hstuck with
  | waiting _ hlong => exact iff_of_true rfl hlong
  | refused _ hmore =>
    obtain ⟨_, hdrain⟩ := hmore rest
    rw [hrest, ← List.append_nil w.bytes, drain_wired, drain_new_eq] at hdrain
    cases congrArg Drained.failure hdrain
  | oversized _ hlong => exact iff_of_false nofun (not_not_intro hlong)

/-- What is waited for stays where it is. -/
theorem buffer_drain_cut (h : w.IsCut cut) (hnone : ((new max).drain cut).failure = none) :
    ((new max).drain cut).buffer = cut := by
  have hstuck := stuck_of_cut max h
  generalize (new max).drain cut = o at hstuck hnone
  cases hstuck with
  | waiting => rfl
  | refused => cases hnone
  | oversized => cases hnone

/-- A decoder waits for the rest of a request that is cut off, or refuses it if there is too much. -/
theorem decode_cut (max : Nat) (h : w.IsCut cut) :
    ((∃ e, ((new max).decode cut).result = .error e) ∧ TooLong max cut) ∨
      ((new max).decode cut).result = .ok none ∧ ((new max).decode cut).buffer = cut ∧
        ¬TooLong max cut := by
  obtain ⟨hrequests, hfailure⟩ := drain_cut max h
  have hbuffer : ((new max).drain cut).failure = none → ((new max).drain cut).buffer = cut :=
    buffer_drain_cut h
  rw [drain_decode] at hrequests hfailure hbuffer
  cases hresult : ((new max).decode cut).result with
  | error e =>
    rw [hresult] at hfailure
    exact .inl ⟨⟨e, rfl⟩, Classical.not_not.mp fun hlong => nomatch hfailure.mpr hlong⟩
  | ok r =>
    rw [hresult] at hrequests hfailure hbuffer
    cases r with
    | some r => cases hrequests
    | none => exact .inr ⟨rfl, hbuffer rfl, hfailure.mp rfl⟩

/-- A request is taken off just when no read ends in it, or in one before it, with too much of it
there. -/
theorem requests_prefix_feedAll_iff (hw : w.request ≠ [])
    (hchunks : chunks.flatten = Wired.stream (ws ++ [w]) ++ more) :
    Wired.requests (ws ++ [w]) <+: ((new max).feedAll [] chunks).requests ↔
      ∀ i vs v us cut, ws ++ [w] = vs ++ v :: us → (chunks.take i).flatten = Wired.stream vs ++ cut →
        v.IsCut cut → ¬TooLong max cut := by
  obtain ⟨k, hk⟩ := feedAll_fed (waits_new max) chunks
  have hrequests := hk.requests
  have hfailure := hk.failure
  rw [List.nil_append] at hrequests hfailure
  have hprefix : (chunks.take k).flatten <+: Wired.stream (ws ++ [w]) ++ more := by
    rw [← hchunks]
    exact (List.take_prefix k chunks).flatten
  rw [hrequests]
  constructor
  · intro h i vs v us cut hws hi hcut hlong
    obtain ⟨hnone, hfails⟩ := drain_cut max hcut
    have hki : k ≤ i := Nat.le_of_not_lt fun hik => by
      have hbefore := hk.before i hik
      rw [List.nil_append, hi, drain_stream] at hbefore
      exact hfails.mp hbefore hlong
    -- What is taken off before the refusal is what is in front of the cut.
    have hvs : ((new max).drain (chunks.take k).flatten).requests <+: Wired.requests vs := by
      have hle : _ <+: ((new max).drain (chunks.take i).flatten).requests :=
        requests_mono (List.take_prefix_take_left hki).flatten
      rwa [hi, drain_stream, Drained.after, hnone, List.append_nil] at hle
    exact absurd (h.trans hvs).length_le (Nat.not_le.mpr (Wired.length_requests_lt hw hws))
  · intro h
    rcases Wired.stream_prefix_or_cut hprefix with ⟨rest, hrest⟩ | ⟨vs, v, us, cut, hws, htake, hcut⟩
    · rw [← hrest, drain_stream]
      exact List.prefix_append _ _
    · have hshort := h k vs v us cut hws htake hcut
      rw [htake, drain_stream] at hfailure
      have hall := hk.all (hfailure.trans ((drain_cut max hcut).2.mpr hshort))
      rw [hall, List.take_length, hchunks, hws] at htake
      have hlength := congrArg List.length htake
      simp only [Wired.stream_append, Wired.stream_cons, List.length_append] at hlength
      have := hcut.length_lt
      omega

/-- A request of 25 bytes. -/
def echoHello : Wired :=
  let r : Request := ["ECHO", "hello"].map Utf8.encode
  ⟨r.toFrame.serialize, r, wireForm_serialize (List.cons_ne_nil _ _) (by decide +kernel)⟩

/-- A decoder for up to 16 bytes takes it off in one read and refuses it in two. -/
theorem echoHello_by_reads :
    echoHello.bytes.length = 25 ∧
    Wired.requests [echoHello] <+: ((new 16).feedAll [] [echoHello.bytes]).requests ∧
    ¬Wired.requests [echoHello] <+:
      ((new 16).feedAll [] [echoHello.bytes.take 20, echoHello.bytes.drop 20]).requests := by
  have hlength : echoHello.bytes.length = 25 := by decide +kernel
  have hne : echoHello.request ≠ [] := List.cons_ne_nil _ _
  have hone : [echoHello.bytes].flatten = Wired.stream ([] ++ [echoHello]) ++ [] := by simp
  have htwo : [echoHello.bytes.take 20, echoHello.bytes.drop 20].flatten =
      Wired.stream ([] ++ [echoHello]) ++ [] := by simp
  refine ⟨hlength, (requests_prefix_feedAll_iff hne hone).mpr ?_, fun h => ?_⟩
  · intro i vs v us cut hws hi hcut hlong
    obtain ⟨rfl, rfl⟩ : vs = [] ∧ echoHello = v := by
      cases vs with
      | nil => exact ⟨rfl, (List.cons.inj hws).1⟩
      | cons u vs => cases vs <;> cases (List.cons.inj hws).2
    have hcuts : cut = [] ∨ cut = echoHello.bytes := by
      cases i with
      | zero => exact .inl hi.symm
      | succ i => exact .inr (by simpa using hi.symm)
    rcases hcuts with rfl | rfl
    · exact absurd ((tooLong_inline (by decide)).mp hlong) (Nat.not_lt_zero _)
    · exact hcut.ne rfl
  · refine (requests_prefix_feedAll_iff hne htwo).mp h 1 [] echoHello [] (echoHello.bytes.take 20)
      rfl ?_ ⟨List.take_prefix _ _, by decide +kernel⟩ ?_
    · simp
    · exact (tooLong_star (by decide +kernel)).mpr (.inl (by decide +kernel))

end Decoder

end RespStore
