import RespStore.Proofs.Protocol.Received

/-!
# Where arguments stand

A parked request is kept as places in the buffer. Behind its header the buffer holds arguments one after
the other, each of them a payload behind a header of its own and in front of a line end, and the places
are those of the payloads.
-/

namespace RespStore.Decoder

variable {buf bs rest more : Bytes} {start stop k : Nat} {places : List (Nat × Nat)} {p q : Pending}

/-- From `start` on, `buf` holds arguments up to `stop`, and their payloads stand at `places`. -/
inductive Row (buf : Bytes) (start : Nat) : List (Nat × Nat) → Nat → Prop where
  | nil (h : start ≤ buf.length) : Row buf start [] start
  | snoc {places : List (Nat × Nat)} {pos : Nat} {digits payload : Bytes} (h : Row buf start places pos)
      (hline : Bytes.IsLine (Ascii.dollar :: digits))
      (hlen : bulkLength? digits = some payload.length)
      (hbuf : (Ascii.dollar :: digits) ++ Bytes.crlf ++ payload ++ Bytes.crlf <+: buf.drop pos) :
      Row buf start (places ++ [(pos + digits.length + 3, payload.length)])
        (pos + digits.length + 3 + payload.length + 2)

namespace Row

theorem le_length (h : Row buf start places stop) : stop ≤ buf.length := by
  cases h with
  | nil h => exact h
  | snoc h hline hlen hbuf =>
    have hle := hbuf.length_le
    simp only [List.length_append, List.length_cons, List.length_nil, List.length_drop, Bytes.crlf]
      at hle
    omega

theorem inside (h : Row buf start places stop) :
    ∀ a ∈ places, start < a.1 ∧ a.1 + a.2 + 2 ≤ stop := by
  suffices hboth : start ≤ stop ∧ ∀ a ∈ places, start < a.1 ∧ a.1 + a.2 + 2 ≤ stop from hboth.2
  induction h with
  | nil => exact ⟨Nat.le_refl _, nofun⟩
  | @snoc places pos digits payload h hline hlen hbuf ih =>
    obtain ⟨hle, hplaces⟩ := ih
    refine ⟨by omega, fun a ha => ?_⟩
    rcases List.mem_append.mp ha with ha | ha
    · have := hplaces a ha
      omega
    · rw [List.mem_singleton.mp ha]
      dsimp only
      omega

theorem in_order (h : Row buf start places stop) :
    places.Pairwise fun a b => a.1 + a.2 + 2 < b.1 := by
  induction h with
  | nil => exact .nil
  | @snoc places pos digits payload h hline hlen hbuf ih =>
    refine List.pairwise_append.mpr ⟨ih, List.pairwise_singleton _ _, fun a ha b hb => ?_⟩
    have := (h.inside a ha).2
    rw [List.mem_singleton.mp hb]
    dsimp only
    omega

/-- One more argument that is whole stands behind the others. -/
theorem push {header len : Nat} (h : Row buf start p.args.toList p.offset)
    (ha : arrival (buf.drop p.offset) = .whole header len rest) :
    Row buf start (Pending.push p (p.offset + header) len).args.toList
      (Pending.push p (p.offset + header) len).offset := by
  obtain ⟨digits, payload, hline, hlen, rfl, rfl, hdrop⟩ := exists_of_arrival ha
  have hbuf : (Ascii.dollar :: digits) ++ Bytes.crlf ++ payload ++ Bytes.crlf <+: buf.drop p.offset :=
    ⟨rest, by rw [hdrop]; simp only [List.append_assoc]⟩
  have hrow := h.snoc hline hlen hbuf
  rw [Pending.push, Array.toList_push]
  exact hrow

theorem of_reaches (h : Row buf start p.args.toList p.offset)
    (hreaches : Reaches k p (buf.drop p.offset) q rest) :
    Row buf start q.args.toList q.offset ∧ buf.drop q.offset = rest := by
  generalize hbs : buf.drop p.offset = bs at hreaches
  induction hreaches with
  | here => exact ⟨h, hbs⟩
  | @next k header len p q bs rest rest' ha hlater ih =>
    subst hbs
    refine ih (h.push ha) ?_
    have hdrop := (length_of_arrival ha).2
    rw [List.drop_drop, ← Nat.add_assoc, ← Nat.add_assoc] at hdrop
    exact hdrop

end Row

/-- What is parked is a beginning of the request in front of the buffer. -/
structure Describes (p : Pending) (buf : Bytes) : Prop where
  /-- Behind a header that announces as many arguments as are expected, those found stand in a row up to
  the offset. -/
  row : ∃ digits, Bytes.IsLine (Ascii.star :: digits) ∧
    multibulkLength? digits = some (p.expected : Int) ∧
    (Ascii.star :: digits) ++ Bytes.crlf <+: buf ∧
    Row buf (digits.length + 3) p.args.toList p.offset
  offset_le : p.offset ≤ buf.length
  fewer : p.args.size < p.expected
  in_order : p.args.toList.Pairwise fun a b => a.1 + a.2 + 2 < b.1
  inside : ∀ a ∈ p.args, a.1 + a.2 + 2 ≤ p.offset

theorem row_opened (digits : Bytes) (n : Nat) (rest : Bytes) :
    Row ((Ascii.star :: digits) ++ Bytes.crlf ++ rest) (digits.length + 3) (opened digits n).args.toList
      (opened digits n).offset := by
  refine .nil ?_
  simp only [List.length_append, List.length_cons, List.length_nil, Bytes.crlf]
  omega

theorem Parked.describes (h : Parked p buf) : Describes p buf := by
  obtain @⟨digits, rest, rest', p, n, k, hline, hcount, hk, hreaches⟩ := h
  rw [← drop_opened digits n rest] at hreaches
  have hrow := ((row_opened digits n rest).of_reaches hreaches).1
  have hexpected : p.expected = n := hreaches.expected_eq
  refine ⟨⟨digits, hline, ?_, List.prefix_append _ _, hrow⟩, hrow.le_length, ?_, hrow.in_order, ?_⟩
  · rw [hexpected]
    exact hcount
  · rw [hexpected, hreaches.size_eq]
    simpa [opened] using hk
  · exact fun a ha => (hrow.inside a (Array.mem_toList_iff.mpr ha)).2

end RespStore.Decoder
