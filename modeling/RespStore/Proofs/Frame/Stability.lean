import RespStore.Proofs.Frame.RoundTrip

/-!
# Frames and later input

A verdict on the front of a buffer is final, unless it is that a frame is incomplete: what comes in
later is left over behind the bytes that were taken. So a written frame ends where it says, and any
beginning of it is incomplete.
-/

namespace RespStore.Frame

variable {α β : Type} {bs more rest : Bytes} {f : Frame}

/-- The first verdict becomes the second one when `more` comes in. -/
inductive Settles (more : Bytes) :
    Except ParseError (α × Bytes) → Except ParseError (α × Bytes) → Prop where
  | taken (a : α) (rest : Bytes) : Settles more (.ok (a, rest)) (.ok (a, rest ++ more))
  | refused (e : ParseError) : Settles more (.error e) (.error e)
  | incomplete (y : Except ParseError (α × Bytes)) : Settles more (.error .incomplete) y

namespace Settles

variable {x y : Except ParseError (α × Bytes)}

theorem bind {g g' : α × Bytes → Except ParseError (β × Bytes)} (h : Settles more x y)
    (hg : ∀ a rest, Settles more (g (a, rest)) (g' (a, rest ++ more))) :
    Settles more (x.bind g) (y.bind g') := by
  cases h with
  | taken a rest => exact hg a rest
  | refused e => exact .refused e
  | incomplete y => exact .incomplete _

theorem map (h : Settles more x y) (g : α → β) :
    Settles more (x.map fun p => (g p.1, p.2)) (y.map fun p => (g p.1, p.2)) := by
  cases h with
  | taken a rest => exact .taken (g a) rest
  | refused e => exact .refused e
  | incomplete y => exact .incomplete _

theorem of_ok {a : α} (h : Settles more (.ok (a, rest)) y) : y = .ok (a, rest ++ more) := by
  cases h
  rfl

theorem of_error {e : ParseError} (h : Settles more (.error e) y) (he : e ≠ .incomplete) :
    y = .error e := by
  cases h with
  | refused => rfl
  | incomplete => exact absurd rfl he

/-- Where a frame takes the last of all bytes, it was incomplete before that had come in. -/
theorem eq_incomplete {a : α} (h : Settles more x (.ok (a, []))) (hmore : more ≠ []) :
    x = .error .incomplete := by
  generalize hy : (.ok (a, []) : Except ParseError (α × Bytes)) = y at h
  cases h with
  | taken b rest =>
    have hrest : [] = rest ++ more := (Prod.mk.inj (Except.ok.inj hy)).2
    exact absurd (List.append_eq_nil_iff.mp hrest.symm).2 hmore
  | refused e => cases hy
  | incomplete y => rfl

end Settles

/-! ## Steps -/

theorem takeLine_settles (bs more : Bytes) : Settles more (takeLine bs) (takeLine (bs ++ more)) := by
  cases hs : bs.splitLine? with
  | none =>
    rw [takeLine, hs]
    exact .incomplete _
  | some split =>
    rw [takeLine, takeLine, hs, Bytes.splitLine?_append_right hs]
    exact .taken split.1 split.2

theorem takeText_settles (bs more : Bytes) : Settles more (takeText bs) (takeText (bs ++ more)) := by
  rw [takeText_eq, takeText_eq]
  refine (takeLine_settles bs more).bind fun line rest => ?_
  dsimp only
  cases Utf8.decode? line with
  | none => exact .refused .badFormat
  | some s => exact .taken s rest

theorem takeInteger_settles (bs more : Bytes) :
    Settles more (takeInteger bs) (takeInteger (bs ++ more)) := by
  rw [takeInteger_eq, takeInteger_eq]
  refine (takeLine_settles bs more).bind fun line rest => ?_
  dsimp only
  cases readInt64? line with
  | none => exact .refused .badFormat
  | some n => exact .taken n rest

theorem takeLength_settles (negative : ParseError) (bs more : Bytes) :
    Settles more (takeLength negative bs) (takeLength negative (bs ++ more)) := by
  rw [takeLength_eq, takeLength_eq]
  refine (takeInteger_settles bs more).bind fun n rest => ?_
  dsimp only
  split
  · exact .taken none rest
  · split
    · exact .refused negative
    · exact .taken (some n.toInt.toNat) rest

theorem takePayload_settles (n : Nat) (bs more : Bytes) :
    Settles more (takePayload n bs) (takePayload n (bs ++ more)) := by
  unfold takePayload
  cases hdrop : bs.drop n with
  | nil => exact .incomplete _
  | cons c cs =>
    cases cs with
    | nil => exact .incomplete _
    | cons d rest =>
      have hn : n ≤ bs.length := by
        have := congrArg List.length hdrop
        simp only [List.length_drop, List.length_cons] at this
        omega
      rw [List.drop_append_of_le_length hn, hdrop, List.take_append_of_le_length hn]
      dsimp only [List.cons_append]
      split
      · exact .taken (bs.take n) rest
      · exact .refused .unterminatedBulk

theorem takeMany_settles {one one' : Bytes → Except ParseError (Frame × Bytes)}
    (h : ∀ bs, Settles more (one bs) (one' (bs ++ more))) (n : Nat) (bs : Bytes) :
    Settles more (takeMany one n bs) (takeMany one' n (bs ++ more)) := by
  induction n generalizing bs with
  | zero => exact .taken [] bs
  | succ n ih =>
    rw [takeMany_succ, takeMany_succ]
    exact (h bs).bind fun item rest => (ih rest).map (item :: ·)

/-! ## Frames -/

/-- Later input and more fuel only settle what was incomplete. -/
theorem parseWith_settles {fuel fuel' : Nat} (hfuel : fuel ≤ fuel') (bs more : Bytes) :
    Settles more (parseWith fuel bs) (parseWith fuel' (bs ++ more)) := by
  induction fuel generalizing fuel' bs with
  | zero => exact .incomplete _
  | succ fuel ih =>
    obtain ⟨fuel', rfl⟩ : ∃ n, fuel' = n + 1 := ⟨fuel' - 1, by omega⟩
    cases bs with
    | nil => exact .incomplete _
    | cons type bs =>
      rw [List.cons_append]
      cases typeByte type with
      | plus =>
        rw [parseWith_plus, parseWith_plus]
        exact (takeText_settles bs more).map simple
      | minus =>
        rw [parseWith_minus, parseWith_minus]
        exact (takeText_settles bs more).map error
      | colon =>
        rw [parseWith_colon, parseWith_colon]
        exact (takeInteger_settles bs more).map integer
      | dollar =>
        rw [parseWith_dollar, parseWith_dollar]
        refine (takeLength_settles .badBulkLength bs more).bind fun n rest => ?_
        cases n with
        | none => exact .taken null rest
        | some n => exact (takePayload_settles n rest more).map bulk
      | star =>
        rw [parseWith_star, parseWith_star]
        refine (takeLength_settles .badArrayLength bs more).bind fun n rest => ?_
        cases n with
        | none => exact .taken null rest
        | some n =>
          have hitem := fun bs => ih (Nat.le_of_succ_le_succ hfuel) bs
          exact (takeMany_settles hitem n rest).map array
      | unknown h =>
        rw [h, h]
        exact .refused (.unknownType type)

theorem parse_settles (bs more : Bytes) : Settles more (parse bs) (parse (bs ++ more)) := by
  refine parseWith_settles ?_ bs more
  rw [List.length_append]
  omega

/-- A written frame is read back, whatever follows it, and no beginning of it is a frame. Every length
that is written fits, as those of all that is in memory do. -/
theorem parse_encode_exactly (hlines : f.OneLine) (hfits : f.Fits) (empty : EmptyArrays) :
    (∀ rest, parse (f.encode empty ++ rest) = .ok (f.readBack empty, rest)) ∧
      f.readBack .array = f ∧
      ∀ bs, bs <+: f.encode empty → bs ≠ f.encode empty → parse bs = .error .incomplete := by
  have hread : ∀ rest, parse (f.encode empty ++ rest) = .ok (f.readBack empty, rest) :=
    fun rest => (parse_encode hlines rest).trans (if_pos hfits)
  refine ⟨hread, readBack_array f, fun bs hbs hne => ?_⟩
  obtain ⟨more, hmore⟩ := hbs
  have hsettles := parse_settles bs more
  have hwhole := hread []
  rw [List.append_nil] at hwhole
  rw [hmore, hwhole] at hsettles
  refine hsettles.eq_incomplete ?_
  rintro rfl
  exact hne (by rw [← hmore, List.append_nil])

/-- A text that ends in half a line end, what looks like frames in a payload, and empty arrays. -/
def deceptive : Frame :=
  .array [.simple "a\r", .array [], .bulk (Utf8.encode "\r\n$1\r\n"), .null,
    .array [.array [], .integer (-1)]]

theorem deceptive_exactly :
    (deceptive.OneLine ∧ deceptive.Fits) ∧
    (∀ rest, parse (deceptive.encode .error ++ rest) =
      .ok (.array [.simple "a\r", .error emptyCollection, .bulk (Utf8.encode "\r\n$1\r\n"), .null,
        .array [.error emptyCollection, .integer (-1)]], rest)) ∧
    deceptive.readBack .array = deceptive ∧
    ∀ bs, bs <+: deceptive.encode .error → bs ≠ deceptive.encode .error →
      parse bs = .error .incomplete := by
  have hlines : deceptive.OneLine := by decide +kernel
  have hfits : deceptive.Fits := by decide +kernel
  exact ⟨⟨hlines, hfits⟩, parse_encode_exactly hlines hfits .error⟩

end RespStore.Frame
