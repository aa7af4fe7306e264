import RespStore.Command.Table
import RespStore.Proofs.Number.Decimal

/-!
# What readers yield

A statement about a reader is one about every result that it has on given arguments, and about the
arguments that it leaves. Requests are arrays of bulk strings, so the readers of single arguments
are described on such arguments.
-/

namespace RespStore.ArgReader

variable {α β : Type} {r : ArgReader α} {f : α → ArgReader β} {args : List Frame} {bs : List Bytes}
  {P : α → List Frame → Prop} {Q : β → List Frame → Prop}

/-- Whatever a reader makes of some arguments has a property. -/
def Yields (r : ArgReader α) (args : List Frame) (P : α → List Frame → Prop) : Prop :=
  ∀ x rest, r.run args = .ok (x, rest) → P x rest

theorem yields_pure {x : α} (h : P x args) : Yields (pure x) args P := by
  rintro _ _ ⟨⟩
  exact h

theorem yields_fail (e : CommandError) : Yields (fail e : ArgReader α) args P := nofun

theorem yields_bind (h : Yields r args fun x rest => Yields (f x) rest Q) :
    Yields (r >>= f) args Q := by
  intro y rest hrun
  cases hr : r.run args with
  | error e =>
    rw [StateT.run_bind, hr] at hrun
    cases hrun
  | ok p =>
    rw [StateT.run_bind, hr] at hrun
    exact h p.1 p.2 hr y rest hrun

theorem run_bind_ok {x : α} {rest : List Frame} (h : r.run args = .ok (x, rest)) :
    (r >>= f).run args = (f x).run rest := by
  rw [StateT.run_bind, h]
  rfl

theorem run_bind_error {e : CommandError} (h : r.run args = .error e) :
    (r >>= f).run args = .error e := by
  rw [StateT.run_bind, h]
  rfl

theorem run_bind_congr {r' : ArgReader α} {args' : List Frame} (h : r.run args = r'.run args') :
    (r >>= f).run args = (r' >>= f).run args' := by
  rw [StateT.run_bind, StateT.run_bind, h]

theorem run_map_ok {g : α → β} {x : α} {rest : List Frame} (h : r.run args = .ok (x, rest)) :
    (g <$> r).run args = .ok (g x, rest) := by
  rw [StateT.run_map, h]
  rfl

theorem run_map_error {g : α → β} {e : CommandError} (h : r.run args = .error e) :
    (g <$> r).run args = .error e := by
  rw [StateT.run_map, h]
  rfl

/-- What is bound does not matter. -/
theorem yields_bind_any (h : ∀ x rest, Yields (f x) rest Q) : Yields (r >>= f) args Q :=
  yields_bind fun x rest _ => h x rest

theorem yields_map {g : α → β} (h : Yields r args fun x rest => Q (g x) rest) :
    Yields (g <$> r) args Q := by
  intro y rest hrun
  cases hr : r.run args with
  | error e =>
    rw [StateT.run_map, hr] at hrun
    cases hrun
  | ok p =>
    rw [StateT.run_map, hr] at hrun
    cases hrun
    exact h p.1 p.2 hr

theorem Yields.mono {P' : α → List Frame → Prop} (h : Yields r args P)
    (hP : ∀ x rest, P x rest → P' x rest) : Yields r args P' :=
  fun x rest hrun => hP x rest (h x rest hrun)

/-! ## Single arguments -/

/-- The arguments of a request. -/
def bulks (bs : List Bytes) : List Frame := bs.map .bulk

theorem yields_remaining : Yields remaining args fun n rest => n = args.length ∧ rest = args := by
  rintro _ _ ⟨⟩
  exact ⟨rfl, rfl⟩

theorem yields_hasNext :
    Yields hasNext args fun b rest => b = !args.isEmpty ∧ rest = args := by
  rintro _ _ ⟨⟩
  exact ⟨rfl, rfl⟩

theorem yields_next : Yields next args fun _ rest => args.length = rest.length + 1 := by
  intro f rest hrun
  cases args with
  | nil => cases hrun
  | cons f args =>
    cases hrun
    rfl

/-- A text takes one argument. -/
theorem yields_text : Yields text args fun _ rest => args.length = rest.length + 1 := by
  refine yields_bind (yields_next.mono fun f rest hlen => ?_)
  split
  · exact yields_pure hlen
  · split
    · exact yields_pure hlen
    · exact yields_fail _
  · exact yields_fail _

theorem run_get (args : List Frame) : (get : ArgReader (List Frame)).run args = .ok (args, args) :=
  rfl

theorem run_next (f : Frame) (args : List Frame) : next.run (f :: args) = .ok (f, args) := rfl

theorem run_text_bulk (b : Bytes) (args : List Frame) :
    text.run (.bulk b :: args) =
      (Utf8.decode? b).elim (.error .invalidUtf8) fun s => .ok (s, args) := by
  have hrun : text.run (.bulk b :: args) = _ := run_bind_ok (run_next (.bulk b) args)
  rw [hrun]
  dsimp only
  cases Utf8.decode? b <;> rfl

theorem run_integer_bulk (b : Bytes) (args : List Frame) :
    integer.run (.bulk b :: args) =
      (readInt64? b).elim (.error .notInteger) fun n => .ok (n, args) := by
  have hrun : integer.run (.bulk b :: args) = _ := run_bind_ok (run_next (.bulk b) args)
  rw [hrun]
  dsimp only
  cases readInt64? b <;> rfl

theorem run_float_bulk (b : Bytes) (args : List Frame) :
    float.run (.bulk b :: args) =
      (Binary64.readNumber? b).elim (.error .notFloat) fun x => .ok (x, args) := by
  have hrun : float.run (.bulk b :: args) = _ := run_bind_ok (run_get (.bulk b :: args))
  rw [hrun]
  dsimp only
  cases Binary64.readNumber? b <;> rfl

theorem run_readName_bulk (b : Bytes) (args : List Frame) :
    Command.readName.run (.bulk b :: args) =
      (Utf8.decode? b).elim (.error .invalidUtf8) fun s => .ok (LetterCase.lower s, args) := by
  have hrun : Command.readName.run (.bulk b :: args) = _ := run_bind_ok (run_next (.bulk b) args)
  rw [hrun]
  dsimp only
  cases Utf8.decode? b <;> rfl

theorem run_text {b : Bytes} {s : String} (h : Utf8.decode? b = some s) :
    text.run (bulks (b :: bs)) = .ok (s, bulks bs) :=
  (run_text_bulk b (bulks bs)).trans (by rw [h]; rfl)

theorem run_integer {b : Bytes} {n : Int64} (h : readInt64? b = some n) :
    integer.run (bulks (b :: bs)) = .ok (n, bulks bs) :=
  (run_integer_bulk b (bulks bs)).trans (by rw [h]; rfl)

theorem run_integer_error {b : Bytes} (h : readInt64? b = none) :
    integer.run (bulks (b :: bs)) = .error .notInteger :=
  (run_integer_bulk b (bulks bs)).trans (by rw [h]; rfl)

/-- A reader that takes an argument of a request, which it reads with `read`. -/
def Takes (r : ArgReader α) (read : Bytes → Option α) : Prop :=
  ∀ bs x rest, r.run (bulks bs) = .ok (x, rest) →
    ∃ b bs', bs = b :: bs' ∧ rest = bulks bs' ∧ read b = some x

theorem takes_text : Takes text Utf8.decode? := by
  intro bs s rest hrun
  cases bs with
  | nil => cases hrun
  | cons b bs =>
    have hrun : (Utf8.decode? b).elim (.error CommandError.invalidUtf8)
        (fun s => .ok (s, bulks bs)) = Except.ok (s, rest) := (run_text_bulk b (bulks bs)).symm.trans hrun
    cases hd : Utf8.decode? b with
    | none =>
      rw [hd] at hrun
      cases hrun
    | some t =>
      rw [hd] at hrun
      cases hrun
      exact ⟨b, bs, rfl, rfl, hd⟩

theorem takes_bytes : Takes bytes some := by
  intro bs s rest hrun
  cases bs with
  | nil => cases hrun
  | cons b bs =>
    cases hrun
    exact ⟨_, _, rfl, rfl, rfl⟩

theorem takes_integer : Takes integer readInt64? := by
  intro bs n rest hrun
  cases bs with
  | nil => cases hrun
  | cons b bs =>
    have hrun : (readInt64? b).elim (.error CommandError.notInteger)
        (fun n => .ok (n, bulks bs)) = Except.ok (n, rest) := (run_integer_bulk b (bulks bs)).symm.trans hrun
    cases hd : readInt64? b with
    | none =>
      rw [hd] at hrun
      cases hrun
    | some m =>
      rw [hd] at hrun
      cases hrun
      exact ⟨b, bs, rfl, rfl, hd⟩

/-- Binding a reader that takes an argument. -/
theorem Takes.yields_bind {read : Bytes → Option α} (h : Takes r read)
    (hf : ∀ b bs' x, bs = b :: bs' → read b = some x → Yields (f x) (bulks bs') Q) :
    Yields (r >>= f) (bulks bs) Q := by
  refine ArgReader.yields_bind fun x rest hrun => ?_
  obtain ⟨b, bs', hbs, rfl, hread⟩ := h bs x rest hrun
  exact hf b bs' x hbs hread

/-! ## Several arguments -/

/-- As many results as are asked for. -/
theorem yields_times (r : ArgReader α) (n : Nat) (args : List Frame) :
    Yields (times r n) args fun xs _ => xs.length = n := by
  induction n generalizing args with
  | zero => exact yields_pure rfl
  | succ n ih =>
    apply yields_bind_any
    intro x rest
    apply ArgReader.yields_bind
    intro xs rest' hrun
    exact yields_pure (congrArg (· + 1) (ih rest xs rest' hrun))

/-- Texts are read back from their bytes. -/
theorem run_texts (ss : List String) :
    texts.run (bulks (ss.map Utf8.encode)) = .ok (ss, []) := by
  have htimes : (times text ss.length).run (bulks (ss.map Utf8.encode)) = .ok (ss, []) := by
    induction ss with
    | nil => rfl
    | cons s ss ih =>
      exact (run_bind_ok (run_text (Utf8.decode?_encode s))).trans (run_bind_ok ih)
  have hremaining : remaining.run (bulks (ss.map Utf8.encode)) =
      .ok (ss.length, bulks (ss.map Utf8.encode)) := by
    show Except.ok _ = _
    simp [bulks]
  exact (run_bind_ok hremaining).trans htimes

theorem yields_texts (args : List Frame) :
    Yields texts args fun ss _ => ss.length = args.length := by
  apply ArgReader.yields_bind
  rintro n rest hrun
  obtain ⟨rfl, rfl⟩ := yields_remaining n rest hrun
  exact yields_times text _ _

theorem yields_pairs (name : String) (first : ArgReader α) (second : ArgReader β)
    (args : List Frame) :
    Yields (pairs name first second) args fun ps _ => 2 * ps.length = args.length := by
  apply ArgReader.yields_bind
  rintro n rest hrun
  obtain ⟨rfl, rfl⟩ := yields_remaining n rest hrun
  by_cases hodd : rest.length % 2 = 1
  · rw [if_pos hodd]
    exact yields_fail _
  · rw [if_neg hodd]
    refine (yields_times _ _ _).mono fun ps _ hlen => ?_
    omega

/-! ## Numbers -/

theorem isNaN_of_readNumber? {b : Bytes} {x : Binary64} (h : Binary64.readNumber? b = some x) :
    x.isNaN = false := by
  have hx : (!x.isNaN) = true := (Option.filter_eq_some_iff.mp h).2
  simpa using hx

theorem isNaN_of_bound? {s : String} {x : Binary64} {e : Bool} (h : bound? s = some (x, e)) :
    x.isNaN = false := by
  unfold bound? at h
  split at h
  · obtain ⟨y, hy, heq⟩ := Option.map_eq_some_iff.mp h
    cases heq
    exact isNaN_of_readNumber? hy
  · obtain ⟨y, hy, heq⟩ := Option.map_eq_some_iff.mp h
    cases heq
    exact isNaN_of_readNumber? hy

/-- No bound that is read is a NaN. -/
theorem yields_scoreRange (args : List Frame) :
    Yields scoreRange args fun r _ => r.min.isNaN = false ∧ r.max.isNaN = false := by
  apply yields_bind_any
  intro min rest
  apply yields_bind_any
  intro max rest
  split
  · next hmin hmax => exact yields_pure ⟨isNaN_of_bound? hmin, isNaN_of_bound? hmax⟩
  · exact yields_fail _

end RespStore.ArgReader
