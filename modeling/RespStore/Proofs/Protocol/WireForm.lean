import Mathlib.Data.List.TakeWhile
import RespStore.Proofs.Bytes
import RespStore.Protocol.Decoder

/-!
# The wire forms of requests

A request is a multi-bulk array or an inline line, and lengths have many spellings. The decoder
takes a request off the front of a buffer just when one of its wire forms stands there, and leaves
what follows it.
-/

namespace RespStore

/-- An argument behind its length. -/
def IsWireArgument (w a : Bytes) : Prop :=
  ∃ digits, Bytes.IsLine (Ascii.dollar :: digits) ∧ Decoder.bulkLength? digits = some a.length ∧
    w = (Ascii.dollar :: digits) ++ Bytes.crlf ++ a ++ Bytes.crlf

inductive WireArguments : Bytes → List Bytes → Prop where
  | nil : WireArguments [] []
  | cons {v w a : Bytes} {args : List Bytes} (hv : IsWireArgument v a)
      (hw : WireArguments w args) : WireArguments (v ++ w) (a :: args)

inductive WireForm : Bytes → Request → Prop where
  | multibulk {digits w : Bytes} {r : Request} (hline : Bytes.IsLine (Ascii.star :: digits))
      (hcount : Decoder.multibulkLength? digits = some (r.length : Int)) (hr : r ≠ [])
      (hw : WireArguments w r) :
      WireForm ((Ascii.star :: digits) ++ Bytes.crlf ++ w) r
  /-- A count of zero or less carries no request. -/
  | blank {digits : Bytes} {n : Int} (hline : Bytes.IsLine (Ascii.star :: digits))
      (hcount : Decoder.multibulkLength? digits = some n) (hn : n ≤ 0) :
      WireForm ((Ascii.star :: digits) ++ Bytes.crlf) []
  | inline {line : Bytes} {r : Request} (hline : Ascii.lf ∉ line)
      (hstar : line.head? ≠ some Ascii.star) (hr : Inline.split? (Decoder.chomp line) = some r) :
      WireForm (line ++ [Ascii.lf]) r

theorem WireForm.ne_nil {w : Bytes} {r : Request} (h : WireForm w r) : w ≠ [] := by
  cases h <;> simp

namespace Decoder

variable {bs rest w more : Bytes} {p q : Pending} {header len k : Nat} {args : List Bytes}

/-! ## One argument -/

/-- What stands behind the last whole argument. -/
inductive Arrival where
  | cutHeader
  | cutPayload
  | failed (e : ProtocolError)
  /-- A payload of length `len` behind `header` bytes, with `rest` behind it. -/
  | whole (header len : Nat) (rest : Bytes)

def arrival (bs : Bytes) : Arrival :=
  match bs.splitLine? with
  | none => .cutHeader
  | some ([], _) => .failed (.expectedBulk ' ')
  | some (type :: digits, data) =>
    if type ≠ Ascii.dollar then .failed (.expectedBulk (Char.ofNat type.toNat))
    else match bulkLength? digits with
      | none => .failed .invalidBulkLength
      | some len =>
        match data.drop len with
        | c :: d :: rest =>
          if c = Ascii.cr ∧ d = Ascii.lf then .whole (digits.length + 3) len rest
          else .failed .missingCrlf
        | _ => .cutPayload

theorem collect_succ (n : Nat) (p : Pending) (bs : Bytes) :
    collect (n + 1) p bs =
      match arrival bs with
      | .cutHeader => .cutHeader p
      | .cutPayload => .cutPayload p
      | .failed e => .failed e
      | .whole header len rest => collect n (Pending.push p (p.offset + header) len) rest := by
  rw [collect, arrival]
  cases bs.splitLine? with
  | none => rfl
  | some split =>
    obtain ⟨line, data⟩ := split
    cases line with
    | nil => rfl
    | cons type digits =>
      dsimp only
      split
      · rfl
      · cases bulkLength? digits with
        | none => rfl
        | some len =>
          dsimp only
          cases data.drop len with
          | nil => rfl
          | cons c cs =>
            cases cs with
            | nil => rfl
            | cons d rest =>
              dsimp only
              split <;> rfl

/-- Once a header is there and a payload with two bytes behind it, nothing more matters. -/
theorem arrival_append (more : Bytes) :
    (∀ header len rest, arrival bs = .whole header len rest →
      arrival (bs ++ more) = .whole header len (rest ++ more)) ∧
    ∀ e, arrival bs = .failed e → arrival (bs ++ more) = .failed e := by
  unfold arrival
  cases hs : bs.splitLine? with
  | none => exact ⟨nofun, nofun⟩
  | some split =>
    obtain ⟨line, data⟩ := split
    rw [Bytes.splitLine?_append_right hs]
    cases line with
    | nil => exact ⟨nofun, fun e h => h⟩
    | cons type digits =>
      dsimp only
      split
      · exact ⟨nofun, fun e h => h⟩
      · cases bulkLength? digits with
        | none => exact ⟨nofun, fun e h => h⟩
        | some len =>
          dsimp only
          cases hd : data.drop len with
          | nil => exact ⟨nofun, nofun⟩
          | cons c cs =>
            cases cs with
            | nil => exact ⟨nofun, nofun⟩
            | cons d rest =>
              have hlen : len ≤ data.length := by
                have := congrArg List.length hd
                simp only [List.length_drop, List.length_cons] at this
                omega
              rw [List.drop_append_of_le_length hlen, hd]
              dsimp only [List.cons_append]
              split
              · exact ⟨fun header len rest h => by cases h; rfl, nofun⟩
              · exact ⟨nofun, fun e h => h⟩

theorem exists_of_arrival (h : arrival bs = .whole header len rest) :
    ∃ digits a, Bytes.IsLine (Ascii.dollar :: digits) ∧ bulkLength? digits = some len ∧
      a.length = len ∧ header = digits.length + 3 ∧
      bs = (Ascii.dollar :: digits) ++ Bytes.crlf ++ (a ++ Bytes.crlf ++ rest) := by
  unfold arrival at h
  split at h
  · cases h
  · cases h
  · next type digits data hs =>
    obtain ⟨hline, rfl⟩ := Bytes.splitLine?_eq_some_iff.mp hs
    split at h
    · cases h
    · next htype =>
      obtain rfl : type = Ascii.dollar := Decidable.not_not.mp htype
      split at h
      · cases h
      · next len' hlen =>
        split at h
        · next c d rest' hd =>
          split at h
          · next hcr =>
            obtain ⟨rfl, rfl⟩ := hcr
            cases h
            have hle : len ≤ data.length := by
              have := congrArg List.length hd
              simp only [List.length_drop, List.length_cons] at this
              omega
            have hrest : Bytes.crlf ++ rest = data.drop len := hd.symm
            refine ⟨digits, data.take len, hline, hlen, List.length_take_of_le hle, rfl, ?_⟩
            rw [List.append_assoc (data.take len), hrest, List.take_append_drop]
          · cases h
        · cases h

theorem arrival_of_wireArgument {digits a : Bytes} (hline : Bytes.IsLine (Ascii.dollar :: digits))
    (hlen : bulkLength? digits = some a.length) (rest : Bytes) :
    arrival ((Ascii.dollar :: digits) ++ Bytes.crlf ++ (a ++ Bytes.crlf ++ rest)) =
      .whole (digits.length + 3) a.length rest := by
  have hsplit := Bytes.splitLine?_eq_some_iff.mpr
    ⟨hline, Eq.refl ((Ascii.dollar :: digits) ++ Bytes.crlf ++ (a ++ Bytes.crlf ++ rest))⟩
  have hdrop : (a ++ Bytes.crlf ++ rest).drop a.length = Ascii.cr :: Ascii.lf :: rest := by
    rw [List.append_assoc, List.drop_left]
    rfl
  rw [arrival, hsplit]
  dsimp only
  rw [if_neg (not_not_intro rfl), hlen]
  dsimp only
  rw [hdrop]
  exact if_pos ⟨rfl, rfl⟩

theorem length_of_arrival (h : arrival bs = .whole header len rest) :
    header + len + 2 + rest.length = bs.length ∧ bs.drop (header + len + 2) = rest := by
  obtain ⟨digits, a, -, -, rfl, rfl, rfl⟩ := exists_of_arrival h
  have hlen : ((Ascii.dollar :: digits) ++ Bytes.crlf ++ (a ++ Bytes.crlf)).length =
      digits.length + 3 + a.length + 2 := by
    simp [Bytes.crlf]
    omega
  have hassoc : (Ascii.dollar :: digits) ++ Bytes.crlf ++ (a ++ Bytes.crlf ++ rest) =
      ((Ascii.dollar :: digits) ++ Bytes.crlf ++ (a ++ Bytes.crlf)) ++ rest :=
    (List.append_assoc _ _ _).symm
  rw [hassoc, ← hlen, List.drop_left]
  exact ⟨List.length_append.symm, rfl⟩

/-! ## Several arguments -/

/-- With `bs` behind the request `p`, its next `k` arguments are whole; with these it is `q` and has
`rest` behind it. -/
inductive Reaches : Nat → Pending → Bytes → Pending → Bytes → Prop where
  | here (p : Pending) (bs : Bytes) : Reaches 0 p bs p bs
  | next {k header len : Nat} {p q : Pending} {bs rest rest' : Bytes}
      (ha : arrival bs = .whole header len rest)
      (h : Reaches k (Pending.push p (p.offset + header) len) rest q rest') :
      Reaches (k + 1) p bs q rest'

namespace Reaches

theorem append (h : Reaches k p bs q rest) (more : Bytes) :
    Reaches k p (bs ++ more) q (rest ++ more) := by
  induction h with
  | here p bs => exact .here p (bs ++ more)
  | next ha h ih => exact .next ((arrival_append more).1 _ _ _ ha) ih

/-- The arguments that are whole are collected first. -/
theorem collect (h : Reaches k p bs q rest) (n : Nat) :
    collect (k + n) p bs = collect n q rest := by
  induction h with
  | here => rw [Nat.zero_add]
  | next ha h ih =>
    rw [Nat.add_right_comm, collect_succ, ha]
    exact ih

theorem collect_of_lt {n : Nat} (h : Reaches k p bs q rest) (hk : k < n) :
    Decoder.collect n p bs = Decoder.collect (n - k - 1 + 1) q rest := by
  rw [← h.collect, show k + (n - k - 1 + 1) = n by omega]

theorem expected_eq (h : Reaches k p bs q rest) : q.expected = p.expected := by
  induction h with
  | here => rfl
  | next ha h ih => exact ih

theorem size_eq (h : Reaches k p bs q rest) : q.args.size = p.args.size + k := by
  induction h with
  | here => rfl
  | next ha h ih =>
    rw [ih, Pending.push, Array.size_push]
    omega

/-- Where the arguments that are whole end. -/
theorem offset (h : Reaches k p bs q rest) :
    ∃ n, q.offset = p.offset + n ∧ n + rest.length = bs.length ∧ bs.drop n = rest := by
  induction h with
  | here p bs => exact ⟨0, rfl, Nat.zero_add _, rfl⟩
  | next ha h ih =>
    obtain ⟨n, hoffset, hlen, hdrop⟩ := ih
    obtain ⟨hlen', hdrop'⟩ := length_of_arrival ha
    refine ⟨_ + n, ?_, ?_, by rw [← List.drop_drop, hdrop', hdrop]⟩
    · rw [hoffset]
      simp only [Pending.push]
      omega
    · omega

theorem exists_wireArguments (h : Reaches k p bs q rest) :
    ∃ w args, WireArguments w args ∧ args.length = k ∧ bs = w ++ rest := by
  induction h with
  | here => exact ⟨[], [], .nil, rfl, rfl⟩
  | next ha h ih =>
    obtain ⟨w, args, hw, rfl, rfl⟩ := ih
    obtain ⟨digits, a, hline, hlen, rfl, -, rfl⟩ := exists_of_arrival ha
    refine ⟨_, _, .cons ⟨digits, hline, hlen, rfl⟩ hw, rfl, ?_⟩
    simp only [List.append_assoc]

end Reaches

/-- Arguments are collected where they stand and cut out again. -/
theorem reaches_of_wireArguments (h : WireArguments w args) (p : Pending) (rest : Bytes) :
    ∃ q places, Reaches args.length p (w ++ rest) q rest ∧ q.offset = p.offset + w.length ∧
      q.args.toList = p.args.toList ++ places ∧
      ∀ found pos gap buf, pos + gap = p.offset → buf.drop gap = w ++ rest →
        payloadsFrom found pos buf places = found.reverse ++ args := by
  induction h generalizing p with
  | nil =>
    exact ⟨p, [], .here p rest, rfl, (List.append_nil _).symm, fun found _ _ _ _ _ =>
      (List.append_nil _).symm⟩
  | @cons v w a args hv hw ih =>
    obtain ⟨digits, hline, hlen, rfl⟩ := hv
    have hcons : (Ascii.dollar :: digits) ++ Bytes.crlf ++ a ++ Bytes.crlf ++ w ++ rest =
        (Ascii.dollar :: digits) ++ Bytes.crlf ++ (a ++ Bytes.crlf ++ (w ++ rest)) := by
      simp only [List.append_assoc]
    obtain ⟨q, places, hq, hoffset, hplaces, hpayloads⟩ :=
      ih (Pending.push p (p.offset + (digits.length + 3)) a.length)
    rw [hcons]
    refine ⟨q, (p.offset + (digits.length + 3), a.length) :: places,
      .next (arrival_of_wireArgument hline hlen (w ++ rest)) hq, ?_, ?_, ?_⟩
    · rw [hoffset, Pending.push]
      simp only [List.length_append, List.length_cons, Bytes.crlf, List.length_nil]
      omega
    · rw [hplaces, Pending.push, Array.toList_push, List.append_assoc]
      rfl
    · intro found pos gap buf hpos hbuf
      have hhead : ((Ascii.dollar :: digits) ++ Bytes.crlf).length = digits.length + 3 := by
        simp [Bytes.crlf]
      have hdrop : buf.drop (p.offset + (digits.length + 3) - pos) =
          a ++ (Bytes.crlf ++ (w ++ rest)) := by
        rw [show p.offset + (digits.length + 3) - pos = gap + (digits.length + 3) by omega,
          ← List.drop_drop, hbuf, ← hhead, List.drop_left, List.append_assoc]
      rw [payloadsFrom, hdrop, List.take_left, List.drop_left,
        hpayloads (a :: found) _ 2 (Bytes.crlf ++ (w ++ rest)) ?_ rfl]
      · simp
      · rw [Pending.push]

/-- What collecting arguments comes to: all of them are whole, or the first that is not stops it. -/
inductive Collected (n : Nat) (p : Pending) (bs : Bytes) : Progress → Prop where
  | complete {q : Pending} {rest : Bytes} (h : Reaches n p bs q rest) :
      Collected n p bs (.complete q)
  | cutHeader {k : Nat} {q : Pending} {rest : Bytes} (hk : k < n) (h : Reaches k p bs q rest)
      (ha : arrival rest = .cutHeader) : Collected n p bs (.cutHeader q)
  | cutPayload {k : Nat} {q : Pending} {rest : Bytes} (hk : k < n) (h : Reaches k p bs q rest)
      (ha : arrival rest = .cutPayload) : Collected n p bs (.cutPayload q)
  | failed {k : Nat} {q : Pending} {rest : Bytes} {e : ProtocolError} (hk : k < n)
      (h : Reaches k p bs q rest) (ha : arrival rest = .failed e) : Collected n p bs (.failed e)

theorem collected (n : Nat) (p : Pending) (bs : Bytes) : Collected n p bs (collect n p bs) := by
  induction n generalizing p bs with
  | zero => exact .complete (.here p bs)
  | succ n ih =>
    rw [collect_succ]
    cases ha : arrival bs with
    | cutHeader => exact .cutHeader n.succ_pos (.here p bs) ha
    | cutPayload => exact .cutPayload n.succ_pos (.here p bs) ha
    | failed e => exact .failed n.succ_pos (.here p bs) ha
    | whole header len rest =>
      dsimp only
      have hrest := ih (Pending.push p (p.offset + header) len) rest
      generalize collect n (Pending.push p (p.offset + header) len) rest = o at hrest ⊢
      cases hrest with
      | complete h => exact .complete (.next ha h)
      | cutHeader hk h ha' => exact .cutHeader (Nat.succ_lt_succ hk) (.next ha h) ha'
      | cutPayload hk h ha' => exact .cutPayload (Nat.succ_lt_succ hk) (.next ha h) ha'
      | failed hk h ha' => exact .failed (Nat.succ_lt_succ hk) (.next ha h) ha'

/-! ## One request -/

variable {max : Nat} {buf line digits : Bytes} {r : Request} {d : Decoder}

/-- A request of which the header is read, and nothing else. -/
def opened (digits : Bytes) (n : Nat) : Pending := ⟨n, #[], digits.length + 3, Nat.succ_pos _⟩

theorem decodeAny_star (h : buf.head? = some Ascii.star) :
    (new max).decodeAny buf = (new max).decodeMultibulk buf := if_pos h

theorem decodeAny_inline (h : buf.head? ≠ some Ascii.star) :
    (new max).decodeAny buf = (new max).decodeInline buf := if_neg h

/-- A buffer that starts with a star and has a line starts with a header. -/
theorem exists_digits (hstar : buf.head? = some Ascii.star)
    (hline : buf.splitLine? = some (line, rest)) :
    ∃ digits, line = Ascii.star :: digits ∧ Bytes.IsLine (Ascii.star :: digits) ∧
      buf = (Ascii.star :: digits) ++ Bytes.crlf ++ rest := by
  obtain ⟨hisLine, rfl⟩ := Bytes.splitLine?_eq_some_iff.mp hline
  cases line with
  | nil => exact absurd (Option.some.inj hstar) (by decide)
  | cons b digits =>
    obtain rfl : b = Ascii.star := Option.some.inj hstar
    exact ⟨digits, rfl, hisLine, rfl⟩

theorem decodeAny_header (hline : Bytes.IsLine (Ascii.star :: digits)) (rest : Bytes) :
    (new max).decodeAny ((Ascii.star :: digits) ++ Bytes.crlf ++ rest) =
      match multibulkLength? digits with
      | none => (new max).fail ((Ascii.star :: digits) ++ Bytes.crlf ++ rest) .invalidMultibulkLength
      | some n =>
        if n ≤ 0 then ⟨new max, rest, .ok (some [])⟩
        else (new max).resume (opened digits n.toNat)
          ((Ascii.star :: digits) ++ Bytes.crlf ++ rest) := by
  have hsplit := Bytes.splitLine?_eq_some_iff.mpr
    ⟨hline, Eq.refl ((Ascii.star :: digits) ++ Bytes.crlf ++ rest)⟩
  rw [decodeAny_star rfl, decodeMultibulk, hsplit]
  rfl

theorem drop_opened (digits : Bytes) (n : Nat) (rest : Bytes) :
    ((Ascii.star :: digits) ++ Bytes.crlf ++ rest).drop (opened digits n).offset = rest := by
  have hlen : ((Ascii.star :: digits) ++ Bytes.crlf).length = digits.length + 3 := by
    simp [Bytes.crlf]
  show List.drop (digits.length + 3) _ = rest
  rw [← hlen, List.drop_left]

theorem resume_opened (max n : Nat) (digits rest : Bytes) :
    (new max).resume (opened digits n) ((Ascii.star :: digits) ++ Bytes.crlf ++ rest) =
      match collect n (opened digits n) rest with
      | .complete p =>
        ⟨new max, ((Ascii.star :: digits) ++ Bytes.crlf ++ rest).drop p.offset,
          .ok (some (payloadsFrom [] 0 ((Ascii.star :: digits) ++ Bytes.crlf ++ rest)
            p.args.toList))⟩
      | .cutHeader p =>
        match (new max).unterminated? ((Ascii.star :: digits) ++ Bytes.crlf ++ rest) p.offset
          .tooBigBulkCount with
        | some e => (new max).fail ((Ascii.star :: digits) ++ Bytes.crlf ++ rest) e
        | none => (new max).park p ((Ascii.star :: digits) ++ Bytes.crlf ++ rest)
      | .cutPayload p => (new max).park p ((Ascii.star :: digits) ++ Bytes.crlf ++ rest)
      | .failed e => (new max).fail ((Ascii.star :: digits) ++ Bytes.crlf ++ rest) e := by
  rw [resume, drop_opened]
  rfl

theorem resume_wireArguments (hw : WireArguments w r) (digits rest : Bytes) :
    (new max).resume (opened digits r.length)
      ((Ascii.star :: digits) ++ Bytes.crlf ++ (w ++ rest)) =
      ⟨new max, rest, .ok (some r)⟩ := by
  obtain ⟨q, places, hq, hoffset, hplaces, hpayloads⟩ :=
    reaches_of_wireArguments hw (opened digits r.length) rest
  have hdrop := drop_opened digits r.length (w ++ rest)
  have hcollect : collect (r.length - 0) (opened digits r.length) (w ++ rest) = .complete q :=
    hq.collect 0
  have hrest : ((Ascii.star :: digits) ++ Bytes.crlf ++ (w ++ rest)).drop q.offset = rest := by
    rw [hoffset, ← List.drop_drop, hdrop, List.drop_left]
  have hargs := hpayloads [] 0 _ _ (Nat.zero_add _) hdrop
  rw [← show q.args.toList = places from hplaces] at hargs
  rw [resume, hdrop]
  simp only [show (opened digits r.length).expected - (opened digits r.length).args.size =
    r.length - 0 from rfl, hcollect, hrest, hargs]
  rfl

theorem decodeInline_of_line (hline : Ascii.lf ∉ line) (rest : Bytes) :
    d.decodeInline (line ++ Ascii.lf :: rest) =
      match Inline.split? (chomp line) with
      | some args => ⟨d, rest, .ok (some args)⟩
      | none => d.fail rest .unbalancedQuotes := by
  have hkeep : ∀ b ∈ line, (b != Ascii.lf) = true := fun b hb => by
    rw [bne_iff_ne]
    rintro rfl
    exact hline hb
  have hdrop : (line ++ Ascii.lf :: rest).dropWhile (· != Ascii.lf) = Ascii.lf :: rest := by
    rw [List.dropWhile_append_of_pos hkeep]
    rfl
  have htake : (line ++ Ascii.lf :: rest).takeWhile (· != Ascii.lf) = line := by
    rw [List.takeWhile_append_of_pos hkeep]
    exact List.append_nil line
  cases hsplit : Inline.split? (chomp line) <;> simp only [decodeInline, hdrop, htake, hsplit]

theorem decodeInline_of_open (h : Ascii.lf ∉ buf) :
    d.decodeInline buf =
      if Limits.inline < buf.length then d.fail buf .tooBigInline else ⟨d, buf, .ok none⟩ := by
  have hdrop : buf.dropWhile (· != Ascii.lf) = [] := by
    refine List.dropWhile_eq_nil_iff.mpr fun b hb => ?_
    rw [bne_iff_ne]
    rintro rfl
    exact h hb
  rw [decodeInline, hdrop]

/-- A request is taken off the front in every wire form, and what follows it is left. -/
theorem decodeAny_of_wireForm (hw : WireForm w r) (rest : Bytes) :
    (new max).decodeAny (w ++ rest) = ⟨new max, rest, .ok (some r)⟩ := by
  cases hw with
  | multibulk hline hcount hr hw =>
    have hpos : ¬(r.length : Int) ≤ 0 := by
      have := List.length_pos_iff.mpr hr
      omega
    rw [List.append_assoc, decodeAny_header hline, hcount]
    dsimp only
    rw [if_neg hpos]
    exact resume_wireArguments hw _ rest
  | blank hline hcount hn =>
    rw [decodeAny_header hline, hcount]
    exact if_pos hn
  | @inline line r hline hstar hr =>
    have hhead : (line ++ Ascii.lf :: rest).head? ≠ some Ascii.star := by
      cases line with
      | nil => exact fun h => absurd (Option.some.inj h) (by decide)
      | cons b line => exact hstar
    rw [List.append_assoc]
    show (new max).decodeAny (line ++ Ascii.lf :: rest) = _
    rw [decodeAny_inline hhead, decodeInline_of_line hline, hr]

end Decoder

end RespStore
