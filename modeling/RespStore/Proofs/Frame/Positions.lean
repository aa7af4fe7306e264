import RespStore.Proofs.Checked
import RespStore.Proofs.Frame.Parse
import RespStore.Proofs.Frame.Stability

/-!
# Parsing by positions

The parser as a cursor that stands at a position of a buffer and moves on. Every index that it computes
and every slice that it cuts out is checked, and no check ever fails: a cursor reads what the parser takes
off the bytes behind it. So a verdict that is final comes with a position that is final.
-/

namespace RespStore.Frame

open Checked

variable {α β : Type} {word fuel fuel' pos n : Nat} {bs buf rest : Bytes}

/-- What a cursor reads and where it stands then, or why it stops. -/
inductive Scan (α : Type) where
  /-- A check has failed. -/
  | fault
  | refused (e : ParseError)
  | read (a : α) (pos : Nat)

namespace Scan

def check (x : Option β) (g : β → Scan α) : Scan α := x.elim fault g

def bind (x : Scan α) (g : α → Nat → Scan β) : Scan β :=
  match x with
  | fault => fault
  | refused e => refused e
  | read a pos => g a pos

def map (x : Scan α) (g : α → β) : Scan β := x.bind fun a pos => read (g a) pos

end Scan

/-- Reads on up to the first line end. -/
def scanLine (word : Nat) (buf : Bytes) (pos : Nat) : Scan Bytes :=
  .check (slice? buf pos buf.length) fun rest =>
    match Bytes.crlfIndexFrom 0 rest with
    | none => .refused .incomplete
    | some i =>
      .check (sum? word pos i) fun stop =>
      .check (sum? word stop 2) fun next =>
      .check (slice? buf pos stop) fun line => .read line next

def scanText (word : Nat) (buf : Bytes) (pos : Nat) : Scan String :=
  (scanLine word buf pos).bind fun line next =>
    (Utf8.decode? line).elim (.refused .badFormat) fun s => .read s next

def scanInteger (word : Nat) (buf : Bytes) (pos : Nat) : Scan Int64 :=
  (scanLine word buf pos).bind fun line next =>
    (readInt64? line).elim (.refused .badFormat) fun n => .read n next

def scanLength (word : Nat) (negative : ParseError) (buf : Bytes) (pos : Nat) :
    Scan (Option Nat) :=
  (scanInteger word buf pos).bind fun n next =>
    if n = -1 then .read none next
    else if n < 0 then .refused negative
    else .read (some n.toInt.toNat) next

/-- Both sums are computed before the length of the buffer is looked at. -/
def scanPayload (word n : Nat) (buf : Bytes) (pos : Nat) : Scan Bytes :=
  .check (sum? word pos n) fun stop =>
  .check (sum? word stop 2) fun next =>
    if buf.length < next then .refused .incomplete
    else
      .check (slice? buf stop next) fun ending =>
        if ending ≠ Bytes.crlf then .refused .unterminatedBulk
        else .check (slice? buf pos stop) fun payload => .read payload next

def scanMany (one : Nat → Scan Frame) : Nat → Nat → Scan (List Frame)
  | 0, pos => .read [] pos
  | n + 1, pos => (one pos).bind fun item next => (scanMany one n next).map (item :: ·)

/-- Reads a byte, if there is one. -/
def scanByte (word : Nat) (buf : Bytes) (pos : Nat) : Scan UInt8 :=
  if buf.length ≤ pos then .refused .incomplete
  else .check buf[pos]? fun b => .check (sum? word pos 1) fun next => .read b next

/-- Reads a frame that is nested less than `fuel` deep. -/
def scanWith (word : Nat) (buf : Bytes) : Nat → Nat → Scan Frame
  | 0, _ => .refused .incomplete
  | fuel + 1, pos =>
    (scanByte word buf pos).bind fun type pos =>
      if type = Ascii.plus then (scanText word buf pos).map simple
      else if type = Ascii.minus then (scanText word buf pos).map error
      else if type = Ascii.colon then (scanInteger word buf pos).map integer
      else if type = Ascii.dollar then
        (scanLength word .badBulkLength buf pos).bind fun n next =>
          n.elim (.read null next) fun n => (scanPayload word n buf next).map bulk
      else if type = Ascii.star then
        (scanLength word .badArrayLength buf pos).bind fun n next =>
          n.elim (.read null next) fun n => (scanMany (scanWith word buf fuel) n next).map array
      else .refused (.unknownType type)

/-! ## Cursors read what is taken -/

/-- From `pos` on, a cursor reads what is taken off the bytes there, and stands behind it then. -/
inductive Reads (buf : Bytes) (pos : Nat) : Except ParseError (α × Bytes) → Scan α → Prop where
  | taken (a : α) {next : Nat} (hpos : pos ≤ next) (hnext : next ≤ buf.length) :
      Reads buf pos (.ok (a, buf.drop next)) (.read a next)
  | refused (e : ParseError) : Reads buf pos (.error e) (.refused e)

namespace Reads

variable {x : Except ParseError (α × Bytes)} {s : Scan α} {a : α} {next : Nat} {e : ParseError}

theorem mono (h : Reads buf next x s) (hpos : pos ≤ next) : Reads buf pos x s := by
  cases h with
  | taken a hnext hle => exact .taken a (Nat.le_trans hpos hnext) hle
  | refused e => exact .refused e

theorem of_ok (h : Reads buf pos (.ok (a, rest)) s) :
    ∃ next, pos ≤ next ∧ next ≤ buf.length ∧ rest = buf.drop next ∧ s = .read a next := by
  generalize hx : Except.ok (a, rest) = x at h
  cases h with
  | taken b hpos hnext =>
    cases hx
    exact ⟨_, hpos, hnext, rfl, rfl⟩
  | refused e => cases hx

theorem of_error (h : Reads buf pos (.error e) s) : s = .refused e := by
  cases h
  rfl

theorem bind {g : α × Bytes → Except ParseError (β × Bytes)} {g' : α → Nat → Scan β}
    (h : Reads buf pos x s)
    (hg : ∀ a next, x = .ok (a, buf.drop next) → pos ≤ next → next ≤ buf.length →
      Reads buf next (g (a, buf.drop next)) (g' a next)) :
    Reads buf pos (x.bind g) (s.bind g') := by
  cases h with
  | refused e => exact .refused e
  | @taken a next hpos hnext =>
    have hlater := hg a next rfl hpos hnext
    show Reads buf pos (g (a, buf.drop next)) (g' a next)
    generalize g (a, buf.drop next) = y at hlater ⊢
    generalize g' a next = t at hlater ⊢
    cases hlater with
    | refused e => exact .refused e
    | taken b hnext' hle => exact .taken b (Nat.le_trans hpos hnext') hle

theorem map (h : Reads buf pos x s) (g : α → β) :
    Reads buf pos (x.map fun p => (g p.1, p.2)) (s.map g) := by
  cases h with
  | taken a hpos hnext => exact .taken (g a) hpos hnext
  | refused e => exact .refused e

end Reads

theorem scanLine_reads (hpos : pos ≤ buf.length) (hword : buf.length ≤ word) :
    Reads buf pos (takeLine (buf.drop pos)) (scanLine word buf pos) := by
  rw [takeLine, scanLine, slice?_length hpos, Scan.check, Option.elim_some]
  cases hs : Bytes.splitLine? (buf.drop pos) with
  | none =>
    have hindex : Bytes.crlfIndexFrom 0 (buf.drop pos) = none := Option.map_eq_none_iff.mp hs
    rw [hindex]
    exact .refused .incomplete
  | some split =>
    obtain ⟨line, rest⟩ := split
    obtain ⟨hdrop, hle, hstop, hnext⟩ := sums_of_splitLine? hs hpos hword
    have hindex := Bytes.crlfIndexFrom_of_splitLine? hs
    have hslice : slice? buf pos (pos + line.length) = some line := slice?_of_drop hpos hdrop
    rw [hindex]
    dsimp only
    rw [hstop, Scan.check, Option.elim_some, hnext, Scan.check, Option.elim_some, hslice, Scan.check,
      Option.elim_some, ← Bytes.drop_of_splitLine? hs]
    exact .taken line (by omega) hle

theorem scanText_reads (hpos : pos ≤ buf.length) (hword : buf.length ≤ word) :
    Reads buf pos (takeText (buf.drop pos)) (scanText word buf pos) := by
  rw [takeText_eq, scanText]
  refine (scanLine_reads hpos hword).bind fun line next _ _ hnext => ?_
  dsimp only
  cases Utf8.decode? line with
  | none => exact .refused .badFormat
  | some s => exact .taken s (Nat.le_refl next) hnext

theorem scanInteger_reads (hpos : pos ≤ buf.length) (hword : buf.length ≤ word) :
    Reads buf pos (takeInteger (buf.drop pos)) (scanInteger word buf pos) := by
  rw [takeInteger_eq, scanInteger]
  refine (scanLine_reads hpos hword).bind fun line next _ _ hnext => ?_
  dsimp only
  cases readInt64? line with
  | none => exact .refused .badFormat
  | some n => exact .taken n (Nat.le_refl next) hnext

theorem scanLength_reads (negative : ParseError) (hpos : pos ≤ buf.length)
    (hword : buf.length ≤ word) :
    Reads buf pos (takeLength negative (buf.drop pos)) (scanLength word negative buf pos) := by
  rw [takeLength_eq, scanLength]
  refine (scanInteger_reads hpos hword).bind fun n next _ _ hnext => ?_
  dsimp only
  split
  · exact .taken none (Nat.le_refl next) hnext
  · split
    · exact .refused negative
    · exact .taken (some n.toInt.toNat) (Nat.le_refl next) hnext

/-- No length is declared that is beyond 64 bits. -/
theorem le_maxLength_of_takeLength {negative : ParseError}
    (h : takeLength negative bs = .ok (some n, rest)) : n ≤ maxLength := by
  obtain ⟨digits, -, hn, -⟩ := takeLength_eq_some_iff.mp h
  exact IntFormat.int64_fits_iff.mp (IntFormat.fits_of_parse? hn)

theorem scanPayload_reads (hpos : pos ≤ buf.length) (hword : pos + n + 2 ≤ word) :
    Reads buf pos (takePayload n (buf.drop pos)) (scanPayload word n buf pos) := by
  have hstop : sum? word pos n = some (pos + n) := sum?_eq (by omega)
  rw [scanPayload, hstop, Scan.check, Option.elim_some, sum?_eq hword, Scan.check, Option.elim_some]
  unfold takePayload
  rw [List.drop_drop]
  have hlen : (buf.drop (pos + n)).length = buf.length - (pos + n) := List.length_drop
  split
  · next c d rest hdrop =>
    rw [hdrop, List.length_cons, List.length_cons] at hlen
    have hcut : buf.drop (pos + n) = [c, d] ++ rest := hdrop
    have hending : slice? buf (pos + n) (pos + n + 2) = some [c, d] := slice?_of_drop (by omega) hcut
    have hnext : ¬buf.length < pos + n + 2 := by omega
    rw [if_neg hnext, hending, Scan.check, Option.elim_some]
    by_cases hcrlf : c = Ascii.cr ∧ d = Ascii.lf
    · obtain ⟨rfl, rfl⟩ := hcrlf
      have hle : n ≤ (buf.drop pos).length := by
        rw [List.length_drop]
        omega
      have hpayload := slice?_of_drop hpos (List.take_append_drop n (buf.drop pos)).symm
      rw [List.length_take_of_le hle] at hpayload
      have hrest : rest = buf.drop (pos + n + 2) := by
        rw [← List.drop_drop, hdrop]
        rfl
      have hends : ¬[Ascii.cr, Ascii.lf] ≠ Bytes.crlf := not_not_intro rfl
      rw [if_pos ⟨rfl, rfl⟩, if_neg hends, hpayload, Scan.check, Option.elim_some, hrest]
      exact .taken _ (by omega) (by omega)
    · have hne : [c, d] ≠ Bytes.crlf := by
        rintro ⟨⟩
        exact hcrlf ⟨rfl, rfl⟩
      rw [if_neg hcrlf, if_pos hne]
      exact .refused .unterminatedBulk
  · next hshort =>
    have hend : buf.length < pos + n + 2 := by
      rcases hdrop : buf.drop (pos + n) with _ | ⟨c, _ | ⟨d, rest⟩⟩
      · rw [hdrop, List.length_nil] at hlen
        omega
      · rw [hdrop, List.length_singleton] at hlen
        omega
      · exact absurd hdrop (hshort c d rest)
    rw [if_pos hend]
    exact .refused .incomplete

theorem scanMany_reads {one : Bytes → Except ParseError (Frame × Bytes)} {one' : Nat → Scan Frame}
    (h : ∀ pos ≤ buf.length, Reads buf pos (one (buf.drop pos)) (one' pos)) (n : Nat)
    (hpos : pos ≤ buf.length) :
    Reads buf pos (takeMany one n (buf.drop pos)) (scanMany one' n pos) := by
  induction n generalizing pos with
  | zero => exact .taken [] (Nat.le_refl pos) hpos
  | succ n ih =>
    rw [takeMany_succ, scanMany]
    exact (h pos hpos).bind fun item next _ _ hnext => (ih hnext).map (item :: ·)

theorem scanByte_of_drop {b : UInt8} (h : buf.drop pos = b :: bs) (hword : buf.length ≤ word) :
    scanByte word buf pos = .read b (pos + 1) ∧ pos < buf.length ∧ bs = buf.drop (pos + 1) := by
  have hpos : pos < buf.length := by
    have := congrArg List.length h
    rw [List.length_drop, List.length_cons] at this
    omega
  have hget : buf[pos]? = some b := by rw [← List.head?_drop, h, List.head?_cons]
  refine ⟨?_, hpos, ?_⟩
  · rw [scanByte, if_neg (Nat.not_le.mpr hpos), hget, sum?_eq (Nat.le_trans hpos hword)]
    rfl
  · rw [← List.drop_drop, h]
    rfl

/-- A cursor reads what the parser takes off, and a byte at least, as long as a word holds the length of
the buffer, the greatest length that can be declared and a line end together. -/
theorem scanWith_reads (hpos : pos ≤ buf.length) (hword : buf.length + maxLength + 2 ≤ word)
    (fuel : Nat) :
    Reads buf (pos + 1) (parseWith fuel (buf.drop pos)) (scanWith word buf fuel pos) := by
  have hbuf : buf.length ≤ word := by omega
  induction fuel generalizing pos with
  | zero => exact .refused .incomplete
  | succ fuel ih =>
    cases hdrop : buf.drop pos with
    | nil =>
      rw [scanWith, scanByte, if_pos (List.drop_eq_nil_iff.mp hdrop)]
      exact .refused .incomplete
    | cons type bs =>
      obtain ⟨hbyte, hlt, rfl⟩ := scanByte_of_drop hdrop hbuf
      have hitem : ∀ pos ≤ buf.length,
          Reads buf pos (parseWith fuel (buf.drop pos)) (scanWith word buf fuel pos) :=
        fun pos hpos => (ih hpos).mono (Nat.le_succ pos)
      rw [scanWith, hbyte, Scan.bind]
      by_cases hplus : type = Ascii.plus
      · subst hplus
        rw [if_pos rfl, parseWith_plus]
        exact (scanText_reads hlt hbuf).map simple
      rw [if_neg hplus]
      by_cases hminus : type = Ascii.minus
      · subst hminus
        rw [if_pos rfl, parseWith_minus]
        exact (scanText_reads hlt hbuf).map error
      rw [if_neg hminus]
      by_cases hcolon : type = Ascii.colon
      · subst hcolon
        rw [if_pos rfl, parseWith_colon]
        exact (scanInteger_reads hlt hbuf).map integer
      rw [if_neg hcolon]
      by_cases hdollar : type = Ascii.dollar
      · subst hdollar
        rw [if_pos rfl, parseWith_dollar]
        refine (scanLength_reads .badBulkLength hlt hbuf).bind fun n next hn _ hnext => ?_
        cases n with
        | none => exact .taken null (Nat.le_refl next) hnext
        | some n =>
          have hlength := le_maxLength_of_takeLength hn
          exact (scanPayload_reads hnext (by omega)).map bulk
      rw [if_neg hdollar]
      by_cases hstar : type = Ascii.star
      · subst hstar
        rw [if_pos rfl, parseWith_star]
        refine (scanLength_reads .badArrayLength hlt hbuf).bind fun n next _ _ hnext => ?_
        cases n with
        | none => exact .taken null (Nat.le_refl next) hnext
        | some n => exact (scanMany_reads hitem n hnext).map array
      rw [if_neg hstar]
      cases typeByte type with
      | plus => exact absurd rfl hplus
      | minus => exact absurd rfl hminus
      | colon => exact absurd rfl hcolon
      | dollar => exact absurd rfl hdollar
      | star => exact absurd rfl hstar
      | unknown h =>
        rw [h]
        exact .refused (.unknownType type)

/-! ## Any nesting -/

theorem length_lt_of_parseWith {f : Frame} (h : parseWith fuel bs = .ok (f, rest)) :
    rest.length < bs.length := by
  have hreads := scanWith_reads (Nat.zero_le bs.length) (Nat.le_refl _) fuel
  rw [List.drop_zero, h] at hreads
  generalize scanWith _ bs fuel 0 = s at hreads
  generalize hx : Except.ok (f, rest) = x at hreads
  cases hreads with
  | refused e => cases hx
  | taken f' hpos hnext =>
    cases hx
    rw [List.length_drop]
    omega

theorem takeMany_congr {one one' : Bytes → Except ParseError (Frame × Bytes)} {m : Nat}
    (h : ∀ bs, bs.length ≤ m → one bs = one' bs)
    (hrest : ∀ bs item rest, one bs = .ok (item, rest) → rest.length ≤ bs.length) (n : Nat)
    (hbs : bs.length ≤ m) : takeMany one n bs = takeMany one' n bs := by
  induction n generalizing bs with
  | zero => rfl
  | succ n ih =>
    rw [takeMany_succ, takeMany_succ, ← h bs hbs]
    rcases hone : one bs with e | ⟨item, rest⟩
    · rfl
    · have hlater := ih (Nat.le_trans (hrest bs item rest hone) hbs)
      rw [Except.bind, Except.bind, hlater]

/-- More fuel than there are bytes makes no difference. -/
theorem parseWith_congr (h : bs.length < fuel) (h' : bs.length < fuel') :
    parseWith fuel bs = parseWith fuel' bs := by
  induction fuel generalizing fuel' bs with
  | zero => exact absurd h (Nat.not_lt_zero _)
  | succ fuel ih =>
    obtain ⟨fuel', rfl⟩ : ∃ n, fuel' = n + 1 := Nat.exists_eq_succ_of_ne_zero (by omega)
    cases bs with
    | nil => rfl
    | cons type bs =>
      rw [List.length_cons] at h h'
      cases typeByte type with
      | plus => rw [parseWith_plus, parseWith_plus]
      | minus => rw [parseWith_minus, parseWith_minus]
      | colon => rw [parseWith_colon, parseWith_colon]
      | dollar => rw [parseWith_dollar, parseWith_dollar]
      | star =>
        rw [parseWith_star, parseWith_star]
        rcases hlength : takeLength .badArrayLength bs with e | ⟨_ | n, rest⟩
        · rfl
        · rfl
        · obtain ⟨digits, -, -, rfl⟩ := takeLength_eq_some_iff.mp hlength
          rw [List.length_append] at h h'
          have hitems : takeMany (parseWith fuel) n rest = takeMany (parseWith fuel') n rest :=
            takeMany_congr (m := rest.length) (fun bs hbs => ih (by omega) (by omega))
              (fun bs item rest hone => Nat.le_of_lt (length_lt_of_parseWith hone)) n (Nat.le_refl _)
          show ((takeMany (parseWith fuel) n rest).map _ : Except ParseError (Frame × Bytes)) = _
          rw [hitems]
          rfl
      | unknown h => rw [h, h]

/-! ## Final verdicts -/

/-- A cursor comes to the verdict of the parser, with enough fuel for any nesting. -/
theorem scan_reads (hpos : pos ≤ buf.length) (hword : buf.length + maxLength + 2 ≤ word)
    (hfuel : buf.length < fuel) :
    Reads buf (pos + 1) (parse (buf.drop pos)) (scanWith word buf fuel pos) := by
  have hlen : (buf.drop pos).length ≤ buf.length := (List.drop_sublist pos buf).length_le
  rw [parse, parseWith_congr (Nat.lt_succ_self _) (Nat.lt_of_le_of_lt hlen hfuel)]
  exact scanWith_reads hpos hword fuel

/-- Every verdict on a frame but that it is incomplete is final, and so is the position behind the frame,
which lies past its start and within the bytes that were there. Whatever lengths are declared and however
deep frames are nested, no index or slice goes wrong on the way, in words of 64 bits for all buffers of
fewer than `2 ^ 63 - 1` bytes. -/
theorem parse_final {bs more : Bytes} {start : Nat} (hstart : start ≤ bs.length)
    (hword : (bs ++ more).length + maxLength + 2 ≤ word) (hfuel : (bs ++ more).length < fuel) :
    (∀ f rest, parse (bs.drop start) = .ok (f, rest) →
      ∃ stop, start < stop ∧ stop ≤ bs.length ∧ rest = bs.drop stop ∧
        parse ((bs ++ more).drop start) = .ok (f, (bs ++ more).drop stop) ∧
        scanWith word bs fuel start = .read f stop ∧
        scanWith word (bs ++ more) fuel start = .read f stop) ∧
    ∀ e, parse (bs.drop start) = .error e →
      scanWith word bs fuel start = .refused e ∧
      (e ≠ .incomplete → parse ((bs ++ more).drop start) = .error e ∧
        scanWith word (bs ++ more) fuel start = .refused e) := by
  have hlength : bs.length ≤ (bs ++ more).length := (List.prefix_append bs more).length_le
  have hwordLeft : bs.length + maxLength + 2 ≤ word := by omega
  have hfuelLeft : bs.length < fuel := by omega
  have hreads := scan_reads hstart hwordLeft hfuelLeft
  have hreads' := scan_reads (Nat.le_trans hstart hlength) hword hfuel
  have hsettles := parse_settles (bs.drop start) more
  rw [List.drop_append_of_le_length hstart] at hreads' ⊢
  refine ⟨fun f rest hparse => ?_, fun e hparse => ?_⟩
  · rw [hparse] at hreads hsettles
    obtain ⟨stop, hlt, hle, rfl, hscan⟩ := hreads.of_ok
    have hmore := hsettles.of_ok
    rw [← List.drop_append_of_le_length hle] at hmore
    rw [hmore] at hreads' ⊢
    obtain ⟨stop', -, hle', hdrop, hscan'⟩ := hreads'.of_ok
    -- The same bytes are left, so the cursor stands at the same position.
    have hstop : stop' = stop := by
      have hleft := congrArg List.length hdrop
      rw [List.length_drop, List.length_drop] at hleft
      omega
    exact ⟨stop, hlt, hle, rfl, rfl, hscan, hstop ▸ hscan'⟩
  · rw [hparse] at hreads hsettles
    refine ⟨hreads.of_error, fun he => ?_⟩
    rw [hsettles.of_error he] at hreads' ⊢
    exact ⟨rfl, hreads'.of_error⟩

/-- Behind another frame, arrays in an array with a line end for its payload. -/
def nested : Bytes := Utf8.encode "+x\r\n*2\r\n*1\r\n$2\r\n\r\n\r\n*-1\r\n"

/-- Declares as many items as can be declared, the first of them as long as can be declared. -/
def endless : Bytes := Utf8.encode "*9223372036854775807\r\n$9223372036854775807\r\n"

/-- In words of 64 bits, with the endless array in front of the nested one or behind it. -/
theorem nested_final :
    (4 ≤ nested.length ∧ (nested ++ endless).length + maxLength + 2 ≤ 18446744073709551615 ∧
      (nested ++ endless).length < 100) ∧
    (∃ stop, 4 < stop ∧ stop ≤ nested.length ∧ [] = nested.drop stop ∧
      parse ((nested ++ endless).drop 4) =
        .ok (.array [.array [.bulk Bytes.crlf], .null], (nested ++ endless).drop stop) ∧
      scanWith 18446744073709551615 nested 100 4 =
        .read (.array [.array [.bulk Bytes.crlf], .null]) stop ∧
      scanWith 18446744073709551615 (nested ++ endless) 100 4 =
        .read (.array [.array [.bulk Bytes.crlf], .null]) stop) ∧
    parse endless = .error .incomplete ∧
    scanWith 18446744073709551615 endless 100 0 = .refused .incomplete := by
  have hstart : 4 ≤ nested.length := by decide +kernel
  have hword : (nested ++ endless).length + maxLength + 2 ≤ 18446744073709551615 := by decide +kernel
  have hword' : (endless ++ nested).length + maxLength + 2 ≤ 18446744073709551615 := by decide +kernel
  have hfuel : (nested ++ endless).length < 100 := by decide +kernel
  have hfuel' : (endless ++ nested).length < 100 := by decide +kernel
  have hnested : parse (nested.drop 4) = .ok (.array [.array [.bulk Bytes.crlf], .null], []) := rfl
  have hendless : parse endless = .error .incomplete := rfl
  exact ⟨⟨hstart, hword, hfuel⟩, (parse_final hstart hword hfuel).1 _ _ hnested, hendless,
    ((parse_final (Nat.zero_le _) hword' hfuel').2 _ hendless).1⟩

end RespStore.Frame
