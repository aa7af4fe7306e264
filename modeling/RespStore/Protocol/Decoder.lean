import RespStore.Frame.Basic
import RespStore.Protocol.Error
import RespStore.Protocol.Inline

/-!
# The request decoder

Requests come as multi-bulk arrays or as inline lines, in a buffer that grows with every read. A
multi-bulk request that is cut off is parked with the places of the arguments found so far, and
the buffer stays as it is until the request is whole. `decode` takes one request off the front
and `drain` takes all that are there.
-/

namespace RespStore

abbrev Request := List Bytes

def Request.toFrame (r : Request) : Frame := .ofArguments r

/-- A request whose header is read and whose arguments are not all there. -/
structure Pending where
  expected : Nat
  /-- Start and length of every payload found so far. -/
  args : Array (Nat × Nat)
  /-- Where the next length header starts. -/
  offset : Nat
  offset_pos : 0 < offset

structure Decoder where
  maxFrame : Nat
  pending : Option Pending

namespace Decoder

def new (maxFrame : Nat) : Decoder := ⟨maxFrame, none⟩

def default : Decoder := new Limits.bulk

structure Outcome where
  decoder : Decoder
  buffer : Bytes
  result : Except ProtocolError (Option Request)

/-- A length within the bounds. -/
def length? (least greatest : Int) (digits : Bytes) : Option Int :=
  (IntFormat.int64.parse? digits).filter fun n => least ≤ n ∧ n ≤ greatest

def multibulkLength? : Bytes → Option Int := length? IntFormat.int64.least Limits.arguments

def bulkLength? (digits : Bytes) : Option Nat := (length? 0 Limits.bulk digits).map Int.toNat

/-- How far the arguments of a request got. -/
inductive Progress where
  | complete (p : Pending)
  | cutHeader (p : Pending)
  | cutPayload (p : Pending)
  | failed (e : ProtocolError)

def Pending.push (p : Pending) (start n : Nat) : Pending :=
  ⟨p.expected, p.args.push (start, n), start + n + 2, by omega⟩

/-- Collects `n` more arguments from the bytes that follow the offset of `p`. -/
def collect : Nat → Pending → Bytes → Progress
  | 0, p, _ => .complete p
  | n + 1, p, rest =>
    match rest.splitLine? with
    | none => .cutHeader p
    | some ([], _) => .failed (.expectedBulk ' ')
    | some (type :: digits, data) =>
      if type ≠ Ascii.dollar then .failed (.expectedBulk (Char.ofNat type.toNat))
      else match bulkLength? digits with
        | none => .failed .invalidBulkLength
        | some len =>
          match data.drop len with
          | c :: d :: rest =>
            if c = Ascii.cr ∧ d = Ascii.lf then
              collect n (Pending.push p (p.offset + digits.length + 3) len) rest
            else .failed .missingCrlf
          | _ => .cutPayload p

/-- The payloads at `places`, which are in order, where `buf` starts at `pos`. -/
def payloadsFrom (found : List Bytes) (pos : Nat) (buf : Bytes) :
    List (Nat × Nat) → List Bytes
  | [] => found.reverse
  | (start, n) :: places =>
    let rest := buf.drop (start - pos)
    payloadsFrom (rest.take n :: found) (start + n) (rest.drop n) places

def fail (d : Decoder) (buf : Bytes) (e : ProtocolError) : Outcome :=
  ⟨{ d with pending := none }, buf, .error e⟩

/-- Parks a request, unless what is there already exceeds the limit. -/
def park (d : Decoder) (p : Pending) (buf : Bytes) : Outcome :=
  if d.maxFrame < buf.length then d.fail buf (.frameTooLarge d.maxFrame)
  else ⟨{ d with pending := some p }, buf, .ok none⟩

/-- What to make of a length header from `offset` on that has no terminator yet. -/
def unterminated? (d : Decoder) (buf : Bytes) (offset : Nat) (tooBig : ProtocolError) :
    Option ProtocolError :=
  if d.maxFrame < buf.length then some (.frameTooLarge d.maxFrame)
  else if Limits.inline < buf.length - offset then some tooBig
  else none

def resume (d : Decoder) (p : Pending) (buf : Bytes) : Outcome :=
  match collect (p.expected - p.args.size) p (buf.drop p.offset) with
  | .complete p =>
    ⟨{ d with pending := none }, buf.drop p.offset,
      .ok (some (payloadsFrom [] 0 buf p.args.toList))⟩
  | .cutHeader p =>
    match d.unterminated? buf p.offset .tooBigBulkCount with
    | some e => d.fail buf e
    | none => d.park p buf
  | .cutPayload p => d.park p buf
  | .failed e => d.fail buf e

/-- A buffer that starts with a star. A count of zero or less carries no request. -/
def decodeMultibulk (d : Decoder) (buf : Bytes) : Outcome :=
  match buf.splitLine? with
  | none =>
    match d.unterminated? buf 0 .tooBigMultibulkCount with
    | some e => d.fail buf e
    | none => ⟨d, buf, .ok none⟩
  | some (line, rest) =>
    match multibulkLength? line.tail with
    | none => d.fail buf .invalidMultibulkLength
    | some n =>
      if n ≤ 0 then ⟨d, rest, .ok (some [])⟩
      else d.resume ⟨n.toNat, #[], line.length + 2, by omega⟩ buf

/-- Without the carriage return that may end it. -/
def chomp (line : Bytes) : Bytes :=
  if line.getLast? = some Ascii.cr then line.dropLast else line

/-- The line is consumed before its arguments are split. -/
def decodeInline (d : Decoder) (buf : Bytes) : Outcome :=
  match buf.dropWhile (· != Ascii.lf) with
  | [] => if Limits.inline < buf.length then d.fail buf .tooBigInline else ⟨d, buf, .ok none⟩
  | _ :: rest =>
    match Inline.split? (chomp (buf.takeWhile (· != Ascii.lf))) with
    | some args => ⟨d, rest, .ok (some args)⟩
    | none => d.fail rest .unbalancedQuotes

/-- Takes what stands at the front, be it a request without arguments. -/
def decodeAny (d : Decoder) (buf : Bytes) : Outcome :=
  match d.pending with
  | some p => d.resume p buf
  | none => if buf.head? = some Ascii.star then d.decodeMultibulk buf else d.decodeInline buf

theorem resume_length_lt {d : Decoder} {p : Pending} {buf : Bytes} {r : Request} (hbuf : buf ≠ [])
    (h : (d.resume p buf).result = .ok (some r)) :
    (d.resume p buf).buffer.length < buf.length := by
  have hpos := List.length_pos_iff.2 hbuf
  unfold resume at h ⊢
  split at h
  · next q _ =>
    have := q.offset_pos
    simp only [List.length_drop]
    omega
  · split at h
    · simp [fail] at h
    · unfold park at h
      split at h <;> simp [fail] at h
  · unfold park at h
    split at h <;> simp [fail] at h
  · simp [fail] at h

theorem decodeAny_length_lt {d : Decoder} {buf : Bytes} {r : Request} (hbuf : buf ≠ [])
    (h : (d.decodeAny buf).result = .ok (some r)) :
    (d.decodeAny buf).buffer.length < buf.length := by
  unfold decodeAny at h ⊢
  split at h
  · exact resume_length_lt hbuf h
  · split at h
    · next hstar =>
      simp only [hstar, ↓reduceIte]
      unfold decodeMultibulk at h ⊢
      split at h
      · split at h <;> simp [fail] at h
      · next line rest hline =>
        have := Bytes.length_splitLine? hline
        split at h
        · simp [fail] at h
        · next n hn =>
          by_cases hle : n ≤ 0
          · simp only [hle, ↓reduceIte]
            omega
          · simp only [hle, ↓reduceIte] at h
            simp only [hle, ↓reduceIte]
            exact resume_length_lt hbuf h
    · next hstar =>
      simp only [hstar, ↓reduceIte]
      unfold decodeInline at h ⊢
      split at h
      · split at h <;> simp [fail] at h
      · next b rest hrest =>
        have hsuffix := (List.dropWhile_suffix (l := buf) (· != Ascii.lf)).length_le
        rw [hrest, List.length_cons] at hsuffix
        split at h
        · simp only
          omega
        · simp [fail] at h

/-- Takes one request off the front, skipping those without arguments. -/
def decode (d : Decoder) (buf : Bytes) : Outcome :=
  if _ : buf = [] then ⟨d, buf, .ok none⟩
  else
    let o := d.decodeAny buf
    match _ : o.result with
    | .ok (some []) => o.decoder.decode o.buffer
    | _ => o
termination_by buf.length
decreasing_by exact decodeAny_length_lt ‹_› ‹_›

theorem decode_length_lt {d : Decoder} {buf : Bytes} {r : Request}
    (h : (d.decode buf).result = .ok (some r)) : (d.decode buf).buffer.length < buf.length := by
  fun_induction decode d buf with
  | case1 d => simp at h
  | case2 d buf hbuf o ho ih => exact Nat.lt_trans (ih h) (decodeAny_length_lt hbuf ho)
  | case3 d buf hbuf o hne => exact decodeAny_length_lt hbuf h

structure Drained where
  requests : List Request
  decoder : Decoder
  buffer : Bytes
  failure : Option ProtocolError

/-- Takes requests off the front until none is whole or one is refused. -/
def drain (d : Decoder) (buf : Bytes) : Drained :=
  let o := d.decode buf
  match _ : o.result with
  | .ok none => ⟨[], o.decoder, o.buffer, none⟩
  | .error e => ⟨[], o.decoder, o.buffer, some e⟩
  | .ok (some r) =>
    let later := o.decoder.drain o.buffer
    { later with requests := r :: later.requests }
termination_by buf.length
decreasing_by exact decode_length_lt ‹_›

/-- Appends a read to the buffer and takes what is whole. -/
def feed (d : Decoder) (buf chunk : Bytes) : Drained := d.drain (buf ++ chunk)

end Decoder

end RespStore
