import RespStore.Frame.Basic

/-!
# Parsing frames

A parse takes one frame off the front of a buffer. Only `incomplete` may turn into another
verdict when more bytes arrive. Every step answers what it took and the bytes that follow.
-/

namespace RespStore

inductive ParseError where
  | incomplete
  | unknownType (byte : UInt8)
  | badFormat
  | badBulkLength
  | badArrayLength
  | unterminatedBulk
  deriving DecidableEq, Repr

def ParseError.message : ParseError → String
  | incomplete => "not enough data is available to parse an entire frame"
  | unknownType b => s!"invalid frame data type: {b.toNat}"
  | badFormat => "protocol error; invalid frame format"
  | badBulkLength => "protocol error; invalid bulk length"
  | badArrayLength => "protocol error; invalid multibulk length"
  | unterminatedBulk => "protocol error; bulk string is not terminated by CRLF"

namespace Frame

def takeLine (bs : Bytes) : Except ParseError (Bytes × Bytes) :=
  match bs.splitLine? with
  | some split => .ok split
  | none => .error .incomplete

def takeText (bs : Bytes) : Except ParseError (String × Bytes) := do
  let (line, rest) ← takeLine bs
  match Utf8.decode? line with
  | some s => .ok (s, rest)
  | none => .error .badFormat

def takeInteger (bs : Bytes) : Except ParseError (Int64 × Bytes) := do
  let (line, rest) ← takeLine bs
  match readInt64? line with
  | some n => .ok (n, rest)
  | none => .error .badFormat

/-- A length line: `none` is the length -1, which stands for null. -/
def takeLength (negative : ParseError) (bs : Bytes) : Except ParseError (Option Nat × Bytes) := do
  let (n, rest) ← takeInteger bs
  if n = -1 then .ok (none, rest)
  else if n < 0 then .error negative
  else .ok (some n.toInt.toNat, rest)

def takePayload (n : Nat) (bs : Bytes) : Except ParseError (Bytes × Bytes) :=
  match bs.drop n with
  | c :: d :: rest =>
    if c = Ascii.cr ∧ d = Ascii.lf then .ok (bs.take n, rest) else .error .unterminatedBulk
  | _ => .error .incomplete

def takeMany (one : Bytes → Except ParseError (Frame × Bytes)) :
    Nat → Bytes → Except ParseError (List Frame × Bytes)
  | 0, bs => .ok ([], bs)
  | n + 1, bs => do
    let (item, bs) ← one bs
    let (items, bs) ← takeMany one n bs
    .ok (item :: items, bs)

/-- Parses frames that are nested less than `fuel` deep. -/
def parseWith : Nat → Bytes → Except ParseError (Frame × Bytes)
  | 0, _ => .error .incomplete
  | _, [] => .error .incomplete
  | fuel + 1, type :: bs =>
    match type with
    | Ascii.plus => do
      let (s, rest) ← takeText bs
      .ok (simple s, rest)
    | Ascii.minus => do
      let (s, rest) ← takeText bs
      .ok (error s, rest)
    | Ascii.colon => do
      let (n, rest) ← takeInteger bs
      .ok (integer n, rest)
    | Ascii.dollar => do
      match ← takeLength .badBulkLength bs with
      | (none, rest) => .ok (null, rest)
      | (some n, rest) =>
        let (payload, rest) ← takePayload n rest
        .ok (bulk payload, rest)
    | Ascii.star => do
      match ← takeLength .badArrayLength bs with
      | (none, rest) => .ok (null, rest)
      | (some n, rest) =>
        let (items, rest) ← takeMany (parseWith fuel) n rest
        .ok (array items, rest)
    | _ => .error (.unknownType type)

/-- Takes one frame off the front. A level of nesting takes up a byte or more, so there is
always enough fuel. -/
def parse (bs : Bytes) : Except ParseError (Frame × Bytes) := parseWith (bs.length + 1) bs

end Frame

end RespStore
