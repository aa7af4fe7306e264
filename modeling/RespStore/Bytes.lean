/-!
# Byte strings

Payloads, lines and files are lists of bytes. The named bytes below are the ones that the wire
format, the inline syntax and the glob syntax give a meaning to.
-/

namespace RespStore

abbrev Bytes := List UInt8

namespace Ascii

@[match_pattern] abbrev tab : UInt8 := 9
@[match_pattern] abbrev lf : UInt8 := 10
@[match_pattern] abbrev ff : UInt8 := 12
@[match_pattern] abbrev cr : UInt8 := 13
@[match_pattern] abbrev space : UInt8 := 32
@[match_pattern] abbrev bang : UInt8 := 33
@[match_pattern] abbrev doubleQuote : UInt8 := 34
@[match_pattern] abbrev dollar : UInt8 := 36
@[match_pattern] abbrev singleQuote : UInt8 := 39
@[match_pattern] abbrev star : UInt8 := 42
@[match_pattern] abbrev plus : UInt8 := 43
@[match_pattern] abbrev comma : UInt8 := 44
@[match_pattern] abbrev minus : UInt8 := 45
@[match_pattern] abbrev dot : UInt8 := 46
@[match_pattern] abbrev slash : UInt8 := 47
@[match_pattern] abbrev zero : UInt8 := 48
@[match_pattern] abbrev nine : UInt8 := 57
@[match_pattern] abbrev colon : UInt8 := 58
@[match_pattern] abbrev question : UInt8 := 63
@[match_pattern] abbrev openBracket : UInt8 := 91
@[match_pattern] abbrev backslash : UInt8 := 92
@[match_pattern] abbrev closeBracket : UInt8 := 93
@[match_pattern] abbrev caret : UInt8 := 94
@[match_pattern] abbrev openBrace : UInt8 := 123
@[match_pattern] abbrev closeBrace : UInt8 := 125

/-- Space, tab, line feed, form feed or carriage return; the vertical tab is no blank. -/
def isBlank (b : UInt8) : Bool :=
  b == space || b == tab || b == lf || b == ff || b == cr

def toLower (b : UInt8) : UInt8 := if 65 ≤ b ∧ b ≤ 90 then b + 32 else b

end Ascii

namespace Bytes

/-- The line terminator of the wire format. -/
def crlf : Bytes := [Ascii.cr, Ascii.lf]

/-- The ASCII letters in lower case, every other byte as it is. -/
def lower (bs : Bytes) : Bytes := bs.map Ascii.toLower

/-- The position of the first CR LF, counted from `n`. -/
def crlfIndexFrom (n : Nat) : Bytes → Option Nat
  | [] | [_] => none
  | b :: c :: rest =>
    if b = Ascii.cr ∧ c = Ascii.lf then some n else crlfIndexFrom (n + 1) (c :: rest)

/-- The bytes before the first CR LF and the bytes after it. -/
def splitLine? (bs : Bytes) : Option (Bytes × Bytes) :=
  (crlfIndexFrom 0 bs).map fun n => (bs.take n, bs.drop (n + 2))

/-- The line that starts at `offset` and the offset right after its terminator. -/
def lineAt? (bs : Bytes) (offset : Nat) : Option (Bytes × Nat) :=
  (splitLine? (bs.drop offset)).map fun split => (split.1, offset + split.1.length + 2)

/-- The `n` bytes that start at `offset`, if all of them are there. -/
def sliceAt? (bs : Bytes) (offset n : Nat) : Option Bytes :=
  if offset + n ≤ bs.length then some ((bs.drop offset).take n) else none

theorem crlfIndexFrom_lt {bs : Bytes} {n m : Nat} (h : crlfIndexFrom n bs = some m) :
    m + 1 < n + bs.length := by
  induction bs generalizing n with
  | nil => simp [crlfIndexFrom] at h
  | cons b rest ih =>
    cases rest with
    | nil => simp [crlfIndexFrom] at h
    | cons c rest =>
      rw [crlfIndexFrom] at h
      split at h
      · simp only [Option.some.injEq] at h
        simp only [List.length_cons]
        omega
      · have := ih h
        simp only [List.length_cons] at this ⊢
        omega

theorem length_splitLine? {bs line rest : Bytes} (h : splitLine? bs = some (line, rest)) :
    line.length + 2 + rest.length = bs.length := by
  unfold splitLine? at h
  cases hn : crlfIndexFrom 0 bs with
  | none => simp [hn] at h
  | some n =>
    have := crlfIndexFrom_lt hn
    simp only [hn, Option.map_some, Option.some.injEq, Prod.mk.injEq] at h
    obtain ⟨rfl, rfl⟩ := h
    simp only [List.length_take, List.length_drop]
    omega

end Bytes

end RespStore
