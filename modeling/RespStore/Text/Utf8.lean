import RespStore.Bytes

/-!
# UTF-8

Strict decoding accepts well-formed text only: no surrogates, no overlong forms. Lossy decoding
accepts every byte string and puts one replacement character where a character breaks off.
-/

namespace RespStore.Utf8

def encode (s : String) : Bytes := s.toUTF8.data.toList

def decode? (bs : Bytes) : Option String := String.fromUTF8? ⟨bs.toArray⟩

@[simp] theorem decode?_encode (s : String) : decode? (encode s) = some s := by
  simp only [decode?, encode, Array.toArray_toList]
  unfold String.fromUTF8?
  rw [String.toUTF8_eq_toByteArray, dif_pos s.isValidUTF8]
  rfl

theorem encode_of_decode? {bs : Bytes} {s : String} (h : decode? bs = some s) : encode s = bs := by
  unfold decode? String.fromUTF8? at h
  split at h
  · next hv =>
    rw [Option.some.injEq] at h
    subst h
    simp [encode, String.fromUTF8]
  · contradiction

def isTail (b : UInt8) : Bool := 0x80 ≤ b && b ≤ 0xBF

/-- How many bytes follow a leading byte, and the least and greatest byte that may come second. -/
def lead? (b : UInt8) : Option (Nat × UInt8 × UInt8) :=
  if 0xC2 ≤ b ∧ b ≤ 0xDF then some (1, 0x80, 0xBF)
  else if b = 0xE0 then some (2, 0xA0, 0xBF)
  else if b = 0xED then some (2, 0x80, 0x9F)
  else if 0xE1 ≤ b ∧ b ≤ 0xEF then some (2, 0x80, 0xBF)
  else if b = 0xF0 then some (3, 0x90, 0xBF)
  else if 0xF1 ≤ b ∧ b ≤ 0xF3 then some (3, 0x80, 0xBF)
  else if b = 0xF4 then some (3, 0x80, 0x8F)
  else none

/-- The length of the character at the front, or of the longest part of one that is there.
The flag tells whether the character is whole. -/
def extent : Bytes → Nat × Bool
  | [] => (0, false)
  | [b] => (1, b < 0x80)
  | b :: c :: rest =>
    if b < 0x80 then (1, true)
    else match lead? b with
      | none => (1, false)
      | some (tails, low, high) =>
        if low ≤ c ∧ c ≤ high then
          let more := ((rest.take (tails - 1)).takeWhile isTail).length
          (more + 2, more + 1 = tails)
        else (1, false)

/-- Decodes at most `fuel` characters; every step takes at least one byte. -/
def lossyWith : Nat → Bytes → List Char
  | 0, _ => []
  | _, [] => []
  | fuel + 1, bs =>
    let (n, whole) := extent bs
    let shown := if whole then (decode? (bs.take n)).elim [] String.toList else ['\uFFFD']
    shown ++ lossyWith fuel (bs.drop n)

/-- Every longest broken-off part of a character reads as one U+FFFD. -/
def lossy (bs : Bytes) : String := String.ofList (lossyWith bs.length bs)

end RespStore.Utf8
