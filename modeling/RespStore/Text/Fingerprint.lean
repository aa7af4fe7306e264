import RespStore.Collection.Dict
import RespStore.Text.Glob
import RespStore.Text.Pattern

/-!
# The digest and the matcher of a program

What a server that runs is given: a 64-bit digest, for which each character of a text is mixed in and
spread by a multiplication, and a matcher of glob patterns.
-/

namespace RespStore

namespace Fingerprint

def start : UInt64 := 0xCBF29CE484222325

def mix (h : UInt64) (c : Char) : UInt64 := (h ^^^ c.val.toUInt64) * 0x100000001B3

def ofString (s : String) : UInt64 := s.toList.foldl mix start

instance : Digest String := ⟨ofString⟩

end Fingerprint

instance Glob.instMatcher : Matcher :=
  ⟨fun pattern text => isMatch (Utf8.encode pattern) (Utf8.encode text)⟩

end RespStore
