/-!
# Patterns

What matches glob patterns is not laid down here. The texts are like paths: slashes separate their
components, and a star stands for characters of one component.
-/

namespace RespStore

/-- A matcher of glob patterns. Nothing is asked of it to list keys with it. -/
class Matcher where
  isMatch : (pattern text : String) → Bool

/-- The characters that a pattern may give a meaning to. -/
def Matcher.special : List Char := ['*', '?', '[', ']', '{', '}', '\\', '!', ',', '/']

/-- What is known of a matcher, for patterns of characters that are not special with a star behind
them: such a character matches itself, and the star any characters but slashes. -/
class LawfulMatcher [Matcher] : Prop where
  star_iff (text : String) : Matcher.isMatch "*" text = true ↔ '/' ∉ text.toList
  literal_iff {c : Char} {p : String} (hc : c ∉ Matcher.special)
    (hp : ∀ d ∈ p.toList, d ∉ Matcher.special) (text : String) :
    Matcher.isMatch (String.singleton c ++ p ++ "*") text = true ↔
      ∃ rest, text = String.singleton c ++ rest ∧ Matcher.isMatch (p ++ "*") rest = true

end RespStore
