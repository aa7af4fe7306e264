import Mathlib.Tactic.Set
import RespStore.Proofs.Text.Utf8
import RespStore.Text.Fingerprint

/-!
# Prefix patterns

A pattern of bytes that mean themselves and one star at the end. The machine goes through the
literal bytes side by side with the text. From then on it leaves the star behind, finds the pattern
used up, and goes back to the star one byte further on, until the text is used up as well or a slash
leaves it no place to go back to. This makes it a lawful matcher.
-/

namespace RespStore.Glob

/-- The bytes that a pattern gives a meaning to, besides those that have one only inside braces or
brackets. -/
def special : Bytes :=
  [Ascii.star, Ascii.question, Ascii.openBracket, Ascii.openBrace, Ascii.backslash, Ascii.bang]

/-- A byte that stands for itself. -/
def IsLiteral (b : UInt8) : Prop := b ∉ special

/-- Outside braces, with no double star behind. -/
def plain (path glob : Nat) (wild : Mark) : Machine := ⟨⟨path, glob, wild, .none⟩, [], 0⟩

variable {glob path : Array UInt8} {p g fuel : Nat} {wild : Mark} {negated : Bool}

/-! ## One step -/

theorem advance_literal (path : Array UInt8) (p : Nat) (wild : Mark) {b : UInt8} (hb : IsLiteral b)
    (hg : glob[g]? = some b) :
    advance glob path (plain p g wild) =
      if path[p]? = some b then .next (plain (p + 1) (g + 1) wild)
      else .stuck (plain p g wild) := by
  simp only [IsLiteral, special, List.mem_cons, List.not_mem_nil, or_false, not_or] at hb
  obtain ⟨hstar, hquestion, hbracket, hbrace, hbackslash, -⟩ := hb
  have hbyte : byteAt? glob g = some (b, g) := by simp [byteAt?, hg, hbackslash]
  cases hp : path[p]? with
  | none => simp [advance, plain, hg, hp, hstar]
  | some c =>
    have hread : advance glob path (plain p g wild) = atByte glob c (plain p g wild) := by
      simp [advance, plain, hg, hp, hstar, hquestion, hbracket, hbrace]
    rw [hread]
    by_cases hbc : b = c
    · simp [atByte, plain, hbyte, hbc, Mark.none]
    · simp [atByte, plain, hbyte, hbc, Ne.symm hbc]

/-- A star at the end of the pattern may take the byte at hand, unless that is a slash. -/
theorem advance_star (hg : glob[g]? = some Ascii.star) (hend : glob[g + 1]? = none) :
    advance glob path (plain p g wild) =
      .next (plain p (g + 1) ⟨g, if path[p]? = some Ascii.slash then 0 else p + 1⟩) := by
  by_cases hp : path[p]? = some Ascii.slash <;>
    simp [advance, atStar, plain, hg, hend, hp, Mark.none]

theorem advance_end (hend : glob[g]? = none) :
    advance glob path (plain p g wild) = .stuck (plain p g wild) := by
  simp [advance, plain, hend]

theorem retreat_plain :
    retreat glob path (plain p g wild) =
      if 0 < wild.path ∧ wild.path ≤ path.size then .next (plain wild.path wild.glob wild)
      else .stuck (plain p g wild) := by
  by_cases h : 0 < wild.path ∧ wild.path ≤ path.size <;>
    simp [retreat, Machine.toWild?, plain, h]

/-! ## Runs -/

theorem runWith_of_next {m : Machine} (hin : g < glob.size ∨ p < path.size)
    (h : advance glob path (plain p g wild) = .next m) :
    runWith glob path negated (fuel + 1) (plain p g wild) = runWith glob path negated fuel m := by
  have hin : (plain p g wild).place.glob < glob.size ∨ (plain p g wild).place.path < path.size := hin
  simp only [runWith, if_pos hin, h]

theorem runWith_of_stuck (hin : g < glob.size ∨ p < path.size)
    (h : advance glob path (plain p g wild) = .stuck (plain p g wild)) :
    runWith glob path negated (fuel + 1) (plain p g wild) =
      if 0 < wild.path ∧ wild.path ≤ path.size then
        runWith glob path negated fuel (plain wild.path wild.glob wild)
      else negated := by
  have hin : (plain p g wild).place.glob < glob.size ∨ (plain p g wild).place.path < path.size := hin
  simp only [runWith, if_pos hin, h, retreat_plain]
  by_cases hwild : 0 < wild.path ∧ wild.path ≤ path.size
  · simp only [if_pos hwild]
  · simp only [if_neg hwild]

theorem runWith_used_up (hg : glob.size ≤ g) (hp : path.size ≤ p) :
    runWith glob path negated (fuel + 1) (plain p g wild) = !negated := by
  have hout : ¬((plain p g wild).place.glob < glob.size ∨ (plain p g wild).place.path < path.size) :=
    not_or.mpr ⟨Nat.not_lt.mpr hg, Nat.not_lt.mpr hp⟩
  simp only [runWith, if_neg hout]

/-- From a place within the literal bytes, the machine is through with them if they come next in the
text, and gives up otherwise. -/
theorem runWith_literals (negated : Bool) (fuel : Nat) (before after text : Bytes)
    {literals : Bytes} (hlit : ∀ b ∈ literals, IsLiteral b) :
    runWith (before ++ literals ++ after).toArray (before ++ text).toArray negated
        (literals.length + fuel) (plain before.length before.length .none) =
      if literals <+: text then
        runWith (before ++ literals ++ after).toArray (before ++ text).toArray negated fuel
          (plain (before ++ literals).length (before ++ literals).length .none)
      else negated := by
  induction literals generalizing before text with
  | nil => simp
  | cons b literals ih =>
    obtain ⟨hb, hlit⟩ := List.forall_mem_cons.mp hlit
    have hin : before.length < (before ++ b :: literals ++ after).toArray.size := by simp
    have hget : (before ++ b :: literals ++ after).toArray[before.length]? = some b := by simp
    have hstep := advance_literal (before ++ text).toArray before.length .none hb hget
    rw [List.length_cons, Nat.add_right_comm]
    by_cases hhead : (before ++ text).toArray[before.length]? = some b
    · -- The rest of the literals, one byte further on in pattern and text.
      obtain ⟨text, rfl⟩ : ∃ rest, text = b :: rest := by
        cases text with
        | nil => simp at hhead
        | cons c rest => simpa using hhead
      have hrest := ih (before ++ [b]) text hlit
      rw [runWith_of_next (.inl hin) (hstep.trans (if_pos hhead))]
      simpa [List.prefix_cons_inj] using hrest
    · have hnot : ¬b :: literals <+: text := by
        rintro ⟨rest, rfl⟩
        simp at hhead
      rw [runWith_of_stuck (.inl hin) (hstep.trans (if_neg hhead)), if_neg hnot]
      exact if_neg fun h => Nat.lt_irrefl 0 h.1

/-- From the star at the end of the pattern, the machine comes to the end of the text unless there
is a slash on the way. -/
theorem runWith_star (negated : Bool) (fuel : Nat) (before rest : Bytes) (wild : Mark)
    (hg : glob[g]? = some Ascii.star) (hend : glob.size = g + 1) :
    runWith glob (before ++ rest).toArray negated (2 * rest.length + 2 + fuel)
        (plain before.length g wild) =
      if Ascii.slash ∈ rest then negated else !negated := by
  have hnone : glob[g + 1]? = none := Array.getElem?_eq_none (Nat.le_of_eq hend)
  have hin : g < glob.size := by omega
  induction rest generalizing before wild with
  | nil =>
    rw [show 2 * ([] : Bytes).length + 2 + fuel = fuel + 1 + 1 by simp; omega,
      runWith_of_next (.inl hin) (advance_star hg hnone),
      runWith_used_up (Nat.le_of_eq hend) (by simp)]
    rfl
  | cons b rest ih =>
    have hleft : before.length < (before ++ b :: rest).toArray.size := by simp
    have hbyte : (before ++ b :: rest).toArray[before.length]? = some b := by simp
    rw [show 2 * (b :: rest).length + 2 + fuel = 2 * rest.length + 2 + fuel + 1 + 1 by
        simp only [List.length_cons]; omega,
      runWith_of_next (.inl hin) (advance_star hg hnone),
      runWith_of_stuck (.inr hleft) (advance_end hnone), hbyte]
    by_cases hb : b = Ascii.slash
    · simp [hb]
    · -- Back at the star, with one byte of the text less to go.
      have hback := ih (before ++ [b]) ⟨g, before.length + 1⟩
      simpa [hb, Ne.symm hb] using hback

theorem le_stepBound (glob path : Array UInt8) :
    glob.size + 2 * path.size + 2 ≤ stepBound glob path := by
  set places := (glob.size + 2) * (path.size + 2) with hdef
  have hplaces : glob.size + 2 * path.size + 2 ≤ places := by
    rw [hdef, Nat.add_mul, Nat.mul_add]
    omega
  have hpos : 0 < places * places := Nat.mul_pos (by omega) (by omega)
  calc glob.size + 2 * path.size + 2
      ≤ places := hplaces
    _ ≤ places * places * places := Nat.le_mul_of_pos_left _ hpos

theorem isMatch_eq_runWith {pattern text : Bytes} (h : pattern.head? ≠ some Ascii.bang) :
    isMatch pattern text = runWith pattern.toArray text.toArray false
      (stepBound pattern.toArray text.toArray) (plain 0 0 .none) := by
  have hbangs : pattern.takeWhile (· == Ascii.bang) = [] := by
    cases pattern with
    | nil => rfl
    | cons b pattern => exact List.takeWhile_cons_of_neg (by simpa using h)
  simp only [isMatch, hbangs]
  rfl

/-- The texts that match are those that go on from the literal bytes without a slash. -/
theorem isMatch_star_iff {literals text : Bytes} (hlit : ∀ b ∈ literals, IsLiteral b) :
    isMatch (literals ++ [Ascii.star]) text = true ↔
      ∃ rest, text = literals ++ rest ∧ Ascii.slash ∉ rest := by
  have hbang : (literals ++ [Ascii.star]).head? ≠ some Ascii.bang := by
    cases literals with
    | nil => decide
    | cons b literals =>
      exact fun h => hlit b List.mem_cons_self (Option.some.inj h ▸ by decide)
  obtain ⟨spare, hspare⟩ := Nat.exists_eq_add_of_le
    (le_stepBound (literals ++ [Ascii.star]).toArray text.toArray)
  have hbound : stepBound (literals ++ [Ascii.star]).toArray text.toArray =
      literals.length + (2 * text.length + 2 + (1 + spare)) := by
    rw [hspare]
    simp only [List.size_toArray, List.length_append, List.length_singleton]
    omega
  have hread :=
    runWith_literals false (2 * text.length + 2 + (1 + spare)) [] [Ascii.star] text hlit
  rw [isMatch_eq_runWith hbang, hbound]
  refine (Bool.eq_iff_iff.mp hread).trans ?_
  by_cases hstart : literals <+: text
  · obtain ⟨rest, rfl⟩ := hstart
    -- Steps that the literal bytes have left over.
    have hfuel : 2 * (literals ++ rest).length + 2 + (1 + spare) =
        2 * rest.length + 2 + (2 * literals.length + 1 + spare) := by
      rw [List.length_append]
      omega
    have hstar : (literals ++ [Ascii.star]).toArray[literals.length]? = some Ascii.star := by simp
    have hwalk := runWith_star false (2 * literals.length + 1 + spare) literals rest .none hstar
      (by simp)
    rw [if_pos (List.prefix_append literals rest), hfuel]
    refine (Bool.eq_iff_iff.mp hwalk).trans ?_
    simp
  · have hnone : ¬∃ rest, text = literals ++ rest ∧ Ascii.slash ∉ rest :=
      fun ⟨rest, h, _⟩ => hstart ⟨rest, h.symm⟩
    simp [hstart, hnone]

/-! ## Text -/

theorem isLiteral_of_mem_encode {p : String} (h : ∀ c ∈ p.toList, c ∉ Matcher.special) :
    ∀ b ∈ Utf8.encode p, IsLiteral b := by
  intro b hb hspecial
  have hascii : ∀ b ∈ special, b.toNat < 0x80 ∧ Char.ofNat b.toNat ∈ Matcher.special := by
    decide +kernel
  obtain ⟨hlt, hmem⟩ := hascii b hspecial
  exact h _ ((Utf8.mem_encode_iff hlt).mp hb) hmem

theorem matches_star_iff {p : String} (h : ∀ c ∈ p.toList, c ∉ Matcher.special) (text : String) :
    Matcher.isMatch (p ++ "*") text = true ↔ ∃ rest, text = p ++ rest ∧ '/' ∉ rest.toList := by
  have hslash : ∀ rest, Ascii.slash ∉ Utf8.encode rest ↔ '/' ∉ rest.toList := fun rest =>
    not_congr (Utf8.mem_encode_iff (by decide))
  show isMatch (Utf8.encode (p ++ "*")) (Utf8.encode text) = true ↔ _
  rw [Utf8.encode_append]
  refine (isMatch_star_iff (isLiteral_of_mem_encode h)).trans ⟨?_, ?_⟩
  · rintro ⟨bs, htext, hbs⟩
    obtain ⟨rest, rfl, rfl⟩ := Utf8.exists_append_of_encode htext
    exact ⟨rest, rfl, (hslash rest).mp hbs⟩
  · rintro ⟨rest, rfl, hrest⟩
    exact ⟨Utf8.encode rest, Utf8.encode_append p rest, (hslash rest).mpr hrest⟩

instance instLawfulMatcher : LawfulMatcher where
  star_iff text := by
    have h := matches_star_iff (p := "") (by simp) text
    simpa using h
  literal_iff {c p} hc hp text := by
    have hcp : ∀ d ∈ (String.singleton c ++ p).toList, d ∉ Matcher.special := by
      simpa [or_imp, forall_and] using ⟨hc, hp⟩
    simp only [matches_star_iff hcp, matches_star_iff hp]
    constructor
    · rintro ⟨rest, rfl, hrest⟩
      exact ⟨p ++ rest, String.append_assoc, rest, rfl, hrest⟩
    · rintro ⟨_, rfl, rest, rfl, hrest⟩
      exact ⟨rest, String.append_assoc.symm, hrest⟩

end RespStore.Glob
