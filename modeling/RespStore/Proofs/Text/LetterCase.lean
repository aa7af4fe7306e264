import RespStore.Proofs.Text.Utf8
import RespStore.Text.LetterCase

/-!
# Command names in lower case

Names are looked up by the lower case of their text and compared by that of their bytes. The two
agree on ASCII names without a k, which is also the lower case of the Kelvin sign.
-/

namespace RespStore

namespace LetterCase

/-! ## ASCII text -/

theorem lowerChar_of_ascii {c : Char} (h : c.toNat < 0x80) : lowerChar c = [c.toLower] := if_pos h

theorem lowerFrom_of_ascii {cs : List Char} (h : ∀ c ∈ cs, c.toNat < 0x80) (before : List Char) :
    lowerFrom before cs = cs.map Char.toLower := by
  induction cs generalizing before with
  | nil => rfl
  | cons c cs ih =>
    obtain ⟨hc, hcs⟩ := List.forall_mem_cons.mp h
    have hsigma : c ≠ 'Σ' := by
      rintro rfl
      exact absurd hc (by decide)
    rw [lowerFrom, if_neg hsigma, lowerChar_of_ascii hc, ih hcs]
    rfl

theorem encode_toLower {c : Char} (h : c.toNat < 0x80) :
    String.utf8EncodeChar c.toLower = (String.utf8EncodeChar c).map Ascii.toLower := by
  have hall : ∀ n : Fin 0x80, String.utf8EncodeChar (Char.ofNat n).toLower =
      (String.utf8EncodeChar (Char.ofNat n)).map Ascii.toLower := by decide +kernel
  have := hall ⟨c.toNat, h⟩
  rwa [Char.ofNat_toNat] at this

/-- The two ways to lower a text agree on ASCII. -/
theorem encode_lower {s : String} (h : ∀ c ∈ s.toList, c.toNat < 0x80) :
    Utf8.encode (lower s) = Bytes.lower (Utf8.encode s) := by
  rw [lower, lowerFrom_of_ascii h, Utf8.encode_ofList, Utf8.encode_eq_flatMap, Bytes.lower]
  generalize s.toList = cs at h
  induction cs with
  | nil => rfl
  | cons c cs ih =>
    obtain ⟨hc, hcs⟩ := List.forall_mem_cons.mp h
    rw [List.map_cons, List.flatMap_cons, List.flatMap_cons, List.map_append, ih hcs,
      encode_toLower hc]

/-! ## Text beyond ASCII -/

/-- A character that is neither ASCII nor the Kelvin sign has no ASCII letter for its lower case,
and the lower case of the Kelvin sign is a k. -/
def Foreign (c : Char) : Prop := 0x80 ≤ c.toNat ∨ c = 'k' ∨ c = '\x00'

theorem lowerRanges_foreign : ∀ r ∈ lowerRanges, 0x80 ≤ r.first ∧
    (0x80 ≤ (r.first : Int) + r.shift ∨ r.first = r.last ∧ (r.first : Int) + r.shift = 0x6B) := by
  decide +kernel

theorem foreign_ofNat {n : Nat} (h : 0x80 ≤ n ∨ n = 0x6B) : Foreign (Char.ofNat n) := by
  by_cases hv : n.isValidChar
  · rcases h with h | rfl
    · left
      rw [Char.ofNat, dif_pos hv]
      exact h
    · right
      left
      decide
  · right
    right
    rw [Char.ofNat, dif_neg hv]
    rfl

theorem foreign_of_find? {c : Char} {r : CaseRange} (hr : lowerRanges.find? (·.maps c) = some r) :
    Foreign (Char.ofNat (c.toNat + r.shift).toNat) := by
  obtain ⟨hfirst, hshift⟩ := lowerRanges_foreign r (List.mem_of_find?_eq_some hr)
  have hmaps : r.maps c = true := List.find?_some (p := fun r : CaseRange => r.maps c) hr
  simp only [CaseRange.maps, Bool.and_eq_true, decide_eq_true_eq] at hmaps
  exact foreign_ofNat (by omega)

theorem exists_foreign_lowerChar {c : Char} (h : 0x80 ≤ c.toNat) : ∃ x ∈ lowerChar c, Foreign x := by
  unfold lowerChar
  rw [if_neg (Nat.not_lt.mpr h)]
  split
  · exact ⟨_, List.mem_cons_of_mem _ List.mem_cons_self, .inl (by decide)⟩
  · split
    · next r hr => exact ⟨_, List.mem_singleton_self _, foreign_of_find? hr⟩
    · exact ⟨c, List.mem_singleton_self c, .inl h⟩

theorem exists_foreign_lowerFrom {cs : List Char} (h : ∃ c ∈ cs, 0x80 ≤ c.toNat)
    (before : List Char) : ∃ x ∈ lowerFrom before cs, Foreign x := by
  induction cs generalizing before with
  | nil => simp at h
  | cons c cs ih =>
    rw [lowerFrom]
    by_cases hc : 0x80 ≤ c.toNat
    · have hhead : ∃ x ∈ (if c = 'Σ' then
          if startsCased before && !startsCased cs then ['ς'] else ['σ']
          else lowerChar c), Foreign x := by
        split
        · split
          · exact ⟨_, List.mem_singleton_self _, .inl (by decide)⟩
          · exact ⟨_, List.mem_singleton_self _, .inl (by decide)⟩
        · exact exists_foreign_lowerChar hc
      obtain ⟨x, hx, hf⟩ := hhead
      exact ⟨x, List.mem_append_left _ hx, hf⟩
    · obtain ⟨d, hd, hlarge⟩ := h
      rcases List.mem_cons.mp hd with rfl | hd
      · exact absurd hlarge hc
      · obtain ⟨x, hx, hf⟩ := ih ⟨d, hd, hlarge⟩ (c :: before)
        exact ⟨x, List.mem_append_right _ hx, hf⟩

/-! ## Line ends -/

theorem Foreign.inert {c : Char} (h : Foreign c) : Bytes.Inert (String.utf8EncodeChar c) := by
  refine Utf8.inert_utf8EncodeChar ?_ ?_
  · rintro rfl
    exact absurd h (by unfold Foreign; decide)
  · rintro rfl
    exact absurd h (by unfold Foreign; decide)

/-- The lower case of a character that ends no line ends no line. -/
theorem inert_lowerChar {c : Char} (hcr : c ≠ '\r') (hlf : c ≠ '\n') :
    Bytes.Inert ((lowerChar c).flatMap String.utf8EncodeChar) := by
  unfold lowerChar
  split
  · next hascii =>
    have hall : ∀ n : Fin 0x80, (Char.ofNat n ≠ '\r' → (Char.ofNat n).toLower ≠ '\r') ∧
        (Char.ofNat n ≠ '\n' → (Char.ofNat n).toLower ≠ '\n') := by decide +kernel
    have hlower := hall ⟨c.toNat, hascii⟩
    rw [Char.ofNat_toNat] at hlower
    rw [List.flatMap_singleton]
    exact Utf8.inert_utf8EncodeChar (hlower.1 hcr) (hlower.2 hlf)
  · split
    · exact ⟨by decide, by decide, by decide⟩
    · split
      · next r hr =>
        rw [List.flatMap_singleton]
        exact (foreign_of_find? hr).inert
      · rw [List.flatMap_singleton]
        exact Utf8.inert_utf8EncodeChar hcr hlf

/-- Lowering a text leaves its line ends where they are. -/
theorem exists_parts_lowerFrom (before cs : List Char) :
    ∃ parts, (lowerFrom before cs).flatMap String.utf8EncodeChar = parts.flatten ∧
      List.Forall₂ Bytes.LikeParts (cs.map String.utf8EncodeChar) parts := by
  induction cs generalizing before with
  | nil => exact ⟨[], rfl, .nil⟩
  | cons c cs ih =>
    obtain ⟨parts, hparts, hlike⟩ := ih (c :: before)
    rw [lowerFrom, List.flatMap_append, hparts]
    refine ⟨_ :: parts, List.flatten_cons.symm, .cons ?_ hlike⟩
    by_cases hcr : c = '\r'
    · subst hcr
      exact .same Ascii.cr
    · by_cases hlf : c = '\n'
      · subst hlf
        exact .same Ascii.lf
      · refine .inert (Utf8.inert_utf8EncodeChar hcr hlf) ?_
        split
        · split
          · exact ⟨by decide, by decide, by decide⟩
          · exact ⟨by decide, by decide, by decide⟩
        · exact inert_lowerChar hcr hlf

theorem isLine_lower (s : String) :
    Bytes.IsLine (Utf8.encode (lower s)) ↔ Bytes.IsLine (Utf8.encode s) := by
  obtain ⟨parts, hparts, hlike⟩ := exists_parts_lowerFrom [] s.toList
  rw [lower, Utf8.encode_ofList, hparts, Utf8.encode_eq_flatMap, List.flatMap_def]
  exact (Bytes.LikeParts.isLine_flatten hlike).symm

/-! ## Names -/

/-- A name in ASCII letters in which no k occurs. -/
def IsName (w : String) : Prop := ∀ c ∈ w.toList, c.toNat < 0x80 ∧ ¬Foreign c

instance (w : String) : Decidable (IsName w) :=
  have (c : Char) : Decidable (Foreign c) := inferInstanceAs (Decidable (_ ∨ _))
  List.decidableBAll _ _

theorem toLower_ascii_iff : ∀ b : UInt8, (Ascii.toLower b).toNat < 0x80 ↔ b.toNat < 0x80 := by
  have hall : ∀ n : Fin 256,
      (Ascii.toLower (UInt8.ofNat n)).toNat < 0x80 ↔ (UInt8.ofNat n).toNat < 0x80 := by
    decide +kernel
  intro b
  have := hall ⟨b.toNat, b.toNat_lt⟩
  rwa [UInt8.ofNat_toNat] at this

theorem lower_eq_iff {w : String} (hw : IsName w) (s : String) :
    lower s = w ↔ Bytes.lower (Utf8.encode s) = Utf8.encode w := by
  constructor
  · rintro rfl
    have hascii : ∀ c ∈ s.toList, c.toNat < 0x80 := by
      intro c hc
      apply Classical.byContradiction
      intro hge
      obtain ⟨x, hx, hf⟩ := exists_foreign_lowerFrom ⟨c, hc, Nat.le_of_not_lt hge⟩ []
      refine (hw x ?_).2 hf
      rwa [lower, String.toList_ofList]
    exact (encode_lower hascii).symm
  · intro h
    have hbytes : ∀ b ∈ Utf8.encode w, b.toNat < 0x80 := by
      intro b hb
      rw [Utf8.encode_eq_flatMap] at hb
      obtain ⟨c, hc, hbc⟩ := List.mem_flatMap.mp hb
      have hc := (hw c hc).1
      rw [Utf8.utf8EncodeChar_of_ascii hc, List.mem_singleton] at hbc
      rw [hbc, UInt8.toNat_ofNat', Nat.mod_eq_of_lt (by omega)]
      exact hc
    have hascii : ∀ c ∈ s.toList, c.toNat < 0x80 := by
      refine Utf8.ascii_of_encode fun b hb => (toLower_ascii_iff b).mp (hbytes _ ?_)
      rw [← h]
      exact List.mem_map_of_mem hb
    apply Utf8.encode_injective
    rw [encode_lower hascii, h]

end LetterCase

end RespStore
