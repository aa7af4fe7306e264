import RespStore.Proofs.Bytes
import RespStore.Text.Utf8

/-!
# The bytes of text

ASCII bytes stand for their characters alone, and the characters of a text can be told from its
bytes one after the other. So a text that starts with the bytes of another text starts with that
text.
-/

namespace RespStore

namespace Utf8

theorem encode_eq_flatMap (s : String) : encode s = s.toList.flatMap String.utf8EncodeChar := by
  have h : s.toUTF8 = s.toList.utf8Encode := String.utf8Encode_toList.symm
  rw [encode, h, List.utf8Encode]
  simp

theorem encode_ofList (cs : List Char) :
    encode (String.ofList cs) = cs.flatMap String.utf8EncodeChar := by
  rw [encode_eq_flatMap, String.toList_ofList]

theorem encode_append (s t : String) : encode (s ++ t) = encode s ++ encode t := by
  rw [encode_eq_flatMap, encode_eq_flatMap, encode_eq_flatMap, String.toList_append,
    List.flatMap_append]

theorem encode_injective {s t : String} (h : encode s = encode t) : s = t := by
  have hs := decode?_encode s
  rw [h, decode?_encode] at hs
  exact (Option.some.inj hs).symm

theorem utf8EncodeChar_of_ascii {c : Char} (h : c.toNat < 0x80) :
    String.utf8EncodeChar c = [UInt8.ofNat c.toNat] := if_pos (Nat.le_of_lt_succ h)

/-- A character beyond ASCII is written with bytes beyond ASCII. -/
theorem le_of_mem_utf8EncodeChar {c : Char} {b : UInt8} (h : 0x80 ≤ c.toNat)
    (hb : b ∈ String.utf8EncodeChar c) : 0x80 ≤ b.toNat := by
  have hbyte : ∀ n, 0x80 ≤ n → n < 256 → 0x80 ≤ (UInt8.ofNat n).toNat := by
    intro n hn hlt
    rw [UInt8.toNat_ofNat', Nat.mod_eq_of_lt hlt]
    exact hn
  unfold String.utf8EncodeChar at hb
  dsimp only at hb
  rw [if_neg (show ¬c.val.toNat ≤ 0x7f from Nat.not_le.mpr h)] at hb
  split at hb
  · simp only [List.mem_cons, List.not_mem_nil, or_false] at hb
    rcases hb with rfl | rfl <;> exact hbyte _ (by omega) (by omega)
  · split at hb
    · simp only [List.mem_cons, List.not_mem_nil, or_false] at hb
      rcases hb with rfl | rfl | rfl <;> exact hbyte _ (by omega) (by omega)
    · simp only [List.mem_cons, List.not_mem_nil, or_false] at hb
      rcases hb with rfl | rfl | rfl | rfl <;> exact hbyte _ (by omega) (by omega)

/-- An ASCII byte is written for its character alone. -/
theorem eq_of_mem_utf8EncodeChar {c : Char} {b : UInt8} (hb : b.toNat < 0x80)
    (h : b ∈ String.utf8EncodeChar c) : c = Char.ofNat b.toNat := by
  have hc : c.toNat < 0x80 := Nat.lt_of_not_le fun hle =>
    absurd (le_of_mem_utf8EncodeChar hle h) (Nat.not_le.mpr hb)
  rw [utf8EncodeChar_of_ascii hc, List.mem_singleton] at h
  rw [h, UInt8.toNat_ofNat', Nat.mod_eq_of_lt (by omega), Char.ofNat_toNat]

theorem toNat_ofNat_of_ascii {n : Nat} (h : n < 0x80) : (Char.ofNat n).toNat = n := by
  rw [Char.ofNat, dif_pos (Or.inl (by omega))]
  rfl

/-- The bytes of a text hold an ASCII byte where the text holds its character. -/
theorem mem_encode_iff {s : String} {b : UInt8} (hb : b.toNat < 0x80) :
    b ∈ encode s ↔ Char.ofNat b.toNat ∈ s.toList := by
  rw [encode_eq_flatMap, List.mem_flatMap]
  constructor
  · rintro ⟨c, hc, hmem⟩
    exact eq_of_mem_utf8EncodeChar hb hmem ▸ hc
  · intro hc
    have hchar := toNat_ofNat_of_ascii hb
    refine ⟨_, hc, ?_⟩
    rw [utf8EncodeChar_of_ascii (by rwa [hchar]), hchar, UInt8.ofNat_toNat]
    exact List.mem_singleton_self b

/-- What follows the bytes of a text at the front of another one are the bytes of its rest. -/
theorem exists_append_of_encode {s t : String} {bs : Bytes} (h : encode s = encode t ++ bs) :
    ∃ rest, s = t ++ rest ∧ encode rest = bs := by
  have hbytes : t.toList.utf8Encode ++ ⟨bs.toArray⟩ = s.toList.utf8Encode := by
    rw [String.utf8Encode_toList, String.utf8Encode_toList]
    refine ByteArray.ext (Array.toList_inj.mp ?_)
    rw [ByteArray.toList_data_append]
    exact h.symm
  obtain ⟨cs, hcs⟩ := List.isPrefix_of_utf8Encode_append_eq_utf8Encode _ hbytes
  have hs : s = t ++ String.ofList cs := by
    rw [← String.toList_inj, String.toList_append, String.toList_ofList, hcs]
  refine ⟨String.ofList cs, hs, ?_⟩
  rw [hs, encode_append] at h
  exact List.append_cancel_left h

theorem inert_utf8EncodeChar {c : Char} (hcr : c ≠ '\r') (hlf : c ≠ '\n') :
    Bytes.Inert (String.utf8EncodeChar c) where
  ne_nil := String.utf8EncodeChar_ne_nil
  cr := fun h => hcr (eq_of_mem_utf8EncodeChar (by decide) h)
  lf := fun h => hlf (eq_of_mem_utf8EncodeChar (by decide) h)

/-- Text is ASCII if its bytes are. -/
theorem ascii_of_encode {s : String} (h : ∀ b ∈ encode s, b.toNat < 0x80) :
    ∀ c ∈ s.toList, c.toNat < 0x80 := by
  intro c hc
  apply Classical.byContradiction
  intro hge
  obtain ⟨b, hb⟩ := List.exists_mem_of_ne_nil _ (String.utf8EncodeChar_ne_nil)
  have hmem : b ∈ encode s := by
    rw [encode_eq_flatMap]
    exact List.mem_flatMap.mpr ⟨c, hc, hb⟩
  have hlarge := le_of_mem_utf8EncodeChar (Nat.le_of_not_lt hge) hb
  exact absurd (h b hmem) (Nat.not_lt.mpr hlarge)

end Utf8

end RespStore
