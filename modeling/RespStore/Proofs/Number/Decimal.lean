import RespStore.Number.IntFormat

/-!
# Reading back written numbers
-/

namespace RespStore

namespace Decimal

theorem digit?_digit {d : Nat} (h : d < 10) : digit? (digit d) = some d := by
  have hall : ∀ d : Fin 10, digit? (digit d) = some d.val := by decide
  exact hall ⟨d, h⟩

theorem digitsFrom?_ofNat (n : Nat) : digitsFrom? 0 (ofNat n) = some n := by
  induction n using ofNat.induct with
  | case1 n h =>
    rw [ofNat, if_pos h, digitsFrom?, digit?_digit h]
    simp [digitsFrom?]
  | case2 n h ih =>
    have hd : n % 10 < 10 := Nat.mod_lt n (by decide)
    rw [ofNat, if_neg h, digitsFrom?_append, ih, Option.bind_some, digitsFrom?, digit?_digit hd,
      Option.bind_some, digitsFrom?, Nat.div_add_mod]

/-- The digits of a number, of which there is one at least. -/
theorem exists_ofNat_eq_cons (n : Nat) :
    ∃ b rest, ofNat n = b :: rest ∧ (digit? b).isSome := by
  induction n using ofNat.induct with
  | case1 n h => exact ⟨digit n, [], by rw [ofNat, if_pos h], by rw [digit?_digit h]; rfl⟩
  | case2 n h ih =>
    obtain ⟨b, rest, hb, hd⟩ := ih
    exact ⟨b, rest ++ [digit (n % 10)], by rw [ofNat, if_neg h, hb]; rfl, hd⟩

theorem nat?_ofNat (n : Nat) : nat? (ofNat n) = some n := by
  obtain ⟨b, rest, hb, -⟩ := exists_ofNat_eq_cons n
  rw [← digitsFrom?_ofNat n, hb, nat?_cons]

theorem int?_ofNat (signed : Bool) (n : Nat) : int? signed (ofNat n) = some (n : Int) := by
  obtain ⟨b, rest, hb, hd⟩ := exists_ofNat_eq_cons n
  have hplus : b ≠ Ascii.plus := by
    rintro rfl
    exact absurd hd (by decide)
  have hminus : b ≠ Ascii.minus := by
    rintro rfl
    exact absurd hd (by decide)
  have hint : int? signed (b :: rest) = (nat? (b :: rest)).map Int.ofNat := by
    unfold int?
    split
    · next heq => exact absurd (List.cons.inj heq).1 hplus
    · next heq => exact absurd (List.cons.inj heq).1 hminus
    · rfl
  rw [hb, hint, ← hb, nat?_ofNat]
  rfl

theorem int?_ofInt (n : Int) : int? true (ofInt n) = some n := by
  cases n with
  | ofNat n => exact int?_ofNat true n
  | negSucc n =>
    show (nat? (ofNat (n + 1))).map (fun n => -Int.ofNat n) = _
    rw [nat?_ofNat]
    rfl

theorem digit_ne_cr {d : Nat} (h : d < 10) : digit d ≠ Ascii.cr := by
  have hall : ∀ d : Fin 10, digit d ≠ Ascii.cr := by decide
  exact hall ⟨d, h⟩

/-- No written number holds a carriage return. -/
theorem cr_not_mem_ofNat (n : Nat) : Ascii.cr ∉ ofNat n := by
  induction n using ofNat.induct with
  | case1 n h =>
    rw [ofNat, if_pos h, List.mem_singleton]
    exact (digit_ne_cr h).symm
  | case2 n h ih =>
    rw [ofNat, if_neg h, List.mem_append, List.mem_singleton, not_or]
    exact ⟨ih, (digit_ne_cr (Nat.mod_lt n (by decide))).symm⟩

/-- A number below a power of ten has no more digits than the power says. -/
theorem length_ofNat_le {k n : Nat} (h : n < Nat.pow 10 (k + 1)) : (ofNat n).length ≤ k + 1 := by
  induction k generalizing n with
  | zero =>
    rw [ofNat, if_pos h]
    exact Nat.le_refl 1
  | succ k ih =>
    rw [ofNat]
    split
    · exact Nat.le_add_left 1 (k + 1)
    · have hdiv : n / 10 < Nat.pow 10 (k + 1) := Nat.div_lt_of_lt_mul (by
        rw [Nat.mul_comm]
        exact h)
      rw [List.length_append, List.length_singleton]
      exact Nat.succ_le_succ (ih hdiv)

end Decimal

namespace IntFormat

/-- A written number is read back if the format holds it. -/
theorem parse?_ofNat (f : IntFormat) (n : Nat) : f.parse? (Decimal.ofNat n) = f.check? n := by
  rw [parse?, Decimal.int?_ofNat, Option.bind_some]

theorem int64_parse?_ofInt (n : Int) : int64.parse? (Decimal.ofInt n) = int64.check? n := by
  rw [parse?, show int64.signed = true from rfl, Decimal.int?_ofInt, Option.bind_some]

theorem fits_of_parse? {f : IntFormat} {bs : Bytes} {n : Int} (h : f.parse? bs = some n) :
    f.Fits n := by
  obtain ⟨m, -, hm⟩ := Option.bind_eq_some_iff.mp h
  obtain ⟨rfl, hfits⟩ := check?_eq_some_iff.mp hm
  exact hfits

theorem int64_fits_iff_bounds {n : Int} :
    int64.Fits n ↔ -9223372036854775808 ≤ n ∧ n ≤ 9223372036854775807 := by
  have hleast : int64.least = -9223372036854775808 := by decide
  have hgreatest : int64.greatest = 9223372036854775807 := by decide
  rw [Fits, hleast, hgreatest]

theorem int64_fits_iff {n : Nat} : int64.Fits n ↔ n ≤ 9223372036854775807 := by
  rw [int64_fits_iff_bounds]
  omega

theorem int64_fits_toInt (n : Int64) : int64.Fits n.toInt := by
  have hle := n.le_toInt
  have hlt := n.toInt_lt
  rw [int64_fits_iff_bounds]
  omega

theorem uint64_fits_iff {n : Int} :
    uint64.Fits n ↔ 0 ≤ n ∧ n ≤ 18446744073709551615 := by
  have hleast : uint64.least = 0 := by decide
  have hgreatest : uint64.greatest = 18446744073709551615 := by decide
  rw [Fits, hleast, hgreatest]

theorem int64_fits_neg_toInt {n : Int64} (h : n ≠ Int64.minValue) : int64.Fits (-n.toInt) := by
  have hmin : n.toInt ≠ -9223372036854775808 := fun heq => h (Int64.toInt_inj.mp heq)
  have hle := n.le_toInt
  have hlt := n.toInt_lt
  rw [int64_fits_iff_bounds]
  omega

end IntFormat

theorem readInt64?_ofNat {n : Nat} (h : n ≤ 9223372036854775807) :
    readInt64? (Decimal.ofNat n) = some (Int64.ofInt n) := by
  rw [readInt64?, IntFormat.parse?_ofNat, IntFormat.check?, if_pos (IntFormat.int64_fits_iff.mpr h)]
  rfl

theorem readInt64?_ofNat_of_lt {n : Nat} (h : 9223372036854775807 < n) :
    readInt64? (Decimal.ofNat n) = none := by
  have hfits : ¬IntFormat.int64.Fits n := fun hf => by
    have := IntFormat.int64_fits_iff.mp hf
    omega
  rw [readInt64?, IntFormat.parse?_ofNat, IntFormat.check?, if_neg hfits]
  rfl

theorem toInt_ofInt_of_fits {n : Int} (h : IntFormat.int64.Fits n) : (Int64.ofInt n).toInt = n := by
  obtain ⟨hleast, hgreatest⟩ := IntFormat.int64_fits_iff_bounds.mp h
  exact Int64.toInt_ofInt_of_le hleast (Int.lt_add_one_of_le hgreatest)

theorem readInt64?_eq_some_iff {bs : Bytes} {n : Int64} :
    readInt64? bs = some n ↔ IntFormat.int64.parse? bs = some n.toInt := by
  rw [readInt64?, Option.map_eq_some_iff]
  constructor
  · rintro ⟨m, hm, rfl⟩
    rw [hm, toInt_ofInt_of_fits (IntFormat.fits_of_parse? hm)]
  · intro h
    exact ⟨n.toInt, h, Int64.ofInt_toInt n⟩

end RespStore
