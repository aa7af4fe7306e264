import RespStore.Number.Binary64.Print
import RespStore.Proofs.Number.Binary64.Round
import RespStore.Proofs.Number.Decimal

/-!
# The shortest decimal rounds back

Whatever the search over the grids comes to, it is a decimal that rounds to the number; so is the value
without any rounding, which is taken should the search fail. The point of such a decimal stands at a bounded
distance from its first digit.
-/

namespace RespStore

namespace Decimal

theorem length_ofNat_pos (n : Nat) : 0 < (ofNat n).length := by
  obtain ⟨b, rest, h, -⟩ := exists_ofNat_eq_cons n
  rw [h]
  exact Nat.succ_pos _

/-- As many digits as the power of ten above a number says. -/
theorem lt_pow_length_ofNat (n : Nat) : n < 10 ^ (ofNat n).length := by
  induction n using ofNat.induct with
  | case1 n h =>
    rw [ofNat, if_pos h]
    exact h
  | case2 n h ih =>
    rw [ofNat, if_neg h, List.length_append, List.length_singleton, Nat.pow_succ]
    omega

theorem pow_length_ofNat_le {n : Nat} (hn : n ≠ 0) : 10 ^ (ofNat n).length ≤ 10 * n := by
  induction n using ofNat.induct with
  | case1 n h =>
    rw [ofNat, if_pos h, List.length_singleton]
    omega
  | case2 n h ih =>
    have hdiv : n / 10 ≠ 0 := by omega
    have hstep := ih hdiv
    rw [ofNat, if_neg h, List.length_append, List.length_singleton, Nat.pow_succ]
    omega

end Decimal

namespace Scientific

variable {s : Scientific}

def value (s : Scientific) : ℚ := s.coefficient * (10 : ℚ) ^ s.exponent

theorem ten_ne_zero : (10 : ℚ) ≠ 0 := by norm_num

/-- Zeros at the end go into the exponent. -/
theorem value_trimWith (fuel : Nat) (s : Scientific) : (trimWith fuel s).value = s.value := by
  induction fuel generalizing s with
  | zero => rfl
  | succ fuel ih =>
    rw [trimWith]
    split
    · next h =>
      have hdiv : (s.coefficient : ℚ) = (s.coefficient / 10 : Nat) * 10 := by
        exact_mod_cast (Nat.div_mul_cancel (Nat.dvd_of_mod_eq_zero h)).symm
      rw [ih, value, value, zpow_add_one₀ ten_ne_zero, hdiv]
      ring
    · rfl

/-- A value lies within the powers of ten on the two sides of its first digit. -/
theorem point_bounds (h : s.coefficient ≠ 0) :
    (10 : ℚ) ^ (s.point - 1) ≤ s.value ∧ s.value < 10 ^ s.point := by
  have hpow : (0 : ℚ) < 10 ^ s.exponent := by positivity
  constructor
  · have hlow : (10 : ℚ) ^ (((Decimal.ofNat s.coefficient).length : Int) - 1) ≤ s.coefficient := by
      rw [zpow_sub_one₀ ten_ne_zero, zpow_natCast, mul_inv_le_iff₀ (by norm_num), mul_comm]
      exact_mod_cast Decimal.pow_length_ofNat_le h
    rw [point, add_sub_right_comm, zpow_add₀ ten_ne_zero]
    exact mul_le_mul_of_nonneg_right hlow hpow.le
  · have hhigh : (s.coefficient : ℚ) < 10 ^ ((Decimal.ofNat s.coefficient).length : Int) := by
      rw [zpow_natCast]
      exact_mod_cast Decimal.lt_pow_length_ofNat s.coefficient
    rw [point, zpow_add₀ ten_ne_zero]
    exact mul_lt_mul_of_pos_right hhigh hpow

end Scientific

namespace Binary64

variable {x : Binary64} {c : Nat} {p : Int} {s : Scientific}

theorem readsBack_of_onGrid? (h : x.onGrid? p = some c) : x.readsBack c p = true := by
  unfold onGrid? at h
  dsimp only at h
  split at h
  · next hbelow habove =>
    split at h <;>
    · cases h
      assumption
  · next hbelow habove =>
    cases h
    exact hbelow
  · next hbelow habove =>
    cases h
    exact habove
  · cases h

theorem readsBack_of_searchGrids {steps : Nat} (h : x.searchGrids steps p = some s) :
    x.readsBack s.coefficient s.exponent = true := by
  induction steps generalizing p with
  | zero => cases h
  | succ steps ih =>
    rw [searchGrids] at h
    split at h
    · next c hc =>
      cases h
      exact readsBack_of_onGrid? hc
    · exact ih h

theorem value_exactDecimal (x : Binary64) : x.exactDecimal.value = x.value := by
  have hten : (10 : ℚ) ^ (-((-x.exponent).toNat : Int)) =
      ((2 : ℚ) ^ (-x.exponent).toNat)⁻¹ * ((5 : ℚ) ^ (-x.exponent).toNat)⁻¹ := by
    rw [zpow_neg, zpow_natCast, ← mul_inv, ← mul_pow]
    norm_num
  rw [exactDecimal, Scientific.value_trimWith, Scientific.value, value, hten, zpow_eq_div two_ne_zero,
    Nat.shiftLeft_eq, Nat.pow_eq]
  push_cast
  field_simp

/-- The shortest decimal rounds to the absolute value. -/
theorem nearest_shortest (h : x.isFinite) (negative : Bool) :
    nearest negative x.shortest.value = ofMagnitude negative x.magnitude := by
  suffices hpositive : nearest false x.shortest.value = ofMagnitude false x.magnitude by
    have hlt : x.magnitude < signWeight := (of_decide_eq_true h).trans infinite_lt_signWeight
    rw [nearest_sign, hpositive, magnitude_ofMagnitude hlt]
  rw [shortest]
  cases hsearch : x.searchGrids 22 x.coarsest with
  | none =>
    rw [Option.getD_none, value_exactDecimal]
    exact nearest_value h
  | some s =>
    have hback := of_decide_eq_true (readsBack_of_searchGrids hsearch)
    rw [Option.getD_some, ← hback]
    exact (ofDecimal_eq false s.coefficient s.exponent).symm

/-- What rounds to a finite number that is not zero is neither too large nor too small. -/
theorem bounds_of_nearest {q : ℚ} (hfin : x.isFinite) (hzero : x.magnitude ≠ 0) (hq : 0 ≤ q)
    (h : nearest false q = ofMagnitude false x.magnitude) :
    (2 : ℚ) ^ (-1075 : Int) ≤ q ∧ q < 2 ^ (1024 : Int) := by
  have hlt : x.magnitude < infinite := of_decide_eq_true hfin
  have hmagnitude : (ofMagnitude false x.magnitude).magnitude = x.magnitude :=
    magnitude_ofMagnitude (hlt.trans infinite_lt_signWeight)
  constructor
  · refine not_lt.mp fun hsmall => hzero ?_
    rw [← hmagnitude, ← h, nearest_of_small hq hsmall]
    rfl
  · refine not_le.mp fun hlarge => hlt.ne ?_
    rw [← hmagnitude, ← h, nearest_of_large hlarge, magnitude_ofMagnitude infinite_lt_signWeight]

theorem shortest_coefficient_ne_zero (hfin : x.isFinite) (hzero : x.magnitude ≠ 0) :
    x.shortest.coefficient ≠ 0 := by
  intro hc
  have hvalue : x.shortest.value = 0 := by
    rw [Scientific.value, hc]
    exact zero_mul _
  have hlow := (bounds_of_nearest hfin hzero hvalue.ge (nearest_shortest hfin false)).1
  rw [hvalue] at hlow
  exact absurd hlow (not_le.mpr (zpow_pos two_pos _))

theorem point_shortest (hfin : x.isFinite) (hzero : x.magnitude ≠ 0) :
    -1075 < x.shortest.point ∧ x.shortest.point ≤ 1024 := by
  have hnonneg : 0 ≤ x.shortest.value := by
    rw [Scientific.value]
    positivity
  obtain ⟨hlow, hhigh⟩ := bounds_of_nearest hfin hzero hnonneg (nearest_shortest hfin false)
  obtain ⟨hfirst, hlast⟩ := Scientific.point_bounds (shortest_coefficient_ne_zero hfin hzero)
  constructor
  · refine not_le.mp fun hle => absurd (hlow.trans_lt hlast) (not_lt.mpr ?_)
    exact (ten_zpow_le_two_zpow (by omega)).trans (zpow_le_zpow_right₀ one_le_two (by omega))
  · refine not_lt.mp fun hlt => absurd (hfirst.trans_lt hhigh) (not_lt.mpr ?_)
    exact (zpow_le_zpow_right₀ one_le_two (by omega)).trans (two_zpow_le_ten_zpow (by omega))

end Binary64

end RespStore
