import Mathlib.Algebra.Order.Field.Power
import Mathlib.Data.Int.Log
import Mathlib.Data.Rat.Floor
import Mathlib.Tactic.FieldSimp
import Mathlib.Tactic.Linarith
import Mathlib.Tactic.NormNum
import Mathlib.Tactic.Positivity
import Mathlib.Tactic.Ring
import RespStore.Number.Binary64.Round

/-!
# The nearest double of a fraction

Rounding depends on nothing but the value: equal fractions round to the same double, and a decimal to the
double nearest to the value that it denotes. The value of a finite double is its own nearest.
-/

namespace RespStore.Binary64

variable {negative : Bool} {m n d k : Nat} {e : Int} {q : ℚ} {x : Binary64}

/-! ## Sign and magnitude -/

theorem signWeight_eq : signWeight = 9223372036854775808 := by decide

theorem hiddenBit_eq : hiddenBit = 4503599627370496 := by decide

theorem infinite_eq : infinite = 9218868437227405312 := by decide

theorem toNat_ofMagnitude (h : m < signWeight) :
    (ofMagnitude negative m).bits.toNat = if negative then signWeight + m else m := by
  rw [signWeight_eq] at h ⊢
  rw [ofMagnitude, UInt64.toNat_ofNat', signWeight_eq]
  refine Nat.mod_eq_of_lt ?_
  split <;> omega

theorem magnitude_ofMagnitude (h : m < signWeight) : (ofMagnitude negative m).magnitude = m := by
  rw [magnitude, toNat_ofMagnitude h]
  cases negative with
  | true => rw [if_pos rfl, Nat.add_mod_left, Nat.mod_eq_of_lt h]
  | false => exact Nat.mod_eq_of_lt h

theorem ofMagnitude_magnitude (x : Binary64) : ofMagnitude x.isNegative x.magnitude = x := by
  have hbits := x.bits.toNat_lt
  refine congrArg Binary64.mk (UInt64.toNat_inj.mp ?_)
  rw [UInt64.toNat_ofNat', isNegative, magnitude, signWeight_eq]
  by_cases hneg : 9223372036854775808 ≤ x.bits.toNat
  · rw [if_pos (decide_eq_true hneg)]
    omega
  · rw [if_neg (by rw [decide_eq_true_iff]; exact hneg)]
    omega

theorem hiddenBit_cast : (hiddenBit : ℚ) = 2 ^ (52 : Int) := by
  rw [hiddenBit_eq]
  norm_num

theorem infinite_lt_signWeight : infinite < signWeight := by decide

/-- The absolute value of a finite number. -/
def value (x : Binary64) : ℚ := x.significand * (2 : ℚ) ^ x.exponent

/-! ## Equal fractions -/

theorem zpow_eq_div {a : ℚ} (ha : a ≠ 0) (e : Int) : a ^ e = a ^ e.toNat / a ^ (-e).toNat := by
  rw [eq_div_iff (pow_ne_zero _ ha), ← zpow_natCast, ← zpow_natCast, ← zpow_add₀ ha]
  congr 1
  omega

/-- Two shifts divide a fraction by a power of two. -/
theorem shift_div (n d : Nat) (e : Int) :
    ((n <<< (-e).toNat : Nat) : ℚ) / ((d <<< e.toNat : Nat) : ℚ) = (n / d : ℚ) / 2 ^ e := by
  rw [Nat.shiftLeft_eq, Nat.shiftLeft_eq, zpow_eq_div two_ne_zero]
  push_cast
  field_simp

theorem shift_pos (hd : d ≠ 0) (k : Nat) : 0 < d <<< k := by
  rw [Nat.shiftLeft_eq]
  exact Nat.mul_pos (Nat.pos_of_ne_zero hd) (Nat.two_pow_pos k)

theorem shift_lt_iff (hd : d ≠ 0) (e : Int) :
    n <<< (-e).toNat < d <<< e.toNat ↔ (n / d : ℚ) < 2 ^ e := by
  have hpos : (0 : ℚ) < (d <<< e.toNat : Nat) := Nat.cast_pos.mpr (shift_pos hd _)
  have hpow : (0 : ℚ) < 2 ^ e := zpow_pos two_pos e
  rw [← Nat.cast_lt (α := ℚ), ← div_lt_one hpos, shift_div, div_lt_one hpow]

/-- A fraction lies within a factor of two of the power that the lengths of its terms tell. -/
theorem lengths_bound (hn : n ≠ 0) (hd : d ≠ 0) :
    (2 : ℚ) ^ ((n.log2 : Int) - d.log2 - 1) ≤ n / d ∧ (n / d : ℚ) < 2 ^ ((n.log2 : Int) - d.log2 + 1) := by
  have hdpos : (0 : ℚ) < d := Nat.cast_pos.mpr (Nat.pos_of_ne_zero hd)
  have hnlow : (2 : ℚ) ^ (n.log2 : Int) ≤ n := by
    rw [zpow_natCast]
    exact_mod_cast Nat.log2_self_le hn
  have hnhigh : (n : ℚ) < 2 ^ ((n.log2 : Int) + 1) := by
    rw [← Nat.cast_succ, zpow_natCast]
    exact_mod_cast Nat.lt_log2_self
  have hdlow : (2 : ℚ) ^ (d.log2 : Int) ≤ d := by
    rw [zpow_natCast]
    exact_mod_cast Nat.log2_self_le hd
  have hdhigh : (d : ℚ) < 2 ^ ((d.log2 : Int) + 1) := by
    rw [← Nat.cast_succ, zpow_natCast]
    exact_mod_cast Nat.lt_log2_self
  constructor
  · rw [le_div_iff₀ hdpos]
    calc (2 : ℚ) ^ ((n.log2 : Int) - d.log2 - 1) * d
        ≤ 2 ^ ((n.log2 : Int) - d.log2 - 1) * 2 ^ ((d.log2 : Int) + 1) := by gcongr
      _ = 2 ^ (n.log2 : Int) := by
        rw [← zpow_add₀ two_ne_zero]
        congr 1
        omega
      _ ≤ n := hnlow
  · rw [div_lt_iff₀ hdpos]
    calc (n : ℚ) < 2 ^ ((n.log2 : Int) + 1) := hnhigh
      _ = 2 ^ ((n.log2 : Int) - d.log2 + 1) * 2 ^ (d.log2 : Int) := by
        rw [← zpow_add₀ two_ne_zero]
        congr 1
        omega
      _ ≤ 2 ^ ((n.log2 : Int) - d.log2 + 1) * d := by gcongr

theorem eq_log_of_bounds (hlow : (2 : ℚ) ^ e ≤ q) (hhigh : q < 2 ^ (e + 1)) : e = Int.log 2 q := by
  have hpos : 0 < q := (zpow_pos two_pos e).trans_le hlow
  have hle := (Int.zpow_le_iff_le_log (b := 2) one_lt_two hpos).mp (by exact_mod_cast hlow)
  have hlt := (Int.lt_zpow_iff_log_lt (b := 2) one_lt_two hpos).mp (by exact_mod_cast hhigh)
  omega

theorem log2Ratio_eq (hn : n ≠ 0) (hd : d ≠ 0) : log2Ratio n d = Int.log 2 (n / d : ℚ) := by
  obtain ⟨hlow, hhigh⟩ := lengths_bound hn hd
  rw [log2Ratio]
  split
  · next hlt =>
    refine eq_log_of_bounds hlow ?_
    rw [sub_add_cancel]
    exact (shift_lt_iff hd _).mp hlt
  · next hge => exact eq_log_of_bounds (not_lt.mp fun hlt => hge ((shift_lt_iff hd _).mpr hlt)) hhigh

theorem roundDiv_mul_left (hk : k ≠ 0) (n d : Nat) : roundDiv (k * n) (k * d) = roundDiv n d := by
  have hpos := Nat.pos_of_ne_zero hk
  have hdouble : 2 * (k * (n % d)) = k * (2 * (n % d)) := Nat.mul_left_comm 2 k (n % d)
  rw [roundDiv, roundDiv, Nat.mul_mod_mul_left, Nat.mul_div_mul_left n d hpos, hdouble]
  simp only [Nat.mul_lt_mul_left hpos]

theorem roundDiv_mul_self (m : Nat) (hd : d ≠ 0) : roundDiv (m * d) d = m := by
  have hpos := Nat.pos_of_ne_zero hd
  rw [roundDiv, Nat.mul_mod_left, Nat.mul_zero, if_pos hpos, Nat.mul_div_cancel m hpos]

theorem le_roundDiv (n d : Nat) : n / d ≤ roundDiv n d := by
  rw [roundDiv]
  split
  · exact Nat.le_refl _
  · split
    · exact Nat.le_succ _
    · exact Nat.le_add_right _ _

theorem roundDiv_of_lt_half (h : 2 * n < d) : roundDiv n d = 0 := by
  have hlt : n < d := by omega
  rw [roundDiv, Nat.mod_eq_of_lt hlt, if_pos h, Nat.div_eq_of_lt hlt]

theorem ofRatio_mul_left (hk : k ≠ 0) (n : Nat) (hd : d ≠ 0) :
    ofRatio negative (k * n) (k * d) = ofRatio negative n d := by
  have hkq : (k : ℚ) ≠ 0 := Nat.cast_ne_zero.mpr hk
  by_cases hn : n = 0
  · rw [hn, Nat.mul_zero, ofRatio, if_pos rfl, ofRatio, if_pos rfl]
  · have hkn : k * n ≠ 0 := Nat.mul_ne_zero hk hn
    have hratio : ((k * n : Nat) / (k * d : Nat) : ℚ) = n / d := by
      push_cast
      exact mul_div_mul_left _ _ hkq
    rw [ofRatio, if_neg hkn, ofRatio, if_neg hn, log2Ratio_eq hkn (Nat.mul_ne_zero hk hd),
      log2Ratio_eq hn hd, hratio]
    simp only [Nat.shiftLeft_eq, Nat.mul_assoc, roundDiv_mul_left hk]

theorem ofRatio_congr {n' d' : Nat} (hd : d ≠ 0) (hd' : d' ≠ 0) (h : (n / d : ℚ) = n' / d') :
    ofRatio negative n d = ofRatio negative n' d' := by
  have hcross : d' * n = d * n' := by
    rw [div_eq_div_iff (Nat.cast_ne_zero.mpr hd) (Nat.cast_ne_zero.mpr hd')] at h
    have hmul : n * d' = n' * d := by exact_mod_cast h
    rw [Nat.mul_comm d', hmul, Nat.mul_comm]
  rw [← ofRatio_mul_left hd' n hd, hcross, Nat.mul_comm d' d, ofRatio_mul_left hd n' hd']

/-- The double nearest to a value that is not negative. -/
def nearest (negative : Bool) (q : ℚ) : Binary64 := ofRatio negative q.num.natAbs q.den

theorem natAbs_div_den (hq : 0 ≤ q) : (q.num.natAbs / q.den : ℚ) = q := by
  rw [← Int.cast_natCast (R := ℚ) q.num.natAbs, Int.natAbs_of_nonneg (Rat.num_nonneg.mpr hq),
    Rat.num_div_den]

theorem ofRatio_eq_nearest (n : Nat) (hd : d ≠ 0) : ofRatio negative n d = nearest negative (n / d) :=
  ofRatio_congr hd (Rat.den_ne_zero _) (natAbs_div_den (by positivity)).symm

theorem nearest_zero (negative : Bool) : nearest negative 0 = ofMagnitude negative 0 := rfl

/-- What rounding comes to, with the step at hand. -/
theorem nearest_of_step (negative : Bool) (hq : 0 < q) (he : max (Int.log 2 q - 52) (-1074) = e) :
    ∃ n d : Nat, d ≠ 0 ∧ (n / d : ℚ) = q / 2 ^ e ∧
      nearest negative q =
        ofMagnitude negative (min (roundDiv n d + (e + 1074).toNat * hiddenBit) infinite) := by
  have hvalue := natAbs_div_den hq.le
  have hne : q.num.natAbs ≠ 0 := Int.natAbs_ne_zero.mpr (Rat.num_pos.mpr hq).ne'
  refine ⟨_, _, (shift_pos q.den_ne_zero _).ne', (shift_div q.num.natAbs q.den e).trans ?_, ?_⟩
  · rw [hvalue]
  · rw [nearest, ofRatio, if_neg hne, log2Ratio_eq hne q.den_ne_zero, hvalue, he]

/-- Beyond the greatest finite doubles. -/
theorem nearest_of_large (h : (2 : ℚ) ^ (1024 : Int) ≤ q) :
    nearest negative q = ofMagnitude negative infinite := by
  have hq : 0 < q := (zpow_pos two_pos _).trans_le h
  have hlog : 1024 ≤ Int.log 2 q :=
    (Int.zpow_le_iff_le_log (b := 2) one_lt_two hq).mp (by exact_mod_cast h)
  obtain ⟨n, d, hd, hratio, hnearest⟩ := nearest_of_step negative hq
    (max_eq_left (by omega : -1074 ≤ Int.log 2 q - 52))
  have hscaled : (hiddenBit : ℚ) ≤ n / d := by
    rw [hratio, le_div_iff₀ (zpow_pos two_pos _), hiddenBit_cast, ← zpow_add₀ two_ne_zero,
      add_sub_cancel]
    exact_mod_cast Int.zpow_log_le_self (b := 2) one_lt_two hq
  have hlow : hiddenBit ≤ n / d := by
    rw [le_div_iff₀ (Nat.cast_pos.mpr (Nat.pos_of_ne_zero hd))] at hscaled
    exact (Nat.le_div_iff_mul_le (Nat.pos_of_ne_zero hd)).mpr (by exact_mod_cast hscaled)
  have hround := hlow.trans (le_roundDiv n d)
  rw [hnearest, Nat.min_eq_right]
  rw [hiddenBit_eq] at hround ⊢
  rw [infinite_eq]
  omega

/-- So near zero that nothing else is nearer. -/
theorem nearest_of_small (hq : 0 ≤ q) (h : q < (2 : ℚ) ^ (-1075 : Int)) :
    nearest negative q = ofMagnitude negative 0 := by
  rcases hq.eq_or_lt with rfl | hpos
  · exact nearest_zero negative
  · have hlog : Int.log 2 q < -1075 :=
      (Int.lt_zpow_iff_log_lt (b := 2) one_lt_two hpos).mp (by exact_mod_cast h)
    obtain ⟨n, d, hd, hratio, hnearest⟩ := nearest_of_step negative hpos
      (max_eq_right (by omega : Int.log 2 q - 52 ≤ -1074))
    have hscaled : (n / d : ℚ) < 2⁻¹ := by
      rw [hratio, div_lt_iff₀ (zpow_pos two_pos _), mul_comm, ← zpow_sub_one₀ two_ne_zero]
      exact h
    have hhalf : 2 * n < d := by
      rw [div_lt_iff₀ (Nat.cast_pos.mpr (Nat.pos_of_ne_zero hd)), lt_inv_mul_iff₀ two_pos] at hscaled
      exact_mod_cast hscaled
    rw [hnearest, roundDiv_of_lt_half hhalf]
    rfl

theorem significand_lt (x : Binary64) : x.significand < 2 * hiddenBit := by
  rw [significand, hiddenBit_eq]
  split <;> omega

theorem hiddenBit_le_significand (h : hiddenBit ≤ x.magnitude) : hiddenBit ≤ x.significand := by
  rw [significand, if_neg (Nat.not_lt.mpr h)]
  omega

theorem exponent_of_lt (h : x.magnitude < hiddenBit) : x.exponent = -1074 := by
  rw [exponent, Nat.div_eq_of_lt h]
  rfl

theorem significand_pos (h : x.magnitude ≠ 0) : 0 < x.significand := by
  rw [significand, hiddenBit_eq]
  split <;> omega

theorem value_pos (h : x.magnitude ≠ 0) : 0 < x.value :=
  mul_pos (Nat.cast_pos.mpr (significand_pos h)) (zpow_pos two_pos _)

/-- The exponent is the step of the doubles around a value. -/
theorem step_value (h : x.magnitude ≠ 0) : max (Int.log 2 x.value - 52) (-1074) = x.exponent := by
  have hpos := value_pos h
  have hpow : (0 : ℚ) < 2 ^ x.exponent := zpow_pos two_pos _
  by_cases hlt : x.magnitude < hiddenBit
  · have hsmall : (x.significand : ℚ) < 2 ^ (52 : Int) := by
      rw [← hiddenBit_cast, significand, if_pos hlt, Nat.add_zero]
      exact Nat.cast_lt.mpr (Nat.mod_lt _ (by decide))
    have hvalue : x.value < 2 ^ (52 + x.exponent) := by
      rw [zpow_add₀ two_ne_zero]
      exact mul_lt_mul_of_pos_right hsmall hpow
    have hlog := (Int.lt_zpow_iff_log_lt (b := 2) one_lt_two hpos).mp (by exact_mod_cast hvalue)
    rw [exponent_of_lt hlt] at hlog ⊢
    omega
  · have hge := Nat.not_lt.mp hlt
    have hlow : (2 : ℚ) ^ (52 + x.exponent) ≤ x.value := by
      rw [zpow_add₀ two_ne_zero, ← hiddenBit_cast]
      exact mul_le_mul_of_nonneg_right (Nat.cast_le.mpr (hiddenBit_le_significand hge)) hpow.le
    have hhigh : x.value < 2 ^ (52 + x.exponent + 1) := by
      rw [zpow_add_one₀ two_ne_zero, zpow_add₀ two_ne_zero, ← hiddenBit_cast, mul_right_comm]
      refine mul_lt_mul_of_pos_right ?_ hpow
      rw [mul_comm]
      exact_mod_cast x.significand_lt
    have hlog := eq_log_of_bounds hlow hhigh
    have hexponent : -1074 ≤ x.exponent := by
      rw [exponent]
      omega
    omega

/-- Significand and exponent are the two parts of a magnitude. -/
theorem magnitude_eq (x : Binary64) :
    x.significand + (x.exponent + 1074).toNat * hiddenBit = x.magnitude := by
  rw [significand, exponent, hiddenBit_eq]
  split <;> omega

theorem nearest_value (h : x.isFinite) : nearest negative x.value = ofMagnitude negative x.magnitude := by
  by_cases hzero : x.magnitude = 0
  · have hvalue : x.value = 0 := by
      rw [value, significand, hzero]
      exact zero_mul _
    rw [hvalue, hzero, nearest_zero]
  · obtain ⟨n, d, hd, hratio, hnearest⟩ := nearest_of_step negative (value_pos hzero)
      (step_value hzero)
    have hexact : n = x.significand * d := by
      rw [value, mul_div_assoc, div_self (zpow_ne_zero _ two_ne_zero), mul_one,
        div_eq_iff (Nat.cast_ne_zero.mpr hd)] at hratio
      exact_mod_cast hratio
    rw [hnearest, hexact, roundDiv_mul_self _ hd, magnitude_eq, Nat.min_eq_left]
    exact (of_decide_eq_true h).le

/-! ## Decimals -/

theorem two_zpow_le_ten_zpow (h : 0 ≤ e) : (2 : ℚ) ^ (3 * e) ≤ 10 ^ e := by
  rw [zpow_mul]
  exact zpow_le_zpow_left₀ h (by norm_num) (by norm_num)

theorem ten_zpow_le_two_zpow (h : e ≤ 0) : (10 : ℚ) ^ e ≤ 2 ^ (3 * e) := by
  have hinv := inv_anti₀ (zpow_pos two_pos _) (two_zpow_le_ten_zpow (Int.neg_nonneg_of_nonpos h))
  rwa [mul_neg, zpow_neg, zpow_neg, inv_inv, inv_inv] at hinv

/-- The two bounds on a decimal leave out nothing but what overflows or vanishes. -/
theorem ofDecimal_eq (negative : Bool) (n : Nat) (e : Int) :
    ofDecimal negative n e = nearest negative (n * 10 ^ e) := by
  by_cases hn : n = 0
  · rw [ofDecimal, if_pos hn, hn, Nat.cast_zero, zero_mul, nearest_zero]
  rw [ofDecimal, if_neg hn]
  split
  · next hlarge =>
    have hone : (1 : ℚ) ≤ n := Nat.one_le_cast.mpr (Nat.pos_of_ne_zero hn)
    refine (nearest_of_large ?_).symm
    calc (2 : ℚ) ^ (1024 : Int) ≤ 2 ^ (3 * e) := zpow_le_zpow_right₀ one_le_two (by omega)
      _ ≤ 10 ^ e := two_zpow_le_ten_zpow (by omega)
      _ ≤ n * 10 ^ e := le_mul_of_one_le_left (by positivity) hone
  · split
    · next hsmall =>
      have hlog : (n : ℚ) < 2 ^ ((n.log2 : Int) + 1) := by
        rw [← Nat.cast_succ, zpow_natCast]
        exact_mod_cast Nat.lt_log2_self
      refine (nearest_of_small (by positivity) ?_).symm
      calc (n : ℚ) * 10 ^ e < 2 ^ ((n.log2 : Int) + 1) * 10 ^ e :=
            mul_lt_mul_of_pos_right hlog (by positivity)
        _ ≤ 2 ^ ((n.log2 : Int) + 1) * 2 ^ (3 * e) :=
            mul_le_mul_of_nonneg_left (ten_zpow_le_two_zpow (by omega)) (by positivity)
        _ = 2 ^ ((n.log2 : Int) + 1 + 3 * e) := (zpow_add₀ two_ne_zero _ _).symm
        _ ≤ 2 ^ (-1075 : Int) := zpow_le_zpow_right₀ one_le_two (by omega)
    · have hten : (10 : ℚ) ≠ 0 := by norm_num
      rw [Nat.pow_eq, Nat.pow_eq, ofRatio_eq_nearest _ (pow_ne_zero _ (by decide))]
      push_cast
      rw [mul_div_assoc, ← zpow_eq_div hten]

/-- The sign plays no part in rounding. -/
theorem nearest_sign (negative : Bool) (q : ℚ) :
    nearest negative q = ofMagnitude negative (nearest false q).magnitude := by
  have hzero : (0 : Nat) < signWeight := by decide
  rw [nearest, nearest, ofRatio, ofRatio]
  split
  · rw [magnitude_ofMagnitude hzero]
  · rw [magnitude_ofMagnitude (Nat.lt_of_le_of_lt (Nat.min_le_right _ _) infinite_lt_signWeight)]

end RespStore.Binary64
