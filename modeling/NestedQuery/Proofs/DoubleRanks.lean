import Mathlib.Algebra.Order.Field.Power
import Mathlib.Data.Nat.Log
import Mathlib.Data.Rat.Cast.Order
import Mathlib.Tactic.FieldSimp
import Mathlib.Tactic.Linarith
import Mathlib.Tactic.NormNum
import Mathlib.Tactic.Positivity
import Mathlib.Tactic.Ring
import NestedQuery.Number.Decimal

/-!
# Ranks of doubles

The magnitude of a rank is a rational number, and so are the bounds between
which a number rounds to it.  The bounds of consecutive ranks meet, so no two
ranks have a number in common, and a whole number that is the magnitude of a
rank has that rank.
-/

namespace NestedQuery

namespace Binary64

/-! ### Quotients as rational numbers -/

/-- The rational number of a quotient. -/
def Ratio.value (q : Ratio) : ℚ :=
  q.num / q.den

/-- Scaling leaves the denominator positive. -/
theorem Ratio.den_scale {q : Ratio} (hden : 0 < q.den) {base : Nat} (hbase : 0 < base)
    (power : Int) : 0 < (q.scale base power).den := by
  unfold Ratio.scale
  split
  · exact hden
  · exact Nat.mul_pos hden (Nat.pow_pos hbase)

/-- Scaling multiplies the value by a power of the base. -/
theorem Ratio.value_scale (q : Ratio) {base : Nat} (hbase : 0 < base) (power : Int) :
    (q.scale base power).value = q.value * (base : ℚ) ^ power := by
  have hne : (base : ℚ) ≠ 0 := by positivity
  unfold Ratio.scale
  split
  · next hpower =>
      obtain ⟨n, rfl⟩ := Int.eq_ofNat_of_zero_le hpower
      simp only [Ratio.value, Int.toNat_natCast, Nat.pow_eq, Nat.cast_mul, Nat.cast_pow,
        zpow_natCast]
      ring
  · next hpower =>
      obtain ⟨n, hn⟩ := Int.eq_ofNat_of_zero_le (show 0 ≤ -power by omega)
      obtain rfl : power = -(n : Int) := by omega
      simp only [Ratio.value, neg_neg, Int.toNat_natCast, Nat.pow_eq, Nat.cast_mul, Nat.cast_pow,
        zpow_neg, zpow_natCast]
      rw [div_mul_eq_div_div, div_eq_mul_inv _ ((base : ℚ) ^ n)]

/-- Comparing fractions compares their values. -/
theorem less_iff {a b : Ratio} (ha : 0 < a.den) (hb : 0 < b.den) :
    Decimal.less a b = true ↔ a.value < b.value := by
  have hleft : (0 : ℚ) < a.den := by exact_mod_cast ha
  have hright : (0 : ℚ) < b.den := by exact_mod_cast hb
  rw [Decimal.less, decide_eq_true_iff, Ratio.value, Ratio.value, div_lt_div_iff₀ hleft hright]
  exact_mod_cast Iff.rfl

/-- A whole quotient is rounded to itself. -/
theorem Ratio.round_of_value {q : Ratio} (hden : 0 < q.den) {n : Nat} (h : q.value = n) :
    q.round = n := by
  have hne : (q.den : ℚ) ≠ 0 := by exact_mod_cast hden.ne'
  have hnum : q.num = n * q.den := by
    rw [Ratio.value, div_eq_iff hne] at h
    exact_mod_cast h
  unfold Ratio.round
  rw [hnum, Nat.mul_mod_left, Nat.mul_div_cancel _ hden, Nat.mul_zero]
  exact if_pos hden

/-! ### Magnitudes -/

/-- The number of a finite magnitude. -/
def magnitude (rank : Nat) : ℚ :=
  significand rank * 2 ^ exponent rank

/-- The fraction of a rank has a positive denominator. -/
theorem den_ratio (rank : Nat) : 0 < (ratio rank).den :=
  Ratio.den_scale Nat.one_pos Nat.two_pos _

/-- Its value is the magnitude of the rank. -/
theorem value_ratio (rank : Nat) : (ratio rank).value = magnitude rank := by
  rw [ratio, Ratio.value_scale _ Nat.two_pos, magnitude]
  simp [Ratio.value]

/-- A significand has 53 binary digits at most. -/
theorem significand_lt (rank : Nat) : significand rank < 2 * perExponent := by
  unfold significand perExponent
  split <;> omega

/-- Only the rank zero has the significand zero. -/
theorem significand_pos {rank : Nat} (h : 0 < rank) : 0 < significand rank := by
  unfold significand perExponent
  split <;> omega

theorem exponent_ge (rank : Nat) : -1074 ≤ exponent rank := by
  unfold exponent perExponent
  split <;> omega

/-- From a rank to the next either the significand goes up by one, or it is the greatest, and the
exponent goes up. -/
theorem rank_succ (rank : Nat) :
    significand (rank + 1) = significand rank + 1 ∧ exponent (rank + 1) = exponent rank ∧
        ¬ ((rank + 1) % perExponent = 0 ∧ 2 * perExponent ≤ rank + 1) ∨
      significand rank + 1 = 2 * perExponent ∧ significand (rank + 1) = perExponent ∧
        exponent (rank + 1) = exponent rank + 1 ∧
        (rank + 1) % perExponent = 0 ∧ 2 * perExponent ≤ rank + 1 := by
  unfold significand exponent perExponent
  split <;> split <;> omega

/-! ### Bounds of rounding -/

/-- The upper bound of the numbers that round to a magnitude. -/
def upper (rank : Nat) : ℚ :=
  (2 * significand rank + 1) * 2 ^ (exponent rank - 1)

/-- A power of two is twice the one before it. -/
theorem two_zpow_pred (e : Int) : (2 : ℚ) ^ e = 2 * 2 ^ (e - 1) := by
  rw [zpow_sub_one₀ (by norm_num)]
  ring

/-- The numbers that round to a rank lie between the upper bound of the rank before it and its
own. -/
theorem value_interval (rank : Nat) :
    (Decimal.interval (rank + 1)).1.value = upper rank ∧
      (Decimal.interval (rank + 1)).2.value = upper (rank + 1) := by
  unfold Decimal.interval
  dsimp only
  refine ⟨?_, ?_⟩
  · rcases rank_succ rank with ⟨hsignificand, hexponent, hinner⟩ | ⟨hlast, hfirst, hexponent, hborder⟩
    · rw [if_neg (by simpa using hinner), Ratio.value_scale _ Nat.two_pos, upper, hexponent,
        hsignificand]
      have hnat : 2 * (significand rank + 1) - 1 = 2 * significand rank + 1 := by omega
      simp [Ratio.value, hnat]
    · rw [if_pos (by simpa using hborder), Ratio.value_scale _ Nat.two_pos, upper, hexponent,
        hfirst]
      have hnat : 4 * perExponent - 1 = 2 * significand rank + 1 := by omega
      have hshift : exponent rank + 1 - 2 = exponent rank - 1 := by omega
      simp [Ratio.value, hnat, hshift]
  · rw [Ratio.value_scale _ Nat.two_pos, upper]
    simp [Ratio.value]

/-- Both bounds of the interval of a rank have positive denominators. -/
theorem den_interval (rank : Nat) :
    0 < (Decimal.interval rank).1.den ∧ 0 < (Decimal.interval rank).2.den := by
  unfold Decimal.interval
  dsimp only
  refine ⟨?_, Ratio.den_scale Nat.one_pos Nat.two_pos _⟩
  split <;> exact Ratio.den_scale Nat.one_pos Nat.two_pos _

/-- A magnitude lies between its bounds, which are apart by more than the magnitude divided by
`10 ^ 16`. -/
theorem magnitude_bounds (rank : Nat) :
    upper rank < magnitude (rank + 1) ∧ magnitude (rank + 1) < upper (rank + 1) ∧
      magnitude (rank + 1) < 10 ^ 16 * (upper (rank + 1) - upper rank) := by
  have hpower : (0 : ℚ) < 2 ^ (exponent rank - 1) := by positivity
  rcases rank_succ rank with ⟨hsignificand, hexponent, -⟩ | ⟨hlast, hfirst, hexponent, -⟩
  · have hsmall : ((significand (rank + 1) : Nat) : ℚ) < 10 ^ 16 := by
      have := significand_lt (rank + 1)
      exact_mod_cast this.trans (by norm_num [perExponent])
    rw [magnitude, upper, upper, hexponent, two_zpow_pred (exponent rank)]
    have hcast : ((significand (rank + 1) : Nat) : ℚ) = significand rank + 1 := by
      exact_mod_cast congrArg Nat.cast hsignificand
    refine ⟨?_, ?_, ?_⟩ <;> nlinarith
  · have hmost : (2 * significand rank + 1 : ℚ) = 4 * perExponent - 1 := by
      have : 2 * significand rank + 1 + 1 = 4 * perExponent := by omega
      have hcast : (2 * significand rank + 1 + 1 : ℚ) = 4 * perExponent := by exact_mod_cast this
      linarith
    have hshift : exponent rank + 1 - 1 = (exponent rank - 1) + 1 := by omega
    rw [magnitude, upper, upper, hexponent, hfirst, hmost, two_zpow_pred (exponent rank + 1), hshift,
      zpow_add_one₀ (by norm_num)]
    have hper : ((perExponent : Nat) : ℚ) = 4503599627370496 := by norm_num [perExponent]
    rw [hper]
    refine ⟨?_, ?_, ?_⟩ <;> nlinarith

/-- The upper bounds grow with the ranks. -/
theorem upper_strictMono : StrictMono upper :=
  strictMono_nat_of_lt_succ fun rank =>
    (magnitude_bounds rank).1.trans (magnitude_bounds rank).2.1

/-! ### Whole magnitudes -/

/-- The exponent of a whole number is the place of its first binary digit. -/
theorem Ratio.log2_nat {n : Nat} (h : n ≠ 0) : Ratio.log2 ⟨n, 1⟩ = n.log2 := by
  have hlog : (1 : Nat).log2 = 0 := by decide
  unfold Ratio.log2
  dsimp only
  rw [hlog]
  have hscale : Ratio.scale ⟨1, 1⟩ 2 ((n.log2 : Int) - (0 : Nat)) = ⟨2 ^ n.log2, 1⟩ := by
    simp [Ratio.scale]
  rw [hscale, if_pos]
  · simp
  · simpa using Nat.log2_self_le h

/-- The exponent of a whole magnitude is that of its first binary digit. -/
theorem exponent_of_magnitude {n rank : Nat} (h : magnitude rank = n) (hne : n ≠ 0) :
    perExponent ≤ rank ∧ (n.log2 : Int) = exponent rank + 52 := by
  have htwo : (1 : ℚ) < 2 := by norm_num
  have hscale : ∀ e : Int, (2 : ℚ) ^ (e + 52) = 4503599627370496 * 2 ^ e := by
    intro e
    rw [zpow_add₀ (by norm_num)]
    norm_num
    ring
  have hpower : ∀ e : Int, (0 : ℚ) < 2 ^ e := fun e => by positivity
  have hone : (1 : ℚ) ≤ magnitude rank := by
    rw [h]
    exact_mod_cast Nat.one_le_iff_ne_zero.mpr hne
  have hnormal : perExponent ≤ rank := by
    by_contra hsmall
    have hrank : rank < perExponent := Nat.lt_of_not_le hsmall
    have hmagnitude : magnitude rank = rank * (2 : ℚ) ^ (-1074 : Int) := by
      rw [magnitude, significand, exponent, if_pos hrank, if_pos hrank]
    have hlarge : (rank : ℚ) < 4503599627370496 := by exact_mod_cast hrank
    have htiny : (2 : ℚ) ^ (-1022 : Int) ≤ 1 := zpow_le_one_of_nonpos₀ htwo.le (by norm_num)
    have hsplit := hscale (-1074)
    norm_num only at hsplit
    have := hpower (-1074)
    nlinarith
  refine ⟨hnormal, ?_⟩
  have hlow : ((perExponent : Nat) : ℚ) ≤ significand rank := by
    rw [significand, if_neg (Nat.not_lt.mpr hnormal)]
    exact_mod_cast Nat.le_add_right _ _
  have hhigh : ((significand rank : Nat) : ℚ) < 2 * (perExponent : Nat) := by
    exact_mod_cast significand_lt rank
  have hper : ((perExponent : Nat) : ℚ) = 4503599627370496 := by norm_num [perExponent]
  rw [hper] at hlow hhigh
  have hexp := hpower (exponent rank)
  have hself : (2 : ℚ) ^ (n.log2 : Int) ≤ n := by
    rw [zpow_natCast]
    exact_mod_cast Nat.log2_self_le hne
  have hnext : (n : ℚ) < 2 ^ ((n.log2 : Int) + 1) := by
    have : n < 2 ^ (n.log2 + 1) := Nat.lt_log2_self
    exact_mod_cast this
  rw [← h, magnitude] at hself hnext
  have habove : (2 : ℚ) ^ (exponent rank + 52) < 2 ^ ((n.log2 : Int) + 1) := by
    rw [hscale]
    exact lt_of_le_of_lt (mul_le_mul_of_nonneg_right hlow hexp.le) hnext
  have hbelow : (2 : ℚ) ^ (n.log2 : Int) < 2 ^ (exponent rank + 53) := by
    have hdouble : (2 : ℚ) ^ (exponent rank + 53) = 2 * 4503599627370496 * 2 ^ exponent rank := by
      rw [show exponent rank + 53 = exponent rank + 52 + 1 by ring, zpow_add_one₀ (by norm_num),
        hscale]
      ring
    rw [hdouble]
    exact lt_of_le_of_lt hself (mul_lt_mul_of_pos_right hhigh hexp)
  have hleft := (zpow_lt_zpow_iff_right₀ htwo).mp habove
  have hright := (zpow_lt_zpow_iff_right₀ htwo).mp hbelow
  omega

/-- A whole number has the rank of which it is the magnitude. -/
theorem rank_of_magnitude {n rank : Nat} (h : magnitude rank = n) : Ratio.rank ⟨n, 1⟩ = rank := by
  by_cases hne : n = 0
  · subst hne
    have hzero : rank = 0 := by
      by_contra hpos
      have hsignificand : (0 : ℚ) < significand rank := by
        exact_mod_cast significand_pos (Nat.pos_of_ne_zero hpos)
      have : (0 : ℚ) < magnitude rank := mul_pos hsignificand (by positivity)
      rw [h] at this
      norm_num at this
    rw [hzero]
    rfl
  · obtain ⟨hnormal, hlog⟩ := exponent_of_magnitude h hne
    have hgreatest : max (exponent rank) (-1074) = exponent rank := max_eq_left (exponent_ge rank)
    have hround : (Ratio.scale ⟨n, 1⟩ 2 (-exponent rank)).round = significand rank := by
      refine Ratio.round_of_value (Ratio.den_scale Nat.one_pos Nat.two_pos _) ?_
      rw [Ratio.value_scale _ Nat.two_pos]
      have hvalue : Ratio.value ⟨n, 1⟩ = magnitude rank := by
        rw [h]
        simp [Ratio.value]
      rw [hvalue, magnitude, mul_assoc]
      push_cast
      rw [← zpow_add₀ (by norm_num), add_neg_cancel, zpow_zero, mul_one]
    unfold Ratio.rank
    dsimp only
    rw [if_neg hne, Ratio.log2_nat hne, hlog, add_sub_cancel_right, hgreatest, hround]
    unfold exponent significand perExponent at *
    rw [if_neg (Nat.not_lt.mpr hnormal), if_neg (Nat.not_lt.mpr hnormal)]
    omega

end Binary64

end NestedQuery
