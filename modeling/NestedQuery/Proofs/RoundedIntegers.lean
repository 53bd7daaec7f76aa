import NestedQuery.Proofs.DoubleRanks

/-!
# Integers as doubles

Integers meet doubles as the doubles nearest to them.  Rounding to the nearest
never turns two integers round, so integers keep their order among doubles,
except that several of them may share a double.
-/

namespace NestedQuery

namespace Binary64

/-! ### Rounding -/

/-- A quotient is rounded to the whole number below it or to the next one. -/
theorem Ratio.round_near (q : Ratio) : q.num / q.den ≤ q.round ∧ q.round ≤ q.num / q.den + 1 := by
  unfold Ratio.round
  dsimp only
  split
  · omega
  · split <;> omega

/-- Quotients of one denominator are rounded in their order.  Above the same whole number the rests
decide. -/
theorem Ratio.round_mono {one other den : Nat} (h : one ≤ other) :
    Ratio.round ⟨one, den⟩ ≤ Ratio.round ⟨other, den⟩ := by
  have hbelow : one / den ≤ other / den := Nat.div_le_div_right h
  rcases Nat.lt_or_eq_of_le hbelow with hless | hsame
  · calc Ratio.round ⟨one, den⟩ ≤ one / den + 1 := (Ratio.round_near ⟨one, den⟩).2
      _ ≤ other / den := hless
      _ ≤ Ratio.round ⟨other, den⟩ := (Ratio.round_near ⟨other, den⟩).1
  · have hrest : one % den ≤ other % den := by
      have hone := Nat.div_add_mod one den
      have hother := Nat.div_add_mod other den
      rw [hsame] at hone
      omega
    unfold Ratio.round
    dsimp only
    rw [hsame]
    split_ifs <;> omega

/-- A quotient between two whole numbers is rounded to one between them. -/
theorem Ratio.round_bounds {num den least most : Nat} (hden : 0 < den)
    (hleast : least * den ≤ num) (hmost : num ≤ most * den) :
    least ≤ Ratio.round ⟨num, den⟩ ∧ Ratio.round ⟨num, den⟩ ≤ most := by
  have hself : ∀ n : Nat, Ratio.round ⟨n * den, den⟩ = n := by
    intro n
    refine Ratio.round_of_value (q := ⟨n * den, den⟩) hden ?_
    have hne : (den : ℚ) ≠ 0 := by exact_mod_cast hden.ne'
    rw [Ratio.value]
    push_cast
    exact mul_div_cancel_right₀ _ hne
  have hlow := @Ratio.round_mono _ _ den hleast
  have hhigh := @Ratio.round_mono _ _ den hmost
  rw [hself] at hlow hhigh
  exact ⟨hlow, hhigh⟩

/-! ### Ranks of whole numbers -/

/-- A whole number with `bits` binary digits behind the first, shifted to have 52. -/
theorem scale_nat (n bits : Nat) :
    Ratio.scale ⟨n, 1⟩ 2 (52 - bits) = ⟨n * 2 ^ (52 - bits), 2 ^ (bits - 52)⟩ := by
  unfold Ratio.scale
  by_cases hbits : bits ≤ 52
  · have hup : ((52 : Int) - bits).toNat = 52 - bits := by omega
    have hnone : bits - 52 = 0 := by omega
    rw [if_pos (by omega), hup, hnone]
    rfl
  · have hdown : (-((52 : Int) - bits)).toNat = bits - 52 := by omega
    have hnone : 52 - bits = 0 := by omega
    rw [if_neg (by omega), hdown, hnone, Nat.one_mul, Nat.pow_zero, Nat.mul_one]
    rfl

theorem shift_eq (bits : Nat) : perExponent * 2 ^ (bits - 52) = 2 ^ bits * 2 ^ (52 - bits) := by
  have hper : perExponent = 2 ^ 52 := by norm_num [perExponent]
  rw [hper, ← Nat.pow_add, ← Nat.pow_add]
  congr 1
  omega

/-- The rank of a whole number: its binary digits rounded to 53, under their exponent. -/
theorem rank_nat {n : Nat} (h : n ≠ 0) : Ratio.rank ⟨n, 1⟩ =
    (n.log2 + 1022) * perExponent + Ratio.round ⟨n * 2 ^ (52 - n.log2), 2 ^ (n.log2 - 52)⟩ := by
  unfold Ratio.rank
  dsimp only
  have hexponent : ((n.log2 : Int) - 52 + 1074).toNat = n.log2 + 1022 := by omega
  have hpower : -((n.log2 : Int) - 52) = 52 - n.log2 := by omega
  rw [if_neg h, Ratio.log2_nat h, max_eq_left (by omega), hexponent, hpower, scale_nat]

/-- There are 53 of them, or the next digit is reached. -/
theorem round_digits {n : Nat} (h : n ≠ 0) :
    perExponent ≤ Ratio.round ⟨n * 2 ^ (52 - n.log2), 2 ^ (n.log2 - 52)⟩ ∧
      Ratio.round ⟨n * 2 ^ (52 - n.log2), 2 ^ (n.log2 - 52)⟩ ≤ 2 * perExponent := by
  have hleast : 2 ^ n.log2 ≤ n := Nat.log2_self_le h
  have hmost : n ≤ 2 * 2 ^ n.log2 := by
    rw [Nat.mul_comm, ← Nat.pow_succ]
    exact Nat.le_of_lt Nat.lt_log2_self
  apply Ratio.round_bounds (Nat.pow_pos Nat.two_pos)
  · rw [shift_eq]
    exact Nat.mul_le_mul_right _ hleast
  · rw [Nat.mul_assoc, shift_eq, ← Nat.mul_assoc]
    exact Nat.mul_le_mul_right _ hmost

/-- A greater whole number has no smaller rank. -/
theorem rank_mono {n m : Nat} (h : n ≤ m) : Ratio.rank ⟨n, 1⟩ ≤ Ratio.rank ⟨m, 1⟩ := by
  by_cases hn : n = 0
  · subst hn
    exact Nat.zero_le _
  · have hm : m ≠ 0 := by omega
    have hlog : n.log2 ≤ m.log2 := by
      rw [Nat.le_log2 hm]
      exact (Nat.log2_self_le hn).trans h
    rw [rank_nat hn, rank_nat hm]
    rcases Nat.lt_or_eq_of_le hlog with hless | hsame
    · have hround := (round_digits hn).2
      have hnext := (round_digits hm).1
      have hexponents := Nat.mul_le_mul_right perExponent
        (show n.log2 + 1022 + 1 ≤ m.log2 + 1022 by omega)
      rw [Nat.add_mul, Nat.one_mul] at hexponents
      omega
    · rw [hsame]
      exact Nat.add_le_add_left (Ratio.round_mono (Nat.mul_le_mul_right _ h)) _

/-! ### Integers -/

/-- Where an integer stands among doubles. -/
def integerKey (n : Int) : Int :=
  if n < 0 then -(min (Ratio.rank ⟨n.natAbs, 1⟩) topRank : Nat)
  else (min (Ratio.rank ⟨n.natAbs, 1⟩) topRank : Nat)

theorem orderKey_ofInt (n : Int) : (ofInt n).orderKey = some (integerKey n) := by
  unfold ofInt nearest ofRank orderKey integerKey
  by_cases hnegative : n < 0 <;> simp [hnegative]

/-- Integers keep their order among doubles. -/
theorem integerKey_mono {n m : Int} (h : n ≤ m) : integerKey n ≤ integerKey m := by
  unfold integerKey
  by_cases hn : n < 0
  · by_cases hm : m < 0
    · have hrank := rank_mono (show m.natAbs ≤ n.natAbs by omega)
      rw [if_pos hn, if_pos hm]
      omega
    · rw [if_pos hn, if_neg hm]
      omega
  · have hrank := rank_mono (show n.natAbs ≤ m.natAbs by omega)
    rw [if_neg hn, if_neg (show ¬ m < 0 by omega)]
    omega

/-- A magnitude that is a whole number is one for its double. -/
theorem whole_of_magnitude {negative : Bool} {rank : Fin (topRank + 1)} {n : Nat}
    (hfinite : rank.val ≠ topRank) (h : magnitude rank.val = n) :
    whole? (.signed negative rank) = some (if negative then -(n : Int) else n) := by
  have hne : ((ratio rank.val).den : ℚ) ≠ 0 := by exact_mod_cast (den_ratio rank.val).ne'
  have hnum : (ratio rank.val).num = n * (ratio rank.val).den := by
    rw [← value_ratio, Ratio.value, div_eq_iff hne] at h
    exact_mod_cast h
  unfold whole?
  dsimp only
  rw [if_neg hfinite, hnum, Nat.mul_mod_left, if_pos rfl,
    Nat.mul_div_cancel _ (den_ratio rank.val)]

end Binary64

end NestedQuery
