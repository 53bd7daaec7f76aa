import NestedQuery.Proofs.DigitTexts
import NestedQuery.Proofs.DoubleRanks

/-!
# Texts of doubles

Seventeen digits always lie between the bounds of a magnitude: on that grid the
step is smaller than the distance of the bounds.  So the search for the fewest
digits ends, its digits round to the magnitude, and their text tells which one
it is.
-/

namespace NestedQuery

open Binary64

namespace Decimal

/-! ### Decimals -/

/-- The number of a decimal. -/
def Digits.value (d : Digits) : ℚ :=
  d.digits * 10 ^ d.power

/-- Leaving out zeros at the end does not change a decimal. -/
theorem Digits.value_trim : ∀ (steps : Nat) (d : Digits), (d.trim steps).value = d.value
  | 0, d => rfl
  | steps + 1, d => by
      rw [Digits.trim]
      split
      · next hzero =>
          rw [Digits.value_trim steps]
          have hdigits : ((d.digits / 10 : Nat) : ℚ) * 10 = d.digits := by
            exact_mod_cast Nat.div_mul_cancel (Nat.dvd_of_mod_eq_zero hzero.2)
          rw [Digits.value, Digits.value, zpow_add_one₀ (by norm_num), ← hdigits]
          ring
      · rfl

/-- A decimal hits a magnitude if it lies between its bounds, which belong to the even ranks. -/
theorem hits_iff (rank : Nat) (d : Digits) :
    hits (rank + 1) d = true ↔
      if (rank + 1) % 2 = 0 then upper rank ≤ d.value ∧ d.value ≤ upper (rank + 1)
      else upper rank < d.value ∧ d.value < upper (rank + 1) := by
  have hdecimal : 0 < (Ratio.scale ⟨d.digits, 1⟩ 10 d.power).den :=
    Ratio.den_scale Nat.one_pos (by decide) _
  have hvalue : (Ratio.scale ⟨d.digits, 1⟩ 10 d.power).value = d.value := by
    rw [Ratio.value_scale _ (by decide)]
    simp [Ratio.value, Digits.value]
  obtain ⟨hlow, hhigh⟩ := den_interval (rank + 1)
  obtain ⟨hlower, hupper⟩ := value_interval rank
  unfold hits
  dsimp only
  split
  · rw [Bool.and_eq_true, Bool.not_eq_true', Bool.not_eq_true', Bool.eq_false_iff,
      Bool.eq_false_iff, Ne, Ne, less_iff hdecimal hlow, less_iff hhigh hdecimal, not_lt, not_lt,
      hvalue, hlower, hupper]
  · rw [Bool.and_eq_true, less_iff hlow hdecimal, less_iff hdecimal hhigh, hvalue, hlower, hupper]

/-- No number hits two magnitudes.  Where the bounds of two magnitudes meet, they belong to one of
the two only. -/
theorem hits_unique {one other : Nat} {d e : Digits} (hvalue : d.value = e.value)
    (hone : hits (one + 1) d = true) (hother : hits (other + 1) e = true) : one = other := by
  have hless : ∀ {low high : Nat} {d e : Digits}, d.value = e.value → hits (low + 1) d = true →
      hits (high + 1) e = true → ¬ low < high := by
    intro low high d e hvalue hlow hhigh hlt
    rw [hits_iff] at hlow hhigh
    have hbetween : upper (low + 1) ≤ upper high := upper_strictMono.monotone hlt
    by_cases hnext : low + 1 = high
    · subst hnext
      split at hlow <;> split at hhigh
      · omega
      all_goals linarith [hlow.2, hhigh.1]
    · have hstrict : upper (low + 1) < upper high := upper_strictMono (by omega)
      split at hlow <;> split at hhigh <;> linarith [hlow.2, hhigh.1]
  rcases Nat.lt_trichotomy one other with hlt | heq | hgt
  · exact absurd hlt (hless hvalue hone hother)
  · exact heq
  · exact absurd hgt (hless hvalue.symm hother hone)

/-! ### Powers of ten below a quotient -/

/-- The power of two of its exponent is no more than a fraction. -/
theorem pow_log2_le {q : Ratio} (hnum : q.num ≠ 0) (hden : 0 < q.den) :
    (2 : ℚ) ^ q.log2 ≤ q.value := by
  have hpos : (0 : ℚ) < q.den := by exact_mod_cast hden
  unfold Ratio.log2
  dsimp only
  split
  · next hfits =>
      have hscale := Ratio.value_scale ⟨1, 1⟩ Nat.two_pos ((q.num.log2 : Int) - q.den.log2)
      have hscaled := Ratio.den_scale (q := ⟨1, 1⟩) Nat.one_pos Nat.two_pos
        ((q.num.log2 : Int) - q.den.log2)
      have hscaledPos : (0 : ℚ) < (Ratio.scale ⟨1, 1⟩ 2 ((q.num.log2 : Int) - q.den.log2)).den := by
        exact_mod_cast hscaled
      have hone : (2 : ℚ) ^ ((q.num.log2 : Int) - q.den.log2) =
          (Ratio.scale ⟨1, 1⟩ 2 ((q.num.log2 : Int) - q.den.log2)).value := by
        rw [hscale]
        simp [Ratio.value]
      rw [hone, Ratio.value, Ratio.value, div_le_div_iff₀ hscaledPos hpos]
      exact_mod_cast hfits
  · have hlow : (2 : ℚ) ^ (q.num.log2 : Int) ≤ q.num := by
      rw [zpow_natCast]
      exact_mod_cast Nat.log2_self_le hnum
    have hhigh : (q.den : ℚ) ≤ 2 ^ ((q.den.log2 : Int) + 1) := by
      have : q.den < 2 ^ (q.den.log2 + 1) := Nat.lt_log2_self
      exact_mod_cast this.le
    have hsplit : (2 : ℚ) ^ ((q.num.log2 : Int) - q.den.log2 - 1) * 2 ^ ((q.den.log2 : Int) + 1) =
        2 ^ (q.num.log2 : Int) := by
      rw [← zpow_add₀ (by norm_num)]
      congr 1
      ring
    rw [Ratio.value, le_div_iff₀ hpos]
    calc (2 : ℚ) ^ ((q.num.log2 : Int) - q.den.log2 - 1) * q.den
        ≤ 2 ^ ((q.num.log2 : Int) - q.den.log2 - 1) * 2 ^ ((q.den.log2 : Int) + 1) :=
          mul_le_mul_of_nonneg_left hhigh (by positivity)
      _ = 2 ^ (q.num.log2 : Int) := hsplit
      _ ≤ q.num := hlow

/-- Powers compare as far as two known ones do. -/
theorem pow_le_pow_of_ratio {a b p q m n : Nat} (ha : 0 < a) (hq : q ≠ 0) (hbase : a ^ p ≤ b ^ q)
    (h : q * m ≤ p * n) : a ^ m ≤ b ^ n := by
  have hroot : (a ^ m) ^ q ≤ (b ^ n) ^ q := by
    calc (a ^ m) ^ q = a ^ (q * m) := by rw [← pow_mul, Nat.mul_comm]
      _ ≤ a ^ (p * n) := Nat.pow_le_pow_right ha h
      _ = (a ^ p) ^ n := pow_mul _ _ _
      _ ≤ (b ^ q) ^ n := Nat.pow_le_pow_left hbase n
      _ = (b ^ n) ^ q := pow_right_comm _ _ _
  exact (Nat.pow_le_pow_iff_left hq).mp hroot

/-- The factor by which powers of two are turned into powers of ten. -/
theorem two_pow_between : (10 : Nat) ^ 1233 ≤ 2 ^ 4096 ∧ (2 : Nat) ^ 4096 ≤ 10 ^ 1234 := by
  decide +kernel

/-- A power of two is at least the power of ten that the factor gives, or the one below. -/
theorem pow_guess_le {power : Int} (hpower : -4096 ≤ power) :
    (10 : ℚ) ^ (power * 1233 / 4096 - 1) ≤ 2 ^ power := by
  obtain ⟨hten, htwo⟩ := two_pow_between
  have hguess := Int.mul_ediv_add_emod (power * 1233) 4096
  have hrest := Int.emod_nonneg (power * 1233) (show (4096 : Int) ≠ 0 by decide)
  generalize power * 1233 / 4096 = guess at hguess ⊢
  by_cases hsign : 0 ≤ guess - 1
  · obtain ⟨m, hm⟩ := Int.eq_ofNat_of_zero_le hsign
    obtain ⟨n, rfl⟩ := Int.eq_ofNat_of_zero_le (show 0 ≤ power by omega)
    have hpowers : 4096 * m ≤ 1233 * n := by omega
    have hpow : 10 ^ m ≤ 2 ^ n := pow_le_pow_of_ratio (by decide) (by decide) hten hpowers
    rw [hm, zpow_natCast, zpow_natCast]
    exact_mod_cast hpow
  · obtain ⟨m, hm⟩ := Int.eq_ofNat_of_zero_le (show 0 ≤ -(guess - 1) by omega)
    have hminus : guess - 1 = -(m : Int) := by omega
    by_cases hpositive : 0 ≤ power
    · rw [hminus]
      exact (zpow_le_one_of_nonpos₀ (by norm_num) (by omega)).trans
        (one_le_zpow₀ (by norm_num) hpositive)
    · obtain ⟨n, hn⟩ := Int.eq_ofNat_of_zero_le (show 0 ≤ -power by omega)
      obtain rfl : power = -(n : Int) := by omega
      have hpowers : 1234 * n ≤ 4096 * m := by omega
      have hpow : 2 ^ n ≤ 10 ^ m := pow_le_pow_of_ratio (by decide) (by decide) htwo hpowers
      rw [hminus, zpow_neg, zpow_neg, zpow_natCast, zpow_natCast]
      exact inv_anti₀ (by positivity) (by exact_mod_cast hpow)

/-- The power of ten that is found for a quotient does not exceed it. -/
theorem pow_log10_le {q : Ratio} (hnum : q.num ≠ 0) (hden : 0 < q.den) (hlog : -4096 ≤ q.log2) :
    (10 : ℚ) ^ log10 q ≤ q.value := by
  have hbelow : ∀ k : Int, (!less q (Ratio.scale ⟨1, 1⟩ 10 k)) = true → (10 : ℚ) ^ k ≤ q.value := by
    intro k hk
    have hscaled : 0 < (Ratio.scale ⟨1, 1⟩ 10 k).den := Ratio.den_scale Nat.one_pos (by decide) k
    rw [Bool.not_eq_true', Bool.eq_false_iff, Ne, less_iff hden hscaled, not_lt,
      Ratio.value_scale _ (by decide)] at hk
    simpa [Ratio.value] using hk
  unfold log10
  dsimp only
  split
  · next hfirst => exact hbelow _ hfirst
  · split
    · next hsecond => exact hbelow _ hsecond
    · exact (pow_guess_le hlog).trans (pow_log2_le hnum hden)

/-! ### The fewest digits -/

/-- The fraction of a rank that is not zero is not zero. -/
theorem num_ratio (rank : Nat) : (ratio (rank + 1)).num ≠ 0 := by
  intro hzero
  have hvalue := value_ratio (rank + 1)
  rw [Ratio.value, hzero] at hvalue
  have hpos : (0 : ℚ) < magnitude (rank + 1) := by
    have : (0 : ℚ) < significand (rank + 1) := by
      exact_mod_cast significand_pos (Nat.succ_pos rank)
    exact mul_pos this (by positivity)
  norm_num at hvalue
  linarith

/-- The exponents of all magnitudes are bounded from below. -/
theorem log2_ratio_ge (rank : Nat) : -4096 ≤ (ratio rank).log2 := by
  have hden : (ratio rank).den.log2 ≤ 1074 := by
    have hexponent := exponent_ge rank
    unfold ratio Ratio.scale
    split
    · exact Nat.zero_le _
    · next hnegative =>
        dsimp only
        rw [Nat.one_mul, Nat.pow_eq, Nat.log2_two_pow]
        omega
  unfold Ratio.log2
  dsimp only
  split <;> omega

/-- A grid of so many digits gives only decimals that hit. -/
theorem hits_of_onGrid {tie : Tie} {rank n : Nat} {d : Digits} (h : onGrid tie rank n = some d) :
    hits rank d = true := by
  unfold onGrid at h
  dsimp only at h
  split at h
  · cases h
  · next hlow _ => exact Option.some.inj h ▸ hlow
  · next _ hhigh => exact Option.some.inj h ▸ hhigh
  · next hlow hhigh =>
      split at h
      · exact Option.some.inj h ▸ hlow
      · split at h
        · exact Option.some.inj h ▸ hhigh
        · cases tie with
          | upward => exact Option.some.inj h ▸ hhigh
          | toEven =>
              dsimp only at h
              split at h
              · exact Option.some.inj h ▸ hlow
              · exact Option.some.inj h ▸ hhigh

/-- On the grid of seventeen digits some decimal hits.  Were both neighbours outside the bounds, the
step would be at least as wide as they are apart. -/
theorem onGrid_seventeen (tie : Tie) (rank : Nat) :
    (onGrid tie (rank + 1) 17).isSome = true := by
  let q := ratio (rank + 1)
  let power : Int := log10 q - (17 : Nat) + 1
  let scaled := q.scale 10 (-power)
  let low : Digits := ⟨scaled.num / scaled.den, power⟩
  let high : Digits := ⟨scaled.num / scaled.den + 1, power⟩
  have hstep : (0 : ℚ) < 10 ^ power := by positivity
  have hvalue : scaled.value * 10 ^ power = magnitude (rank + 1) := by
    rw [show scaled.value = q.value * ((10 : Nat) : ℚ) ^ (-power) from
      Ratio.value_scale q (by decide) _, show q.value = magnitude (rank + 1) from value_ratio _,
      mul_assoc]
    push_cast
    rw [← zpow_add₀ (by norm_num), neg_add_cancel, zpow_zero, mul_one]
  have hscaled : 0 < scaled.den := Ratio.den_scale (den_ratio _) (by decide) _
  have hpos : (0 : ℚ) < scaled.den := by exact_mod_cast hscaled
  have hlow : low.value ≤ magnitude (rank + 1) := by
    rw [← hvalue]
    refine mul_le_mul_of_nonneg_right ?_ hstep.le
    rw [Ratio.value, le_div_iff₀ hpos]
    exact_mod_cast Nat.div_mul_le_self scaled.num scaled.den
  have hhigh : magnitude (rank + 1) ≤ high.value := by
    rw [← hvalue]
    refine mul_le_mul_of_nonneg_right ?_ hstep.le
    rw [Ratio.value, div_le_iff₀ hpos]
    exact_mod_cast ((Nat.div_lt_iff_lt_mul hscaled).mp (Nat.lt_succ_self _)).le
  have hgap : high.value - low.value = 10 ^ power := by
    simp only [Digits.value, high, low]
    push_cast
    ring
  have hten : (10 : ℚ) ^ 16 * 10 ^ power ≤ magnitude (rank + 1) := by
    have hlog := pow_log10_le (num_ratio rank) (den_ratio (rank + 1)) (log2_ratio_ge (rank + 1))
    rw [value_ratio] at hlog
    have hsplit : (10 : ℚ) ^ 16 * 10 ^ power = 10 ^ log10 q := by
      rw [← zpow_natCast, ← zpow_add₀ (by norm_num)]
      congr 1
      simp only [power]
      push_cast
      ring
    rwa [hsplit]
  obtain ⟨habove, hbelow, hwide⟩ := magnitude_bounds rank
  have hhits : hits (rank + 1) low = true ∨ hits (rank + 1) high = true := by
    by_contra hnone
    rw [not_or, hits_iff, hits_iff] at hnone
    obtain ⟨hnotLow, hnotHigh⟩ := hnone
    have hleft : low.value ≤ upper rank := by
      by_contra hgt
      refine hnotLow ?_
      split
      · exact ⟨(not_le.mp hgt).le, hlow.trans hbelow.le⟩
      · exact ⟨not_le.mp hgt, lt_of_le_of_lt hlow hbelow⟩
    have hright : upper (rank + 1) ≤ high.value := by
      by_contra hgt
      refine hnotHigh ?_
      split
      · exact ⟨habove.le.trans hhigh, (not_le.mp hgt).le⟩
      · exact ⟨lt_of_lt_of_le habove hhigh, not_le.mp hgt⟩
    linarith
  unfold onGrid
  dsimp only
  split
  · next hnoLow hnoHigh =>
      rcases hhits with hyes | hyes
      · exact absurd (hyes.symm.trans hnoLow) (by decide)
      · exact absurd (hyes.symm.trans hnoHigh) (by decide)
  · rfl
  · rfl
  · cases tie <;> (split <;> (try split) <;> rfl)

/-- The fewest digits of a magnitude hit it. -/
theorem hits_shortest (tie : Tie) (rank : Nat) :
    ∃ d : Digits, hits (rank + 1) d = true ∧ (shortest tie (rank + 1)).value = d.value := by
  have hsome : ((List.range 17).findSome? fun n => onGrid tie (rank + 1) (n + 1)).isSome = true :=
    List.findSome?_isSome_iff.mpr ⟨16, by decide, onGrid_seventeen tie rank⟩
  obtain ⟨d, hd⟩ := Option.isSome_iff_exists.mp hsome
  obtain ⟨n, -, hn⟩ := List.exists_of_findSome?_eq_some hd
  refine ⟨d, hits_of_onGrid hn, ?_⟩
  rw [shortest, Digits.value_trim, hd, Option.getD_some]

/-- Two magnitudes whose fewest digits are the same number are the same. -/
theorem rank_of_shortest {tie : Tie} {one other : Nat}
    (h : (shortest tie (one + 1)).value = (shortest tie (other + 1)).value) : one = other := by
  obtain ⟨d, hone, hvalue⟩ := hits_shortest tie one
  obtain ⟨e, hother, hsame⟩ := hits_shortest tie other
  exact hits_unique (hvalue.symm.trans (h.trans hsame)) hone hother

/-! ### Plain text -/

/-- The number that digits with at most one point in them are. -/
def readPlain (cs : List Char) : ℚ :=
  let whole := cs.takeWhile (· != '.')
  let places := (cs.dropWhile (· != '.')).drop 1
  Nat.ofDigitChars 10 (whole ++ places) 0 / 10 ^ places.length

theorem ne_point_of_isDigit {c : Char} (h : c.isDigit = true) : (c != '.') = true := by
  refine bne_iff_ne.mpr ?_
  rintro rfl
  cases h

/-- A text of digits has no point in it. -/
theorem takeWhile_digits {cs : List Char} (h : AllDigits cs) :
    cs.takeWhile (· != '.') = cs ∧ cs.dropWhile (· != '.') = [] := by
  have hall : ∀ c ∈ cs, (c != '.') = true := fun c hc => ne_point_of_isDigit (h c hc)
  exact ⟨List.takeWhile_eq_self_iff.mpr hall, List.dropWhile_eq_nil_iff.mpr hall⟩

/-- Digits without a point are read as a whole number. -/
theorem readPlain_whole {cs : List Char} (h : AllDigits cs) :
    readPlain cs = Nat.ofDigitChars 10 cs 0 := by
  obtain ⟨htake, hdrop⟩ := takeWhile_digits h
  rw [readPlain, htake, hdrop]
  simp

/-- Digits with a point among them are read as the quotient by the places after it. -/
theorem readPlain_point {whole places : List Char} (hwhole : AllDigits whole) :
    readPlain (whole ++ '.' :: places) =
      Nat.ofDigitChars 10 (whole ++ places) 0 / 10 ^ places.length := by
  obtain ⟨htake, hdrop⟩ := takeWhile_digits hwhole
  have hall : ∀ c ∈ whole, (c != '.') = true := fun c hc => ne_point_of_isDigit (hwhole c hc)
  have hstop : ('.' :: places).takeWhile (· != '.') = [] ∧
      ('.' :: places).dropWhile (· != '.') = '.' :: places := ⟨rfl, rfl⟩
  rw [readPlain, List.takeWhile_append_of_pos hall, List.dropWhile_append_of_pos hall, hstop.1,
    hstop.2, List.append_nil]
  rfl

/-- A plain text is a text of digits, or one with a point after the first digit. -/
theorem plain_cases (d : Digits) :
    (0 ≤ d.power ∧ d.plain.toList =
        Nat.toDigits 10 d.digits ++ List.replicate d.power.toNat '0') ∨
      ∃ whole places : List Char, d.plain.toList = whole ++ '.' :: places ∧ whole ≠ [] ∧
        (d.power = -(places.length : Int)) ∧ ∃ zeros,
          whole ++ places = List.replicate zeros '0' ++ Nat.toDigits 10 d.digits := by
  unfold Digits.plain
  dsimp only
  rw [toList_toString]
  split
  · next hpower => exact Or.inl ⟨hpower, String.toList_ofList⟩
  · next hpower =>
      refine Or.inr ⟨_, _, String.toList_ofList, ?_, ?_, _, List.take_append_drop _ _⟩
      · intro hnone
        have hlength := congrArg List.length hnone
        simp only [List.length_take, List.length_append, List.length_replicate,
          List.length_nil] at hlength
        omega
      · rw [List.length_drop]
        simp only [List.length_append, List.length_replicate]
        omega

/-- A plain text is read as the decimal that it was written for. -/
theorem readPlain_plain (d : Digits) : readPlain d.plain.toList = d.value := by
  rcases plain_cases d with ⟨hpower, htext⟩ | ⟨whole, places, htext, -, hpower, zeros, hdigits⟩
  · obtain ⟨n, hn⟩ := Int.eq_ofNat_of_zero_le hpower
    have hall : AllDigits (Nat.toDigits 10 d.digits ++ List.replicate d.power.toNat '0') :=
      fun c hc => allDigits_zeros d.power.toNat d.digits c
        (List.mem_append.mpr (List.mem_append.mp hc).symm)
    rw [htext, readPlain_whole hall, Nat.ofDigitChars_append, Nat.ofDigitChars_ten_toDigits,
      Nat.ofDigitChars_replicate_zero, Digits.value, hn, Int.toNat_natCast, zpow_natCast]
    push_cast
    ring
  · have hwhole : AllDigits whole := fun c hc =>
      allDigits_zeros zeros d.digits c (hdigits ▸ List.mem_append_left places hc)
    rw [htext, readPlain_point hwhole, hdigits, Nat.ofDigitChars_append,
      Nat.ofDigitChars_replicate_zero, Nat.mul_zero, Nat.ofDigitChars_ten_toDigits, Digits.value,
      hpower, zpow_neg, zpow_natCast, div_eq_mul_inv]

/-- Plain texts are the same only for the same number. -/
theorem value_of_plain {d e : Digits} (h : d.plain = e.plain) : d.value = e.value := by
  rw [← readPlain_plain, ← readPlain_plain, h]

/-- A plain text begins with a digit. -/
theorem head_plain (d : Digits) : ∃ c rest, d.plain.toList = c :: rest ∧ c.isDigit = true := by
  rcases plain_cases d with ⟨-, htext⟩ | ⟨whole, places, htext, hsome, -, zeros, hdigits⟩
  · obtain ⟨c, rest, hcons⟩ := List.exists_cons_of_ne_nil (@Nat.toDigits_ne_nil d.digits 10)
    refine ⟨c, rest ++ List.replicate d.power.toNat '0', by rw [htext, hcons]; rfl, ?_⟩
    exact allDigits_toDigits d.digits c (hcons ▸ List.mem_cons_self)
  · obtain ⟨c, rest, rfl⟩ := List.exists_cons_of_ne_nil hsome
    refine ⟨c, rest ++ '.' :: places, by rw [htext]; rfl, allDigits_zeros zeros d.digits c ?_⟩
    rw [← hdigits]
    exact List.mem_cons_self

end Decimal

/-! ### Doubles -/

namespace Binary64

/-- The text of a magnitude, without a sign. -/
def magnitudeText (rank : Nat) : String :=
  if rank = topRank then "inf"
  else if rank = 0 then "0"
  else (Decimal.shortest .upward rank).plain

/-- A double is written as its sign and its magnitude. -/
theorem plainText_signed (negative : Bool) (rank : Fin (topRank + 1)) :
    plainText (.signed negative rank) = signText negative ++ magnitudeText rank.val := rfl

/-- The text of a magnitude begins with the letter of infinity or with a digit. -/
theorem head_magnitudeText (rank : Nat) :
    ∃ c rest, (magnitudeText rank).toList = c :: rest ∧
      (rank = topRank ∧ c = 'i' ∨ rank ≠ topRank ∧ c.isDigit = true) := by
  unfold magnitudeText
  split
  · next htop => exact ⟨'i', ['n', 'f'], by decide, Or.inl ⟨htop, rfl⟩⟩
  · next hfinite =>
      split
      · exact ⟨'0', [], by decide, Or.inr ⟨hfinite, rfl⟩⟩
      · obtain ⟨c, rest, htext, hdigit⟩ := Decimal.head_plain (Decimal.shortest .upward rank)
        exact ⟨c, rest, htext, Or.inr ⟨hfinite, hdigit⟩⟩

/-- The fewest digits of a magnitude other than zero are not zero. -/
theorem shortest_pos (rank : Nat) : 0 < (Decimal.shortest .upward (rank + 1)).value := by
  obtain ⟨d, hhits, hvalue⟩ := Decimal.hits_shortest .upward rank
  have hupper : 0 < upper rank := by
    unfold upper
    positivity
  rw [Decimal.hits_iff] at hhits
  rw [hvalue]
  split at hhits
  · exact lt_of_lt_of_le hupper hhits.1
  · exact hupper.trans hhits.1

/-- A rank is told by how its magnitude is written. -/
theorem rank_of_magnitudeText {one other : Nat} (h : magnitudeText one = magnitudeText other) :
    one = other := by
  obtain ⟨c, rest, hone, hfirst⟩ := head_magnitudeText one
  obtain ⟨d, more, hother, hsecond⟩ := head_magnitudeText other
  have hsame : c = d := by
    rw [h, hother] at hone
    exact (List.cons.inj hone).1.symm
  subst hsame
  have hletter : ¬ Char.isDigit 'i' = true := by decide
  rcases hfirst with ⟨htop, rfl⟩ | ⟨hfinite, hdigit⟩
  · rcases hsecond with ⟨hsameTop, -⟩ | ⟨-, hdigit⟩
    · exact htop.trans hsameTop.symm
    · exact absurd hdigit hletter
  · rcases hsecond with ⟨-, rfl⟩ | ⟨hsameFinite, -⟩
    · exact absurd hdigit hletter
    · have hzero : ∀ rank, ("0" : String) ≠ (Decimal.shortest .upward (rank + 1)).plain := by
        intro rank htext
        have hread := Decimal.readPlain_plain (Decimal.shortest .upward (rank + 1))
        rw [← htext] at hread
        have hpos := shortest_pos rank
        rw [← hread, show ("0" : String).toList = ['0'] by decide,
          Decimal.readPlain_whole (by decide)] at hpos
        norm_num [Nat.ofDigitChars] at hpos
      unfold magnitudeText at h
      rw [if_neg hfinite, if_neg hsameFinite] at h
      rcases one with _ | one <;> rcases other with _ | other
      · rfl
      · exact absurd h (hzero other)
      · exact absurd h.symm (hzero one)
      · exact congrArg (· + 1) (Decimal.rank_of_shortest (Decimal.value_of_plain h))

/-- The text of a double in keys tells which double it is. -/
theorem plainText_injective {x y : Binary64} (h : x.plainText = y.plainText) : x = y := by
  have hhead : ∀ rank, ∀ c ∈ ['N', '-'], (magnitudeText rank).toList.head? ≠ some c := by
    intro rank c hc
    obtain ⟨first, rest, htext, hfirst⟩ := head_magnitudeText rank
    rw [htext, List.head?_cons]
    rintro ⟨⟩
    rcases hfirst with ⟨-, rfl⟩ | ⟨-, hdigit⟩
    · revert hc
      decide
    · rcases List.mem_pair.mp hc with rfl | rfl <;> exact absurd hdigit (by decide)
  have hsigned : ∀ rank, (plainText (.signed true rank)).toList.head? = some '-' := by
    intro rank
    rw [plainText_signed, String.toList_append]
    rfl
  have hunsigned : ∀ rank, (plainText (.signed false rank)).toList =
      (magnitudeText rank.val).toList := by
    intro rank
    rw [plainText_signed, String.toList_append]
    rfl
  have hnan : (plainText .nan).toList.head? = some 'N' := rfl
  cases x with
  | nan =>
      cases y with
      | nan => rfl
      | signed negative rank =>
          rw [h] at hnan
          cases negative with
          | true => exact absurd ((hsigned rank).symm.trans hnan) (by decide)
          | false => exact absurd (hunsigned rank ▸ hnan) (hhead _ _ (by decide))
  | signed negative rank =>
      cases y with
      | nan =>
          rw [← h] at hnan
          cases negative with
          | true => exact absurd ((hsigned rank).symm.trans hnan) (by decide)
          | false => exact absurd (hunsigned rank ▸ hnan) (hhead _ _ (by decide))
      | signed other second =>
          have hsign : negative = other := by
            cases negative <;> cases other
            · rfl
            · exact absurd (hunsigned rank ▸ h ▸ hsigned second) (hhead _ _ (by decide))
            · exact absurd (hunsigned second ▸ h ▸ hsigned rank) (hhead _ _ (by decide))
            · rfl
          subst hsign
          rw [plainText_signed, plainText_signed, String.append_right_inj] at h
          rw [Fin.ext (rank_of_magnitudeText h)]

end Binary64

end NestedQuery
