import OracleMachine.Lib.Checked
import OracleMachine.Lib.Decimal
import Mathlib.Tactic.FieldSimp

/-!
# Prices as pairs of 64-bit integers

`priceStringToRational` turns the close price that an exchange sends into a
numerator and a denominator, and `computeMean` averages two such pairs.  All of
it is `int64_t` arithmetic, taken modulo 2^64.

Converting integers to `Int64` respects sums and products.  So what the code
computes from decimal strings is always the conversion of the number it should
compute, and a result is right when that number fits.  The number of
fractional digits decides about the denominators: up to 18 of them, `10 ^ n`
fits, and from 64 on nothing is left of it modulo 2^64.  In between a result can
be right by coincidence.
-/

namespace OracleMachine.Price

open Lib.Checked Lib.Decimal

/-- A numerator and a denominator. -/
structure Rational where
  numerator : Int64
  denominator : Int64
  deriving DecidableEq

/-- Up to 18 fractional digits the denominator fits, and so does its double. -/
theorem ten_pow_lt {n : Nat} (h : n ≤ 18) : 2 * 10 ^ n < 2 ^ 63 := by
  have hle : 10 ^ n ≤ 10 ^ 18 := Nat.pow_le_pow_right (by decide) h
  omega

/-! ## `priceStringToRational` -/

/-- The loop over the characters.  `none` is the exit at an unexpected
character. -/
def digitLoop (numerator denominator : Int64) (seenDot : Bool) : Text → Option Rational
  | [] => some ⟨numerator, denominator⟩
  | c :: cs =>
    if isDigit c then
      digitLoop (numerator * 10 + Int64.ofNat (digitVal c))
        (if seenDot then denominator * 10 else denominator) seenDot cs
    else if c = point && !seenDot then digitLoop numerator denominator true cs
    else none

/-- `PRICE_DENOMINATOR`. -/
def priceDenominator : Int64 := 100000000

/-- `priceStringToRational`.  The fallback rounds a floating point number:
`stod` answers the numerator it gets for a string, or `none` when `std::stod`
throws. -/
def priceStringToRational (stod : Text → Option Int64) (priceStr : Text) : Option Rational :=
  match digitLoop 0 1 false priceStr with
  | some price => some price
  | none => (stod priceStr).map fun numerator => ⟨numerator, priceDenominator⟩

theorem ofNat_digit (n : Nat) (c : UInt8) :
    Int64.ofNat n * 10 + Int64.ofNat (digitVal c) = Int64.ofNat (10 * n + digitVal c) := by
  rw [Int64.ofNat_add, Nat.mul_comm 10 n, Int64.ofNat_mul]
  rfl

/-- Behind the point every digit counts for both numbers. -/
theorem digitLoop_fraction (n d : Nat) {cs : Text} (hcs : ∀ c ∈ cs, isDigit c = true) :
    digitLoop (Int64.ofNat n) (Int64.ofNat d) true cs =
      some ⟨Int64.ofNat (numeralFrom n cs), Int64.ofNat (d * 10 ^ cs.length)⟩ := by
  induction cs generalizing n d with
  | nil => rw [digitLoop, numeralFrom, List.foldl_nil, List.length_nil, Nat.pow_zero, Nat.mul_one]
  | cons c cs ih =>
    have hden : Int64.ofNat d * 10 = Int64.ofNat (d * 10) := by
      rw [Int64.ofNat_mul]
      rfl
    rw [digitLoop, if_pos (hcs c List.mem_cons_self), ofNat_digit, if_pos rfl, hden,
      ih _ _ fun e he => hcs e (List.mem_cons_of_mem c he), List.length_cons, Nat.pow_succ',
      ← Nat.mul_assoc]
    rfl

/-- On a decimal string the loop computes the significand and the power of ten
below it, modulo 2^64. -/
theorem digitLoop_decimal (n : Nat) {s : Text} (hs : IsDecimal s) :
    digitLoop (Int64.ofNat n) 1 false s =
      some ⟨Int64.ofNat (numeralFrom n (s.filter isDigit)),
        Int64.ofNat (10 ^ fractionDigits s)⟩ := by
  induction s generalizing n with
  | nil => rfl
  | cons c cs ih =>
    by_cases hdigit : isDigit c
    · have hpoint : c ≠ point := by
        rintro rfl
        rw [isDigit_point] at hdigit
        cases hdigit
      rw [digitLoop, if_pos hdigit, ofNat_digit, if_neg Bool.false_ne_true, ih _ hs.of_cons,
        fractionDigits, if_neg hpoint, List.filter_cons_of_pos hdigit]
      rfl
    · obtain rfl : c = point := (hs.1 c List.mem_cons_self).resolve_left hdigit
      have hcs := hs.digits_of_point
      have hloop := digitLoop_fraction n 1 hcs
      rw [Nat.one_mul] at hloop
      rw [digitLoop, if_neg hdigit, if_pos (by decide), fractionDigits, if_pos rfl,
        List.filter_cons_of_neg hdigit, List.filter_eq_self.mpr hcs]
      exact hloop

/-- Every decimal string is converted, digits or not. -/
theorem priceStringToRational_decimal (stod : Text → Option Int64) {s : Text}
    (hs : IsDecimal s) :
    priceStringToRational stod s =
      some ⟨Int64.ofNat (significand s), Int64.ofNat (10 ^ fractionDigits s)⟩ := by
  have hloop := digitLoop_decimal 0 hs
  unfold priceStringToRational
  rw [show digitLoop 0 1 false s = _ from hloop]
  rfl

/-! ## When a converted price is exact -/

/-- The string has a digit. -/
def HasDigit (s : Text) : Prop := ∃ c ∈ s, isDigit c = true

/-- The pair is a fraction with the value of the string. -/
def Exact (s : Text) (price : Rational) : Prop :=
  HasDigit s ∧ 0 < price.denominator.toInt ∧
    (price.numerator.toInt : ℚ) / price.denominator.toInt = value s

/-- The string has a digit, and its number without the point fits.  With more
than 18 fractional digits the denominator is reduced modulo 2^64.  What is left
of it has to be positive.  Then the multiples of `1 / g` are exact up to a bound,
where `g` is the greatest common divisor of the part of the denominator that is
lost and the part that is left; for 20 digits these are `0`, `0.2`, `0.4`, `0.6`,
`0.8` and `1`. -/
def Fits (s : Text) : Prop :=
  HasDigit s ∧
    if fractionDigits s ≤ 18 then significand s < 2 ^ 63
    else
      let lost := 10 ^ fractionDigits s / 2 ^ 64
      let left := 10 ^ fractionDigits s % 2 ^ 64
      (0 < left ∧ left < 2 ^ 63) ∧
        10 ^ fractionDigits s ∣ Nat.gcd lost left * significand s ∧
          significand s * left < 2 ^ 63 * 10 ^ fractionDigits s

theorem exact_iff_fits (s : Text) :
    Exact s ⟨Int64.ofNat (significand s), Int64.ofNat (10 ^ fractionDigits s)⟩ ↔ Fits s := by
  have hpow : (10 : ℚ) ^ fractionDigits s ≠ 0 := pow_ne_zero _ (by norm_num)
  -- two fractions are compared by their cross products
  have hcross : 0 < (Int64.ofNat (10 ^ fractionDigits s)).toInt →
      (((Int64.ofNat (significand s)).toInt : ℚ) /
          (Int64.ofNat (10 ^ fractionDigits s)).toInt = value s ↔
        (Int64.ofNat (significand s)).toInt * (10 ^ fractionDigits s : Nat) =
          significand s * (Int64.ofNat (10 ^ fractionDigits s)).toInt) := by
    intro hpos
    have hne : ((Int64.ofNat (10 ^ fractionDigits s)).toInt : ℚ) ≠ 0 := by
      exact_mod_cast hpos.ne'
    rw [value, div_eq_div_iff hne hpow]
    exact_mod_cast Iff.rfl
  unfold Exact Fits
  refine and_congr_right fun _ => ?_
  split
  · next hle =>
    have hfit : 10 ^ fractionDigits s < 2 ^ 63 := by have := ten_pow_lt hle; omega
    have hden := Int64.toInt_ofNat_of_lt hfit
    have hpos : 0 < (Int64.ofNat (10 ^ fractionDigits s)).toInt := by
      rw [hden]
      positivity
    rw [hcross hpos, hden, mul_right_cancel_iff_of_pos (by positivity), toInt_ofNat_iff]
    exact and_iff_right (hden ▸ hpos)
  · dsimp only
    rw [← toInt_ofNat_pos_iff]
    exact and_congr_right fun hpos => (hcross hpos).trans (toInt_mul_eq_iff hpos)

/-- From 64 fractional digits on nothing is left of the denominator. -/
theorem ofNat_ten_pow_eq_zero {n : Nat} (h : 64 ≤ n) : Int64.ofNat (10 ^ n) = 0 := by
  have hdvd : 2 ^ 64 ∣ 10 ^ n :=
    (Nat.pow_dvd_pow 2 h).trans (pow_dvd_pow_of_dvd (by decide) n)
  rw [← Int64.toInt_inj, toInt_ofNat_eq, Nat.mod_eq_zero_of_dvd hdvd]
  rfl

/-! ## `computeMean` -/

/-- The loop of `gcd`.  The second argument gets smaller in each turn. -/
def gcdLoop : Nat → Int64 → Int64 → Int64
  | 0, a, _ => a
  | fuel + 1, a, b => if b ≠ 0 then gcdLoop fuel b (a % b) else a

/-- `gcd`. -/
def gcd (a b : Int64) : Int64 := gcdLoop (b.toInt.natAbs + 1) a b

/-- Half of a sum over a denominator: an odd sum stays as it is over twice the
denominator. -/
def halved (sum denominator : Int64) : Rational :=
  if sum % 2 = 0 then ⟨sum / 2, denominator⟩ else ⟨sum, denominator * 2⟩

/-- `computeMean`. -/
def computeMean (price1 price2 : Rational) : Rational :=
  if price1.denominator = price2.denominator then
    halved (price1.numerator + price2.numerator) price1.denominator
  else
    let gcdDenom := gcd price1.denominator price2.denominator
    let crossNum1 := price1.numerator * (price2.denominator / gcdDenom)
    let crossNum2 := price2.numerator * (price1.denominator / gcdDenom)
    let lcmDenom := price1.denominator / gcdDenom * price2.denominator
    halved (crossNum1 + crossNum2) lcmDenom

theorem gcdLoop_ofNat {fuel m n : Nat} (hm : m < 2 ^ 63) (hn : n < 2 ^ 63) (hfuel : n < fuel) :
    gcdLoop fuel (Int64.ofNat m) (Int64.ofNat n) = Int64.ofNat (Nat.gcd m n) := by
  induction fuel generalizing m n with
  | zero => omega
  | succ fuel ih =>
    rw [gcdLoop]
    by_cases hzero : n = 0
    · subst hzero
      rw [Nat.gcd_zero_right]
      rfl
    · have hne : Int64.ofNat n ≠ 0 := fun h => hzero (ofNat_inj hn (by decide) h)
      have hlt : m % n < n := Nat.mod_lt m (Nat.pos_of_ne_zero hzero)
      rw [if_pos hne, ofNat_mod hm hn, ih hn (by omega) (by omega), Nat.gcd_comm m n,
        Nat.gcd_rec n m, Nat.gcd_comm]

theorem gcd_ofNat {m n : Nat} (hm : m < 2 ^ 63) (hn : n < 2 ^ 63) :
    gcd (Int64.ofNat m) (Int64.ofNat n) = Int64.ofNat (Nat.gcd m n) := by
  refine gcdLoop_ofNat hm hn ?_
  rw [Int64.toInt_ofNat_of_lt hn]
  exact Nat.lt_succ_self n

/-- Over positive denominators both branches halve the sum over the least common
multiple. -/
theorem computeMean_eq (n1 n2 : Int64) {m1 m2 : Nat} (hpos : 0 < m1) (h1 : m1 < 2 ^ 63)
    (h2 : m2 < 2 ^ 63) :
    computeMean ⟨n1, Int64.ofNat m1⟩ ⟨n2, Int64.ofNat m2⟩ =
      halved (n1 * Int64.ofNat (m2 / Nat.gcd m1 m2) + n2 * Int64.ofNat (m1 / Nat.gcd m1 m2))
        (Int64.ofNat (Nat.lcm m1 m2)) := by
  unfold computeMean
  by_cases heq : m1 = m2
  · rw [heq] at hpos ⊢
    rw [if_pos rfl, Nat.gcd_self, Nat.lcm_self, Nat.div_self hpos,
      show Int64.ofNat 1 = 1 by rfl, Int64.mul_one, Int64.mul_one]
  · have hne : Int64.ofNat m1 ≠ Int64.ofNat m2 := fun h => heq (ofNat_inj h1 h2 h)
    have hgcd : Nat.gcd m1 m2 < 2 ^ 63 := Nat.lt_of_le_of_lt (Nat.gcd_le_left m2 hpos) h1
    have hlcm : m1 / Nat.gcd m1 m2 * m2 = Nat.lcm m1 m2 :=
      Nat.div_mul_right_comm (Nat.gcd_dvd_left m1 m2) m2
    simp only [if_neg hne, gcd_ofNat h1 h2, ofNat_div h1 hgcd, ofNat_div h2 hgcd,
      ← Int64.ofNat_mul, hlcm]

/-- Halving is exact as long as twice the denominator fits. -/
theorem halved_spec (sum : Int64) {d : Nat} (hpos : 0 < d) (hd : 2 * d < 2 ^ 63) :
    0 < (halved sum (Int64.ofNat d)).denominator.toInt ∧
      ((halved sum (Int64.ofNat d)).numerator.toInt : ℚ) /
          (halved sum (Int64.ofNat d)).denominator.toInt = sum.toInt / (2 * d) := by
  have hdpos : (0 : ℚ) < d := by exact_mod_cast hpos
  have htwo : (2 : Int64).toInt = 2 := by decide
  unfold halved
  split
  · next heven =>
    have hdvd : (2 : Int) ∣ sum.toInt := by
      have hmod := congrArg Int64.toInt heven
      rw [Int64.toInt_mod, htwo] at hmod
      exact Int.dvd_of_tmod_eq_zero hmod
    obtain ⟨k, hk⟩ := hdvd
    have hrange := Int64.toInt_lt sum
    have hrange' := Int64.le_toInt sum
    have hhalf : (sum / 2).toInt = k := by
      rw [Int64.toInt_div, htwo, hk, Int.mul_tdiv_cancel_left k (by decide)]
      exact Int.bmod_eq_of_le (by omega) (by omega)
    simp only [hhalf, hk, Int64.toInt_ofNat_of_lt (show d < 2 ^ 63 by omega)]
    refine ⟨by exact_mod_cast hpos, ?_⟩
    push_cast
    field_simp
  · have hdouble : (Int64.ofNat d * 2).toInt = 2 * d := by
      rw [show Int64.ofNat d * 2 = Int64.ofNat (d * 2) from (Int64.ofNat_mul d 2).symm,
        Int64.toInt_ofNat_of_lt (by omega)]
      push_cast
      exact Int.mul_comm _ _
    simp only [hdouble]
    refine ⟨by omega, ?_⟩
    push_cast
    rfl

/-- A mean with a denominator zero has the denominator zero. -/
theorem denominator_computeMean {price1 price2 : Rational}
    (h : price1.denominator = 0 ∨ price2.denominator = 0) :
    (computeMean price1 price2).denominator = 0 := by
  have hhalved : ∀ sum : Int64, (halved sum 0).denominator = 0 := by
    intro sum
    rw [halved]
    split
    · rfl
    · exact Int64.zero_mul
  rw [computeMean]
  split
  · next heq =>
    have hzero : price1.denominator = 0 := h.elim id fun h2 => heq.trans h2
    rw [hzero]
    exact hhalved _
  · rcases h with hzero | hzero
    · simp only [hzero, Int64.zero_div, Int64.zero_mul]
      exact hhalved _
    · simp only [hzero, Int64.mul_zero]
      exact hhalved _

/-! ## When a mean is exact -/

/-- The pair is a fraction with the mean of the values of the two strings. -/
def ExactMean (s1 s2 : Text) (price : Rational) : Prop :=
  HasDigit s1 ∧ HasDigit s2 ∧ 0 < price.denominator.toInt ∧
    (price.numerator.toInt : ℚ) / price.denominator.toInt = (value s1 + value s2) / 2

/-- The sum of two decimal strings, counted in units of the last digit of the
longer fraction. -/
def commonSum (s1 s2 : Text) : Nat :=
  significand s1 * 10 ^ (max (fractionDigits s1) (fractionDigits s2) - fractionDigits s1) +
    significand s2 * 10 ^ (max (fractionDigits s1) (fractionDigits s2) - fractionDigits s2)

section PowersOfTen

variable (f1 f2 : Nat)

/-- The smaller of two powers of ten divides the larger one. -/
theorem gcd_ten_pow : Nat.gcd (10 ^ f1) (10 ^ f2) = 10 ^ min f1 f2 := by
  rcases Nat.le_total f1 f2 with hle | hle
  · rw [Nat.gcd_eq_left (Nat.pow_dvd_pow 10 hle), Nat.min_eq_left hle]
  · rw [Nat.gcd_eq_right (Nat.pow_dvd_pow 10 hle), Nat.min_eq_right hle]

theorem ten_pow_div_left : 10 ^ f1 / 10 ^ min f1 f2 = 10 ^ (max f1 f2 - f2) := by
  rw [Nat.pow_div (by omega) (by decide)]
  congr 1
  omega

theorem ten_pow_div_right : 10 ^ f2 / 10 ^ min f1 f2 = 10 ^ (max f1 f2 - f1) := by
  rw [Nat.pow_div (by omega) (by decide)]
  congr 1
  omega

theorem lcm_ten_pow : Nat.lcm (10 ^ f1) (10 ^ f2) = 10 ^ max f1 f2 := by
  rcases Nat.le_total f1 f2 with hle | hle
  · rw [Nat.lcm_eq_right (Nat.pow_dvd_pow 10 hle), Nat.max_eq_right hle]
  · rw [Nat.lcm_eq_left (Nat.pow_dvd_pow 10 hle), Nat.max_eq_left hle]

end PowersOfTen

/-- `computeMean` of two fractions over powers of ten halves their sum over the
larger power. -/
theorem computeMean_ten_pow (n1 n2 : Nat) {f1 f2 : Nat} (h1 : f1 ≤ 18) (h2 : f2 ≤ 18) :
    computeMean ⟨Int64.ofNat n1, Int64.ofNat (10 ^ f1)⟩ ⟨Int64.ofNat n2, Int64.ofNat (10 ^ f2)⟩ =
      halved (Int64.ofNat (n1 * 10 ^ (max f1 f2 - f1) + n2 * 10 ^ (max f1 f2 - f2)))
        (Int64.ofNat (10 ^ max f1 f2)) := by
  have hlt1 := ten_pow_lt h1
  have hlt2 := ten_pow_lt h2
  rw [computeMean_eq _ _ (Nat.pow_pos (by decide)) (by omega) (by omega), gcd_ten_pow, lcm_ten_pow,
    ten_pow_div_left, ten_pow_div_right, ← Int64.ofNat_mul, ← Int64.ofNat_mul, ← Int64.ofNat_add]

/-- The mean of two strings is half of their common sum. -/
theorem mean_value (s1 s2 : Text) :
    (value s1 + value s2) / 2 =
      (commonSum s1 s2 : ℚ) /
        (2 * (10 ^ max (fractionDigits s1) (fractionDigits s2) : Nat)) := by
  have hscale : ∀ s : Text, fractionDigits s ≤ max (fractionDigits s1) (fractionDigits s2) →
      value s = significand s *
        10 ^ (max (fractionDigits s1) (fractionDigits s2) - fractionDigits s) /
        10 ^ max (fractionDigits s1) (fractionDigits s2) := by
    intro s hs
    have hpow : (10 : ℚ) ^ max (fractionDigits s1) (fractionDigits s2) =
        10 ^ fractionDigits s *
          10 ^ (max (fractionDigits s1) (fractionDigits s2) - fractionDigits s) := by
      rw [← pow_add, Nat.add_sub_cancel' hs]
    rw [value, hpow, mul_div_mul_right _ _ (pow_ne_zero _ (by norm_num))]
  rw [hscale s1 (Nat.le_max_left _ _), hscale s2 (Nat.le_max_right _ _), ← add_div, div_div,
    mul_comm (_ ^ _) (2 : ℚ), commonSum]
  push_cast
  rfl

/-- Up to 18 fractional digits, a mean is exact when both strings have a digit
and their common sum fits. -/
theorem exactMean_iff {s1 s2 : Text} (h1 : fractionDigits s1 ≤ 18)
    (h2 : fractionDigits s2 ≤ 18) :
    ExactMean s1 s2
        (computeMean
          ⟨Int64.ofNat (significand s1), Int64.ofNat (10 ^ fractionDigits s1)⟩
          ⟨Int64.ofNat (significand s2), Int64.ofNat (10 ^ fractionDigits s2)⟩) ↔
      HasDigit s1 ∧ HasDigit s2 ∧ commonSum s1 s2 < 2 ^ 63 := by
  have hmax : max (fractionDigits s1) (fractionDigits s2) ≤ 18 := by omega
  obtain ⟨hden, hmean⟩ := halved_spec (Int64.ofNat (commonSum s1 s2))
    (d := 10 ^ max (fractionDigits s1) (fractionDigits s2)) (Nat.pow_pos (by decide))
    (ten_pow_lt hmax)
  have hscale : (2 * (10 ^ max (fractionDigits s1) (fractionDigits s2) : Nat) : ℚ) ≠ 0 := by
    positivity
  rw [computeMean_ten_pow _ _ h1 h2]
  refine and_congr_right fun _ => and_congr_right fun _ => ?_
  rw [← commonSum, and_iff_right hden, hmean, mean_value, div_left_inj' hscale,
    ← toInt_ofNat_iff]
  exact_mod_cast Iff.rfl

/-- From 64 fractional digits on no mean is exact. -/
theorem not_exactMean {s1 s2 : Text} (h : 64 ≤ fractionDigits s1 ∨ 64 ≤ fractionDigits s2) :
    ¬ ExactMean s1 s2
        (computeMean
          ⟨Int64.ofNat (significand s1), Int64.ofNat (10 ^ fractionDigits s1)⟩
          ⟨Int64.ofNat (significand s2), Int64.ofNat (10 ^ fractionDigits s2)⟩) := by
  rintro ⟨-, -, hpos, -⟩
  rw [denominator_computeMean (h.imp ofNat_ten_pow_eq_zero ofNat_ten_pow_eq_zero)] at hpos
  exact absurd hpos (by decide)

end OracleMachine.Price
