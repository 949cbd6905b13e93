import OracleMachine.Price.WorkingRange

/-!
# The mean of two fractions

`computeMean` has a branch for equal denominators and one for others, and in
both a case for odd sums.  `mean_of_fractions` says that all of them compute the
mean of the two fractions, for numerators of either sign, as long as the numbers
on the way fit: the cross products, their sum, and twice the least common
multiple of the denominators.  Both branches are one formula
(`computeMean_eq`), which is symmetric in the two prices.
-/

namespace OracleMachine.Price

open Lib.Checked

/-- `num1 * (denom2 / gcd(denom1, denom2))`, as an integer without a width. -/
def crossNum (price1 price2 : Rational) : Int :=
  price1.numerator.toInt *
    (price2.denominator.toInt / Int.gcd price1.denominator.toInt price2.denominator.toInt)

/-- Half of the sum of the cross products over the least common multiple is the
mean. -/
theorem half_cross_sum (n1 n2 : Int) {m1 m2 : Nat} (h1 : 0 < m1) (h2 : 0 < m2) :
    ((n1 * (m2 / Nat.gcd m1 m2 : Nat) + n2 * (m1 / Nat.gcd m1 m2 : Nat) : Int) : ℚ) /
        (2 * Nat.lcm m1 m2) = ((n1 : ℚ) / m1 + n2 / m2) / 2 := by
  obtain ⟨a, ha⟩ := Nat.gcd_dvd_left m1 m2
  obtain ⟨b, hb⟩ := Nat.gcd_dvd_right m1 m2
  have hg : 0 < Nat.gcd m1 m2 := Nat.gcd_pos_of_pos_left m2 h1
  have hquotient1 : m1 / Nat.gcd m1 m2 = a := Nat.div_eq_of_eq_mul_right hg ha
  have hquotient2 : m2 / Nat.gcd m1 m2 = b := Nat.div_eq_of_eq_mul_right hg hb
  have hlcm : Nat.lcm m1 m2 = Nat.gcd m1 m2 * a * b := by
    have hmul : m1 / Nat.gcd m1 m2 * m2 = Nat.lcm m1 m2 :=
      Nat.div_mul_right_comm (Nat.gcd_dvd_left m1 m2) m2
    rw [← hmul, hquotient1, Nat.mul_comm (Nat.gcd m1 m2) a, Nat.mul_assoc, ← hb]
  rw [hquotient1, hquotient2, hlcm]
  generalize Nat.gcd m1 m2 = g at ha hb hg
  have ha0 : (a : ℚ) ≠ 0 := by
    intro hzero
    rw [ha, Nat.cast_eq_zero.mp hzero, Nat.mul_zero] at h1
    exact Nat.lt_irrefl 0 h1
  have hb0 : (b : ℚ) ≠ 0 := by
    intro hzero
    rw [hb, Nat.cast_eq_zero.mp hzero, Nat.mul_zero] at h2
    exact Nat.lt_irrefl 0 h2
  have hg0 : (g : ℚ) ≠ 0 := Nat.cast_ne_zero.mpr hg.ne'
  rw [ha, hb]
  push_cast
  field_simp

/-- Over positive denominators, and where the cross products, their sum and
twice the least common multiple fit, no step overflows, the result is the mean
over a positive denominator, and the order of the prices does not matter. -/
theorem mean_of_fractions (price1 price2 : Rational)
    (hpos1 : 0 < price1.denominator.toInt) (hpos2 : 0 < price2.denominator.toInt)
    (hcross1 : InRange (crossNum price1 price2)) (hcross2 : InRange (crossNum price2 price1))
    (hsum : InRange (crossNum price1 price2 + crossNum price2 price1))
    (hlcm : InRange (2 * Int.lcm price1.denominator.toInt price2.denominator.toInt)) :
    computeMeanChecked price1 price2 = some (computeMean price1 price2) ∧
    0 < (computeMean price1 price2).denominator.toInt ∧
    ((computeMean price1 price2).numerator.toInt : ℚ) /
        (computeMean price1 price2).denominator.toInt =
      ((price1.numerator.toInt : ℚ) / price1.denominator.toInt +
        price2.numerator.toInt / price2.denominator.toInt) / 2 ∧
    computeMean price2 price1 = computeMean price1 price2 := by
  obtain ⟨n1, d1⟩ := price1
  obtain ⟨n2, d2⟩ := price2
  dsimp only [crossNum] at *
  obtain ⟨m1, hlt1, rfl, hm1⟩ := exists_ofNat (Int.le_of_lt hpos1)
  obtain ⟨m2, hlt2, rfl, hm2⟩ := exists_ofNat (Int.le_of_lt hpos2)
  rw [hm1] at hpos1
  rw [hm2] at hpos2
  have h1 : 0 < m1 := by omega
  have h2 : 0 < m2 := by omega
  rw [hm1, hm2, Int.gcd_natCast_natCast, Int.gcd_natCast_natCast] at hsum
  rw [hm1, hm2, Int.gcd_natCast_natCast] at hcross1 hcross2
  rw [Nat.gcd_comm m2 m1] at hcross2 hsum
  rw [← Int.natCast_div] at hcross1 hcross2
  rw [← Int.natCast_div, ← Int.natCast_div] at hsum
  have hfits : 2 * Nat.lcm m1 m2 < 2 ^ 63 := by
    rw [hm1, hm2, InRange] at hlcm
    have hcast : Int.lcm (m1 : Int) m2 = Nat.lcm m1 m2 := rfl
    omega
  have hquotient1 : m1 / Nat.gcd m1 m2 < 2 ^ 63 := Nat.lt_of_le_of_lt (Nat.div_le_self _ _) hlt1
  have hquotient2 : m2 / Nat.gcd m1 m2 < 2 ^ 63 := Nat.lt_of_le_of_lt (Nat.div_le_self _ _) hlt2
  have hexact : (n1 * Int64.ofNat (m2 / Nat.gcd m1 m2) +
      n2 * Int64.ofNat (m1 / Nat.gcd m1 m2)).toInt =
      n1.toInt * (m2 / Nat.gcd m1 m2 : Nat) + n2.toInt * (m1 / Nat.gcd m1 m2 : Nat) := by
    have hcast1 := Int64.toInt_ofNat_of_lt hquotient1
    have hcast2 := Int64.toInt_ofNat_of_lt hquotient2
    have hprod1 : (n1 * Int64.ofNat (m2 / Nat.gcd m1 m2)).toInt =
        n1.toInt * (m2 / Nat.gcd m1 m2 : Nat) := by
      rw [toInt_mul_of_inRange (by rwa [hcast2]), hcast2]
    have hprod2 : (n2 * Int64.ofNat (m1 / Nat.gcd m1 m2)).toInt =
        n2.toInt * (m1 / Nat.gcd m1 m2 : Nat) := by
      rw [toInt_mul_of_inRange (by rwa [hcast1]), hcast1]
    rw [toInt_add_of_inRange (by rwa [hprod1, hprod2]), hprod1, hprod2]
  obtain ⟨hden, hvalue⟩ := halved_spec (n1 * Int64.ofNat (m2 / Nat.gcd m1 m2) +
    n2 * Int64.ofNat (m1 / Nat.gcd m1 m2)) (Nat.lcm_pos h1 h2) hfits
  refine ⟨computeMeanChecked_eq n1 n2 h1 h2 hcross1 hcross2 hsum hfits, ?_, ?_, ?_⟩
  · rw [computeMean_eq n1 n2 h1 hlt1 hlt2]
    exact hden
  · rw [computeMean_eq n1 n2 h1 hlt1 hlt2, hvalue, hexact, half_cross_sum _ _ h1 h2, hm1, hm2]
    rfl
  · rw [computeMean_eq n1 n2 h1 hlt1 hlt2, computeMean_eq n2 n1 h2 hlt2 hlt1, Nat.gcd_comm m2 m1,
      Nat.lcm_comm m2 m1, Int64.add_comm]

/-- The fractions `-1/6` and `3/4`, whose cross products have an odd sum. -/
theorem mean_of_fractions_odd :
    computeMean ⟨-1, 6⟩ ⟨3, 4⟩ = ⟨7, 24⟩ ∧
    computeMean ⟨3, 4⟩ ⟨-1, 6⟩ = computeMean ⟨-1, 6⟩ ⟨3, 4⟩ :=
  ⟨by decide +kernel, (mean_of_fractions ⟨-1, 6⟩ ⟨3, 4⟩ (by decide) (by decide) (by decide)
    (by decide) (by decide) (by decide)).2.2.2⟩

end OracleMachine.Price
