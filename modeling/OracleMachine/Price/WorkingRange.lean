import OracleMachine.Price.Rational

/-!
# Prices in the working range

A price with at most 18 digits fits into the numerator, and so does the sum of
two of them over a common denominator.  `working_range_exact` says so for every
division of the 18 digits into digits in front of the point and behind it.

That no step of `computeMean` overflows is said by a second version of it
(`computeMeanChecked`), with the same steps in checked arithmetic.  Where it
gives a result, this is the result of `computeMean`
(`computeMean_of_checked`).
-/

namespace OracleMachine.Price

open Lib.Checked Lib.Decimal

/-! ## The steps of `computeMean`, checked -/

/-- The loop of `gcd`. -/
def gcdLoopChecked : Nat → Int64 → Int64 → Option Int64
  | 0, _, _ => none
  | fuel + 1, a, b =>
    if b ≠ 0 then (modChecked a b).bind fun rest => gcdLoopChecked fuel b rest else some a

/-- `gcd`. -/
def gcdChecked (a b : Int64) : Option Int64 := gcdLoopChecked (b.toInt.natAbs + 1) a b

/-- Half of a sum over a denominator. -/
def halvedChecked (sum denominator : Int64) : Option Rational := do
  let half ← divChecked sum 2
  let rest ← modChecked sum 2
  if rest = 0 then some ⟨half, denominator⟩
  else
    let double ← mulChecked denominator 2
    some ⟨sum, double⟩

/-- `computeMean`. -/
def computeMeanChecked (price1 price2 : Rational) : Option Rational :=
  if price1.denominator = price2.denominator then do
    let sum ← addChecked price1.numerator price2.numerator
    halvedChecked sum price1.denominator
  else do
    let gcdDenom ← gcdChecked price1.denominator price2.denominator
    let quotient2 ← divChecked price2.denominator gcdDenom
    let crossNum1 ← mulChecked price1.numerator quotient2
    let quotient1 ← divChecked price1.denominator gcdDenom
    let crossNum2 ← mulChecked price2.numerator quotient1
    let lcmDenom ← mulChecked quotient1 price2.denominator
    let sum ← addChecked crossNum1 crossNum2
    halvedChecked sum lcmDenom

theorem gcdLoop_of_checked {fuel : Nat} {a b c : Int64}
    (h : gcdLoopChecked fuel a b = some c) : gcdLoop fuel a b = c := by
  induction fuel generalizing a b with
  | zero => cases h
  | succ fuel ih =>
    rw [gcdLoopChecked] at h
    rw [gcdLoop]
    by_cases hzero : b ≠ 0
    · rw [if_pos hzero] at h ⊢
      obtain ⟨rest, hrest, hloop⟩ := Option.bind_eq_some_iff.mp h
      rw [← eq_of_checked hrest]
      exact ih hloop
    · rw [if_neg hzero] at h ⊢
      exact Option.some.inj h

theorem halved_of_checked {sum denominator : Int64} {price : Rational}
    (h : halvedChecked sum denominator = some price) : halved sum denominator = price := by
  obtain ⟨half, hhalf, h⟩ := Option.bind_eq_some_iff.mp h
  obtain ⟨rest, hrest, h⟩ := Option.bind_eq_some_iff.mp h
  rw [halved, ← eq_of_checked hrest, ← eq_of_checked hhalf]
  by_cases heven : rest = 0
  · rw [if_pos heven] at h ⊢
    exact Option.some.inj h
  · rw [if_neg heven] at h ⊢
    obtain ⟨double, hdouble, h⟩ := Option.bind_eq_some_iff.mp h
    rw [← eq_of_checked hdouble]
    exact Option.some.inj h

/-- A mean that is computed without overflow is the mean that is computed. -/
theorem computeMean_of_checked {price1 price2 price : Rational}
    (h : computeMeanChecked price1 price2 = some price) : computeMean price1 price2 = price := by
  rw [computeMeanChecked] at h
  rw [computeMean]
  by_cases heq : price1.denominator = price2.denominator
  · rw [if_pos heq] at h ⊢
    obtain ⟨sum, hsum, h⟩ := Option.bind_eq_some_iff.mp h
    rw [← eq_of_checked hsum]
    exact halved_of_checked h
  · rw [if_neg heq] at h ⊢
    obtain ⟨gcdDenom, hgcd, h⟩ := Option.bind_eq_some_iff.mp h
    obtain ⟨quotient2, hquotient2, h⟩ := Option.bind_eq_some_iff.mp h
    obtain ⟨crossNum1, hcross1, h⟩ := Option.bind_eq_some_iff.mp h
    obtain ⟨quotient1, hquotient1, h⟩ := Option.bind_eq_some_iff.mp h
    obtain ⟨crossNum2, hcross2, h⟩ := Option.bind_eq_some_iff.mp h
    obtain ⟨lcmDenom, hlcm, h⟩ := Option.bind_eq_some_iff.mp h
    obtain ⟨sum, hsum, h⟩ := Option.bind_eq_some_iff.mp h
    simp only [gcd, gcdLoop_of_checked hgcd, ← eq_of_checked hquotient2,
      ← eq_of_checked hquotient1, ← eq_of_checked hcross1, ← eq_of_checked hcross2,
      ← eq_of_checked hlcm, ← eq_of_checked hsum]
    exact halved_of_checked h

/-! ## Means without overflow -/

theorem gcdLoopChecked_ofNat {fuel m n : Nat} (hm : m < 2 ^ 63) (hn : n < 2 ^ 63)
    (hfuel : n < fuel) :
    gcdLoopChecked fuel (Int64.ofNat m) (Int64.ofNat n) = some (Int64.ofNat (Nat.gcd m n)) := by
  induction fuel generalizing m n with
  | zero => omega
  | succ fuel ih =>
    rw [gcdLoopChecked]
    by_cases hzero : n = 0
    · subst hzero
      rw [Nat.gcd_zero_right]
      rfl
    · have hpos : 0 < n := Nat.pos_of_ne_zero hzero
      have hlt : m % n < n := Nat.mod_lt m hpos
      rw [if_pos (quotient_defined hm hn hpos).1, modChecked_ofNat hm hn hpos, Option.bind_some,
        ih hn (by omega) (by omega), Nat.gcd_comm m n, Nat.gcd_rec n m, Nat.gcd_comm]

/-- Halving does not overflow as long as twice the denominator fits. -/
theorem halvedChecked_eq (sum : Int64) {d : Nat} (hd : 2 * d < 2 ^ 63) :
    halvedChecked sum (Int64.ofNat d) = some (halved sum (Int64.ofNat d)) := by
  have hdefined : (2 : Int64) ≠ 0 ∧ InRange (sum.toInt.tdiv (2 : Int64).toInt) := by
    have hlow := Int64.le_toInt sum
    have hhigh := Int64.toInt_lt sum
    refine ⟨by decide, ?_⟩
    rw [show (2 : Int64).toInt = 2 by decide, InRange, Int.tdiv_eq_ediv, show Int.sign 2 = 1 by rfl]
    split <;> omega
  have hdouble : mulChecked (Int64.ofNat d) 2 = some (Int64.ofNat d * 2) := by
    apply checked_of_defined
    rw [Int64.toInt_ofNat_of_lt (by omega), show (2 : Int64).toInt = 2 by decide, InRange]
    omega
  have hhalf : divChecked sum 2 = some (sum / 2) := checked_of_defined hdefined
  have hrest : modChecked sum 2 = some (sum % 2) := checked_of_defined hdefined
  rw [halvedChecked, hhalf, hrest, hdouble, halved]
  by_cases heven : sum % 2 = 0
  · rw [if_pos heven]
    exact if_pos heven
  · rw [if_neg heven]
    exact if_neg heven

/-- No step overflows when the cross products, their sum and twice the least
common multiple fit. -/
theorem computeMeanChecked_eq (n1 n2 : Int64) {m1 m2 : Nat} (hpos1 : 0 < m1) (hpos2 : 0 < m2)
    (hcross1 : InRange (n1.toInt * (m2 / Nat.gcd m1 m2 : Nat)))
    (hcross2 : InRange (n2.toInt * (m1 / Nat.gcd m1 m2 : Nat)))
    (hsum : InRange (n1.toInt * (m2 / Nat.gcd m1 m2 : Nat) +
      n2.toInt * (m1 / Nat.gcd m1 m2 : Nat)))
    (hlcm : 2 * Nat.lcm m1 m2 < 2 ^ 63) :
    computeMeanChecked ⟨n1, Int64.ofNat m1⟩ ⟨n2, Int64.ofNat m2⟩ =
      some (computeMean ⟨n1, Int64.ofNat m1⟩ ⟨n2, Int64.ofNat m2⟩) := by
  have hlcmpos : 0 < Nat.lcm m1 m2 := Nat.lcm_pos hpos1 hpos2
  have hle1 : m1 ≤ Nat.lcm m1 m2 := Nat.le_of_dvd hlcmpos (Nat.dvd_lcm_left m1 m2)
  have hle2 : m2 ≤ Nat.lcm m1 m2 := Nat.le_of_dvd hlcmpos (Nat.dvd_lcm_right m1 m2)
  rw [computeMean_eq n1 n2 hpos1 (by omega) (by omega), computeMeanChecked]
  by_cases heq : m1 = m2
  · rw [heq, Nat.gcd_self, Nat.div_self hpos2] at hsum ⊢
    have hadd : addChecked n1 n2 = some (n1 + n2) := by
      apply checked_of_defined
      simpa using hsum
    rw [if_pos rfl, hadd, Nat.lcm_self, show Int64.ofNat 1 = 1 by rfl, Int64.mul_one, Int64.mul_one]
    exact halvedChecked_eq (n1 + n2) (by omega)
  · have hgcdpos : 0 < Nat.gcd m1 m2 := Nat.gcd_pos_of_pos_left m2 hpos1
    have hgcdle : Nat.gcd m1 m2 ≤ m1 := Nat.gcd_le_left m2 hpos1
    have hquotient1 : m1 / Nat.gcd m1 m2 ≤ m1 := Nat.div_le_self _ _
    have hquotient2 : m2 / Nat.gcd m1 m2 ≤ m2 := Nat.div_le_self _ _
    have hmul : m1 / Nat.gcd m1 m2 * m2 = Nat.lcm m1 m2 :=
      Nat.div_mul_right_comm (Nat.gcd_dvd_left m1 m2) m2
    have hgcd : gcdChecked (Int64.ofNat m1) (Int64.ofNat m2) =
        some (Int64.ofNat (Nat.gcd m1 m2)) := by
      rw [gcdChecked, Int64.toInt_ofNat_of_lt (by omega)]
      exact gcdLoopChecked_ofNat (by omega) (by omega) (Nat.lt_succ_self _)
    have hdiv1 := divChecked_ofNat (m := m1) (by omega) (by omega) hgcdpos
    have hdiv2 := divChecked_ofNat (m := m2) (by omega) (by omega) hgcdpos
    have hmul1 : mulChecked n1 (Int64.ofNat (m2 / Nat.gcd m1 m2)) =
        some (n1 * Int64.ofNat (m2 / Nat.gcd m1 m2)) := by
      apply checked_of_defined
      rwa [Int64.toInt_ofNat_of_lt (by omega)]
    have hmul2 : mulChecked n2 (Int64.ofNat (m1 / Nat.gcd m1 m2)) =
        some (n2 * Int64.ofNat (m1 / Nat.gcd m1 m2)) := by
      apply checked_of_defined
      rwa [Int64.toInt_ofNat_of_lt (by omega)]
    have hden := mulChecked_ofNat (m := m1 / Nat.gcd m1 m2) (n := m2) (by omega) (by omega)
      (by rw [hmul]; omega)
    rw [hmul] at hden
    have hadd : addChecked (n1 * Int64.ofNat (m2 / Nat.gcd m1 m2))
        (n2 * Int64.ofNat (m1 / Nat.gcd m1 m2)) =
        some (n1 * Int64.ofNat (m2 / Nat.gcd m1 m2) + n2 * Int64.ofNat (m1 / Nat.gcd m1 m2)) := by
      apply checked_of_defined
      rw [← Int64.toInt_ofNat_of_lt (n := m2 / Nat.gcd m1 m2) (by omega)] at hcross1 hsum
      rw [← Int64.toInt_ofNat_of_lt (n := m1 / Nat.gcd m1 m2) (by omega)] at hcross2 hsum
      rwa [toInt_mul_of_inRange hcross1, toInt_mul_of_inRange hcross2]
    rw [if_neg fun h => heq (ofNat_inj (by omega) (by omega) h)]
    simp only [hgcd, hdiv1, hdiv2, hmul1, hmul2, hden, hadd, Option.bind_eq_bind, Option.bind_some]
    exact halvedChecked_eq _ hlcm

/-- No step overflows when the denominators have at most 18 zeros and both
numerators are below 2^62 over the common denominator. -/
theorem computeMeanChecked_ten_pow {n1 n2 f1 f2 : Nat} (h1 : f1 ≤ 18) (h2 : f2 ≤ 18)
    (hcross1 : n1 * 10 ^ (max f1 f2 - f1) < 2 ^ 62)
    (hcross2 : n2 * 10 ^ (max f1 f2 - f2) < 2 ^ 62) :
    (computeMeanChecked ⟨Int64.ofNat n1, Int64.ofNat (10 ^ f1)⟩
      ⟨Int64.ofNat n2, Int64.ofNat (10 ^ f2)⟩).isSome := by
  have hpos : ∀ n, 0 < 10 ^ n := fun n => Nat.pow_pos (by decide)
  have hn1 : n1 ≤ n1 * 10 ^ (max f1 f2 - f1) := Nat.le_mul_of_pos_right n1 (hpos _)
  have hn2 : n2 ≤ n2 * 10 ^ (max f1 f2 - f2) := Nat.le_mul_of_pos_right n2 (hpos _)
  have hmax := ten_pow_lt (n := max f1 f2) (by omega)
  have hcast1 : (Int64.ofNat n1).toInt * (10 ^ f2 / Nat.gcd (10 ^ f1) (10 ^ f2) : Nat) =
      (n1 * 10 ^ (max f1 f2 - f1) : Nat) := by
    rw [gcd_ten_pow, ten_pow_div_right, Int64.toInt_ofNat_of_lt (by omega), Int.natCast_mul]
  have hcast2 : (Int64.ofNat n2).toInt * (10 ^ f1 / Nat.gcd (10 ^ f1) (10 ^ f2) : Nat) =
      (n2 * 10 ^ (max f1 f2 - f2) : Nat) := by
    rw [gcd_ten_pow, ten_pow_div_left, Int64.toInt_ofNat_of_lt (by omega), Int.natCast_mul]
  rw [computeMeanChecked_eq _ _ (hpos f1) (hpos f2)]
  · rfl
  · rw [hcast1]
    exact inRange_natCast (by omega)
  · rw [hcast2]
    exact inRange_natCast (by omega)
  · rw [hcast1, hcast2, ← Int.natCast_add]
    exact inRange_natCast (by omega)
  · rw [lcm_ten_pow]
    exact hmax

/-! ## Strings in the working range -/

/-- How many characters stand in front of the point. -/
def integerDigits (s : Text) : Nat := (s.takeWhile (· ≠ point)).length

/-- A decimal string with a digit, at most `i` digits before and at most `f`
after the point. -/
structure InWorkingRange (i f : Nat) (s : Text) : Prop where
  decimal : IsDecimal s
  digit : HasDigit s
  integer_le : integerDigits s ≤ i
  fraction_le : fractionDigits s ≤ f

theorem digitVal_lt {c : UInt8} (h : isDigit c = true) : digitVal c < 10 := by
  have hle : c ≤ 57 := by
    rw [isDigit, Bool.and_eq_true, decide_eq_true_iff, decide_eq_true_iff] at h
    exact h.2
  have hnat := UInt8.le_iff_toNat_le.mp hle
  have h57 : (57 : UInt8).toNat = 57 := by decide
  rw [digitVal]
  omega

theorem numeralFrom_lt (n : Nat) {cs : Text} (hcs : ∀ c ∈ cs, isDigit c = true) :
    numeralFrom n cs < (n + 1) * 10 ^ cs.length := by
  induction cs generalizing n with
  | nil =>
    rw [numeralFrom, List.foldl_nil, List.length_nil]
    omega
  | cons c cs ih =>
    have hc := digitVal_lt (hcs c List.mem_cons_self)
    calc numeralFrom n (c :: cs)
        = numeralFrom (10 * n + digitVal c) cs := rfl
      _ < (10 * n + digitVal c + 1) * 10 ^ cs.length :=
          ih _ fun e he => hcs e (List.mem_cons_of_mem c he)
      _ ≤ ((n + 1) * 10) * 10 ^ cs.length := Nat.mul_le_mul_right _ (by omega)
      _ = (n + 1) * 10 ^ (c :: cs).length := by
          rw [List.length_cons, Nat.pow_succ', Nat.mul_assoc]

/-- Every digit stands before or after the point. -/
theorem length_filter_isDigit_le (s : Text) :
    (s.filter isDigit).length ≤ integerDigits s + fractionDigits s := by
  induction s with
  | nil => exact Nat.zero_le _
  | cons c cs ih =>
    by_cases hpoint : c = point
    · subst hpoint
      rw [List.filter_cons_of_neg (by decide), fractionDigits, if_pos rfl]
      exact Nat.le_add_left_of_le (List.length_filter_le _ _)
    · have hinteger : integerDigits (c :: cs) = integerDigits cs + 1 := by
        simp [integerDigits, hpoint]
      have hfilter : ((c :: cs).filter isDigit).length ≤ (cs.filter isDigit).length + 1 := by
        rw [List.filter_cons]
        split
        · rw [List.length_cons]
        · omega
      rw [hinteger, fractionDigits, if_neg hpoint]
      omega

theorem significand_lt (s : Text) :
    significand s < 10 ^ (integerDigits s + fractionDigits s) := by
  have hdigits : ∀ c ∈ s.filter isDigit, isDigit c = true := fun c hc => (List.mem_filter.mp hc).2
  calc significand s
      < (0 + 1) * 10 ^ (s.filter isDigit).length := numeralFrom_lt 0 hdigits
    _ = 10 ^ (s.filter isDigit).length := by rw [Nat.zero_add, Nat.one_mul]
    _ ≤ 10 ^ (integerDigits s + fractionDigits s) :=
        Nat.pow_le_pow_right (by decide) (length_filter_isDigit_le s)

/-- A price over a larger power of ten has as many digits more. -/
theorem significand_scaled_lt {i f m : Nat} {s : Text} (hif : i + f ≤ 18)
    (h : InWorkingRange i f s) (hs : fractionDigits s ≤ m) (hm : m ≤ f) :
    significand s * 10 ^ (m - fractionDigits s) < 2 ^ 62 := by
  have hinteger := h.integer_le
  calc significand s * 10 ^ (m - fractionDigits s)
      < 10 ^ (integerDigits s + fractionDigits s) * 10 ^ (m - fractionDigits s) :=
        Nat.mul_lt_mul_of_pos_right (significand_lt s) (Nat.pow_pos (by decide))
    _ = 10 ^ (integerDigits s + m) := by
        rw [← Nat.pow_add]
        congr 1
        omega
    _ ≤ 10 ^ 18 := Nat.pow_le_pow_right (by decide) (by omega)
    _ < 2 ^ 62 := by decide

/-- The price of a string: the result of `priceStringToRational` on it. -/
def ofDecimal (s : Text) : Rational :=
  ⟨Int64.ofNat (significand s), Int64.ofNat (10 ^ fractionDigits s)⟩

theorem exact_ofDecimal {i f : Nat} {s : Text} (hif : i + f ≤ 18) (h : InWorkingRange i f s) :
    Exact s (ofDecimal s) := by
  have hfraction := h.fraction_le
  have hlt := significand_scaled_lt hif h (Nat.le_refl _) hfraction
  rw [Nat.sub_self, Nat.pow_zero, Nat.mul_one] at hlt
  apply (exact_iff_fits s).mpr
  refine ⟨h.digit, ?_⟩
  rw [if_pos (by omega)]
  omega

/-- Prices are exact in the working range.  Two strings with at most `i` digits
before and at most `f` digits after the point, `i + f ≤ 18`, are converted to
their exact values, over the power of ten of their fraction.  `computeMean` of
them has no overflow in any step, and is their exact mean. -/
theorem working_range_exact (stod : Text → Option Int64) {i f : Nat} (hif : i + f ≤ 18)
    {s1 s2 : Text} (h1 : InWorkingRange i f s1) (h2 : InWorkingRange i f s2) :
    ∃ price1 price2 : Rational,
      priceStringToRational stod s1 = some price1 ∧
      price1.denominator.toInt = 10 ^ fractionDigits s1 ∧ Exact s1 price1 ∧
      priceStringToRational stod s2 = some price2 ∧
      price2.denominator.toInt = 10 ^ fractionDigits s2 ∧ Exact s2 price2 ∧
      computeMeanChecked price1 price2 = some (computeMean price1 price2) ∧
      ExactMean s1 s2 (computeMean price1 price2) := by
  have hf1 := h1.fraction_le
  have hf2 := h2.fraction_le
  have hcross1 := significand_scaled_lt hif h1 (Nat.le_max_left _ (fractionDigits s2)) (by omega)
  have hcross2 := significand_scaled_lt hif h2 (Nat.le_max_right (fractionDigits s1) _) (by omega)
  have hden : ∀ n ≤ 18, (Int64.ofNat (10 ^ n)).toInt = 10 ^ n := by
    intro n hn
    have hlt := ten_pow_lt hn
    rw [Int64.toInt_ofNat_of_lt (by omega)]
    exact_mod_cast rfl
  have hsome : (computeMeanChecked (ofDecimal s1) (ofDecimal s2)).isSome :=
    computeMeanChecked_ten_pow (by omega) (by omega) hcross1 hcross2
  obtain ⟨mean, hmean⟩ := Option.isSome_iff_exists.mp hsome
  refine ⟨ofDecimal s1, ofDecimal s2, priceStringToRational_decimal stod h1.decimal,
    hden _ (by omega), exact_ofDecimal hif h1, priceStringToRational_decimal stod h2.decimal,
    hden _ (by omega), exact_ofDecimal hif h2, ?_, ?_⟩
  · rw [computeMean_of_checked hmean]
    exact hmean
  · apply (exactMean_iff (by omega) (by omega)).mpr
    refine ⟨h1.digit, h2.digit, ?_⟩
    rw [commonSum]
    omega

/-- The prices `0.5` and `12`, with the mean `125 / 20`. -/
theorem working_range_exact_half_and_twelve :
    InWorkingRange 2 1 [48, 46, 53] ∧ InWorkingRange 2 1 [49, 50] ∧
    computeMean (ofDecimal [48, 46, 53]) (ofDecimal [49, 50]) = ⟨125, 20⟩ ∧
    ∃ price1 price2 : Rational,
      priceStringToRational (fun _ => none) [48, 46, 53] = some price1 ∧
      priceStringToRational (fun _ => none) [49, 50] = some price2 ∧
      ExactMean [48, 46, 53] [49, 50] (computeMean price1 price2) := by
  have h1 : InWorkingRange 2 1 [48, 46, 53] :=
    ⟨by decide +kernel, ⟨48, by decide⟩, by decide, by decide⟩
  have h2 : InWorkingRange 2 1 [49, 50] :=
    ⟨by decide +kernel, ⟨49, by decide⟩, by decide, by decide⟩
  obtain ⟨price1, price2, hprice1, -, -, hprice2, -, -, -, hmean⟩ :=
    working_range_exact (fun _ => none) (by decide) h1 h2
  exact ⟨h1, h2, by decide +kernel, price1, price2, hprice1, hprice2, hmean⟩

end OracleMachine.Price
