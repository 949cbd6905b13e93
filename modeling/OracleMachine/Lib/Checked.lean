import Mathlib.Data.Nat.Basic
import Mathlib.Tactic.NormNum
import Mathlib.Tactic.Positivity
import Mathlib.Tactic.Ring

/-!
# Signed 64-bit arithmetic with and without overflow

Sums and products of `Int64` are taken modulo 2^64.  The operations that end in
`Checked` give no result where C++ leaves the result of `int64_t` arithmetic
undefined: when the exact value does not fit, and for a division by zero.  A
checked result is the unchecked one, so a computation that goes through with
checked operations has no overflow in any step.

On natural numbers below 2^63 all four operations are the exact ones.

A fraction whose two numbers are reduced modulo 2^64 can still have its value.
`toInt_mul_eq_iff` says when: the quotient and the remainder of the denominator
decide of which unit the fraction has to be a multiple, and how large it may
be.
-/

namespace OracleMachine.Lib.Checked

/-! ## `Int64` and natural numbers -/

theorem toInt_ofNat_iff (n : Nat) : (Int64.ofNat n).toInt = n ↔ n < 2 ^ 63 := by
  refine ⟨fun h => ?_, Int64.toInt_ofNat_of_lt⟩
  have hlt := Int64.toInt_lt (Int64.ofNat n)
  rw [h] at hlt
  exact_mod_cast hlt

theorem ofNat_inj {m n : Nat} (hm : m < 2 ^ 63) (hn : n < 2 ^ 63)
    (h : Int64.ofNat m = Int64.ofNat n) : m = n := by
  have hint := congrArg Int64.toInt h
  rw [Int64.toInt_ofNat_of_lt hm, Int64.toInt_ofNat_of_lt hn] at hint
  exact_mod_cast hint

/-- A value that is not negative is the conversion of a natural number. -/
theorem exists_ofNat {a : Int64} (h : 0 ≤ a.toInt) :
    ∃ n < 2 ^ 63, a = Int64.ofNat n ∧ a.toInt = n := by
  have hlt := Int64.toInt_lt a
  obtain ⟨n, hn⟩ := Int.eq_ofNat_of_zero_le h
  have hfit : n < 2 ^ 63 := by omega
  refine ⟨n, hfit, ?_, hn⟩
  rw [← Int64.toInt_inj, hn, Int64.toInt_ofNat_of_lt hfit]

theorem ofNat_div {m n : Nat} (hm : m < 2 ^ 63) (hn : n < 2 ^ 63) :
    Int64.ofNat m / Int64.ofNat n = Int64.ofNat (m / n) := by
  have hlt : m / n < 2 ^ 63 := Nat.lt_of_le_of_lt (Nat.div_le_self m n) hm
  rw [← Int64.toInt_inj, Int64.toInt_div, Int64.toInt_ofNat_of_lt hm,
    Int64.toInt_ofNat_of_lt hn, Int64.toInt_ofNat_of_lt hlt, ← Int.ofNat_tdiv]
  generalize m / n = q at hlt
  exact Int.bmod_eq_of_le (by omega) (by omega)

theorem ofNat_mod {m n : Nat} (hm : m < 2 ^ 63) (hn : n < 2 ^ 63) :
    Int64.ofNat m % Int64.ofNat n = Int64.ofNat (m % n) := by
  have hlt : m % n < 2 ^ 63 := Nat.lt_of_le_of_lt (Nat.mod_le m n) hm
  rw [← Int64.toInt_inj, Int64.toInt_mod, Int64.toInt_ofNat_of_lt hm,
    Int64.toInt_ofNat_of_lt hn, Int64.toInt_ofNat_of_lt hlt, ← Int.ofNat_tmod]

/-! ## Fractions modulo 2^64 -/

/-- A natural number modulo 2^64, the upper half taken for negative. -/
theorem toInt_ofNat_eq (n : Nat) :
    (Int64.ofNat n).toInt =
      if n % 2 ^ 64 < 2 ^ 63 then ((n % 2 ^ 64 : Nat) : Int) else (n % 2 ^ 64 : Nat) - 2 ^ 64 := by
  rw [Int64.toInt_ofNat', Int.bmod_def, show Int64.size = 2 ^ 64 from rfl]
  split <;> split <;> omega

theorem toInt_ofNat_pos_iff (n : Nat) :
    0 < (Int64.ofNat n).toInt ↔ 0 < n % 2 ^ 64 ∧ n % 2 ^ 64 < 2 ^ 63 := by
  rw [toInt_ofNat_eq]
  split <;> omega

section Fractions

variable {M n d : Nat}

/-- A fraction that keeps its value modulo `M` is a multiple of `1 / g`, where
`g` divides both parts of the denominator. -/
theorem dvd_of_mod_mul_eq (hM : 0 < M) (h : n % M * d = n * (d % M)) :
    d ∣ Nat.gcd (d / M) (d % M) * n := by
  have hn := Nat.div_add_mod n M
  have hd := Nat.div_add_mod d M
  have hcross : n % M * (d / M) = n / M * (d % M) := by
    apply Nat.eq_of_mul_eq_mul_left hM
    have hleft : n % M * d = M * (n % M * (d / M)) + n % M * (d % M) := by
      conv_lhs => rw [← hd]
      ring
    have hright : n * (d % M) = M * (n / M * (d % M)) + n % M * (d % M) := by
      conv_lhs => rw [← hn]
      ring
    omega
  have hquotient : d / M * n = d * (n / M) := by
    calc d / M * n
        = M * (d / M) * (n / M) + n % M * (d / M) := by
          conv_lhs => rw [← hn]
          ring
      _ = d * (n / M) := by
          rw [hcross]
          conv_rhs => rw [← hd]
          ring
  rw [← Nat.gcd_mul_right]
  refine Nat.dvd_gcd ⟨n / M, hquotient⟩ ⟨n % M, ?_⟩
  rw [Nat.mul_comm, ← h, Nat.mul_comm]

/-- Such a multiple keeps its value as long as the numerator does not reach
`M`. -/
theorem mod_mul_eq_of_dvd (hrest : 0 < d % M) (hdvd : d ∣ Nat.gcd (d / M) (d % M) * n)
    {b : Nat} (hb : b ≤ M) (hlt : n * (d % M) < b * d) :
    n % M < b ∧ n % M * d = n * (d % M) := by
  obtain ⟨k, hk⟩ := hdvd
  obtain ⟨q, hq⟩ := Nat.gcd_dvd_left (d / M) (d % M)
  obtain ⟨r, hr⟩ := Nat.gcd_dvd_right (d / M) (d % M)
  have hg : 0 < Nat.gcd (d / M) (d % M) := Nat.gcd_pos_of_pos_right _ hrest
  generalize Nat.gcd (d / M) (d % M) = g at hk hq hr hg
  have hd : g * (M * q + r) = d := by
    rw [Nat.mul_add, Nat.mul_left_comm, ← hq, ← hr, Nat.div_add_mod]
  have hn : n = k * r + M * (k * q) := by
    apply Nat.eq_of_mul_eq_mul_left hg
    rw [hk, ← hd]
    ring
  have hproduct : n * (d % M) = k * r * d := by
    calc n * (d % M)
        = g * n * r := by
          rw [hr]
          ring
      _ = k * r * d := by
          rw [hk]
          ring
  have hsmall : k * r < b := by
    rw [hproduct] at hlt
    exact Nat.lt_of_mul_lt_mul_right hlt
  have hmod : n % M = k * r := by
    rw [hn, Nat.add_mul_mod_self_left]
    exact Nat.mod_eq_of_lt (by omega)
  rw [hmod, hproduct]
  exact ⟨hsmall, rfl⟩

end Fractions

/-- When a fraction over a positive denominator keeps its value in `Int64`. -/
theorem toInt_mul_eq_iff {n d : Nat} (hpos : 0 < (Int64.ofNat d).toInt) :
    (Int64.ofNat n).toInt * d = n * (Int64.ofNat d).toInt ↔
      d ∣ Nat.gcd (d / 2 ^ 64) (d % 2 ^ 64) * n ∧ n * (d % 2 ^ 64) < 2 ^ 63 * d := by
  obtain ⟨hrest, hhalf⟩ := (toInt_ofNat_pos_iff d).mp hpos
  have hd : 0 < d := Nat.pos_of_ne_zero fun hzero => by simp [hzero] at hrest
  rw [toInt_ofNat_eq d, if_pos hhalf]
  constructor
  · intro heq
    have hfit : n % 2 ^ 64 < 2 ^ 63 := by
      by_contra hneg
      have hnegative : (Int64.ofNat n).toInt < 0 := by
        rw [toInt_ofNat_eq, if_neg hneg]
        omega
      have hproduct := Int.mul_neg_of_neg_of_pos hnegative (Int.natCast_pos.mpr hd)
      rw [heq] at hproduct
      exact absurd hproduct (Int.not_lt.mpr (by positivity))
    rw [toInt_ofNat_eq, if_pos hfit] at heq
    have hcross : n % 2 ^ 64 * d = n * (d % 2 ^ 64) := by exact_mod_cast heq
    refine ⟨dvd_of_mod_mul_eq (by decide) hcross, ?_⟩
    rw [← hcross]
    exact Nat.mul_lt_mul_of_pos_right hfit hd
  · rintro ⟨hdvd, hlt⟩
    obtain ⟨hfit, hcross⟩ := mod_mul_eq_of_dvd hrest hdvd (by decide) hlt
    rw [toInt_ofNat_eq, if_pos hfit]
    exact_mod_cast hcross

/-! ## Checked operations -/

/-- The values of an `Int64`. -/
def InRange (x : Int) : Prop := -2 ^ 63 ≤ x ∧ x < 2 ^ 63

instance : DecidablePred InRange := fun _ => inferInstanceAs (Decidable (_ ∧ _))

/-- A result that is there only where it is defined. -/
def checked (defined : Prop) [Decidable defined] (result : Int64) : Option Int64 :=
  if defined then some result else none

def addChecked (a b : Int64) : Option Int64 := checked (InRange (a.toInt + b.toInt)) (a + b)

def mulChecked (a b : Int64) : Option Int64 := checked (InRange (a.toInt * b.toInt)) (a * b)

def divChecked (a b : Int64) : Option Int64 :=
  checked (b ≠ 0 ∧ InRange (a.toInt.tdiv b.toInt)) (a / b)

/-- A remainder is undefined where the quotient is. -/
def modChecked (a b : Int64) : Option Int64 :=
  checked (b ≠ 0 ∧ InRange (a.toInt.tdiv b.toInt)) (a % b)

section Checked

variable {defined : Prop} [Decidable defined] {result c : Int64}

theorem checked_of_defined (h : defined) : checked defined result = some result := if_pos h

/-- A checked result is the unchecked one. -/
theorem eq_of_checked (h : checked defined result = some c) : c = result := by
  unfold checked at h
  split at h
  · exact (Option.some.inj h).symm
  · cases h

end Checked

/-- A sum that is in range is exact. -/
theorem toInt_add_of_inRange {a b : Int64} (h : InRange (a.toInt + b.toInt)) :
    (a + b).toInt = a.toInt + b.toInt := by
  obtain ⟨hlow, hhigh⟩ := h
  rw [Int64.toInt_add]
  exact Int.bmod_eq_of_le (by omega) (by omega)

/-- A product that is in range is exact. -/
theorem toInt_mul_of_inRange {a b : Int64} (h : InRange (a.toInt * b.toInt)) :
    (a * b).toInt = a.toInt * b.toInt := by
  obtain ⟨hlow, hhigh⟩ := h
  rw [Int64.toInt_mul]
  exact Int.bmod_eq_of_le (by omega) (by omega)

theorem inRange_natCast {n : Nat} (h : n < 2 ^ 63) : InRange (n : Int) := by
  unfold InRange
  omega

theorem mulChecked_ofNat {m n : Nat} (hm : m < 2 ^ 63) (hn : n < 2 ^ 63) (h : m * n < 2 ^ 63) :
    mulChecked (Int64.ofNat m) (Int64.ofNat n) = some (Int64.ofNat (m * n)) := by
  rw [Int64.ofNat_mul]
  apply checked_of_defined
  rw [Int64.toInt_ofNat_of_lt hm, Int64.toInt_ofNat_of_lt hn, ← Int.natCast_mul]
  exact inRange_natCast h

/-- A quotient of natural numbers is defined. -/
theorem quotient_defined {m n : Nat} (hm : m < 2 ^ 63) (hn : n < 2 ^ 63) (hpos : 0 < n) :
    Int64.ofNat n ≠ 0 ∧ InRange ((Int64.ofNat m).toInt.tdiv (Int64.ofNat n).toInt) := by
  constructor
  · intro hzero
    exact hpos.ne' (ofNat_inj hn (by decide) hzero)
  · rw [Int64.toInt_ofNat_of_lt hm, Int64.toInt_ofNat_of_lt hn, ← Int.ofNat_tdiv]
    exact inRange_natCast (Nat.lt_of_le_of_lt (Nat.div_le_self m n) hm)

theorem divChecked_ofNat {m n : Nat} (hm : m < 2 ^ 63) (hn : n < 2 ^ 63) (hpos : 0 < n) :
    divChecked (Int64.ofNat m) (Int64.ofNat n) = some (Int64.ofNat (m / n)) := by
  rw [← ofNat_div hm hn]
  exact checked_of_defined (quotient_defined hm hn hpos)

theorem modChecked_ofNat {m n : Nat} (hm : m < 2 ^ 63) (hn : n < 2 ^ 63) (hpos : 0 < n) :
    modChecked (Int64.ofNat m) (Int64.ofNat n) = some (Int64.ofNat (m % n)) := by
  rw [← ofNat_mod hm hn]
  exact checked_of_defined (quotient_defined hm hn hpos)

end OracleMachine.Lib.Checked
