import Mathlib.Algebra.Field.Rat
import Mathlib.Data.Nat.Digits.Defs

/-!
# Decimal text

Bytes that spell numbers in base ten.

* `IsDecimal` are the strings of digits with at most one point.  `significand`
  is the number that the digits spell without the point, `fractionDigits` is
  the number of digits after it, and `value` is the rational number the string
  stands for.
* `ofInt` prints an integer.  `ofInt_injective` and `append_ofInt_inj` say that
  a printed number can be read back, also behind a separator that is neither a
  digit nor a sign.
-/

namespace OracleMachine.Lib.Decimal

/-- A byte string. -/
abbrev Text := List UInt8

/-- The characters `0` to `9`. -/
def isDigit (c : UInt8) : Bool := 48 ≤ c && c ≤ 57

/-- The decimal point. -/
def point : UInt8 := 46

/-- The value of a digit. -/
def digitVal (c : UInt8) : Nat := c.toNat - 48

/-- The number that digits spell behind a number that was read before. -/
def numeralFrom (n : Nat) (cs : Text) : Nat := cs.foldl (fun n c => 10 * n + digitVal c) n

/-! ## Strings with a point -/

/-- Digits with at most one point. -/
def IsDecimal (s : Text) : Prop :=
  (∀ c ∈ s, isDigit c = true ∨ c = point) ∧ s.count point ≤ 1

instance (s : Text) : Decidable (IsDecimal s) := inferInstanceAs (Decidable (_ ∧ _))

/-- The number that the digits of a string spell. -/
def significand (s : Text) : Nat := numeralFrom 0 (s.filter isDigit)

/-- How many characters follow the first point. -/
def fractionDigits : Text → Nat
  | [] => 0
  | c :: cs => if c = point then cs.length else fractionDigits cs

/-- The number a decimal string stands for. -/
def value (s : Text) : ℚ := significand s / 10 ^ fractionDigits s

theorem isDigit_point : isDigit point = false := by decide

theorem IsDecimal.of_cons {c : UInt8} {cs : Text} (h : IsDecimal (c :: cs)) :
    IsDecimal cs := by
  refine ⟨fun d hd => h.1 d (List.mem_cons_of_mem c hd), ?_⟩
  exact (List.count_le_count_cons).trans h.2

/-- What follows the point are digits. -/
theorem IsDecimal.digits_of_point {cs : Text} (h : IsDecimal (point :: cs)) :
    ∀ c ∈ cs, isDigit c = true := by
  intro c hc
  rcases h.1 c (List.mem_cons_of_mem point hc) with hdigit | rfl
  · exact hdigit
  · have hcount := h.2
    rw [List.count_cons_self] at hcount
    exact absurd (List.count_pos_iff.mpr hc) (by omega)

/-! ## Printed numbers -/

/-- The digits of a number. -/
def ofNat (n : Nat) : Text :=
  if n = 0 then [48] else ((Nat.digits 10 n).map fun d => UInt8.ofNat (48 + d)).reverse

/-- A number with its sign. -/
def ofInt (i : Int) : Text :=
  if i < 0 then 45 :: ofNat i.natAbs else ofNat i.natAbs

theorem digitVal_ofNat {d : Nat} (h : d < 10) : digitVal (UInt8.ofNat (48 + d)) = d := by
  rw [digitVal, UInt8.toNat_ofNat', Nat.mod_eq_of_lt (by omega)]
  omega

theorem ofNat_ne_nil (n : Nat) : ofNat n ≠ [] := by
  unfold ofNat
  split
  · simp
  · next hn => simpa using Nat.digits_ne_nil_iff_ne_zero.mpr hn

/-- The digits of a number spell it. -/
theorem numeralFrom_ofNat (n : Nat) : numeralFrom 0 (ofNat n) = n := by
  unfold ofNat
  split
  · next hzero => rw [hzero]; rfl
  · have hfold : ∀ ds : List Nat, (∀ d ∈ ds, d < 10) →
        numeralFrom 0 ((ds.map fun d => UInt8.ofNat (48 + d)).reverse) = Nat.ofDigits 10 ds := by
      intro ds
      induction ds with
      | nil => intro _; rfl
      | cons d ds ih =>
        intro hds
        rw [List.map_cons, List.reverse_cons, numeralFrom, List.foldl_append, Nat.ofDigits_cons,
          ← ih fun e he => hds e (List.mem_cons_of_mem d he)]
        simp only [List.foldl_cons, List.foldl_nil, numeralFrom,
          digitVal_ofNat (hds d List.mem_cons_self)]
        exact Nat.add_comm _ _
    rw [hfold _ fun d hd => Nat.digits_lt_base (by decide) hd, Nat.ofDigits_digits]

/-- A printed number consists of digits. -/
theorem isDigit_of_mem_ofNat {n : Nat} {c : UInt8} (h : c ∈ ofNat n) : isDigit c = true := by
  unfold ofNat at h
  split at h
  · rw [List.mem_singleton.mp h]; decide
  · rw [List.mem_reverse, List.mem_map] at h
    obtain ⟨d, hd, rfl⟩ := h
    have hall : ∀ d < 10, isDigit (UInt8.ofNat (48 + d)) = true := by decide
    exact hall d (Nat.digits_lt_base (by decide) hd)

theorem ofInt_injective {i j : Int} (h : ofInt i = ofInt j) : i = j := by
  have hsign : ∀ n (cs : Text), ofNat n ≠ 45 :: cs := by
    intro n cs heq
    have hdigit : isDigit 45 = true :=
      isDigit_of_mem_ofNat (n := n) (heq ▸ List.mem_cons_self)
    exact absurd hdigit (by decide)
  have hnat : ∀ {m n : Nat}, ofNat m = ofNat n → m = n := by
    intro m n heq
    rw [← numeralFrom_ofNat m, heq, numeralFrom_ofNat]
  unfold ofInt at h
  split at h <;> split at h
  · have habs := hnat (List.cons.inj h).2
    omega
  · exact absurd h.symm (hsign _ _)
  · exact absurd h (hsign _ _)
  · have habs := hnat h
    omega

/-- A separator that is no digit and no sign does not occur in a number. -/
theorem not_mem_ofInt {c : UInt8} (hdigit : isDigit c = false) (hsign : c ≠ 45) (i : Int) :
    c ∉ ofInt i := by
  have hnat : c ∉ ofNat i.natAbs := by
    intro h
    rw [isDigit_of_mem_ofNat h] at hdigit
    cases hdigit
  unfold ofInt
  split
  · exact fun h => (List.mem_cons.mp h).elim hsign hnat
  · exact hnat

/-- Two lists are split alike at the last occurrence of a separator. -/
theorem append_cons_inj {α : Type} {x : α} {as bs us vs : List α}
    (hus : x ∉ us) (hvs : x ∉ vs) (h : as ++ x :: us = bs ++ x :: vs) :
    as = bs ∧ us = vs := by
  rcases List.append_eq_append_iff.mp h with ⟨cs, rfl, hcs⟩ | ⟨cs, rfl, hcs⟩
  · cases cs with
    | nil => exact ⟨(List.append_nil _).symm, (List.cons.inj hcs).2⟩
    | cons c cs =>
      have hmem : x ∈ us := by rw [(List.cons.inj hcs).2]; simp
      exact absurd hmem hus
  · cases cs with
    | nil => exact ⟨List.append_nil _, (List.cons.inj hcs).2.symm⟩
    | cons c cs =>
      have hmem : x ∈ vs := by rw [(List.cons.inj hcs).2]; simp
      exact absurd hmem hvs

/-- A text, a separator and a printed number are read back, whatever the text
is. -/
theorem append_ofInt_inj {x : UInt8} (hdigit : isDigit x = false) (hsign : x ≠ 45)
    {as bs : Text} {i j : Int} (h : as ++ x :: ofInt i = bs ++ x :: ofInt j) :
    as = bs ∧ i = j := by
  obtain ⟨hlist, hint⟩ := append_cons_inj (not_mem_ofInt hdigit hsign i)
    (not_mem_ofInt hdigit hsign j) h
  exact ⟨hlist, ofInt_injective hint⟩

end OracleMachine.Lib.Decimal
