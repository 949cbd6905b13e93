import OracleMachine.Lib.Decimal
import Mathlib.Data.List.DropRight
import Mathlib.Data.List.Forall2

/-!
# Text as the C++ library reads it

* `cut` is the text around the first occurrence of a character, as `find` and `substr` give it.
* `getlines` are the lines of a `while (std::getline(stream, line, sep))` loop.  They are
  the fields between the separators, but an empty field at the end is not read:
  `splitOn_eq`.
* `trim` removes characters at both ends with `erase`, `find_first_not_of` and
  `find_last_not_of`.  `trim_eq` is its meaning.
* `stoi` reads a number at the start of a text.  `stoi_eq_ok_iff` is its meaning.
-/

namespace OracleMachine.Lib.Text

open Decimal

/-- The bytes of an ASCII literal. -/
def ascii (s : String) : Text := s.toList.map Char.toUInt8

theorem exists_right_of_forall₂ {α β : Type} {R : α → β → Prop} {as : List α} {bs : List β}
    (h : List.Forall₂ R as bs) {a : α} (ha : a ∈ as) : ∃ b ∈ bs, R a b := by
  obtain ⟨i, hi, rfl⟩ := List.getElem_of_mem ha
  have hi' : i < bs.length := h.length_eq ▸ hi
  exact ⟨bs.get ⟨i, hi'⟩, List.get_mem bs _, h.get hi hi'⟩

theorem exists_left_of_forall₂ {α β : Type} {R : α → β → Prop} {as : List α} {bs : List β}
    (h : List.Forall₂ R as bs) {b : β} (hb : b ∈ bs) : ∃ a ∈ as, R a b :=
  exists_right_of_forall₂ h.flip hb

theorem exists_forall₂_iff {α β : Type} {R : α → β → Prop} {as : List α} :
    (∃ bs, List.Forall₂ R as bs) ↔ ∀ a ∈ as, ∃ b, R a b := by
  constructor
  · intro h a ha
    obtain ⟨bs, hbs⟩ := h
    obtain ⟨b, -, hb⟩ := exists_right_of_forall₂ hbs ha
    exact ⟨b, hb⟩
  · intro h
    induction as with
    | nil => exact ⟨[], .nil⟩
    | cons a as ih =>
      rw [List.forall_mem_cons] at h
      obtain ⟨b, hb⟩ := h.1
      obtain ⟨bs, hbs⟩ := ih h.2
      exact ⟨b :: bs, .cons hb hbs⟩

/-! ## Cutting -/

section Cutting

variable {α : Type} [DecidableEq α] {c : α} {as : List α}

/-- What stands before and behind the first occurrence of a character. -/
def cut (c : α) : List α → List α × Option (List α)
  | [] => ([], none)
  | d :: ds => if d = c then ([], some ds) else (d :: (cut c ds).1, (cut c ds).2)

theorem cut_append (h : c ∉ as) (bs : List α) : cut c (as ++ c :: bs) = (as, some bs) := by
  induction as with
  | nil => rw [List.nil_append, cut, if_pos rfl]
  | cons a as ih =>
    rw [List.mem_cons, not_or] at h
    rw [List.cons_append, cut, if_neg fun heq => h.1 heq.symm, ih h.2]

theorem cut_of_not_mem (h : c ∉ as) : cut c as = (as, none) := by
  induction as with
  | nil => rfl
  | cons a as ih =>
    rw [List.mem_cons, not_or] at h
    rw [cut, if_neg fun heq => h.1 heq.symm, ih h.2]

theorem not_mem_of_cut (h : (cut c as).2 = none) : c ∉ as := by
  intro hmem
  obtain ⟨front, back, rfl, hfront⟩ := List.eq_append_cons_of_mem hmem
  rw [cut_append hfront] at h
  cases h

end Cutting

/-! ## Lines -/

section Lines

variable {α : Type} [DecidableEq α] {sep : α}

/-- `std::getline(stream, line, sep)`: the line, and what is left of the stream.  It fails
when nothing is left. -/
def getline (sep : α) : List α → Option (List α × List α)
  | [] => none
  | c :: cs => some ((c :: cs).takeWhile (· ≠ sep), ((c :: cs).dropWhile (· ≠ sep)).tail)

/-- The lines of a loop over `getline`. -/
def getlines (sep : α) : List α → List (List α)
  | [] => []
  | c :: cs =>
    if c = sep then [] :: getlines sep cs
    else
      match getlines sep cs with
      | [] => [[c]]
      | line :: lines => (c :: line) :: lines

/-- `getlines` calls `getline` until it fails. -/
theorem getlines_eq (s : List α) :
    getlines sep s =
      match getline sep s with
      | none => []
      | some (line, rest) => line :: getlines sep rest := by
  induction s with
  | nil => rfl
  | cons c cs ih =>
    by_cases hc : c = sep
    · simp [getlines, getline, hc]
    · rw [getlines, if_neg hc, ih]
      cases cs with
      | nil => simp [getline, getlines, hc]
      | cons d ds => simp [getline, hc]

/-- The lines are the fields between the separators, without an empty field at the end. -/
theorem splitOn_eq (sep : α) (s : List α) :
    s.splitOn sep = getlines sep s ∨ s.splitOn sep = getlines sep s ++ [[]] := by
  induction s with
  | nil => exact .inr rfl
  | cons c cs ih =>
    rw [List.splitOn_cons_eq_if_modifyHead, getlines]
    by_cases hc : c = sep
    · simpa [hc] using ih
    · simp only [beq_iff_eq, hc, if_false]
      cases hlines : getlines sep cs with
      | nil =>
        rw [hlines] at ih
        rcases ih with h | h
        · exact absurd h (List.splitOn_ne_nil _ _)
        · rw [h]
          exact .inl rfl
      | cons line lines =>
        rw [hlines] at ih
        refine Or.imp ?_ ?_ ih <;> intro h <;> rw [h] <;> rfl

/-- A list that is read off the first `k` lines can be read off the first `k` fields, when
an empty field is never read. -/
theorem forall₂_take_getlines_iff {β : Type} {R : List α → β → Prop} (hR : ∀ b, ¬ R [] b)
    (sep : α) (s : List α) (bs : List β) :
    List.Forall₂ R ((getlines sep s).take bs.length) bs ↔
      List.Forall₂ R ((s.splitOn sep).take bs.length) bs := by
  rcases splitOn_eq sep s with h | h
  · rw [h]
  · rw [h]
    by_cases hlen : bs.length ≤ (getlines sep s).length
    · rw [List.take_append_of_le_length hlen]
    · constructor
      · intro hlines
        have hlength := hlines.length_eq
        rw [List.length_take] at hlength
        omega
      · intro hfields
        -- the empty field at the end would be read
        rw [List.take_of_length_le (by simp; omega)] at hfields
        obtain ⟨b, -, hb⟩ := exists_right_of_forall₂ hfields (show [] ∈ _ by simp)
        exact absurd hb (hR b)

end Lines

/-! ## Trimming -/

section Trim

variable {α : Type} (p : α → Bool)

/-- `find_first_not_of`, for the characters that satisfy `p`.  `none` is `npos`. -/
def findFirstNotOf (s : List α) : Option Nat := s.findIdx? fun c => !p c

/-- `find_last_not_of`. -/
def findLastNotOf (s : List α) : Option Nat :=
  (s.reverse.findIdx? fun c => !p c).map fun i => s.length - 1 - i

/-- `erase(pos, n)`.  The count `npos` reaches to the end. -/
def erase (s : List α) (pos : Nat) : Option Nat → List α
  | some n => s.take pos ++ s.drop (pos + n)
  | none => s.take pos

/-- The position behind another one: `npos + 1` is zero. -/
def nextPos : Option Nat → Nat
  | some i => i + 1
  | none => 0

/-- `s.erase(0, s.find_first_not_of(set)); s.erase(s.find_last_not_of(set) + 1);` -/
def trim (s : List α) : List α :=
  let s := erase s 0 (findFirstNotOf p s)
  erase s (nextPos (findLastNotOf p s)) none

variable {p}

theorem erase_findFirstNotOf (s : List α) :
    erase s 0 (findFirstNotOf p s) = s.dropWhile p := by
  rw [findFirstNotOf]
  cases h : s.findIdx? fun c => !p c with
  | none =>
    rw [List.findIdx?_eq_none_iff] at h
    exact (List.dropWhile_eq_nil_iff.mpr fun c hc => by simpa using h c hc).symm
  | some i =>
    rw [List.dropWhile_eq_drop_findIdx_not, (List.findIdx?_eq_some_iff_findIdx_eq.mp h).2]
    simp [erase]

theorem erase_findLastNotOf (s : List α) :
    erase s (nextPos (findLastNotOf p s)) none = s.rdropWhile p := by
  rw [findLastNotOf, List.rdropWhile]
  cases h : s.reverse.findIdx? fun c => !p c with
  | none =>
    rw [List.findIdx?_eq_none_iff] at h
    rw [List.dropWhile_eq_nil_iff.mpr fun c hc => by simpa using h c hc]
    rfl
  | some i =>
    obtain ⟨hi, hidx⟩ := List.findIdx?_eq_some_iff_findIdx_eq.mp h
    rw [List.length_reverse] at hi
    have hpos : s.length - 1 - i + 1 = s.length - i := by omega
    rw [List.dropWhile_eq_drop_findIdx_not, hidx, List.drop_reverse, List.reverse_reverse,
      Option.map_some, nextPos, erase, hpos]

/-- Trimming drops the characters of the set at both ends. -/
theorem trim_eq (s : List α) : trim p s = (s.dropWhile p).rdropWhile p := by
  rw [trim, erase_findFirstNotOf, erase_findLastNotOf]

end Trim

/-! ## Numbers -/

/-- `isspace`. -/
def isSpace (c : UInt8) : Bool := c = 32 || (9 ≤ c && c ≤ 13)

/-- The exceptions of `std::stoi`. -/
inductive StoiError where
  | invalidArgument
  | outOfRange
  deriving DecidableEq

/-- The sign of a number, and what follows it. -/
def readSign : Text → Bool × Text
  | 45 :: cs => (true, cs)
  | 43 :: cs => (false, cs)
  | cs => (false, cs)

/-- `std::stoi`. -/
def stoi (s : Text) : Except StoiError Int :=
  let (negative, s) := readSign (s.dropWhile isSpace)
  let digits := s.takeWhile isDigit
  if digits = [] then .error .invalidArgument
  else
    let value : Int := numeralFrom 0 digits
    let value := if negative then -value else value
    if -2147483648 ≤ value ∧ value ≤ 2147483647 then .ok value else .error .outOfRange

/-- `s` starts with the number `n`: after spaces and a sign there are digits, and what
follows them is ignored. -/
def StartsWithInt (s : Text) (n : Int) : Prop :=
  ∃ spaces sign digits rest, s = spaces ++ (sign ++ (digits ++ rest)) ∧
    (∀ c ∈ spaces, isSpace c = true) ∧ digits ≠ [] ∧ (∀ c ∈ digits, isDigit c = true) ∧
    (∀ c ∈ rest.head?, isDigit c = false) ∧
    ((sign = [] ∨ sign = [43]) ∧ n = numeralFrom 0 digits ∨
      sign = [45] ∧ n = -numeralFrom 0 digits)

theorem isDigit_iff {c : UInt8} : isDigit c = true ↔ 48 ≤ c.toNat ∧ c.toNat ≤ 57 := by
  simp [isDigit, UInt8.le_iff_toNat_le]

theorem isSpace_iff {c : UInt8} :
    isSpace c = true ↔ c.toNat = 32 ∨ 9 ≤ c.toNat ∧ c.toNat ≤ 13 := by
  simp [isSpace, UInt8.le_iff_toNat_le, ← UInt8.toNat_inj]

theorem not_isSpace_of_isDigit {c : UInt8} (h : isDigit c = true) : isSpace c = false := by
  rw [isDigit_iff] at h
  rw [← Bool.not_eq_true, isSpace_iff]
  omega

/-- A digit in front is not taken for a sign. -/
theorem readSign_digit {c : UInt8} (h : isDigit c = true) (cs : Text) :
    readSign (c :: cs) = (false, c :: cs) := by
  have hminus : c ≠ 45 := by
    rintro rfl
    exact absurd h (by decide)
  have hplus : c ≠ 43 := by
    rintro rfl
    exact absurd h (by decide)
  unfold readSign
  split <;> simp_all

theorem takeWhile_digits {digits rest : Text} (hdigits : ∀ c ∈ digits, isDigit c = true)
    (hrest : ∀ c ∈ rest.head?, isDigit c = false) :
    (digits ++ rest).takeWhile isDigit = digits := by
  rw [List.takeWhile_append_of_pos hdigits]
  cases rest with
  | nil => simp
  | cons c cs => simp [hrest c rfl]

/-- The spaces end where a number starts. -/
theorem dropWhile_number {sign digits rest : Text} (hdigits : digits ≠ [])
    (hall : ∀ c ∈ digits, isDigit c = true) (hhead : ∀ c ∈ sign, isSpace c = false) :
    (sign ++ (digits ++ rest)).dropWhile isSpace = sign ++ (digits ++ rest) := by
  cases sign with
  | cons c cs => simp [hhead c]
  | nil =>
    cases digits with
    | nil => exact absurd rfl hdigits
    | cons d ds => simp [not_isSpace_of_isDigit (hall d List.mem_cons_self)]

/-- `stoi` behind the spaces and the sign. -/
theorem stoi_append {spaces sign digits rest : Text} {n : Int} {negative : Bool}
    (hspaces : ∀ c ∈ spaces, isSpace c = true) (hdigits : digits ≠ [])
    (hall : ∀ c ∈ digits, isDigit c = true) (hrest : ∀ c ∈ rest.head?, isDigit c = false)
    (hsign : readSign (sign ++ (digits ++ rest)) = (negative, digits ++ rest))
    (hhead : ∀ c ∈ sign, isSpace c = false)
    (hn : n = if negative then -(numeralFrom 0 digits : Int) else numeralFrom 0 digits)
    (hrange : -2147483648 ≤ n ∧ n ≤ 2147483647) :
    stoi (spaces ++ (sign ++ (digits ++ rest))) = .ok n := by
  rw [stoi, List.dropWhile_append_of_pos hspaces, dropWhile_number hdigits hall hhead, hsign]
  simp only [takeWhile_digits hall hrest, if_neg hdigits, ← hn, if_pos hrange]

/-- The text behind spaces is a sign and the rest. -/
theorem readSign_cases (s : Text) :
    (∃ sign, (sign = [] ∨ sign = [43]) ∧ s = sign ++ (readSign s).2 ∧ (readSign s).1 = false) ∨
      (s = [45] ++ (readSign s).2 ∧ (readSign s).1 = true) := by
  unfold readSign
  split
  · exact .inr ⟨rfl, rfl⟩
  · exact .inl ⟨[43], .inr rfl, rfl, rfl⟩
  · exact .inl ⟨[], .inl rfl, rfl, rfl⟩

theorem startsWithInt_of_split {s sign body : Text} {n : Int}
    (hs : s.dropWhile isSpace = sign ++ body) (hdigits : body.takeWhile isDigit ≠ [])
    (hn : (sign = [] ∨ sign = [43]) ∧ n = numeralFrom 0 (body.takeWhile isDigit) ∨
      sign = [45] ∧ n = -numeralFrom 0 (body.takeWhile isDigit)) : StartsWithInt s n := by
  refine ⟨s.takeWhile isSpace, sign, body.takeWhile isDigit, body.dropWhile isDigit, ?_,
    fun c hc => List.mem_takeWhile_imp hc, hdigits, fun c hc => List.mem_takeWhile_imp hc,
    ?_, hn⟩
  · rw [List.takeWhile_append_dropWhile, ← hs, List.takeWhile_append_dropWhile]
  · intro c hc
    have hhead := List.head?_dropWhile_not isDigit body
    rw [hc] at hhead
    exact hhead

/-- `stoi` reads the number at the start of a text, if it is one of an `int`. -/
theorem stoi_eq_ok_iff {s : Text} {n : Int} :
    stoi s = .ok n ↔ StartsWithInt s n ∧ -2147483648 ≤ n ∧ n ≤ 2147483647 := by
  constructor
  · intro h
    have hcases := readSign_cases (s.dropWhile isSpace)
    rw [stoi] at h
    generalize readSign (s.dropWhile isSpace) = signed at h hcases
    obtain ⟨negative, body⟩ := signed
    dsimp only at h hcases
    by_cases hdigits : body.takeWhile isDigit = []
    · simp [hdigits] at h
    · rw [if_neg hdigits] at h
      generalize hvalue : (if negative = true then _ else _) = value at h
      split at h
      · rename_i hrange
        obtain rfl := Except.ok.inj h
        refine ⟨?_, hrange⟩
        rcases hcases with ⟨sign, hsign, hs, rfl⟩ | ⟨hs, rfl⟩
        · exact startsWithInt_of_split hs hdigits (.inl ⟨hsign, hvalue.symm⟩)
        · exact startsWithInt_of_split hs hdigits (.inr ⟨rfl, hvalue.symm⟩)
      · simp at h
  · intro h
    obtain ⟨⟨spaces, sign, digits, rest, rfl, hspaces, hdigits, hall, hrest, hn⟩, hrange⟩ := h
    obtain ⟨d, ds, rfl⟩ := List.exists_cons_of_ne_nil hdigits
    have hd := hall d List.mem_cons_self
    rcases hn with ⟨rfl | rfl, hn⟩ | ⟨rfl, hn⟩
    · exact stoi_append hspaces hdigits hall hrest (readSign_digit hd _) (by simp) hn hrange
    · exact stoi_append hspaces hdigits hall hrest rfl (by simp; decide) hn hrange
    · exact stoi_append hspaces hdigits hall hrest rfl (by simp; decide) hn hrange

end OracleMachine.Lib.Text
