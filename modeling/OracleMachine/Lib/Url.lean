import OracleMachine.Lib.Text

/-!
# URLs with a query

A URL is split into its path, the parameters of its query and its fragment:
first at `#`, then at `?`, the query at every `&` and a field at its first `=`
(`split`).  `render` puts a URL together from a path and parameters.  It escapes
nothing, so that a value with a `&` or a `#` in it is not read back
(`split_render_iff`).

`decode` replaces `%` and two hexadecimal digits by the byte they stand for, and
also `+` by a space where the receiver takes the query for a form.  A text
without such sequences is its own decoding, and no other is (`decode_eq_iff`).
-/

namespace OracleMachine.Lib.Url

open Decimal Text

/-! ## Splitting -/

/-- The parts of a URL. -/
structure Parts where
  path : Text
  params : List (Text × Text)
  fragment : Option Text
  deriving DecidableEq

/-- The name and the value of a field. -/
def param (field : Text) : Text × Text := ((cut 61 field).1, (cut 61 field).2.getD [])

/-- The parameters of a query. -/
def params (query : Text) : List (Text × Text) := (query.splitOn 38).map param

/-- Split a URL. -/
def split (url : Text) : Parts where
  path := (cut 63 (cut 35 url).1).1
  params := ((cut 63 (cut 35 url).1).2.map params).getD []
  fragment := (cut 35 url).2

/-! ## Putting together -/

/-- A name and a value with `=` in between. -/
def field (p : Text × Text) : Text := p.1 ++ 61 :: p.2

/-- A path and parameters. -/
def render (path : Text) (ps : List (Text × Text)) : Text :=
  path ++ 63 :: [38].intercalate (ps.map field)

/-- A text without `&` and `#`. -/
def Plain (s : Text) : Prop := 38 ∉ s ∧ 35 ∉ s

instance (s : Text) : Decidable (Plain s) := inferInstanceAs (Decidable (_ ∧ _))

/-- A parameter that is read back: its name has no `=`. -/
structure Clean (p : Text × Text) : Prop where
  name_eq : 61 ∉ p.1
  name : Plain p.1
  value : Plain p.2

theorem param_field {p : Text × Text} (h : 61 ∉ p.1) : param (field p) = p := by
  rw [param, field, cut_append h]
  rfl

theorem plain_field_iff {p : Text × Text} : Plain (field p) ↔ Plain p.1 ∧ Plain p.2 := by
  simp only [Plain, field, List.mem_append, List.mem_cons]
  have hamp : (38 : UInt8) ≠ 61 := by decide
  have hash : (35 : UInt8) ≠ 61 := by decide
  tauto

theorem params_intercalate {ps : List (Text × Text)} (hne : ps ≠ []) (hps : ∀ p ∈ ps, Clean p) :
    params ([38].intercalate (ps.map field)) = ps := by
  have hplain : ∀ f ∈ ps.map field, 38 ∉ f := by
    intro f hf
    obtain ⟨p, hp, rfl⟩ := List.mem_map.mp hf
    exact (plain_field_iff.mpr ⟨(hps p hp).name, (hps p hp).value⟩).1
  rw [params, List.splitOn_intercalate 38 hplain (by simpa using hne), List.map_map]
  conv_rhs => rw [← List.map_id ps]
  apply List.map_congr_left
  intro p hp
  exact param_field (hps p hp).name_eq

/-- There is one field more than there are separators. -/
theorem length_splitOn (c : UInt8) (s : Text) : (s.splitOn c).length = s.count c + 1 := by
  induction s with
  | nil => rfl
  | cons d ds ih =>
    rw [List.splitOn_cons_eq_if_modifyHead]
    by_cases hd : d = c
    · simp [hd, ih]
    · simp [hd, ih]

theorem not_mem_intercalate {c : UInt8} (hc : c ≠ 38) {fields : List Text}
    (h : ∀ f ∈ fields, c ∉ f) : c ∉ [38].intercalate fields := by
  induction fields with
  | nil => simp
  | cons f fs ih =>
    rw [List.forall_mem_cons] at h
    cases fs with
    | nil =>
      rw [List.intercalate_singleton]
      exact h.1
    | cons g gs =>
      rw [List.intercalate_cons_cons, List.mem_append, List.mem_append, List.mem_singleton]
      have hrest := ih h.2
      tauto

/-- The first field stands at the start. -/
theorem exists_intercalate_cons (f : Text) (fs : List Text) :
    ∃ tail, [38].intercalate (f :: fs) = f ++ tail := by
  cases fs with
  | nil => exact ⟨[], by rw [List.intercalate_singleton, List.append_nil]⟩
  | cons g gs =>
    exact ⟨[38] ++ [38].intercalate (g :: gs), by
      rw [List.intercalate_cons_cons, List.append_assoc]⟩

/-- How many fields there are when only the first one may have a `&` in it. -/
theorem length_splitOn_intercalate (f : Text) {fs : List Text} (h : ∀ g ∈ fs, 38 ∉ g) :
    (([38].intercalate (f :: fs)).splitOn 38).length = f.count 38 + (fs.length + 1) := by
  rw [length_splitOn]
  cases fs with
  | nil => rw [List.intercalate_singleton, List.length_nil]
  | cons g gs =>
    -- the fields behind it have no separator
    have hrest := length_splitOn 38 ([38].intercalate (g :: gs))
    rw [List.splitOn_intercalate 38 h (List.cons_ne_nil g gs)] at hrest
    rw [List.intercalate_cons_cons, List.count_append, List.count_append, List.count_singleton_self]
    omega

section Render

variable {path : Text} (hpath : 63 ∉ path ∧ 35 ∉ path)
include hpath

theorem split_render {ps : List (Text × Text)} (hhash : 35 ∉ [38].intercalate (ps.map field)) :
    split (render path ps) = ⟨path, params ([38].intercalate (ps.map field)), none⟩ := by
  have hmem : 35 ∉ render path ps := by
    have hquestion : (35 : UInt8) ≠ 63 := by decide
    rw [render, List.mem_append, List.mem_cons]
    tauto
  rw [split, cut_of_not_mem hmem]
  simp only [render, cut_append hpath.1, Option.map_some, Option.getD_some]

/-- A value is read back between clean parameters exactly when it is plain. -/
theorem split_render_iff {name value value' : Text} (hname : 61 ∉ name ∧ Plain name)
    {ps : List (Text × Text)} (hps : ∀ p ∈ ps, Clean p) :
    split (render path ((name, value) :: ps)) = ⟨path, (name, value') :: ps, none⟩ ↔
      value' = value ∧ Plain value := by
  have hplain : ∀ p ∈ ps, Plain (field p) :=
    fun p hp => plain_field_iff.mpr ⟨(hps p hp).name, (hps p hp).value⟩
  constructor
  · intro h
    have hnone : (cut 35 (render path ((name, value) :: ps))).2 = none :=
      congrArg Parts.fragment h
    have hhash := not_mem_of_cut hnone
    rw [render, List.mem_append, List.mem_cons, not_or, not_or] at hhash
    rw [split_render hpath hhash.2.2, Parts.mk.injEq] at h
    -- no `#` in the query, and as many fields as parameters
    obtain ⟨tail, htail⟩ := exists_intercalate_cons (field (name, value)) (ps.map field)
    have hvalueHash : 35 ∉ value := by
      have hquery := hhash.2.2
      rw [List.map_cons, htail, List.mem_append, not_or, field, List.mem_append, List.mem_cons,
        not_or, not_or] at hquery
      exact hquery.1.2.2
    have hcount : (field (name, value)).count 38 = 0 := by
      have hlength := congrArg List.length h.2.1
      rw [params, List.length_map, List.map_cons, length_splitOn_intercalate, List.length_map,
        List.length_cons] at hlength
      · omega
      · intro g hg
        obtain ⟨p, hp, rfl⟩ := List.mem_map.mp hg
        exact (hplain p hp).1
    have hvalueAmp : 38 ∉ value := by
      intro hmem
      apply List.count_eq_zero.mp hcount
      rw [field, List.mem_append, List.mem_cons]
      exact .inr (.inr hmem)
    have hvalue : Plain value := ⟨hvalueAmp, hvalueHash⟩
    have hclean : ∀ p ∈ (name, value) :: ps, Clean p :=
      List.forall_mem_cons.mpr ⟨⟨hname.1, hname.2, hvalue⟩, hps⟩
    rw [params_intercalate (List.cons_ne_nil _ _) hclean, List.cons.injEq, Prod.mk.injEq] at h
    exact ⟨h.2.1.1.2.symm, hvalue⟩
  · intro h
    obtain ⟨rfl, hvalue⟩ := h
    have hclean : ∀ p ∈ (name, value') :: ps, Clean p :=
      List.forall_mem_cons.mpr ⟨⟨hname.1, hname.2, hvalue⟩, hps⟩
    have hhash : 35 ∉ [38].intercalate (((name, value') :: ps).map field) := by
      apply not_mem_intercalate (by decide)
      intro f hf
      obtain ⟨p, hp, rfl⟩ := List.mem_map.mp hf
      exact (plain_field_iff.mpr ⟨(hclean p hp).name, (hclean p hp).value⟩).2
    rw [split_render hpath hhash, params_intercalate (List.cons_ne_nil _ _) hclean]

end Render

/-! ## Decoding -/

/-- The hexadecimal digits. -/
def isHex (c : UInt8) : Bool := isDigit c || (65 ≤ c && c ≤ 70) || (97 ≤ c && c ≤ 102)

/-- The value of a hexadecimal digit. -/
def hexVal (c : UInt8) : UInt8 := if isDigit c then c - 48 else if c ≤ 70 then c - 55 else c - 87

/-- The byte of an escape sequence at the start of a text. -/
def escapeAt : Text → Option UInt8
  | c :: a :: b :: _ => if c = 37 && isHex a && isHex b then some (16 * hexVal a + hexVal b) else none
  | _ => none

/-- A text has an escape sequence in it. -/
def hasEscape : Text → Bool
  | [] => false
  | c :: cs => (escapeAt (c :: cs)).isSome || hasEscape cs

/-- The loop of `decode`.  `skip` characters belong to the last escape
sequence. -/
def decodeFrom (plus : Bool) : Nat → Text → Text
  | _, [] => []
  | skip + 1, _ :: cs => decodeFrom plus skip cs
  | 0, c :: cs =>
    match escapeAt (c :: cs) with
    | some byte => byte :: decodeFrom plus 2 cs
    | none => (if plus && c = 43 then 32 else c) :: decodeFrom plus 0 cs

/-- Replace escape sequences, and `+` by a space if `plus`. -/
def decode (plus : Bool) (s : Text) : Text := decodeFrom plus 0 s

theorem length_decodeFrom (plus : Bool) (skip : Nat) (s : Text) :
    (decodeFrom plus skip s).length ≤ s.length := by
  induction s generalizing skip with
  | nil => simp [decodeFrom]
  | cons c cs ih =>
    cases skip with
    | succ skip =>
      rw [decodeFrom, List.length_cons]
      exact Nat.le_succ_of_le (ih skip)
    | zero =>
      rw [decodeFrom]
      split
      · rw [List.length_cons, List.length_cons]
        exact Nat.succ_le_succ (ih 2)
      · rw [List.length_cons, List.length_cons]
        exact Nat.succ_le_succ (ih 0)

/-- An escape sequence has three characters. -/
theorem exists_of_escapeAt {s : Text} {byte : UInt8} (h : escapeAt s = some byte) :
    ∃ c a b rest, s = c :: a :: b :: rest := by
  cases s with
  | nil => cases h
  | cons c s =>
    cases s with
    | nil => cases h
    | cons a s =>
      cases s with
      | nil => cases h
      | cons b rest => exact ⟨c, a, b, rest, rfl⟩

/-- An escape sequence makes a text shorter. -/
theorem length_decode_lt (plus : Bool) {s : Text} (h : hasEscape s = true) :
    (decode plus s).length < s.length := by
  induction s with
  | nil => cases h
  | cons c cs ih =>
    cases hescape : escapeAt (c :: cs) with
    | some byte =>
      obtain ⟨_, a, b, rest, hsplit⟩ := exists_of_escapeAt hescape
      have hcs : cs = a :: b :: rest := (List.cons.inj hsplit).2
      have hle := length_decodeFrom plus 0 rest
      rw [decode, decodeFrom, hescape, hcs]
      simp only [decodeFrom, List.length_cons]
      omega
    | none =>
      have hrest : hasEscape cs = true := by
        rw [hasEscape, hescape] at h
        exact h
      have hlt := ih hrest
      rw [decode] at hlt
      rw [decode, decodeFrom, hescape, List.length_cons, List.length_cons]
      omega

theorem decode_of_not_hasEscape (plus : Bool) {s : Text} (h : hasEscape s = false) :
    decode plus s = s.map fun c => if plus && c = 43 then 32 else c := by
  induction s with
  | nil => rfl
  | cons c cs ih =>
    rw [hasEscape, Bool.or_eq_false_iff, Option.isSome_eq_false_iff, Option.isNone_iff_eq_none] at h
    rw [decode, decodeFrom, h.1, List.map_cons, ← ih h.2]
    rfl

/-- A text is its own decoding when it has no escape sequences, and no `+` that
is replaced. -/
theorem decode_eq_iff {plus : Bool} {s : Text} :
    decode plus s = s ↔ hasEscape s = false ∧ (plus = true → 43 ∉ s) := by
  by_cases hescape : hasEscape s = true
  · have hlt := length_decode_lt plus hescape
    refine iff_of_false ?_ ?_
    · intro heq
      rw [heq] at hlt
      exact Nat.lt_irrefl _ hlt
    · rw [hescape]
      exact fun h => absurd h.1 (by decide)
  · rw [Bool.not_eq_true] at hescape
    rw [decode_of_not_hasEscape plus hescape, and_iff_right hescape]
    cases plus with
    | false => simp
    | true =>
      induction s with
      | nil => simp
      | cons c cs ih =>
        rw [hasEscape, Bool.or_eq_false_iff] at hescape
        by_cases hc : c = 43
        · simp [hc]
        · simpa [hc, eq_comm] using ih hescape.2

end OracleMachine.Lib.Url
