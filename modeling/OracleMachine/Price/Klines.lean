import OracleMachine.Price.Exchange

/-!
# Kline responses

The exchanges send their candles as arrays inside an array.  `Response` is the
text of such a response up to the end of the first inner array, with arbitrary
text behind it: the elements are unquoted scalars and quoted strings, and there
may be whitespace around every token.

The scanners count commas from the start of the first inner array and then take
the next string in quotes.  When the element behind the commas is a string, this
is the string they return (`parseKline_of_str`), however the response goes on.
When it is not, they do not stop at the end of the element or of the array, and
return a later string if there is one (`close_price_iff`).
-/

namespace OracleMachine.Price

open Lib.Decimal Lib.Text

/-! ## The scanners on known text -/

theorem skipCommas_append {as : Text} (h : 44 ∉ as) (n : Nat) (bs : Text) :
    skipCommas (n + 1) (as ++ 44 :: bs) = skipCommas n bs := by
  induction as with
  | nil => rw [List.nil_append, skipCommas, if_pos rfl]
  | cons a as ih =>
    rw [List.mem_cons, not_or] at h
    rw [List.cons_append, skipCommas, if_neg fun heq => h.1 heq.symm]
    exact ih h.2

/-- What is left behind a number of commas. -/
theorem skipCommas_eq_some_iff {n : Nat} {s rest : Text} :
    skipCommas (n + 1) s = some rest ↔ ∃ front, s = front ++ 44 :: rest ∧ front.count 44 = n := by
  induction s generalizing n with
  | nil => simp [skipCommas]
  | cons c cs ih =>
    rw [skipCommas]
    by_cases hcomma : c = 44
    · subst hcomma
      rw [if_pos rfl]
      cases n with
      | zero =>
        constructor
        · intro h
          rw [skipCommas] at h
          exact ⟨[], by rw [Option.some.inj h]; rfl, rfl⟩
        · rintro ⟨front, hsplit, hcount⟩
          cases front with
          | nil => rw [skipCommas, (List.cons.inj hsplit).2]
          | cons d front =>
            rw [← (List.cons.inj hsplit).1, List.count_cons_self] at hcount
            omega
      | succ n =>
        rw [ih]
        constructor
        · rintro ⟨front, hsplit, hcount⟩
          exact ⟨44 :: front, by rw [hsplit]; rfl, by rw [List.count_cons_self, hcount]⟩
        · rintro ⟨front, hsplit, hcount⟩
          cases front with
          | nil => cases hcount
          | cons d front =>
            obtain ⟨rfl, hrest⟩ := List.cons.inj hsplit
            rw [List.count_cons_self] at hcount
            exact ⟨front, hrest, by omega⟩
    · rw [if_neg hcomma, ih]
      constructor
      · rintro ⟨front, hsplit, hcount⟩
        exact ⟨c :: front, by rw [hsplit]; rfl, by rw [List.count_cons_of_ne hcomma, hcount]⟩
      · rintro ⟨front, hsplit, hcount⟩
        cases front with
        | nil => exact absurd (List.cons.inj hsplit).1 hcomma
        | cons d front =>
          obtain ⟨rfl, hrest⟩ := List.cons.inj hsplit
          rw [List.count_cons_of_ne hcomma] at hcount
          exact ⟨front, hrest, hcount⟩

/-- There is a string in quotes exactly when there are two quotes. -/
theorem quoted_eq_none_iff {s : Text} : quoted s = none ↔ s.count 34 < 2 := by
  rw [quoted]
  by_cases hmem : 34 ∈ s
  · -- split at the first quote, and what follows at the second
    obtain ⟨as, bs, rfl, has⟩ := List.eq_append_cons_of_mem hmem
    rw [cut_append has, List.count_append, List.count_cons_self, List.count_eq_zero.mpr has]
    dsimp only
    by_cases hsecond : 34 ∈ bs
    · obtain ⟨cs, ds, rfl, hcs⟩ := List.eq_append_cons_of_mem hsecond
      rw [cut_append hcs, List.count_append, List.count_cons_self]
      refine iff_of_false (Option.some_ne_none _) ?_
      omega
    · rw [cut_of_not_mem hsecond, List.count_eq_zero.mpr hsecond]
      exact iff_of_true rfl (by decide)
  · rw [cut_of_not_mem hmem, List.count_eq_zero.mpr hmem]
    exact iff_of_true rfl (by decide)

/-! ## Responses -/

/-- An element of a candle: a scalar without quotes, or the content of a
string. -/
inductive Element where
  | scalar (text : Text)
  | str (content : Text)
  deriving DecidableEq

namespace Element

/-- The characters that stand for an element. -/
def text : Element → Text
  | .scalar text => text
  | .str content => 34 :: content ++ [34]

/-- A scalar has no quotes, commas and brackets, and a string has no quotes and
commas inside. -/
def Ok : Element → Prop
  | .scalar text => text ≠ [] ∧ ∀ c ∈ text, c ≠ 34 ∧ c ≠ 44 ∧ c ≠ 91 ∧ c ≠ 93
  | .str content => ∀ c ∈ content, c ≠ 34 ∧ c ≠ 44

instance : DecidablePred Ok
  | .scalar _ => inferInstanceAs (Decidable (_ ∧ _))
  | .str content => inferInstanceAs (Decidable (∀ c ∈ content, c ≠ 34 ∧ c ≠ 44))

end Element

/-- An element with the whitespace around it. -/
structure Cell where
  left : Text
  element : Element
  right : Text
  left_space : ∀ c ∈ left, isSpace c = true
  right_space : ∀ c ∈ right, isSpace c = true
  element_ok : element.Ok

/-- The characters of a cell. -/
def Cell.text (cell : Cell) : Text := cell.left ++ cell.element.text ++ cell.right

/-- Cells with commas in between. -/
def joined : List Cell → Text
  | [] => []
  | [cell] => cell.text
  | cell :: next :: cells => cell.text ++ 44 :: joined (next :: cells)

/-- A response of an exchange: the first inner array, and what follows. -/
structure Response where
  lead : Text
  gap : Text
  blank : Text
  cells : List Cell
  rest : Text
  lead_space : ∀ c ∈ lead, isSpace c = true
  gap_space : ∀ c ∈ gap, isSpace c = true
  blank_space : ∀ c ∈ blank, isSpace c = true

namespace Response

/-- What stands behind the bracket of the first inner array. -/
def inner (r : Response) : Text := r.blank ++ joined r.cells ++ 93 :: r.rest

/-- The characters of a response. -/
def text (r : Response) : Text := r.lead ++ 91 :: (r.gap ++ 91 :: r.inner)

/-- The element at an index of the first inner array. -/
def element (r : Response) (k : Nat) : Option Element := r.cells[k]?.map Cell.element

end Response

theorem not_mem_of_space {c : UInt8} {s : Text} (hs : ∀ d ∈ s, isSpace d = true)
    (hc : isSpace c = false) : c ∉ s := by
  intro hmem
  rw [hs c hmem] at hc
  cases hc

/-- A cell has no commas. -/
theorem Cell.comma_not_mem (cell : Cell) : 44 ∉ cell.text := by
  have helement : 44 ∉ cell.element.text := by
    have hok := cell.element_ok
    cases hcell : cell.element with
    | scalar text =>
      rw [hcell] at hok
      intro hmem
      exact (hok.2 44 hmem).2.1 rfl
    | str content =>
      rw [hcell] at hok
      intro hmem
      have hcontent : 44 ∈ content := by simpa [Element.text] using hmem
      exact (hok 44 hcontent).2 rfl
  rw [Cell.text, List.mem_append, List.mem_append, not_or, not_or]
  exact ⟨⟨not_mem_of_space cell.left_space (by decide), helement⟩,
    not_mem_of_space cell.right_space (by decide)⟩

/-- Behind `k` commas starts the cell at index `k`. -/
theorem skipCommas_joined {cells : List Cell} {k : Nat} {cell : Cell}
    (h : cells[k]? = some cell) (tail : Text) :
    ∃ behind, skipCommas k (joined cells ++ tail) = some (cell.text ++ behind) := by
  induction k generalizing cells with
  | zero =>
    cases cells with
    | nil => cases h
    | cons first cells =>
      obtain rfl : first = cell := by simpa using h
      cases cells with
      | nil => exact ⟨tail, by rw [skipCommas, joined]⟩
      | cons second cells =>
        exact ⟨44 :: joined (second :: cells) ++ tail, by rw [skipCommas, joined, List.append_assoc]⟩
  | succ k ih =>
    cases cells with
    | nil => cases h
    | cons first cells =>
      cases cells with
      | nil => simp at h
      | cons second cells =>
        obtain ⟨behind, hbehind⟩ := @ih (second :: cells) h
        refine ⟨behind, ?_⟩
        rw [joined, List.append_assoc, List.cons_append, skipCommas_append first.comma_not_mem]
        exact hbehind

theorem skipCommas_append_left {as : Text} (h : 44 ∉ as) (n : Nat) (bs : Text) :
    skipCommas (n + 1) (as ++ bs) = skipCommas (n + 1) bs := by
  induction as with
  | nil => rfl
  | cons a as ih =>
    rw [List.mem_cons, not_or] at h
    rw [List.cons_append, skipCommas, if_neg fun heq => h.1 heq.symm]
    exact ih h.2

/-- A cell with a string is where a quoted string starts. -/
theorem Cell.quoted_text {cell : Cell} {content : Text} (h : cell.element = .str content)
    (behind : Text) : quoted (cell.text ++ behind) = some content := by
  have hok := cell.element_ok
  rw [h] at hok
  have hcontent : 34 ∉ content := fun hmem => (hok 34 hmem).1 rfl
  have htext : cell.text ++ behind =
      cell.left ++ 34 :: (content ++ 34 :: (cell.right ++ behind)) := by
    simp [Cell.text, h, Element.text]
  rw [htext, quoted, cut_append (not_mem_of_space cell.left_space (by decide))]
  dsimp only
  rw [cut_append hcontent]

namespace Response

variable (r : Response)

/-- The scanners get to the first inner array. -/
theorem parseKline_eq_ok_iff {k : Nat} {closePriceString : Text} :
    parseKline k r.text = .ok closePriceString ↔
      (skipCommas k r.inner).bind quoted = some closePriceString := by
  have houter : cut 91 r.text = (r.lead, some (r.gap ++ 91 :: r.inner)) :=
    cut_append (not_mem_of_space r.lead_space (by decide)) _
  have hinner : cut 91 (r.gap ++ 91 :: r.inner) = (r.gap, some r.inner) :=
    cut_append (not_mem_of_space r.gap_space (by decide)) _
  have hbrackets : 2 ≤ r.text.count 91 := by
    simp only [text, List.count_append, List.count_cons_self]
    omega
  have hnonempty : ¬ (r.text = [] ∨ r.text = ascii "[]") := by
    intro h
    rcases h with h | h
    · rw [h] at hbrackets
      exact absurd hbrackets (by decide)
    · rw [h] at hbrackets
      exact absurd hbrackets (by decide)
  rw [parseKline, if_neg hnonempty]
  cases hskip : skipCommas k r.inner with
  | none => simp [houter, hinner, hskip]
  | some rest =>
    cases hquoted : quoted rest with
    | none => simp [houter, hinner, hskip, hquoted]
    | some closePrice => simp [houter, hinner, hskip, hquoted]

/-- A string at the index is what the scanners return. -/
theorem parseKline_of_str {k : Nat} {content : Text}
    (h : r.element (k + 1) = some (.str content)) : parseKline (k + 1) r.text = .ok content := by
  obtain ⟨cell, hcell, helement⟩ := Option.map_eq_some_iff.mp h
  obtain ⟨behind, hskip⟩ := skipCommas_joined hcell (93 :: r.rest)
  apply r.parseKline_eq_ok_iff.mpr
  rw [inner, List.append_assoc,
    skipCommas_append_left (not_mem_of_space r.blank_space (by decide)), hskip, Option.bind_some]
  exact Cell.quoted_text helement behind

/-- Behind the `k`-th comma of the text from the first inner array on, there are
no two quotes. -/
def NoQuotesBehind (k : Nat) : Prop :=
  ∀ front back, r.inner = front ++ 44 :: back → front.count 44 + 1 = k → back.count 34 < 2

/-- Without quotes the scanners fail. -/
theorem noQuotesBehind_iff {k : Nat} :
    r.NoQuotesBehind (k + 1) ↔ ∀ content, parseKline (k + 1) r.text ≠ .ok content := by
  constructor
  · intro h content hparse
    obtain ⟨rest, hskip, hquoted⟩ :=
      Option.bind_eq_some_iff.mp (r.parseKline_eq_ok_iff.mp hparse)
    obtain ⟨front, hinner, hcount⟩ := skipCommas_eq_some_iff.mp hskip
    have hnone := quoted_eq_none_iff.mpr (h front rest hinner (by omega))
    rw [hquoted] at hnone
    cases hnone
  · intro h front back hinner hcount
    have hskip : skipCommas (k + 1) r.inner = some back :=
      skipCommas_eq_some_iff.mpr ⟨front, hinner, by omega⟩
    apply quoted_eq_none_iff.mp
    cases hquoted : quoted back with
    | none => rfl
    | some content =>
      refine absurd (r.parseKline_eq_ok_iff.mpr ?_) (h content)
      rw [hskip, Option.bind_some, hquoted]

/-- The scanners return a string only if it is the one at the index, in these
cases. -/
theorem parseKline_sound_iff {k : Nat} :
    (∀ content, parseKline (k + 1) r.text = .ok content →
      r.element (k + 1) = some (.str content)) ↔
    (∃ content, r.element (k + 1) = some (.str content)) ∨ r.NoQuotesBehind (k + 1) := by
  rw [noQuotesBehind_iff]
  constructor
  · intro h
    by_cases hparse : ∃ content, parseKline (k + 1) r.text = .ok content
    · obtain ⟨content, hparse⟩ := hparse
      exact .inl ⟨content, h content hparse⟩
    · exact .inr fun content hok => hparse ⟨content, hok⟩
  · intro h content hparse
    rcases h with ⟨other, hother⟩ | hnone
    · have hsame : content = other := by
        rw [r.parseKline_of_str hother] at hparse
        exact (Except.ok.inj hparse).symm
      rw [hsame]
      exact hother
    · exact absurd hparse (hnone content)

end Response

/-! ## The three exchanges -/

/-- An element without whitespace around it. -/
def Cell.bare (element : Element) (h : element.Ok) : Cell where
  left := []
  element
  right := []
  left_space := fun _ hmem => absurd hmem List.not_mem_nil
  right_space := fun _ hmem => absurd hmem List.not_mem_nil
  element_ok := h

namespace Response

/-- A response without whitespace between its tokens. -/
def compact (cells : List Cell) (rest : Text) : Response where
  lead := []
  gap := []
  blank := []
  cells
  rest
  lead_space := fun _ hmem => absurd hmem List.not_mem_nil
  gap_space := fun _ hmem => absurd hmem List.not_mem_nil
  blank_space := fun _ hmem => absurd hmem List.not_mem_nil

variable (r : Response)

/-- The format of the exchanges is accepted.  A response whose first inner array
has a string at index 4 (Binance and MEXC) or 2 (Gate) gives the content of this
string, whatever follows the array. -/
theorem format_is_accepted (paid : Bool) :
    (∀ content, r.element 4 = some (.str content) →
      (binance paid).parseKlineResponse r.text = .ok content ∧
      (mexc paid).parseKlineResponse r.text = .ok content) ∧
    (∀ content, r.element 2 = some (.str content) →
      (gate paid).parseKlineResponse r.text = .ok content) := by
  constructor
  · intro content h
    exact ⟨r.parseKline_of_str h, r.parseKline_of_str h⟩
  · intro content h
    exact r.parseKline_of_str h

/-- A candle with five elements. -/
def sample : Response :=
  compact
    [.bare (.scalar (ascii "0")) (by decide +kernel), .bare (.str (ascii "1")) (by decide +kernel),
      .bare (.str (ascii "2")) (by decide +kernel), .bare (.str (ascii "1")) (by decide +kernel),
      .bare (.str (ascii "1.5")) (by decide +kernel)]
    (ascii "]")

theorem format_is_accepted_sample :
    sample.text = ascii "[[0,\"1\",\"2\",\"1\",\"1.5\"]]" ∧
    (binance false).parseKlineResponse sample.text = .ok (ascii "1.5") ∧
    (mexc false).parseKlineResponse sample.text = .ok (ascii "1.5") ∧
    (gate false).parseKlineResponse sample.text = .ok (ascii "2") := by
  have haccepted := sample.format_is_accepted false
  have hclose := haccepted.1 (ascii "1.5") (by decide +kernel)
  exact ⟨by decide, hclose.1, hclose.2, haccepted.2 (ascii "2") (by decide +kernel)⟩

/-- The close price.  The scanners return the string at their index, or else an
error, if and only if there is a string at the index, or the text from the first
inner array on has no two quotes behind as many commas. -/
theorem close_price_iff (paid : Bool) :
    ((∀ content, (binance paid).parseKlineResponse r.text = .ok content →
        r.element 4 = some (.str content)) ↔
      (∃ content, r.element 4 = some (.str content)) ∨ r.NoQuotesBehind 4) ∧
    ((∀ content, (mexc paid).parseKlineResponse r.text = .ok content →
        r.element 4 = some (.str content)) ↔
      (∃ content, r.element 4 = some (.str content)) ∨ r.NoQuotesBehind 4) ∧
    ((∀ content, (gate paid).parseKlineResponse r.text = .ok content →
        r.element 2 = some (.str content)) ↔
      (∃ content, r.element 2 = some (.str content)) ∨ r.NoQuotesBehind 2) :=
  ⟨r.parseKline_sound_iff, r.parseKline_sound_iff, r.parseKline_sound_iff⟩

/-- A candle of Binance whose close price is a number. -/
def numericClose : Response :=
  compact
    [.bare (.scalar (ascii "0")) (by decide +kernel), .bare (.str (ascii "1")) (by decide +kernel),
      .bare (.str (ascii "1")) (by decide +kernel), .bare (.str (ascii "1")) (by decide +kernel),
      .bare (.scalar (ascii "5")) (by decide +kernel),
      .bare (.str (ascii "777")) (by decide +kernel)]
    (ascii "]")

/-- Two candles of Gate, the first with two elements only. -/
def shortCandle : Response :=
  compact [.bare (.str (ascii "1")) (by decide +kernel),
      .bare (.str (ascii "2")) (by decide +kernel)]
    (ascii ",[\"9\",\"8\",\"7\"]]")

/-- The first response gives the volume, which follows the close price, and the
second one the time of the next candle. -/
theorem other_field_is_returned :
    numericClose.text = ascii "[[0,\"1\",\"1\",\"1\",5,\"777\"]]" ∧
    numericClose.element 4 = some (.scalar (ascii "5")) ∧
    (binance false).parseKlineResponse numericClose.text = .ok (ascii "777") ∧
    (mexc false).parseKlineResponse numericClose.text = .ok (ascii "777") ∧
    shortCandle.text = ascii "[[\"1\",\"2\"],[\"9\",\"8\",\"7\"]]" ∧
    shortCandle.element 2 = none ∧
    (gate false).parseKlineResponse shortCandle.text = .ok (ascii "9") := by
  have hbinance : parseKline 4 numericClose.text = .ok (ascii "777") :=
    numericClose.parseKline_eq_ok_iff.mpr (by decide +kernel)
  have hgate : parseKline 2 shortCandle.text = .ok (ascii "9") :=
    shortCandle.parseKline_eq_ok_iff.mpr (by decide +kernel)
  exact ⟨by decide, by decide, hbinance, hbinance, by decide, by decide, hgate⟩

end Response

end OracleMachine.Price
