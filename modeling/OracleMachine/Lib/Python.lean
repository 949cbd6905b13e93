import Mathlib.Algebra.Group.Nat.Defs
import Mathlib.Data.List.Forall2

/-!
# JSON values under Python's builtins

What `json.loads` can return, and what subscription, iteration, `int`, `str` and
`bytes.fromhex` do with it in CPython.  An exception is `none`: which one it is
plays no part.

A string is a list of code points, because `json.loads` also returns lone
surrogates.  A float is the 64 bits of its representation.

`Interpreter` has what differs between Python versions and builds: the Unicode
database, the limit on the digits of an integer, and `str` of a value that is
not a string.
-/

namespace OracleMachine.Lib.Python

/-- A string as its code points. -/
abbrev Str := List Nat

/-- A string constant. -/
def lit (s : String) : Str := s.toList.map Char.toNat

/-- What `json.loads` returns. -/
inductive Json where
  | null
  | bool (b : Bool)
  | int (i : Int)
  | float (bits : UInt64)
  | str (s : Str)
  | list (items : List Json)
  | dict (items : List (Str × Json))

/-- What differs between interpreters.  `isSpace` and `decimalDigit` are asked
for code points beyond ASCII.  A `maxStrDigits` of zero is no limit. -/
structure Interpreter where
  isSpace : Nat → Bool
  decimalDigit : Nat → Option (Fin 10)
  maxStrDigits : Nat
  strOf : Json → Option Str

/-- An interpreter for runs on concrete inputs. -/
def Interpreter.sample : Interpreter where
  isSpace := fun _ => false
  decimalDigit := fun _ => none
  maxStrDigits := 4300
  strOf := fun _ => none

/-! ## Containers -/

/-- `v[key]`. -/
def getItem (v : Json) (key : Str) : Option Json :=
  match v with
  | .dict items => (items.find? fun item => item.1 = key).map Prod.snd
  | _ => none

/-- `v.get(key, default)`. -/
def getOr (v : Json) (key : Str) (default : Json) : Option Json :=
  match v with
  | .dict items => some (((items.find? fun item => item.1 = key).map Prod.snd).getD default)
  | _ => none

/-- `for item in v`: the items of a list, the keys of a dictionary, the
characters of a string. -/
def iterate (v : Json) : Option (List Json) :=
  match v with
  | .list items => some items
  | .dict items => some (items.map fun item => .str item.1)
  | .str s => some (s.map fun c => .str [c])
  | _ => none

/-- A comprehension succeeds when it does for every item, in order. -/
theorem mapM_eq_some_iff {α β : Type} {f : α → Option β} {items : List α} {values : List β} :
    items.mapM f = some values ↔
      List.Forall₂ (fun item value => f item = some value) items values := by
  induction items generalizing values with
  | nil => simp [eq_comm]
  | cons item items ih =>
    rw [List.mapM_cons, List.forall₂_cons_left_iff]
    simp only [Option.bind_eq_bind, Option.bind_eq_some_iff, Option.pure_def, Option.some.injEq, ih]
    constructor
    · rintro ⟨value, hvalue, rest, hrest, rfl⟩
      exact ⟨value, rest, hvalue, hrest, rfl⟩
    · rintro ⟨value, rest, hvalue, hrest, rfl⟩
      exact ⟨value, hvalue, rest, hrest, rfl⟩

/-! ## Bytes -/

/-- The six space characters of ASCII. -/
def isAsciiSpace (c : Nat) : Bool := c = 32 || (9 ≤ c && c ≤ 13)

/-- The value of a digit or a letter in a base. -/
def digitOf (base c : Nat) : Option Nat :=
  let value :=
    if 48 ≤ c ∧ c ≤ 57 then c - 48
    else if 97 ≤ c ∧ c ≤ 122 then c - 87
    else if 65 ≤ c ∧ c ≤ 90 then c - 55
    else 37
  if value < base then some value else none

/-- `bytes.fromhex`: pairs of digits, with spaces between the pairs. -/
def fromHex : Str → Option (List UInt8)
  | [] => some []
  | [c] => if isAsciiSpace c then some [] else none
  | c :: d :: cs =>
    if isAsciiSpace c then fromHex (d :: cs)
    else
      match digitOf 16 c, digitOf 16 d with
      | some top, some bottom => (fromHex cs).map (UInt8.ofNat (16 * top + bottom) :: ·)
      | _, _ => none

example : fromHex (lit " 0a\tFF ") = some [10, 255] := by decide

/-- `bytes.hex`. -/
def hex (bs : List UInt8) : Str :=
  bs.flatMap fun b =>
    [b.toNat / 16, b.toNat % 16].map fun d => if d < 10 then 48 + d else 87 + d

/-! ## Integers -/

/-- The integer part of a float, unless it is infinite or no number. -/
def truncate (bits : UInt64) : Option Int :=
  let exponent := bits.toNat / 2 ^ 52 % 2 ^ 11
  let fraction := bits.toNat % 2 ^ 52
  if exponent = 2 ^ 11 - 1 then none
  else
    let mantissa := if exponent = 0 then fraction else 2 ^ 52 + fraction
    -- the value is `mantissa * 2 ^ (max exponent 1 - 1075)`
    let magnitude : Nat :=
      if 1075 ≤ exponent then mantissa * 2 ^ (exponent - 1075)
      else mantissa / 2 ^ (1075 - max exponent 1)
    some (if bits.toNat / 2 ^ 63 = 1 then -(magnitude : Int) else magnitude)

example : truncate 0xC002000000000000 = some (-2) := by decide

/-- A character as `int` sees it: digits and spaces of other scripts become
those of ASCII, anything else a question mark. -/
def toAscii (py : Interpreter) (c : Nat) : Nat :=
  if c < 128 then c
  else if py.isSpace c then 32
  else
    match py.decimalDigit c with
    | some d => 48 + d
    | none => 63

/-- The digits at the start of a string, with single underscores between them:
their value, how many they are, and what follows.  `underscore` tells whether
the character before was one. -/
def scanDigits (base : Nat) (value count : Nat) (underscore : Bool) :
    Str → Option (Nat × Nat × Str)
  | [] => if underscore then none else some (value, count, [])
  | c :: cs =>
    if c = 95 then
      if underscore then none else scanDigits base value count true cs
    else
      match digitOf base c with
      | some d => scanDigits base (value * base + d) (count + 1) false cs
      | none => if underscore then none else some (value, count, c :: cs)

/-- The sign in front of a number, and what follows. -/
def scanSign : Str → Bool × Str
  | 43 :: cs => (false, cs)
  | 45 :: cs => (true, cs)
  | cs => (false, cs)

/-- The prefix `0x` in base 16, with an underscore behind it. -/
def skipBase (base : Nat) (s : Str) : Str :=
  match base, s with
  | 16, 48 :: 120 :: 95 :: cs | 16, 48 :: 88 :: 95 :: cs => cs
  | 16, 48 :: 120 :: cs | 16, 48 :: 88 :: cs => cs
  | _, cs => cs

/-- `int(s, base)` of a string, in base 10 or 16.  The limit on digits is for
bases that are no power of two. -/
def parseInt (py : Interpreter) (base : Nat) (s : Str) : Option Int :=
  let (negative, s) := scanSign ((s.map (toAscii py)).dropWhile isAsciiSpace)
  let s := skipBase base s
  if s.head? = some 95 then none
  else
    match scanDigits base 0 0 false s with
    | none => none
    | some (value, count, rest) =>
      if count = 0 then none
      else if base = 10 ∧ py.maxStrDigits ≠ 0 ∧ py.maxStrDigits < count then none
      else if rest.all isAsciiSpace then some (if negative then -(value : Int) else value)
      else none

example : parseInt .sample 16 (lit " -0x_1_f\n") = some (-31) := by decide

/-- `int(v, 16)`, which takes strings only. -/
def intOfHex (py : Interpreter) (v : Json) : Option Int :=
  match v with
  | .str s => parseInt py 16 s
  | _ => none

/-- `int(v)`. -/
def int (py : Interpreter) (v : Json) : Option Int :=
  match v with
  | .bool b => some (if b then 1 else 0)
  | .int i => some i
  | .float bits => truncate bits
  | .str s => parseInt py 10 s
  | _ => none

/-- `str(v)`. -/
def str (py : Interpreter) (v : Json) : Option Str :=
  match v with
  | .str s => some s
  | _ => py.strOf v

end OracleMachine.Lib.Python
