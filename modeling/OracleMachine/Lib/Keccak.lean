import Mathlib.Data.Nat.Digits.Defs
import OracleMachine.Lib.Bits

/-!
# Keccak-p[1600] and KangarooTwelve, bit by bit

The step mappings of the permutation in the order in which the standard gives
them, on a state of bits `A[x, y, z]`: `theta`, `rho`, `pi`, `chi` and `iota`.
Rotation offsets and round constants are not tables here: the offsets come from
the walk over the lanes (`lanePath`) and the constants from the shift register
(`lfsr`).

`sponge` is the sponge construction with the padding `10*1` over any map of the
state, and `kangarooTwelve` the tree hash over it, for messages of any length.
A message that fits into one chunk together with its customisation string is a
single call of the sponge (`kangarooTwelve_of_short`).

The bits of the state are numbered `64 * (5 * y + x) + z`, and those of a byte
string from the least significant bit of the first byte on.
-/

namespace OracleMachine.Lib.Keccak

open Lib.Bytes Lib.Bits

/-- Columns and rows are counted modulo five. -/
instance neZeroFive : NeZero 5 := ⟨by decide⟩

/-- The state `A[x, y, z]`. -/
abbrev State := Fin 5 → Fin 5 → Fin 64 → Bool

/-! ## The step mappings -/

/-- Add to each bit the parities of two columns. -/
def theta (A : State) : State :=
  let C (x : Fin 5) (z : Fin 64) := A x 0 z ^^ A x 1 z ^^ A x 2 z ^^ A x 3 z ^^ A x 4 z
  let D (x : Fin 5) (z : Fin 64) := C (x - 1) z ^^ C (x + 1) (z - 1)
  fun x y z => A x y z ^^ D x z

/-- The walk over the lanes other than `(0, 0)`. -/
def lanePath : Nat → Fin 5 × Fin 5
  | 0 => (1, 0)
  | t + 1 => ((lanePath t).2, 2 * (lanePath t).1 + 3 * (lanePath t).2)

/-- The rotation offset of a lane: a triangular number for each step of the
walk. -/
def offset (x y : Fin 5) : Nat :=
  match (List.range 24).find? fun t => lanePath t = (x, y) with
  | some t => (t + 1) * (t + 2) / 2
  | none => 0

/-- Rotate each lane by its offset. -/
def rho (A : State) : State := fun x y z => A x y (z - Fin.ofNat 64 (offset x y))

/-- Move the lanes. -/
def pi (A : State) : State := fun x y z => A (x + 3 * y) x z

/-- The only step that is not linear. -/
def chi (A : State) : State := fun x y z => A x y z ^^ ((A (x + 1) y z ^^ true) && A (x + 2) y z)

/-- One step of the shift register: a zero is put in front, and the bit that
leaves at the end is added to four positions. -/
def lfsr : List Bool → List Bool
  | [r0, r1, r2, r3, r4, r5, r6, r7] =>
    [false ^^ r7, r0, r1, r2, r3 ^^ r7, r4 ^^ r7, r5 ^^ r7, r6]
  | R => R

/-- The bit of the shift register after `t` steps from `10000000`. -/
def rc (t : Nat) : Bool :=
  (lfsr^[t % 255] [true, false, false, false, false, false, false, false]).headD false

/-- The round constant: bits of the register at the places `2 ^ j - 1`. -/
def roundConstant (ir : Nat) (z : Fin 64) : Bool :=
  (List.range 7).any fun j => z.val = 2 ^ j - 1 && rc (j + 7 * ir)

/-- Add the round constant to the lane `(0, 0)`. -/
def iota (ir : Nat) (A : State) : State := fun x y z =>
  if x = 0 ∧ y = 0 then A x y z ^^ roundConstant ir z else A x y z

/-- The round with the index `ir`. -/
def round (ir : Nat) (A : State) : State := iota ir (chi (pi (rho (theta A))))

/-- The last `nr` of the 24 rounds. -/
def keccakP (nr : Nat) (A : State) : State :=
  (List.range nr).foldl (fun A i => round (24 - nr + i) A) A

/-! ## The sponge -/

/-- The state as a string. -/
def toBits (A : State) : List Bool :=
  List.ofFn fun i : Fin 1600 =>
    A ⟨i.val / 64 % 5, by omega⟩ ⟨i.val / 320, by omega⟩ ⟨i.val % 64, by omega⟩

/-- Add a string to the state, with zeros behind its end. -/
def xorBlock (A : State) (P : List Bool) : State := fun x y z =>
  A x y z ^^ P.getD (64 * (5 * y.val + x.val) + z.val) false

/-- A one, the fewest zeros and a one that fill a string of length `m` up to a
multiple of `r`. -/
def pad (r m : Nat) : List Bool :=
  true :: (List.replicate ((r - (m + 2) % r) % r) false ++ [true])

/-- Absorb a string block by block. -/
def absorb (f : State → State) (r : Nat) (P : List Bool) : State :=
  (List.range (P.length / r)).foldl (fun A k => f (xorBlock A (slice P (k * r) r)))
    fun _ _ _ => false

/-- Squeeze `k` blocks. -/
def squeeze (f : State → State) (r : Nat) : Nat → State → List Bool
  | 0, _ => []
  | k + 1, A => (toBits A).take r ++ squeeze f r k (f A)

/-- `d` bits of the sponge with rate `r` on the string `N`. -/
def sponge (f : State → State) (r : Nat) (N : List Bool) (d : Nat) : List Bool :=
  (squeeze f r ((d + r - 1) / r) (absorb f r (N ++ pad r N.length))).take d

@[simp] theorem length_toBits (A : State) : (toBits A).length = 1600 := List.length_ofFn

/-- An output of one block is read from the state. -/
theorem sponge_of_le {f : State → State} {r d : Nat} (hd : d ≤ r) (N : List Bool) :
    sponge f r N d = (toBits (absorb f r (N ++ pad r N.length))).take d := by
  by_cases hzero : d = 0
  · rw [hzero, sponge, List.take_zero, List.take_zero]
  · have hone : (d + r - 1) / r = 1 := by
      rw [Nat.div_eq_iff (by omega)]
      omega
    rw [sponge, hone, squeeze, squeeze, List.append_nil, List.take_take, Nat.min_eq_left hd]

/-! ## KangarooTwelve -/

/-- The sponge with 168 bytes of rate over the last twelve rounds, with `n`
bytes of output. -/
def node (N : List Bool) (n : Nat) : List UInt8 := bytes n (sponge (keccakP 12) 1344 N (8 * n))

/-- A number, most significant byte first, and how many bytes it takes. -/
def lengthEncode (n : Nat) : List UInt8 :=
  let digits := (Nat.digits 256 n).reverse.map UInt8.ofNat
  digits ++ [UInt8.ofNat digits.length]

/-- The length of a chunk. -/
def chunkSize : Nat := 8192

/-- `n` bytes of the hash of a message under a customisation string.  Longer
inputs are cut into chunks; all but the first are hashed to 32 bytes each, and
the final node takes the first chunk and those. -/
def kangarooTwelve (message custom : List UInt8) (n : Nat) : List UInt8 :=
  let S := message ++ custom ++ lengthEncode custom.length
  if S.length ≤ chunkSize then node (bits S ++ [true, true]) n
  else
    let count := (S.length + chunkSize - 1) / chunkSize
    let chainingValues := (List.range (count - 1)).flatMap fun i =>
      node (bits (slice S ((i + 1) * chunkSize) chunkSize) ++ [true, true, false]) 32
    let final := S.take chunkSize ++ [0x03, 0, 0, 0, 0, 0, 0, 0] ++ chainingValues ++
      lengthEncode (count - 1) ++ [0xFF, 0xFF]
    node (bits final ++ [false, true]) n

/-- Without a customisation string, a message shorter than a chunk is hashed
with one zero byte behind it.  The two bits behind that and the first one of
the padding are the suffix 0x07. -/
theorem kangarooTwelve_of_short {message : List UInt8} (h : message.length < chunkSize)
    (n : Nat) :
    kangarooTwelve message [] n = node (bits (message ++ [0x00]) ++ [true, true]) n := by
  have hinput : message ++ [] ++ lengthEncode ([] : List UInt8).length = message ++ [0x00] := by
    simp [lengthEncode]
  rw [kangarooTwelve, hinput, if_pos]
  rw [List.length_append, List.length_singleton]
  exact h

end OracleMachine.Lib.Keccak
