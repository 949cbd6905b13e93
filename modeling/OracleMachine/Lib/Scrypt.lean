import Mathlib.Logic.Function.Iterate
import OracleMachine.Lib.Blocks
import OracleMachine.Lib.Pbkdf2

/-!
# scrypt

The memory-hard key derivation: PBKDF2 with one iteration, the mixing function
`romix` on every part of its output, and PBKDF2 once more with the result as the
salt.

`romix` works on words.  Its first phase iterates `blockMix`, and its second
phase mixes in values of the first phase at places that depend on the data.  The
values are written as iterates here; an implementation keeps them in a table.
`blockMix` chains the blocks of its argument through the Salsa20/8 core and
separates the results with even numbers from those with odd numbers.
-/

namespace OracleMachine.Lib.Scrypt

open Lib.Bytes Lib.Blocks

def xorWords (xs ys : List UInt32) : List UInt32 := List.zipWith (· ^^^ ·) xs ys

/-! ## The Salsa20/8 core -/

def rotl (n : Nat) (x : UInt32) : UInt32 := ⟨x.toBitVec.rotateLeft n⟩

/-- The quarter round on the words at the places `a`, `b`, `c` and `d`. -/
def quarterRound (x : List UInt32) (a b c d : Nat) : List UInt32 :=
  let z1 := x.getD b 0 ^^^ rotl 7 (x.getD a 0 + x.getD d 0)
  let z2 := x.getD c 0 ^^^ rotl 9 (z1 + x.getD a 0)
  let z3 := x.getD d 0 ^^^ rotl 13 (z2 + z1)
  let z0 := x.getD a 0 ^^^ rotl 18 (z3 + z2)
  (((x.set b z1).set c z2).set d z3).set a z0

/-- Quarter rounds down the four columns of the matrix of words, each from the
diagonal on. -/
def columnRound (x : List UInt32) : List UInt32 :=
  (List.range 4).foldl (fun x k =>
    quarterRound x (5 * k % 16) ((5 * k + 4) % 16) ((5 * k + 8) % 16) ((5 * k + 12) % 16)) x

/-- Quarter rounds along the four rows, each from the diagonal on. -/
def rowRound (x : List UInt32) : List UInt32 :=
  (List.range 4).foldl (fun x k =>
    quarterRound x (4 * k + k % 4) (4 * k + (k + 1) % 4) (4 * k + (k + 2) % 4)
      (4 * k + (k + 3) % 4)) x

def doubleRound (x : List UInt32) : List UInt32 := rowRound (columnRound x)

/-- The core with eight rounds, on 16 words. -/
def salsa (B : List UInt32) : List UInt32 := List.zipWith (· + ·) B (doubleRound^[4] B)

theorem length_quarterRound (x : List UInt32) (a b c d : Nat) :
    (quarterRound x a b c d).length = x.length := by
  simp only [quarterRound, List.length_set]

theorem length_foldl_quarterRound (place : Nat → Nat → Nat) (ks : List Nat) (x : List UInt32) :
    (ks.foldl (fun x k => quarterRound x (place k 0) (place k 1) (place k 2) (place k 3)) x).length =
      x.length := by
  induction ks generalizing x with
  | nil => rfl
  | cons k ks ih => rw [List.foldl_cons, ih, length_quarterRound]

/-- The rounds keep the number of words. -/
theorem length_doubleRound (x : List UInt32) : (doubleRound x).length = x.length := by
  have hcolumn : (columnRound x).length = x.length :=
    length_foldl_quarterRound (fun k m => (5 * k + 4 * m) % 16) (List.range 4) x
  have hrow : (rowRound (columnRound x)).length = (columnRound x).length :=
    length_foldl_quarterRound (fun k m => 4 * k + (k + m) % 4) (List.range 4) (columnRound x)
  rw [doubleRound, hrow, hcolumn]

theorem length_salsa (B : List UInt32) : (salsa B).length = B.length := by
  have hiterate : ∀ n, (doubleRound^[n] B).length = B.length := by
    intro n
    induction n with
    | zero => rfl
    | succ n ih => rw [Function.iterate_succ_apply', length_doubleRound, ih]
  rw [salsa, List.length_zipWith, hiterate, Nat.min_self]

/-! ## Mixing -/

/-- The value of the chain after `n` blocks.  It starts with the last block. -/
def link (bs : List (List UInt32)) : Nat → List UInt32
  | 0 => bs.getLastD []
  | n + 1 => salsa (xorWords (link bs n) (bs.getD n []))

/-- The links of the chain with even numbers, and then those with odd numbers. -/
def blockMix (B : List UInt32) : List UInt32 :=
  let bs := blocks 16 B
  (List.range (bs.length / 2)).flatMap (fun k => link bs (2 * k + 1)) ++
    (List.range (bs.length / 2)).flatMap fun k => link bs (2 * k + 2)

/-- The value of a list of words, least significant word first. -/
def wordsVal : List UInt32 → Nat
  | [] => 0
  | w :: ws => w.toNat + 2 ^ 32 * wordsVal ws

/-- The last block as a little-endian integer. -/
def integerify (B : List UInt32) : Nat := wordsVal ((blocks 16 B).getLastD [])

/-- A step of the second phase. -/
def romixStep (N : Nat) (B X : List UInt32) : List UInt32 :=
  blockMix (xorWords X (blockMix^[integerify X % N] B))

def romix (N : Nat) (B : List UInt32) : List UInt32 := (romixStep N B)^[N] (blockMix^[N] B)

/-! ## The key derivation -/

/-- The words of a byte string, least significant byte first. -/
def leWords (bytes : List UInt8) : List UInt32 :=
  (blocks 4 bytes).map fun word => UInt32.ofNat (leVal word)

/-- The bytes of words, least significant byte first. -/
def leWordBytes (ws : List UInt32) : List UInt8 := ws.flatMap fun word => leBytes 4 word.toNat

theorem length_leWordBytes (ws : List UInt32) : (leWordBytes ws).length = 4 * ws.length := by
  rw [leWordBytes, List.length_flatMap]
  simp only [length_leBytes, List.map_const', List.sum_replicate_nat]
  rw [Nat.mul_comm]

/-- The derived key of `dkLen` bytes, for a keyed hash function with digests of
`hLen` bytes. -/
def scrypt (prf : List UInt8 → List UInt8 → List UInt8) (hLen : Nat) (password salt : List UInt8)
    (N r p dkLen : Nat) : List UInt8 :=
  let B := Pbkdf2.derive (prf password) salt 1 hLen (p * 128 * r)
  let mixed := (blocks (128 * r) B).flatMap fun block => leWordBytes (romix N (leWords block))
  Pbkdf2.derive (prf password) mixed 1 hLen dkLen

end OracleMachine.Lib.Scrypt
