import Mathlib.Data.Nat.NthRoot.Defs
import OracleMachine.Lib.Blocks

/-!
# SHA-256

The hash function as the Secure Hash Standard defines it: the message is padded
to complete blocks of 64 bytes, and the eight words of the hash value are
compressed with one block after the other.

The constants are computed from the definition of the standard: they are the
first 32 bits of the fractional parts of the cube roots of the first 64 primes,
and of the square roots of the first eight.  The schedule of a block is built by
appending words, and a round shifts the eight working variables.
-/

namespace OracleMachine.Lib.Sha256

open Lib.Bytes Lib.Blocks

/-! ## Functions on words -/

def rotr (n : Nat) (x : UInt32) : UInt32 := ⟨x.toBitVec.rotateRight n⟩

def shr (n : Nat) (x : UInt32) : UInt32 := ⟨x.toBitVec >>> n⟩

def ch (x y z : UInt32) : UInt32 := (x &&& y) ^^^ (~~~x &&& z)

def maj (x y z : UInt32) : UInt32 := (x &&& y) ^^^ (x &&& z) ^^^ (y &&& z)

def bigSigma0 (x : UInt32) : UInt32 := rotr 2 x ^^^ rotr 13 x ^^^ rotr 22 x

def bigSigma1 (x : UInt32) : UInt32 := rotr 6 x ^^^ rotr 11 x ^^^ rotr 25 x

def smallSigma0 (x : UInt32) : UInt32 := rotr 7 x ^^^ rotr 18 x ^^^ shr 3 x

def smallSigma1 (x : UInt32) : UInt32 := rotr 17 x ^^^ rotr 19 x ^^^ shr 10 x

/-! ## Constants -/

/-- The first 64 primes. -/
def primes : List Nat :=
  [2, 3, 5, 7, 11, 13, 17, 19, 23, 29, 31, 37, 41, 43, 47, 53,
   59, 61, 67, 71, 73, 79, 83, 89, 97, 101, 103, 107, 109, 113, 127, 131,
   137, 139, 149, 151, 157, 163, 167, 173, 179, 181, 191, 193, 197, 199, 211, 223,
   227, 229, 233, 239, 241, 251, 257, 263, 269, 271, 277, 281, 283, 293, 307, 311]

/-- The first 32 bits of the fractional part of the `k`-th root of `p`. -/
def fractionOfRoot (k p : Nat) : UInt32 := UInt32.ofNat (Nat.nthRoot k (p * 2 ^ (32 * k)))

/-- The constants of the rounds. -/
def roundConstants : List UInt32 := primes.map (fractionOfRoot 3)

/-! ## Compression -/

/-- Eight words: a hash value, or the working variables of a round. -/
structure Registers where
  a : UInt32
  b : UInt32
  c : UInt32
  d : UInt32
  e : UInt32
  f : UInt32
  g : UInt32
  h : UInt32
  deriving DecidableEq

namespace Registers

def toList (s : Registers) : List UInt32 := [s.a, s.b, s.c, s.d, s.e, s.f, s.g, s.h]

def add (s t : Registers) : Registers where
  a := s.a + t.a
  b := s.b + t.b
  c := s.c + t.c
  d := s.d + t.d
  e := s.e + t.e
  f := s.f + t.f
  g := s.g + t.g
  h := s.h + t.h

/-- One round, with its constant and its word of the schedule. -/
def round (s : Registers) (k w : UInt32) : Registers :=
  let t1 := s.h + bigSigma1 s.e + ch s.e s.f s.g + k + w
  let t2 := bigSigma0 s.a + maj s.a s.b s.c
  { a := t1 + t2, b := s.a, c := s.b, d := s.c, e := s.d + t1, f := s.e, g := s.f, h := s.g }

end Registers

/-- The first hash value. -/
def initial : Registers where
  a := fractionOfRoot 2 2
  b := fractionOfRoot 2 3
  c := fractionOfRoot 2 5
  d := fractionOfRoot 2 7
  e := fractionOfRoot 2 11
  f := fractionOfRoot 2 13
  g := fractionOfRoot 2 17
  h := fractionOfRoot 2 19

/-- The next word of the schedule. -/
def nextWord (ws : List UInt32) : UInt32 :=
  smallSigma1 (ws.getD (ws.length - 2) 0) + ws.getD (ws.length - 7) 0 +
    smallSigma0 (ws.getD (ws.length - 15) 0) + ws.getD (ws.length - 16) 0

/-- The schedule after `t` words were appended to those of the block. -/
def extend (block : List UInt32) : Nat → List UInt32
  | 0 => block
  | t + 1 => extend block t ++ [nextWord (extend block t)]

@[simp] theorem length_extend (block : List UInt32) (t : Nat) :
    (extend block t).length = block.length + t := by
  induction t with
  | zero => rfl
  | succ t ih => rw [extend, List.length_append, ih, List.length_singleton, Nat.add_assoc]

/-- Words that are in the schedule stay there. -/
theorem extend_isPrefix (block : List UInt32) {s t : Nat} (h : s ≤ t) :
    extend block s <+: extend block t := by
  induction t, h using Nat.le_induction with
  | base => exact List.prefix_refl _
  | succ t _ ih => exact ih.trans (List.prefix_append _ _)

theorem take_extend (block : List UInt32) {s t : Nat} (h : s ≤ t) :
    (extend block t).take (block.length + s) = extend block s := by
  rw [← length_extend block s]
  exact (List.prefix_iff_eq_take.mp (extend_isPrefix block h)).symm

theorem getElem?_extend (block : List UInt32) {s t : Nat} (h : s < t) :
    (extend block t)[block.length + s]? = some (nextWord (extend block s)) := by
  obtain ⟨later, hlater⟩ := extend_isPrefix block (Nat.succ_le_of_lt h)
  rw [← hlater, extend, ← length_extend block s, List.append_assoc,
    List.getElem?_append_right (Nat.le_refl _), Nat.sub_self]
  rfl

/-- The words of a block, most significant byte first. -/
def words (block : List UInt8) : List UInt32 :=
  (blocks 4 block).map fun bytes => UInt32.ofNat (beVal bytes)

/-- The words of the rounds. -/
def schedule (block : List UInt8) : List UInt32 := extend (words block) 48

def compress (s : Registers) (block : List UInt8) : Registers :=
  s.add ((roundConstants.zip (schedule block)).foldl (fun s kw => s.round kw.1 kw.2) s)

/-! ## Hashing -/

/-- The padding of a message: a one bit, the least number of zero bits, and the
length of the message in bits. -/
def padding (length : Nat) : List UInt8 :=
  0x80 :: List.replicate ((119 - length % 64) % 64) 0 ++ beBytes 8 (8 * length)

def hash (message : List UInt8) : List UInt8 :=
  (absorb compress initial 64 (message ++ padding message.length)).toList.flatMap
    fun word => beBytes 4 word.toNat

theorem length_hash (message : List UInt8) : (hash message).length = 32 := by
  rw [hash, Registers.toList]
  simp only [List.flatMap_cons, List.flatMap_nil, List.length_append, length_beBytes,
    List.length_nil]

end OracleMachine.Lib.Sha256
