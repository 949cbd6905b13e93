import Mathlib.Data.List.Basic
import OracleMachine.Lib.Bytes

/-!
# Keyed hashing and key derivation

`hmac` makes a keyed hash function of a hash function with blocks of a given
size.  `derive` is the key derivation PBKDF2 with any keyed hash function in the
place of the pseudorandom function: the derived key is the front of the
concatenation of blocks, and a block is the exclusive or of an iteration that
starts from the salt and the number of the block.
-/

namespace OracleMachine.Lib.Pbkdf2

open Lib.Bytes

def xorBytes (xs ys : List UInt8) : List UInt8 := List.zipWith (· ^^^ ·) xs ys

/-! ## HMAC -/

/-- The key in the length of a block: a longer key is hashed first. -/
def blockKey (hash : List UInt8 → List UInt8) (blockSize : Nat) (key : List UInt8) : List UInt8 :=
  let key := if blockSize < key.length then hash key else key
  key ++ List.replicate (blockSize - key.length) 0

/-- The keyed hash of a message. -/
def hmac (hash : List UInt8 → List UInt8) (blockSize : Nat) (key message : List UInt8) :
    List UInt8 :=
  let key := blockKey hash blockSize key
  hash (key.map (0x5c ^^^ ·) ++ hash (key.map (0x36 ^^^ ·) ++ message))

/-! ## PBKDF2 -/

section Derive

variable (prf : List UInt8 → List UInt8) (salt : List UInt8) (c : Nat)

/-- The first link of the chain of a block. -/
def firstLink (i : Nat) : List UInt8 := prf (salt ++ beBytes 4 i)

/-- The exclusive or of the first `c` links. -/
def deriveBlock (i : Nat) : List UInt8 :=
  (List.range (c - 1)).foldl (fun T j => xorBytes T (prf^[j + 1] (firstLink prf salt i)))
    (firstLink prf salt i)

/-- The first `n` blocks, which are numbered from one. -/
def deriveBlocks : Nat → List UInt8
  | 0 => []
  | n + 1 => deriveBlocks n ++ deriveBlock prf salt c (n + 1)

/-- The derived key of `dkLen` bytes, from blocks of `hLen` bytes. -/
def derive (hLen dkLen : Nat) : List UInt8 :=
  (deriveBlocks prf salt c ((dkLen + hLen - 1) / hLen)).take dkLen

/-! ## Lengths -/

variable {hLen : Nat} (hprf : ∀ message, (prf message).length = hLen)
include hprf

theorem length_iterate_prf {message : List UInt8} (hmessage : message.length = hLen) (n : Nat) :
    (prf^[n] message).length = hLen := by
  cases n with
  | zero => exact hmessage
  | succ n => rw [Function.iterate_succ_apply', hprf]

theorem length_deriveBlock (i : Nat) : (deriveBlock prf salt c i).length = hLen := by
  have hfirst : (firstLink prf salt i).length = hLen := hprf _
  rw [deriveBlock]
  induction c - 1 with
  | zero => exact hfirst
  | succ n ih =>
    rw [List.range_succ, List.foldl_append, List.foldl_cons, List.foldl_nil, xorBytes,
      List.length_zipWith, ih, length_iterate_prf prf hprf hfirst, Nat.min_self]

theorem length_deriveBlocks (n : Nat) : (deriveBlocks prf salt c n).length = n * hLen := by
  induction n with
  | zero => rw [deriveBlocks, List.length_nil, Nat.zero_mul]
  | succ n ih =>
    rw [deriveBlocks, List.length_append, ih, length_deriveBlock prf salt c hprf, Nat.succ_mul]

/-- There are enough blocks for the derived key. -/
theorem length_derive (hpos : 0 < hLen) (dkLen : Nat) :
    (derive prf salt c hLen dkLen).length = dkLen := by
  apply List.length_take_of_le
  rw [length_deriveBlocks prf salt c hprf]
  have hdiv := Nat.lt_div_mul_add (a := dkLen + hLen - 1) hpos
  omega

end Derive

end OracleMachine.Lib.Pbkdf2
