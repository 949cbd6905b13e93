import Mathlib.Data.Nat.Bitwise
import OracleMachine.Lib.Bytes

/-!
# Bit strings of byte strings

`bits` writes each byte as its eight bits, least significant first, and `bytes`
reads a bit string back.  A word that is stored in little-endian order keeps its
bits in order: bit `z` of `leVal bs` is the bit `z` of the string
(`testBit_leVal`), and `leBytes` writes the bits of its argument
(`bits_leBytes`).

`getElem?_flatMap` finds an entry of a concatenation whose parts have one
length.
-/

namespace OracleMachine.Lib.Bits

open Lib.Bytes

/-- An entry of a concatenation of parts of length `c`. -/
theorem getElem?_flatMap {α β : Type} {f : α → List β} {c : Nat} (hf : ∀ a, (f a).length = c)
    (l : List α) (i : Nat) {j : Nat} (hj : j < c) :
    (l.flatMap f)[c * i + j]? = l[i]?.bind fun a => (f a)[j]? := by
  induction l generalizing i with
  | nil => rfl
  | cons a l ih =>
    rw [List.flatMap_cons]
    cases i with
    | zero =>
      rw [Nat.mul_zero, Nat.zero_add, List.getElem?_append_left (by rw [hf]; exact hj)]
      rfl
    | succ i =>
      have hlen : (f a).length ≤ c * (i + 1) + j := by rw [hf, Nat.mul_succ]; omega
      have hrest : c * (i + 1) + j - c = c * i + j := by rw [Nat.mul_succ]; omega
      rw [List.getElem?_append_right hlen, hf, hrest, ih, List.getElem?_cons_succ]

/-! ## Bytes to bits -/

/-- The bits of a byte, least significant first. -/
def byteBits (b : UInt8) : List Bool := (List.range 8).map b.toNat.testBit

/-- The bits of a byte string. -/
def bits (bs : List UInt8) : List Bool := bs.flatMap byteBits

@[simp] theorem length_byteBits (b : UInt8) : (byteBits b).length = 8 := by
  rw [byteBits, List.length_map, List.length_range]

theorem bits_append (as bs : List UInt8) : bits (as ++ bs) = bits as ++ bits bs :=
  List.flatMap_append

@[simp] theorem length_bits (bs : List UInt8) : (bits bs).length = 8 * bs.length := by
  induction bs with
  | nil => rfl
  | cons b bs ih =>
    rw [bits, List.flatMap_cons, List.length_append, length_byteBits, List.length_cons,
      Nat.mul_succ, Nat.add_comm]
    exact congrArg (· + 8) ih

theorem getElem?_bits (bs : List UInt8) (i : Nat) {j : Nat} (hj : j < 8) :
    (bits bs)[8 * i + j]? = bs[i]?.map fun b => b.toNat.testBit j := by
  rw [bits, getElem?_flatMap length_byteBits bs i hj]
  cases bs[i]? with
  | none => rfl
  | some b => simp [byteBits, hj]

theorem bits_take (bs : List UInt8) (n : Nat) : bits (bs.take n) = (bits bs).take (8 * n) := by
  induction bs generalizing n with
  | nil => rw [List.take_nil, bits, List.flatMap_nil, List.take_nil]
  | cons b bs ih =>
    cases n with
    | zero => rfl
    | succ n =>
      have hlen : 8 * (n + 1) = (byteBits b).length + 8 * n := by rw [length_byteBits]; omega
      rw [List.take_succ_cons, bits, List.flatMap_cons, bits, List.flatMap_cons, hlen,
        List.take_length_add_append]
      exact congrArg (byteBits b ++ ·) (ih n)

theorem bits_drop (bs : List UInt8) (n : Nat) : bits (bs.drop n) = (bits bs).drop (8 * n) := by
  have hsplit : bits (bs.take n) ++ bits (bs.drop n) = bits bs := by
    rw [← bits_append, List.take_append_drop]
  by_cases hn : n ≤ bs.length
  · have hlen : (bits (bs.take n)).length = 8 * n := by
      rw [length_bits, List.length_take, Nat.min_eq_left hn]
    rw [← hsplit, List.drop_left' hlen]
  · rw [List.drop_of_length_le (by omega), List.drop_of_length_le (by rw [length_bits]; omega)]
    rfl

theorem bits_slice (bs : List UInt8) (off n : Nat) :
    bits (slice bs off n) = slice (bits bs) (8 * off) (8 * n) := by
  rw [slice, slice, bits_take, bits_drop]

theorem bits_replicate_zero (n : Nat) :
    bits (List.replicate n 0) = List.replicate (8 * n) false := by
  induction n with
  | zero => rfl
  | succ n ih =>
    have hzero : bits [0] = List.replicate 8 false := by decide
    rw [List.replicate_succ, ← List.singleton_append, bits_append, ih, hzero,
      List.replicate_append_replicate, Nat.mul_succ, Nat.add_comm]

/-! ## Words -/

/-- A little-endian word keeps the order of its bits. -/
theorem testBit_leVal (bs : List UInt8) (z : Nat) :
    (leVal bs).testBit z = (bits bs).getD z false := by
  induction bs generalizing z with
  | nil => rw [leVal, Nat.zero_testBit]; rfl
  | cons b bs ih =>
    have hb : b.toNat < 2 ^ 8 := UInt8.toNat_lt b
    have hval : leVal (b :: bs) = 2 ^ 8 * leVal bs + b.toNat := by
      rw [leVal]
      omega
    rw [hval, Nat.testBit_two_pow_mul_add _ hb, bits, List.flatMap_cons]
    by_cases hz : z < 8
    · rw [if_pos hz, List.getD_append _ _ _ _ (by rw [length_byteBits]; exact hz), byteBits]
      simp [hz]
    · rw [if_neg hz, List.getD_append_right _ _ _ _ (by rw [length_byteBits]; omega),
        length_byteBits, ih, bits]

/-- Writing a word writes its bits. -/
theorem bits_leBytes (n v : Nat) : bits (leBytes n v) = (List.range (8 * n)).map v.testBit := by
  induction n generalizing v with
  | zero => rfl
  | succ n ih =>
    have hbyte : byteBits (UInt8.ofNat v) = (List.range 8).map v.testBit := by
      rw [byteBits, UInt8.toNat_ofNat']
      refine List.map_congr_left fun j hj => ?_
      rw [Nat.testBit_mod_two_pow, decide_eq_true (List.mem_range.mp hj), Bool.true_and]
    have hrest : bits (leBytes n (v / 256)) =
        (List.range (8 * n)).map fun j => v.testBit (8 + j) := by
      rw [ih]
      refine List.map_congr_left fun j _ => ?_
      rw [show 256 = 2 ^ 8 by rfl, Nat.testBit_div_two_pow, Nat.add_comm]
    rw [leBytes, bits, List.flatMap_cons, hbyte, Nat.mul_succ, Nat.add_comm (8 * n) 8,
      List.range_add, List.map_append, List.map_map]
    exact congrArg _ hrest

/-! ## Bits to bytes -/

/-- The first `n` bytes of a bit string. -/
def bytes (n : Nat) (l : List Bool) : List UInt8 :=
  (List.range n).map fun i =>
    UInt8.ofNat (Nat.ofBits fun j : Fin 8 => l.getD (8 * i + j) false)

/-- Reading the bits of bytes gives the bytes. -/
theorem bytes_bits (bs : List UInt8) : bytes bs.length (bits bs) = bs := by
  apply List.ext_getElem
  · rw [bytes, List.length_map, List.length_range]
  · intro i hi hi'
    have hbits : (fun j : Fin 8 => (bits bs).getD (8 * i + j) false) =
        fun j : Fin 8 => bs[i].toNat.testBit j := by
      funext j
      rw [List.getD_eq_getElem?_getD, getElem?_bits bs i j.isLt, List.getElem?_eq_getElem hi']
      rfl
    simp only [bytes, List.getElem_map, List.getElem_range, hbits, Nat.ofBits_testBit]
    apply UInt8.toNat_inj.mp
    have hlt : bs[i].toNat < 2 ^ 8 := UInt8.toNat_lt _
    rw [UInt8.toNat_ofNat', Nat.mod_mod, Nat.mod_eq_of_lt hlt]

end OracleMachine.Lib.Bits
