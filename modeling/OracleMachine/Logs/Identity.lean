import Mathlib.Data.Nat.Digits.Defs
import OracleMachine.Lib.Bytes
import OracleMachine.Lib.Keccak
import OracleMachine.Lib.Python

/-!
# Qubic identities

Qubic writes a 32-byte digest as 60 letters: four groups of 14 base-26 digits
for the four 64-bit words, and four letters of a checksum.  The checksum is
taken from KangarooTwelve, which `read_qubic_log` computes for inputs of a
single chunk.

The state of the permutation is a five by five table of 64-bit lanes, indexed as
`lanes[x][y]`.  Index arithmetic modulo five is that of `Fin 5`.
-/

namespace OracleMachine.Logs.Identity

open Lib.Bytes Lib.Python

/-! ## The permutation -/

/-- The table of lanes. -/
structure Lanes where
  words : Vector UInt64 25

namespace Lanes

/-- The table with the entries of a function. -/
def ofFn (f : Fin 5 → Fin 5 → UInt64) : Lanes where
  words := Vector.ofFn fun i => f ⟨i.val / 5, by omega⟩ ⟨i.val % 5, by omega⟩

/-- `lanes[x][y]`. -/
def get (lanes : Lanes) (x y : Fin 5) : UInt64 :=
  lanes.words.get ⟨5 * x.val + y.val, by omega⟩

/-- `lanes[x][y] = lane`. -/
def set (lanes : Lanes) (x y : Fin 5) (lane : UInt64) : Lanes where
  words := lanes.words.set (5 * x.val + y.val) lane (by omega)

/-- The table of zeros. -/
def zero : Lanes := ofFn fun _ _ => 0

end Lanes

/-- `_K12_RC`. -/
def k12Rc : List UInt64 :=
  [0x000000008000808B, 0x800000000000008B, 0x8000000000008089, 0x8000000000008003,
   0x8000000000008002, 0x8000000000000080, 0x000000000000800A, 0x800000008000000A,
   0x8000000080008081, 0x8000000000008080, 0x0000000080000001, 0x8000000080008008]

/-- `_K12_ROT`. -/
def k12Rot : List (List Nat) :=
  [[0, 36, 3, 41, 18], [1, 44, 10, 45, 2], [62, 6, 43, 15, 61],
   [28, 55, 25, 21, 56], [27, 20, 39, 8, 14]]

/-- `_rol`.  The mask is the reduction modulo 2^64. -/
def rol (x : UInt64) (n : Nat) : UInt64 :=
  let n := n % 64
  UInt64.ofNat ((x.toNat <<< n) ||| (x.toNat >>> (64 - n)))

/-- All pairs of indices, in the order of two nested loops. -/
def indices : List (Fin 5 × Fin 5) :=
  (List.finRange 5).flatMap fun x => (List.finRange 5).map fun y => (x, y)

/-- One round of `_keccak_p1600_12`. -/
def round (lanes : Lanes) (rc : UInt64) : Lanes :=
  let c (x : Fin 5) :=
    lanes.get x 0 ^^^ lanes.get x 1 ^^^ lanes.get x 2 ^^^ lanes.get x 3 ^^^ lanes.get x 4
  let d (x : Fin 5) := c (x - 1) ^^^ rol (c (x + 1)) 1
  let lanes := Lanes.ofFn fun x y => lanes.get x y ^^^ d x
  let b := indices.foldl (fun b (x, y) =>
    b.set y (2 * x + 3 * y) (rol (lanes.get x y) ((k12Rot.getD x []).getD y 0))) Lanes.zero
  let lanes := Lanes.ofFn fun x y => b.get x y ^^^ (~~~ b.get (x + 1) y &&& b.get (x + 2) y)
  lanes.set 0 0 (lanes.get 0 0 ^^^ rc)

/-- `_keccak_p1600_12`. -/
def keccakP1600 (lanes : Lanes) : Lanes := k12Rc.foldl round lanes

/-! ## KangarooTwelve for one chunk -/

/-- The rate of the sponge, in bytes. -/
def rate : Nat := 168

/-- The message with the empty customisation string, the suffix and the
padding. -/
def padded (data : List UInt8) : List UInt8 :=
  let s := data ++ [0x00, 0x07]
  let s := s ++ List.replicate ((rate - s.length % rate) % rate) 0
  s.set (s.length - 1) (s.getD (s.length - 1) 0 ||| 0x80)

/-- The lane with the number `i` is `lanes[i % 5][i // 5]`. -/
def laneIndex (i : Fin 21) : Fin 5 × Fin 5 := (⟨i.val % 5, by omega⟩, ⟨i.val / 5, by omega⟩)

/-- Xor one block into the lanes and permute them. -/
def absorb (lanes : Lanes) (block : List UInt8) : Lanes :=
  keccakP1600 ((List.finRange 21).foldl (fun lanes i =>
    let (x, y) := laneIndex i
    lanes.set x y (lanes.get x y ^^^ UInt64.ofNat (leVal (slice block (8 * i.val) 8)))) lanes)

/-- `k12`.  The output loop appends the same lanes until there is enough. -/
def k12 (data : List UInt8) (outLen : Nat) : List UInt8 :=
  let message := padded data
  let lanes := (List.range (message.length / rate)).foldl
    (fun lanes k => absorb lanes (slice message (k * rate) rate)) Lanes.zero
  let out := (List.finRange 21).flatMap fun i =>
    let (x, y) := laneIndex i
    leBytes 8 (lanes.get x y).toNat
  (List.replicate ((outLen + rate - 1) / rate) out).flatten.take outLen

/-! ## The identity -/

/-- The letters of a number, least significant first. -/
def letters (base : Nat) : Nat → Nat → Str
  | 0, _ => []
  | n + 1, frag => (base + frag % 26) :: letters base n (frag / 26)

/-- `qubic_identity`. -/
def qubicIdentity (digest : List UInt8) (lower : Bool) : Str :=
  let base := if lower then 97 else 65
  let words := (List.range 4).flatMap fun i => letters base 14 (leVal (slice digest (8 * i) 8))
  let checksum := leVal (k12 digest 3) &&& 0x3FFFF
  words ++ letters base 4 checksum

@[simp] theorem length_letters (base n frag : Nat) : (letters base n frag).length = n := by
  induction n generalizing frag with
  | zero => rfl
  | succ n ih => rw [letters, List.length_cons, ih]

/-- An identity has 60 letters. -/
theorem length_qubicIdentity (digest : List UInt8) (lower : Bool) :
    (qubicIdentity digest lower).length = 60 := by
  simp [qubicIdentity, List.range_succ]

/-! ## Reading an identity back

The reader takes letters of either case.  It is not in the source: the service
only writes identities. -/

/-- The first letter of the alphabet in a case. -/
def firstLetter (lower : Bool) : Nat := if lower then 97 else 65

/-- The 18 bits of the checksum. -/
def checksum (digest : List UInt8) : Nat := leVal (k12 digest 3) &&& 0x3FFFF

/-- The digit that a letter stands for. -/
def letterValue (c : Nat) : Nat := if 97 ≤ c then c - 97 else c - 65

/-- The number that letters write in base 26, least significant first. -/
def readLetters (s : Str) : Nat := Nat.ofDigits 26 (s.map letterValue)

/-- The digest of an identity. -/
def readIdentity (s : Str) : List UInt8 :=
  (List.range 4).flatMap fun i => leBytes 8 (readLetters (slice s (14 * i) 14))

theorem mem_letters {base n frag c : Nat} (h : c ∈ letters base n frag) :
    base ≤ c ∧ c < base + 26 := by
  induction n generalizing frag with
  | zero => cases h
  | succ n ih =>
    rw [letters, List.mem_cons] at h
    cases h with
    | inl h =>
      have hlt := Nat.mod_lt frag (show 26 > 0 by decide)
      omega
    | inr h => exact ih h

theorem letterValue_add (lower : Bool) {d : Nat} (h : d < 26) :
    letterValue (firstLetter lower + d) = d := by
  cases lower
  · have hfirst : firstLetter false = 65 := rfl
    rw [letterValue, hfirst, if_neg (by omega)]
    omega
  · have hfirst : firstLetter true = 97 := rfl
    rw [letterValue, hfirst, if_pos (by omega)]
    omega

/-- Reading `n` letters gives the number modulo `26 ^ n`. -/
theorem readLetters_letters (lower : Bool) (n frag : Nat) :
    readLetters (letters (firstLetter lower) n frag) = frag % 26 ^ n := by
  induction n generalizing frag with
  | zero => rw [Nat.pow_zero, Nat.mod_one]; rfl
  | succ n ih =>
    have hdigit := letterValue_add lower (Nat.mod_lt frag (show 26 > 0 by decide))
    have hrest : Nat.ofDigits 26 ((letters (firstLetter lower) n (frag / 26)).map letterValue) =
        frag / 26 % 26 ^ n := ih (frag / 26)
    rw [letters, readLetters, List.map_cons, hdigit, Nat.ofDigits_cons, hrest, Nat.pow_succ,
      Nat.mul_comm (26 ^ n) 26, Nat.mod_mul]

theorem checksum_lt (digest : List UInt8) : checksum digest < 2 ^ 18 :=
  Nat.lt_succ_of_le Nat.and_le_right

/-- The identity as its words and its checksum. -/
theorem qubicIdentity_eq (digest : List UInt8) (lower : Bool) :
    qubicIdentity digest lower =
      (List.range 4).flatMap
        (fun i => letters (firstLetter lower) 14 (leVal (slice digest (8 * i) 8))) ++
      letters (firstLetter lower) 4 (checksum digest) := rfl

/-- The group with the number `i`. -/
theorem slice_qubicIdentity (digest : List UInt8) (lower : Bool) {i : Nat} (hi : i < 4) :
    slice (qubicIdentity digest lower) (14 * i) 14 =
      letters (firstLetter lower) 14 (leVal (slice digest (8 * i) 8)) := by
  rw [qubicIdentity_eq]
  simp only [List.range_succ, List.range_zero, List.nil_append, List.flatMap_append,
    List.flatMap_singleton, List.append_assoc]
  rcases i with _ | _ | _ | _ | i
  · rw [slice_append_left (length_letters ..)]
  · rw [slice_append_right (by simp), length_letters, slice_append_left (length_letters ..)]
  · rw [slice_append_right (by simp), slice_append_right (by simp), length_letters,
      length_letters, slice_append_left (length_letters ..)]
  · rw [slice_append_right (by simp), slice_append_right (by simp),
      slice_append_right (by simp), length_letters, length_letters, length_letters,
      slice_append_left (length_letters ..)]
  · omega

theorem slice_checksum (digest : List UInt8) (lower : Bool) :
    slice (qubicIdentity digest lower) 56 4 =
      letters (firstLetter lower) 4 (checksum digest) := by
  have hwords : ((List.range 4).flatMap
      (fun i => letters (firstLetter lower) 14 (leVal (slice digest (8 * i) 8)))).length = 56 := by
    simp [List.range_succ]
  rw [qubicIdentity_eq, slice_append_right (by rw [hwords]), hwords, slice, List.drop_zero,
    List.take_of_length_le (by rw [length_letters])]

/-- 14 letters are enough for a word of 64 bits. -/
theorem readLetters_word {digest : List UInt8} (hlen : digest.length = 32) (lower : Bool)
    {i : Nat} (hi : i < 4) :
    readLetters (slice (qubicIdentity digest lower) (14 * i) 14) =
      leVal (slice digest (8 * i) 8) := by
  have hword := leVal_lt (slice digest (8 * i) 8)
  rw [length_slice (by omega)] at hword
  have hfits : 256 ^ 8 < 26 ^ 14 := by decide
  rw [slice_qubicIdentity digest lower hi, readLetters_letters, Nat.mod_eq_of_lt (by omega)]

/-- Four letters are enough for the checksum. -/
theorem readLetters_checksum (digest : List UInt8) (lower : Bool) :
    readLetters (slice (qubicIdentity digest lower) 56 4) = checksum digest := by
  have hlt := checksum_lt digest
  have hfits : 2 ^ 18 < 26 ^ 4 := by decide
  rw [slice_checksum, readLetters_letters, Nat.mod_eq_of_lt (by omega)]

theorem readIdentity_qubicIdentity {digest : List UInt8} (hlen : digest.length = 32)
    (lower : Bool) : readIdentity (qubicIdentity digest lower) = digest := by
  have hword : ∀ i ∈ List.range 4,
      leBytes 8 (readLetters (slice (qubicIdentity digest lower) (14 * i) 14)) =
        slice digest (8 * i) 8 := by
    intro i hi
    rw [List.mem_range] at hi
    have hslice : (slice digest (8 * i) 8).length = 8 := length_slice (by omega)
    rw [readLetters_word hlen lower hi]
    nth_rewrite 1 [← hslice]
    exact leBytes_leVal _
  rw [readIdentity, List.flatMap_congr hword, flatMap_slice, List.take_of_length_le (by omega)]

theorem mem_qubicIdentity {digest : List UInt8} {lower : Bool} {c : Nat}
    (h : c ∈ qubicIdentity digest lower) :
    firstLetter lower ≤ c ∧ c < firstLetter lower + 26 := by
  rw [qubicIdentity_eq, List.mem_append, List.mem_flatMap] at h
  rcases h with ⟨i, -, h⟩ | h
  · exact mem_letters h
  · exact mem_letters h

/-- An identity is 60 letters of its case.  Its groups read back as the words
of the digest and its last letters as the checksum, so that it determines the
digest, in whichever case it is written. -/
theorem identity_names_digest (digest : List UInt8) (hlen : digest.length = 32) (lower : Bool) :
    (qubicIdentity digest lower).length = 60 ∧
    (∀ c ∈ qubicIdentity digest lower,
      if lower then 97 ≤ c ∧ c ≤ 122 else 65 ≤ c ∧ c ≤ 90) ∧
    (∀ i < 4, readLetters (slice (qubicIdentity digest lower) (14 * i) 14) =
      leVal (slice digest (8 * i) 8)) ∧
    readLetters (slice (qubicIdentity digest lower) 56 4) = checksum digest ∧
    checksum digest < 2 ^ 18 ∧
    readIdentity (qubicIdentity digest lower) = digest ∧
    ∀ digest' lower', digest'.length = 32 →
      qubicIdentity digest lower = qubicIdentity digest' lower' → digest = digest' := by
  refine ⟨length_qubicIdentity digest lower, ?_, fun i => readLetters_word hlen lower,
    readLetters_checksum digest lower, checksum_lt digest,
    readIdentity_qubicIdentity hlen lower, ?_⟩
  · intro c hc
    have hcase := mem_qubicIdentity hc
    cases lower
    · rw [firstLetter, if_neg (by decide)] at hcase
      rw [if_neg (by decide)]
      omega
    · rw [firstLetter, if_pos rfl] at hcase
      rw [if_pos rfl]
      omega
  · intro digest' lower' hlen' heq
    rw [← readIdentity_qubicIdentity hlen lower, heq, readIdentity_qubicIdentity hlen' lower']

/-- A digest of ones, whose words are the largest. -/
theorem identity_names_digest_ones :
    (List.replicate 32 (0xFF : UInt8)).length = 32 ∧
    readIdentity (qubicIdentity (List.replicate 32 0xFF) true) = List.replicate 32 0xFF :=
  ⟨by decide, (identity_names_digest (List.replicate 32 0xFF) (by decide) true).2.2.2.2.2.1⟩

end OracleMachine.Logs.Identity
