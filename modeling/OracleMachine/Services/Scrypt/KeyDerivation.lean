import OracleMachine.Services.Scrypt.Hmac
import OracleMachine.Services.Scrypt.Smix

/-!
# The hash of a block header

`scrypt_1024_1_1_256` reserves a scratchpad on the stack, wherever it may be, and
places its three arrays in it from the next multiple of 64 on.
-/

namespace OracleMachine.Services.Scrypt

open Lib Lib.Bytes Lib.Blocks Lib.Memory

/-! ## The scratchpad -/

/-- The place of `B`, relative to a scratchpad at an address. -/
def alignedOffset (scratchpad : UInt64) : Nat :=
  (((scratchpad + 63) &&& ~~~63) - scratchpad).toNat

/-- The `n` bytes of a scratchpad from `p` on, as an array. -/
def bytesAt {size : Nat} (scratchpad : Vector UInt8 size) (p n : Nat) : Option (Vector UInt8 n) :=
  if p + n ≤ size then some (Vector.ofFn fun i => scratchpad.toList.getD (p + i) 0) else none

/-- The words of a scratchpad from `p` on. -/
def wordsAt {size : Nat} (scratchpad : Vector UInt8 size) (p : Nat) :
    Vector UInt32 ((size - p) / 4) :=
  Vector.ofFn fun i => UInt32.ofNat (leVal (window scratchpad (p + 4 * i) 4))

/-- `scrypt_1024_1_1_256_sp`, for a scratchpad at an address, with what it happens
to hold.  `XY` and `V` are given as places among the words behind `B`. -/
def scrypt1024_1_1_256Sp {size : Nat} (input : List UInt8) (output : Vector UInt8 32)
    (address : UInt64) (scratchpad : Vector UInt8 size) : Option (Vector UInt8 32) := do
  let N : UInt64 := 1024
  let r := 1
  let p := 1
  let start := alignedOffset address
  let B ← bytesAt scratchpad start (128 * r * p)
  let mem := wordsAt scratchpad (start + 128 * r * p)
  let XY := 0
  let V := (256 * r + 64) / 4
  let B ← pbkdf2Sha256 input 80 input 80 1 B (p * 128 * r)
  let mixed ← (List.range p).foldlM
    (fun (s : Vector UInt8 (128 * r * p) × Vector UInt32 _) i =>
      smix s.1 (i * 128 * r) r N s.2 V XY) (B, mem)
  pbkdf2Sha256 input 80 mixed.1.toList (p * 128 * r) 1 output 32

/-- `scrypt_1024_1_1_256`. -/
def scrypt1024_1_1_256 (input : List UInt8) (output : Vector UInt8 32) (address : UInt64)
    (scratchpad : Vector UInt8 131583) : Option (Vector UInt8 32) :=
  scrypt1024_1_1_256Sp input output address scratchpad

/-! ## The arrays are inside the scratchpad -/

theorem and_not_63 (x : UInt64) : x &&& ~~~(63 : UInt64) = (x >>> 6) <<< 6 := by
  have hbits : ∀ i : Fin 64, (~~~(63 : UInt64)).toBitVec[i.val] = decide (6 ≤ i.val) := by decide
  apply UInt64.toBitVec_inj.mp
  ext i hi
  have hbit : (~~~(63 : UInt64)).toBitVec[i] = decide (6 ≤ i) := hbits ⟨i, hi⟩
  rw [UInt64.toBitVec_and, BitVec.getElem_and, hbit, UInt64.toBitVec_shiftLeft,
    UInt64.toBitVec_shiftRight]
  show _ = ((x.toBitVec >>> 6) <<< 6)[i]
  rw [BitVec.getElem_shiftLeft]
  by_cases h6 : 6 ≤ i
  · have hi6 : 6 + (i - 6) = i := by omega
    simp [h6, hi6, hi]
  · simp [h6]

theorem toNat_and_not_63 (x : UInt64) : (x &&& ~~~(63 : UInt64)).toNat = x.toNat / 64 * 64 := by
  have hx := x.toNat_lt
  rw [and_not_63, UInt64.toNat_shiftLeft, UInt64.toNat_shiftRight]
  show x.toNat >>> 6 <<< 6 % 2 ^ 64 = _
  rw [Nat.shiftRight_eq_div_pow, Nat.shiftLeft_eq]
  omega

/-- The next multiple of 64 is less than 64 bytes away, also at the end of the
address space. -/
theorem alignedOffset_lt (address : UInt64) : alignedOffset address < 64 := by
  have haddress := address.toNat_lt
  rw [alignedOffset, UInt64.toNat_sub, toNat_and_not_63, UInt64.toNat_add]
  show (2 ^ 64 - address.toNat + (address.toNat + 63) % 2 ^ 64 / 64 * 64) % 2 ^ 64 < 64
  omega

/-- The scratchpad has room for the buffers and for the table of 1024 blocks. -/
theorem scratch_wordsAt {start : Nat} (hstart : start < 64) :
    Scratch ((131583 - (start + 128)) / 4) 80 0 (0 + 32 * 1) (0 + 64 * 1) 1 1024 := by
  refine ⟨⟨?_, ?_, ?_, ?_, ?_, ?_, ?_⟩, ?_, ?_, ?_, ?_⟩ <;> omega

/-! ## The hash -/

/-- The hash of 80 bytes, as the standard defines it. -/
def headerHash (header : List UInt8) : List UInt8 :=
  Lib.Scrypt.scrypt hmacSha256 32 header header 1024 1 1 32

/-- The whole of `B` is mixed. -/
theorem smix_all {size bytes r k V XY : Nat} {N : UInt64} (mem : Vector UInt32 size)
    (hN : N.toNat = 2 ^ (k + 1)) (hbytes : bytes = 128 * r)
    (scratch : Scratch size V XY (XY + 32 * r) (XY + 64 * r) r N.toNat) (B : Vector UInt8 bytes) :
    ∃ B' mem', smix B 0 r N mem V XY = some (B', mem') ∧
      B'.toList = Lib.Scrypt.leWordBytes (Lib.Scrypt.romix N.toNat (Lib.Scrypt.leWords B.toList)) := by
  obtain ⟨mem', hsmix, hX, -⟩ := smix_spec B mem hN (p := 0) (by omega) scratch
  have hlen : (window mem' XY (32 * r)).length = 32 * r := length_window scratch.places.bin
  rw [hX] at hlen
  refine ⟨_, mem', hsmix, ?_⟩
  rw [← hbytes, window_all] at hlen ⊢
  apply toList_overwrite
  rw [Lib.Scrypt.length_leWordBytes, hlen]
  omega

/-- The three steps with one block. -/
theorem scrypt_one {prf : List UInt8 → List UInt8 → List UInt8} {hLen r : Nat}
    {password salt : List UInt8} (hr : 0 < r)
    (hkey : (Pbkdf2.derive (prf password) salt 1 hLen (128 * r)).length = 128 * r) (N dkLen : Nat) :
    Lib.Scrypt.scrypt prf hLen password salt N r 1 dkLen =
      Pbkdf2.derive (prf password) (Lib.Scrypt.leWordBytes (Lib.Scrypt.romix N (Lib.Scrypt.leWords
        (Pbkdf2.derive (prf password) salt 1 hLen (128 * r))))) 1 hLen dkLen := by
  rw [Lib.Scrypt.scrypt, Nat.one_mul]
  generalize Pbkdf2.derive (prf password) salt 1 hLen (128 * r) = key at hkey ⊢
  have hblocks : blocks (128 * r) key = [key] := by
    have hone := blocks_flatten (n := 128 * r) (by omega) (List.forall_mem_singleton.mpr hkey)
    rwa [List.flatten_singleton] at hone
  simp only [hblocks, List.flatMap_singleton]

theorem scrypt_eq {input : List UInt8} (hinput : 80 ≤ input.length) (output : Vector UInt8 32)
    (address : UInt64) (scratchpad : Vector UInt8 131583) :
    scrypt1024_1_1_256 input output address scratchpad =
      some (overwrite output 0 (headerHash (input.take 80))) := by
  have hstart := alignedOffset_lt address
  have hB : ∃ B, bytesAt scratchpad (alignedOffset address) 128 = some B := by
    rw [bytesAt, if_pos (by omega)]
    exact ⟨_, rfl⟩
  obtain ⟨B, hB⟩ := hB
  have hone : List.range 1 = [0] := rfl
  have hlen := Pbkdf2.length_derive (hmacSha256 (input.take 80)) (input.take 80) 1
    (length_hmacSha256 _) (by decide : 0 < 32) 128
  have hkey := pbkdf2Sha256_eq (c := 1) B (by decide) 128 hinput hinput (Nat.le_refl 128)
  rw [UInt64.toNat_one] at hkey
  have hscrypt : headerHash (input.take 80) = _ :=
    scrypt_one (r := 1) (by decide) hlen 1024 32
  rw [hscrypt, Nat.mul_one]
  generalize Pbkdf2.derive (hmacSha256 (input.take 80)) (input.take 80) 1 32 128 = key at hlen hkey ⊢
  obtain ⟨B', mem', hsmix, hB'⟩ := smix_all (N := 1024) (k := 9) (r := 1)
    (wordsAt scratchpad (alignedOffset address + 128)) rfl rfl (scratch_wordsAt hstart)
    (overwrite B 0 key)
  rw [toList_overwrite hlen] at hB'
  have hB'len : B'.toList.length = 128 := Vector.length_toList
  have hderive := pbkdf2Sha256_eq (c := 1) output (by decide) 32 hinput
    (Nat.le_of_eq hB'len.symm) (Nat.le_refl 32)
  have h1024 : UInt64.toNat 1024 = 1024 := rfl
  rw [UInt64.toNat_one, List.take_of_length_le (Nat.le_of_eq hB'len), hB', h1024] at hderive
  dsimp only [scrypt1024_1_1_256, scrypt1024_1_1_256Sp, Nat.reduceMul, Nat.reduceAdd, Nat.reduceDiv]
  rw [hone, hB, some_bind, hkey, some_bind, List.foldlM_cons, Nat.zero_mul, hsmix,
    some_bind, List.foldlM_nil, Option.pure_def, some_bind, hB', h1024, hderive]

theorem length_headerHash (header : List UInt8) : (headerHash header).length = 32 :=
  Pbkdf2.length_derive _ _ 1 (length_hmacSha256 header) (by decide : 0 < 32) 32

/-- The function hashes the first 80 bytes of its input, wherever the scratchpad
is on the stack and whatever it holds.  It never leaves the scratchpad. -/
theorem scrypt_of_header (input : List UInt8) (output : Vector UInt8 32) (address : UInt64)
    (scratchpad : Vector UInt8 131583) (hinput : 80 ≤ input.length) :
    ∃ hash, scrypt1024_1_1_256 input output address scratchpad = some hash ∧
      hash.toList = Lib.Scrypt.scrypt (Pbkdf2.hmac Sha256.hash 64) 32 (input.take 80)
        (input.take 80) 1024 1 1 32 :=
  ⟨_, scrypt_eq hinput output address scratchpad, toList_overwrite (length_headerHash _)⟩

/-- A scratchpad whose address is not a multiple of 64. -/
theorem scrypt_of_header_unaligned :
    ∃ hash, scrypt1024_1_1_256 (List.replicate 80 1) (Vector.replicate 32 0) 4097
        (Vector.replicate 131583 0) = some hash ∧
      hash.toList = Lib.Scrypt.scrypt (Pbkdf2.hmac Sha256.hash 64) 32
        ((List.replicate 80 1).take 80) ((List.replicate 80 1).take 80) 1024 1 1 32 :=
  scrypt_of_header (List.replicate 80 1) (Vector.replicate 32 0) 4097 (Vector.replicate 131583 0)
    (by decide)

end OracleMachine.Services.Scrypt
