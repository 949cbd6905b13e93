import Mathlib.Tactic.IntervalCases
import OracleMachine.Lib.Memory
import OracleMachine.Lib.Sha256

/-!
# SHA-256 of the Doge service

The hash functions of the Doge service are in `scrypt.c`.  This is its SHA-256.
The arrays are accessed with checks, so that a function that returns stays inside
its arrays.
-/

namespace OracleMachine.Services.Scrypt

open Lib Lib.Bytes Lib.Blocks Lib.Memory

/-! ## Words and bytes -/

/-- `be32dec`. -/
def be32dec (p : List UInt8) : Option UInt32 := do
  let p0 ← p[0]?
  let p1 ← p[1]?
  let p2 ← p[2]?
  let p3 ← p[3]?
  return p3.toUInt32 + (p2.toUInt32 <<< 8) + (p1.toUInt32 <<< 16) + (p0.toUInt32 <<< 24)

/-- `be32enc`: the bytes `p[0]` to `p[3]`. -/
def be32enc (x : UInt32) : List UInt8 :=
  [((x >>> 24) &&& 0xff).toUInt8, ((x >>> 16) &&& 0xff).toUInt8, ((x >>> 8) &&& 0xff).toUInt8,
    (x &&& 0xff).toUInt8]

/-- `be32enc_vect`: the bytes that it writes. -/
def be32encVect (src : List UInt32) (len : Nat) : Option (List UInt8) :=
  (loads src (len / 4)).map fun words => words.flatMap be32enc

/-- `be32dec_vect`. -/
def be32decVect {size : Nat} (dst : Vector UInt32 size) (src : List UInt8) (len : Nat) :
    Option (Vector UInt32 size) :=
  fill 0 (len / 4) (fun _ i => be32dec (src.drop (i * 4))) dst

/-! ## The compression function -/

def ch (x y z : UInt32) : UInt32 := (x &&& (y ^^^ z)) ^^^ z

def maj (x y z : UInt32) : UInt32 := (x &&& (y ||| z)) ||| (y &&& z)

def rotr (x n : UInt32) : UInt32 := (x >>> n) ||| (x <<< (32 - n))

/-- `S0`. -/
def bigS0 (x : UInt32) : UInt32 := rotr x 2 ^^^ rotr x 13 ^^^ rotr x 22

/-- `S1`. -/
def bigS1 (x : UInt32) : UInt32 := rotr x 6 ^^^ rotr x 11 ^^^ rotr x 25

/-- `s0`. -/
def smallS0 (x : UInt32) : UInt32 := rotr x 7 ^^^ rotr x 18 ^^^ (x >>> 3)

/-- `s1`. -/
def smallS1 (x : UInt32) : UInt32 := rotr x 17 ^^^ rotr x 19 ^^^ (x >>> 10)

/-- The round function `RNDr`.  The working variables are not moved: their places
rotate with the number of the round. -/
def rndr (S : Vector UInt32 8) (W : Vector UInt32 64) (i : Nat) (k : UInt32) :
    Option (Vector UInt32 8) := do
  let a ← load S ((64 - i) % 8)
  let b ← load S ((65 - i) % 8)
  let c ← load S ((66 - i) % 8)
  let d ← load S ((67 - i) % 8)
  let e ← load S ((68 - i) % 8)
  let f ← load S ((69 - i) % 8)
  let g ← load S ((70 - i) % 8)
  let h ← load S ((71 - i) % 8)
  let w ← load W i
  let t0 := h + bigS1 e + ch e f g + (w + k)
  let t1 := bigS0 a + maj a b c
  let S ← store S ((67 - i) % 8) (d + t0)
  store S ((71 - i) % 8) (t0 + t1)

/-- The constants of the 64 calls of `RNDr`, in their order. -/
def roundConstants : List UInt32 :=
  [0x428a2f98, 0x71374491, 0xb5c0fbcf, 0xe9b5dba5, 0x3956c25b, 0x59f111f1, 0x923f82a4, 0xab1c5ed5,
   0xd807aa98, 0x12835b01, 0x243185be, 0x550c7dc3, 0x72be5d74, 0x80deb1fe, 0x9bdc06a7, 0xc19bf174,
   0xe49b69c1, 0xefbe4786, 0x0fc19dc6, 0x240ca1cc, 0x2de92c6f, 0x4a7484aa, 0x5cb0a9dc, 0x76f988da,
   0x983e5152, 0xa831c66d, 0xb00327c8, 0xbf597fc7, 0xc6e00bf3, 0xd5a79147, 0x06ca6351, 0x14292967,
   0x27b70a85, 0x2e1b2138, 0x4d2c6dfc, 0x53380d13, 0x650a7354, 0x766a0abb, 0x81c2c92e, 0x92722c85,
   0xa2bfe8a1, 0xa81a664b, 0xc24b8b70, 0xc76c51a3, 0xd192e819, 0xd6990624, 0xf40e3585, 0x106aa070,
   0x19a4c116, 0x1e376c08, 0x2748774c, 0x34b0bcb5, 0x391c0cb3, 0x4ed8aa4a, 0x5b9cca4f, 0x682e6ff3,
   0x748f82ee, 0x78a5636f, 0x84c87814, 0x8cc70208, 0x90befffa, 0xa4506ceb, 0xbef9a3f7, 0xc67178f2]

/-- `W[t]` from the words before it. -/
def scheduleWord (W : Vector UInt32 64) (t : Nat) : Option UInt32 := do
  let w2 ← load W (t - 2)
  let w7 ← load W (t - 7)
  let w15 ← load W (t - 15)
  let w16 ← load W (t - 16)
  return smallS1 w2 + w7 + smallS0 w15 + w16

/-- `SHA256_Transform`.  The array `W` is written before it is read. -/
def sha256Transform (state : Vector UInt32 8) (block : List UInt8) :
    Option (Vector UInt32 8) := do
  let W ← be32decVect (Vector.replicate 64 0) block 64
  let W ← fill 16 48 (fun W i => scheduleWord W (16 + i)) W
  let S ← (List.range 64).foldlM (fun S i => do rndr S W i (← roundConstants[i]?)) state
  update (· + ·) 0 8 (fun _ i => load S i) state

/-! ## Contexts -/

/-- `SHA256_CTX`.  `count0` is the upper word of the number of bits. -/
structure SHA256Context where
  state : Vector UInt32 8
  count0 : UInt32
  count1 : UInt32
  buf : Vector UInt8 64

/-- `SHA256_Init`.  The buffer is left as it is. -/
def sha256Init (ctx : SHA256Context) : SHA256Context :=
  { ctx with
    count0 := 0
    count1 := 0
    state := #v[0x6A09E667, 0xBB67AE85, 0x3C6EF372, 0xA54FF53A, 0x510E527F, 0x9B05688C, 0x1F83D9AB,
      0x5BE0CD19] }

/-- The loop of `SHA256_Update` over complete blocks. -/
def completeBlocks (state : Vector UInt32 8) (src : List UInt8) (len : Nat) :
    Option (Vector UInt32 8 × List UInt8 × Nat) :=
  if 64 ≤ len then do
    let state ← sha256Transform state (← loads src 64)
    completeBlocks state (src.drop 64) (len - 64)
  else some (state, src, len)
termination_by len

/-- `SHA256_Update`. -/
def sha256Update (ctx : SHA256Context) (src : List UInt8) (len : Nat) : Option SHA256Context := do
  let r := ((ctx.count1 >>> 3) &&& 0x3f).toNat
  let bitlen1 := UInt32.ofNat len <<< 3
  let bitlen0 := UInt32.ofNat (len >>> 29)
  let count1 := ctx.count1 + bitlen1
  let count0 := if count1 < bitlen1 then ctx.count0 + 1 else ctx.count0
  let count0 := count0 + bitlen0
  if len < 64 - r then
    let buf ← stores ctx.buf r (← loads src len)
    return { ctx with count0, count1, buf }
  else
    let buf ← stores ctx.buf r (← loads src (64 - r))
    let state ← sha256Transform ctx.state buf.toList
    let left ← completeBlocks state (src.drop (64 - r)) (len - (64 - r))
    let buf ← stores buf 0 (← loads left.2.1 left.2.2)
    return { state := left.1, count0, count1, buf }

/-- `PAD`. -/
def pad : List UInt8 := 0x80 :: List.replicate 63 0

/-- `SHA256_Pad`. -/
def sha256Pad (ctx : SHA256Context) : Option SHA256Context := do
  let len ← be32encVect [ctx.count0, ctx.count1] 8
  let r := ((ctx.count1 >>> 3) &&& 0x3f).toNat
  let plen := if r < 56 then 56 - r else 120 - r
  let ctx ← sha256Update ctx pad plen
  sha256Update ctx len 8

/-- A context that was cleared. -/
def SHA256Context.cleared : SHA256Context where
  state := Vector.replicate 8 0
  count0 := 0
  count1 := 0
  buf := Vector.replicate 64 0

/-- `SHA256_Final`: the digest and the context. -/
def sha256Final (ctx : SHA256Context) : Option (List UInt8 × SHA256Context) := do
  let ctx ← sha256Pad ctx
  let digest ← be32encVect ctx.state.toList 32
  return (digest, SHA256Context.cleared)

/-! ## The words of the code are those of the standard -/

theorem ch_eq (x y z : UInt32) : ch x y z = Sha256.ch x y z := by
  apply UInt32.toBitVec_inj.mp
  ext i hi
  simp only [ch, Sha256.ch, UInt32.toBitVec_and, UInt32.toBitVec_xor, UInt32.toBitVec_not,
    BitVec.getElem_and, BitVec.getElem_xor, BitVec.getElem_not]
  cases x.toBitVec[i] <;> simp

theorem maj_eq (x y z : UInt32) : maj x y z = Sha256.maj x y z := by
  apply UInt32.toBitVec_inj.mp
  ext i hi
  simp only [maj, Sha256.maj, UInt32.toBitVec_and, UInt32.toBitVec_xor, UInt32.toBitVec_or,
    BitVec.getElem_and, BitVec.getElem_xor, BitVec.getElem_or]
  cases x.toBitVec[i] <;> cases y.toBitVec[i] <;> simp

theorem roundConstants_eq : roundConstants = Sha256.roundConstants := by decide +kernel

/-- A word from its bytes, the lowest one first. -/
theorem word_of_bytes (b0 b1 b2 b3 : UInt8) :
    b0.toUInt32 + (b1.toUInt32 <<< 8) + (b2.toUInt32 <<< 16) + (b3.toUInt32 <<< 24) =
      UInt32.ofNat (leVal [b0, b1, b2, b3]) := by
  have h0 := b0.toNat_lt
  have h1 := b1.toNat_lt
  have h2 := b2.toNat_lt
  have h3 := b3.toNat_lt
  have hval : leVal [b0, b1, b2, b3] =
      b0.toNat + 256 * (b1.toNat + 256 * (b2.toNat + 256 * (b3.toNat + 256 * 0))) := rfl
  apply UInt32.toNat_inj.mp
  rw [hval]
  simp only [UInt32.toNat_add, UInt32.toNat_shiftLeft, UInt8.toNat_toUInt32, UInt32.toNat_ofNat',
    UInt32.reduceToNat, Nat.shiftLeft_eq, Nat.reduceMod, Nat.reducePow]
  omega

theorem exists_four_bytes {p : List UInt8} (h : 4 ≤ p.length) :
    ∃ b0 b1 b2 b3 rest, p = b0 :: b1 :: b2 :: b3 :: rest := by
  obtain ⟨b0, p, rfl⟩ := List.exists_cons_of_length_pos (show 0 < p.length by omega)
  rw [List.length_cons] at h
  obtain ⟨b1, p, rfl⟩ := List.exists_cons_of_length_pos (show 0 < p.length by omega)
  rw [List.length_cons] at h
  obtain ⟨b2, p, rfl⟩ := List.exists_cons_of_length_pos (show 0 < p.length by omega)
  rw [List.length_cons] at h
  obtain ⟨b3, p, rfl⟩ := List.exists_cons_of_length_pos (show 0 < p.length by omega)
  exact ⟨b0, b1, b2, b3, p, rfl⟩

theorem be32dec_eq {p : List UInt8} (h : 4 ≤ p.length) :
    be32dec p = some (UInt32.ofNat (beVal (p.take 4))) := by
  obtain ⟨b0, b1, b2, b3, rest, rfl⟩ := exists_four_bytes h
  have hval : beVal [b0, b1, b2, b3] = leVal [b3, b2, b1, b0] := beVal_reverse [b3, b2, b1, b0]
  show some _ = some (UInt32.ofNat (beVal [b0, b1, b2, b3]))
  rw [hval, word_of_bytes]

/-- The lowest byte of a word. -/
theorem toUInt8_and_ff (x : UInt32) : (x &&& 0xff).toUInt8 = UInt8.ofNat x.toNat := by
  apply UInt8.toNat_inj.mp
  have hmask : x.toNat &&& 255 = x.toNat % 256 := Nat.and_two_pow_sub_one_eq_mod x.toNat 8
  rw [UInt32.toNat_toUInt8, UInt32.toNat_and, UInt8.toNat_ofNat']
  show (x.toNat &&& 255) % 256 = _
  rw [hmask]
  omega

theorem be32enc_eq (x : UInt32) : be32enc x = beBytes 4 x.toNat := by
  simp only [be32enc, toUInt8_and_ff, UInt32.toNat_shiftRight, Nat.shiftRight_eq_div_pow,
    beBytes, leBytes, Nat.div_div_eq_div_mul]
  rfl

theorem be32encVect_eq {src : List UInt32} {len : Nat} (h : src.length = len / 4) :
    be32encVect src len = some (src.flatMap fun word => beBytes 4 word.toNat) := by
  have henc : be32enc = fun word => beBytes 4 word.toNat := funext be32enc_eq
  rw [be32encVect, loads_eq (Nat.le_of_eq h.symm), ← h, List.take_length, Option.map_some, henc]

/-! ## The schedule -/

theorem length_words {block : List UInt8} (h : block.length = 64) :
    (Sha256.words block).length = 16 := by
  rw [Sha256.words, List.length_map, length_blocks, h]

/-- `be32dec_vect` reads the words of a block. -/
theorem be32decVect_eq {size : Nat} (dst : Vector UInt32 size) {block : List UInt8}
    (h : block.length = 64) (hsize : 16 ≤ size) :
    be32decVect dst block 64 = some (overwrite dst 0 (Sha256.words block)) := by
  have hwords := length_words h
  have hlen : 64 / 4 = (Sha256.words block).length := hwords.symm
  rw [be32decVect, hlen]
  apply fill_eq_overwrite
  · omega
  · intro i hi
    have hblock : i < block.length / 4 := by omega
    rw [be32dec_eq (by rw [List.length_drop]; omega), Sha256.words, List.getElem?_map,
      getElem?_blocks hblock, Option.map_some, slice, Nat.mul_comm]

/-- The next word of the schedule, from an array that starts with the words
before it. -/
theorem scheduleWord_eq (mem : Vector UInt32 64) {ws : List UInt32} (hlow : 16 ≤ ws.length)
    (hhigh : ws.length ≤ 64) :
    scheduleWord (overwrite mem 0 ws) ws.length = some (Sha256.nextWord ws) := by
  have hload : ∀ back, 0 < back → back ≤ 16 →
      load (overwrite mem 0 ws) (ws.length - back) = some (ws.getD (ws.length - back) 0) := by
    intro back hpos hback
    have hlt : ws.length - back < ws.length := by omega
    rw [load, getElem?_overwrite, if_pos (by omega), Nat.sub_zero, List.getD_eq_getElem?_getD,
      List.getElem?_eq_getElem hlt, Option.getD_some]
  simp only [scheduleWord, hload 2 (by decide) (by decide), hload 7 (by decide) (by decide),
    hload 15 (by decide) (by decide), hload 16 (by decide) (by decide), some_bind,
    Sha256.nextWord]
  rfl

/-- The loop that computes `W[16]` to `W[63]`. -/
theorem fill_schedule (mem : Vector UInt32 64) {block : List UInt8} (h : block.length = 64) :
    fill 16 48 (fun W i => scheduleWord W (16 + i)) (overwrite mem 0 (Sha256.words block)) =
      some (overwrite mem 0 (Sha256.schedule block)) := by
  have hwords := length_words h
  generalize hws : Sha256.words block = ws at hwords
  generalize hnew : (Sha256.extend ws 48).drop 16 = new
  have hlen : new.length = 48 := by
    rw [← hnew, List.length_drop, Sha256.length_extend, hwords]
  have hsplit : ∀ t ≤ 48, ws ++ new.take t = Sha256.extend ws t := by
    intro t ht
    have hfront := Sha256.take_extend ws (Nat.zero_le 48)
    have htake := Sha256.take_extend ws ht
    rw [hwords] at htake
    rw [Nat.add_zero, Sha256.extend] at hfront
    rw [← htake, List.take_add, hnew, ← hwords, hfront]
  have hfill : fill 16 new.length (fun W i => scheduleWord W (16 + i)) (overwrite mem 0 ws) =
      some (overwrite (overwrite mem 0 ws) 16 new) := by
    apply fill_eq_overwrite
    · omega
    · intro i hi
      have hjoin := overwrite_append mem 0 ws (new.take i)
      have hnext := Sha256.getElem?_extend ws (show i < 48 by omega)
      rw [Nat.zero_add, hwords, hsplit i (by omega)] at hjoin
      rw [hwords, ← List.getElem?_drop, hnew] at hnext
      have hlength : (Sha256.extend ws i).length = 16 + i := by rw [Sha256.length_extend, hwords]
      have hword := scheduleWord_eq mem (show 16 ≤ (Sha256.extend ws i).length by omega) (by omega)
      rw [hlength] at hword
      rw [hjoin, hword, hnext]
  have hjoin := overwrite_append mem 0 ws new
  rw [Nat.zero_add, hwords] at hjoin
  rw [hlen] at hfill
  have hall := hsplit 48 (Nat.le_refl _)
  rw [← hlen, List.take_length] at hall
  rw [hfill, hjoin, Sha256.schedule, hws, hall, hlen]

/-! ## The rounds -/

/-- The working variable at a place, counted modulo eight. -/
def variableAt (S : Vector UInt32 8) (j : Nat) : UInt32 := S[j % 8]?.getD 0

/-- The working variables before round `i`. -/
def registersAt (S : Vector UInt32 8) (i : Nat) : Sha256.Registers where
  a := variableAt S (64 - i)
  b := variableAt S (65 - i)
  c := variableAt S (66 - i)
  d := variableAt S (67 - i)
  e := variableAt S (68 - i)
  f := variableAt S (69 - i)
  g := variableAt S (70 - i)
  h := variableAt S (71 - i)

theorem load_variableAt (S : Vector UInt32 8) (j : Nat) :
    load S (j % 8) = some (variableAt S j) := by
  have hj : j % 8 < 8 := Nat.mod_lt j (by decide)
  rw [load, variableAt, Vector.getElem?_eq_getElem hj, Option.getD_some]

/-- One variable is written, and the others stay. -/
theorem exists_store_variableAt (S : Vector UInt32 8) (j : Nat) (v : UInt32) :
    ∃ S', store S (j % 8) v = some S' ∧
      ∀ k, variableAt S' k = if j % 8 = k % 8 then v else variableAt S k := by
  have hj : j % 8 < 8 := Nat.mod_lt j (by decide)
  refine ⟨S.set (j % 8) v hj, dif_pos hj, ?_⟩
  intro k
  rw [variableAt, variableAt, Vector.getElem?_set]
  by_cases hk : j % 8 = k % 8
  · rw [if_pos hk, if_pos hk, Option.getD_some]
  · rw [if_neg hk, if_neg hk]

/-- A round of the code is a round of the standard, one place further. -/
theorem rndr_spec (S : Vector UInt32 8) {W : Vector UInt32 64} {i : Nat} {w : UInt32} (hi : i < 64)
    (hw : load W i = some w) (k : UInt32) :
    ∃ S', rndr S W i k = some S' ∧ registersAt S' (i + 1) = (registersAt S i).round k w := by
  generalize ht0 : variableAt S (71 - i) + bigS1 (variableAt S (68 - i)) +
    ch (variableAt S (68 - i)) (variableAt S (69 - i)) (variableAt S (70 - i)) + (w + k) = t0
  generalize ht1 : bigS0 (variableAt S (64 - i)) +
    maj (variableAt S (64 - i)) (variableAt S (65 - i)) (variableAt S (66 - i)) = t1
  obtain ⟨S1, hstore1, hS1⟩ := exists_store_variableAt S (67 - i) (variableAt S (67 - i) + t0)
  obtain ⟨S2, hstore2, hS2⟩ := exists_store_variableAt S1 (71 - i) (t0 + t1)
  refine ⟨S2, ?_, ?_⟩
  · simp only [rndr, load_variableAt, hw, some_bind, ht0, ht1, hstore1,
      hstore2]
  · have hsum : variableAt S (71 - i) + Sha256.bigSigma1 (variableAt S (68 - i)) +
        Sha256.ch (variableAt S (68 - i)) (variableAt S (69 - i)) (variableAt S (70 - i)) + k + w =
          t0 := by
      rw [← ch_eq, ← ht0, UInt32.add_assoc _ k w, UInt32.add_comm k w]
      rfl
    have hmaj : Sha256.bigSigma0 (variableAt S (64 - i)) +
        Sha256.maj (variableAt S (64 - i)) (variableAt S (65 - i)) (variableAt S (66 - i)) = t1 := by
      rw [← maj_eq, ← ht1]
      rfl
    -- Places that are not written keep their variable under the next name.
    have hkeep : ∀ j, i ≤ j → (j - i) % 8 ≠ (67 - i) % 8 → (j - i) % 8 ≠ (71 - i) % 8 →
        variableAt S2 (j + 1 - (i + 1)) = variableAt S (j - i) := by
      intro j hj h67 h71
      rw [Nat.add_sub_add_right, hS2, if_neg (Ne.symm h71), hS1, if_neg (Ne.symm h67)]
    have hd : variableAt S2 (68 - (i + 1)) = variableAt S (67 - i) + t0 := by
      rw [hS2, if_neg (by omega), hS1, if_pos (by omega)]
    have ha : variableAt S2 (64 - (i + 1)) = t0 + t1 := by
      rw [hS2, if_pos (by omega)]
    rw [registersAt, ha, hkeep 64 (by omega) (by omega) (by omega),
      hkeep 65 (by omega) (by omega) (by omega), hkeep 66 (by omega) (by omega) (by omega), hd,
      hkeep 68 (by omega) (by omega) (by omega), hkeep 69 (by omega) (by omega) (by omega),
      hkeep 70 (by omega) (by omega) (by omega)]
    simp only [registersAt, Sha256.Registers.round, hsum, hmaj]

/-- The first `n` rounds. -/
theorem rounds_spec (S : Vector UInt32 8) {W : Vector UInt32 64} {ws : List UInt32}
    (hws : W.toList = ws) {n : Nat} (hn : n ≤ 64) :
    ∃ S', (List.range n).foldlM (fun S i => do rndr S W i (← roundConstants[i]?)) S = some S' ∧
      registersAt S' n = ((roundConstants.zip ws).take n).foldl (fun s kw => s.round kw.1 kw.2)
        (registersAt S 0) := by
  apply foldlM_range_spec (fun n S' => registersAt S' n =
    ((roundConstants.zip ws).take n).foldl (fun s kw => s.round kw.1 kw.2) (registersAt S 0))
  · rfl
  · intro i hi S' hS'
    have hk : i < roundConstants.length := Nat.lt_of_lt_of_le hi hn
    have hw : i < ws.length := by
      rw [← hws, Vector.length_toList]
      exact hk
    have hload : load W i = some ws[i] := by
      rw [load, ← Vector.getElem?_toList, hws, List.getElem?_eq_getElem hw]
    obtain ⟨S'', hrndr, hS''⟩ := rndr_spec S' (Nat.lt_of_lt_of_le hi hn) hload roundConstants[i]
    refine ⟨S'', ?_, ?_⟩
    · rw [List.getElem?_eq_getElem hk, some_bind, hrndr]
    · have hzip : i < (roundConstants.zip ws).length := by
        rw [List.length_zip]
        exact lt_min hk hw
      rw [hS'', hS', ← List.take_append_getElem hzip, List.foldl_append, List.getElem_zip]
      rfl

/-- The eight words of a hash value. -/
def registers (state : Vector UInt32 8) : Sha256.Registers := registersAt state 0

theorem toList_registers (state : Vector UInt32 8) : (registers state).toList = state.toList := by
  apply List.ext_getElem?
  intro i
  rw [Vector.getElem?_toList]
  by_cases hi : i < 8
  · rw [Vector.getElem?_eq_getElem hi]
    interval_cases i <;> rfl
  · have hlen : (registers state).toList.length ≤ i := Nat.le_of_not_lt hi
    rw [Vector.getElem?_eq_none (Nat.le_of_not_lt hi), List.getElem?_eq_none hlen]

/-- The loop that adds the working variables to the hash value. -/
theorem update_add_spec (state S : Vector UInt32 8) :
    ∃ state', update (· + ·) 0 8 (fun _ i => load S i) state = some state' ∧
      ∀ j, variableAt state' j = variableAt state j + variableAt S j := by
  have hupdate : update (· + ·) 0 8 (fun _ i => load S i) state =
      some (overwrite state 0 (List.zipWith (· + ·) (window state 0 8) S.toList)) := by
    apply update_eq_overwrite (Nat.le_refl 8) Vector.length_toList
    intro i hi ws hws
    rw [load, Vector.getElem?_toList]
  refine ⟨_, hupdate, ?_⟩
  intro j
  have hj : j % 8 < 8 := Nat.mod_lt j (by decide)
  have hlen : (List.zipWith (· + ·) state.toList S.toList).length = 8 := by
    rw [List.length_zipWith, Vector.length_toList, Vector.length_toList, Nat.min_self]
  rw [window_all, variableAt, ← Vector.getElem?_toList, toList_overwrite hlen,
    List.getElem?_zipWith, Vector.getElem?_toList, Vector.getElem?_toList, variableAt, variableAt,
    Vector.getElem?_eq_getElem hj, Vector.getElem?_eq_getElem hj]
  rfl

/-- `SHA256_Transform` is the compression of the standard. -/
theorem sha256Transform_spec (state : Vector UInt32 8) {block : List UInt8}
    (h : block.length = 64) :
    ∃ state', sha256Transform state block = some state' ∧
      registers state' = Sha256.compress (registers state) block := by
  have hlen : (Sha256.schedule block).length = 64 := by
    rw [Sha256.schedule, Sha256.length_extend, length_words h]
  have hzip : (roundConstants.zip (Sha256.schedule block)).length = 64 := by
    have hk : roundConstants.length = 64 := rfl
    rw [List.length_zip, hlen, hk, Nat.min_self]
  have hW : (overwrite (Vector.replicate 64 0) 0 (Sha256.schedule block)).toList =
      Sha256.schedule block := toList_overwrite hlen
  obtain ⟨S, hrounds, hS⟩ := rounds_spec state hW (Nat.le_refl 64)
  obtain ⟨state', hupdate, hstate'⟩ := update_add_spec state S
  refine ⟨state', ?_, ?_⟩
  · rw [sha256Transform, be32decVect_eq _ h (by decide), some_bind,
      fill_schedule _ h, some_bind, hrounds, some_bind, hupdate]
  · -- After 64 rounds the variables are back at their places.
    have hback : registersAt S 64 = registersAt S 0 := rfl
    rw [hback, List.take_of_length_le (Nat.le_of_eq hzip), roundConstants_eq] at hS
    rw [Sha256.compress, registers, registers, ← hS]
    simp only [registersAt, Sha256.Registers.add, hstate']

end OracleMachine.Services.Scrypt
