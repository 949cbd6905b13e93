import OracleMachine.Services.Scrypt.Salsa
import OracleMachine.Services.Scrypt.Sha256

/-!
# The mixing function of the Doge service

`smix` works on three places of one memory of words: the buffers `X` and `Y`,
between which the blocks go back and forth, and the table `V`.
-/

namespace OracleMachine.Services.Scrypt

open Lib Lib.Bytes Lib.Blocks Lib.Memory

variable {size : Nat}

/-! ## Words and bytes -/

/-- `le32dec`. -/
def le32dec (p : List UInt8) : Option UInt32 := do
  let p0 ← p[0]?
  let p1 ← p[1]?
  let p2 ← p[2]?
  let p3 ← p[3]?
  return p0.toUInt32 + (p1.toUInt32 <<< 8) + (p2.toUInt32 <<< 16) + (p3.toUInt32 <<< 24)

/-- `le32enc`: the bytes `p[0]` to `p[3]`. -/
def le32enc (x : UInt32) : List UInt8 :=
  [(x &&& 0xff).toUInt8, ((x >>> 8) &&& 0xff).toUInt8, ((x >>> 16) &&& 0xff).toUInt8,
    ((x >>> 24) &&& 0xff).toUInt8]

/-- `integerify`. -/
def integerify (mem : Vector UInt32 size) (B r : Nat) : Option UInt64 := do
  let x1 ← load mem (B + (2 * r - 1) * 16 + 1)
  let x0 ← load mem (B + (2 * r - 1) * 16)
  return (x1.toUInt64 <<< 32) + x0.toUInt64

/-! ## The two phases -/

/-- The statements of the first loop of `smix` for one `i`: the block at `A` is
stored in the table and mixed into `B`. -/
def storeBlock (mem : Vector UInt32 size) (V i A B Z r : Nat) : Option (Vector UInt32 size) := do
  let mem ← blkcpy mem (V + i * (32 * r)) A (128 * r)
  blockmixSalsa8 mem A B Z r

/-- The statements of the second loop for one `i`: the block at `A` is combined
with an entry of the table and mixed into `B`. -/
def lookupBlock (mem : Vector UInt32 size) (V A B Z r : Nat) (N : UInt64) :
    Option (Vector UInt32 size) := do
  let j := (← integerify mem A r) &&& (N - 1)
  let mem ← blkxor mem A (V + j.toNat * (32 * r)) (128 * r)
  blockmixSalsa8 mem A B Z r

/-- `smix`.  The argument is the part of `B` from `p` on.  The loops count `i` in
steps of two. -/
def smix {bytes : Nat} (B : Vector UInt8 bytes) (p r : Nat) (N : UInt64)
    (mem : Vector UInt32 size) (V XY : Nat) :
    Option (Vector UInt8 bytes × Vector UInt32 size) := do
  let X := XY
  let Y := XY + 32 * r
  let Z := XY + 64 * r
  let mem ← fill X (32 * r) (fun _ k => le32dec (B.toList.drop (p + 4 * k))) mem
  let mem ← (List.range ((N.toNat + 1) / 2)).foldlM
    (fun mem k => do
      let i := 2 * k
      let mem ← storeBlock mem V i X Y Z r
      storeBlock mem V (i + 1) Y X Z r)
    mem
  let mem ← (List.range ((N.toNat + 1) / 2)).foldlM
    (fun mem _ => do
      let mem ← lookupBlock mem V X Y Z r N
      lookupBlock mem V Y X Z r N)
    mem
  let B ← (List.range (32 * r)).foldlM
    (fun B k => do stores B (p + 4 * k) (le32enc (← load mem (X + k)))) B
  return (B, mem)

/-! ## Words and bytes of the argument -/

theorem le32dec_eq {p : List UInt8} (h : 4 ≤ p.length) :
    le32dec p = some (UInt32.ofNat (leVal (p.take 4))) := by
  obtain ⟨b0, b1, b2, b3, rest, rfl⟩ := exists_four_bytes h
  show some _ = some (UInt32.ofNat (leVal [b0, b1, b2, b3]))
  rw [word_of_bytes]

theorem le32enc_eq (x : UInt32) : le32enc x = leBytes 4 x.toNat := by
  simp only [le32enc, toUInt8_and_ff, UInt32.toNat_shiftRight, Nat.shiftRight_eq_div_pow,
    leBytes, Nat.div_div_eq_div_mul]
  rfl

/-- The first loop of `smix` reads the words of the argument. -/
theorem fill_words {bytes : Nat} (B : Vector UInt8 bytes) (mem : Vector UInt32 size) {p X n : Nat}
    (hp : p + 4 * n ≤ bytes) (hX : X + n ≤ size) :
    fill X n (fun _ k => le32dec (B.toList.drop (p + 4 * k))) mem =
      some (overwrite mem X (Lib.Scrypt.leWords (window B p (4 * n)))) := by
  have hcount : (window B p (4 * n)).length / 4 = n := by
    rw [length_window hp, Nat.mul_div_cancel_left n (by decide)]
  have hlen : (Lib.Scrypt.leWords (window B p (4 * n))).length = n := by
    rw [Lib.Scrypt.leWords, List.length_map, length_blocks, hcount]
  have hget : ∀ i < n, (Lib.Scrypt.leWords (window B p (4 * n)))[i]? =
      le32dec (B.toList.drop (p + 4 * i)) := by
    intro i hi
    rw [le32dec_eq (by rw [List.length_drop, Vector.length_toList]; omega), Lib.Scrypt.leWords,
      List.getElem?_map, getElem?_blocks (by omega), slice_window B (by omega), Option.map_some]
    rfl
  generalize Lib.Scrypt.leWords (window B p (4 * n)) = ws at hlen hget
  subst hlen
  apply fill_eq_overwrite ws hX
  intro i hi
  exact (hget i hi).symm

/-- The last loop of `smix` writes the words back. -/
theorem stores_words {bytes : Nat} (B : Vector UInt8 bytes) (mem : Vector UInt32 size)
    {p X n : Nat} (hp : p + 4 * n ≤ bytes) (hX : X + n ≤ size) :
    (List.range n).foldlM
        (fun B k => do stores B (p + 4 * k) (le32enc (← load mem (X + k)))) B =
      some (overwrite B p (Lib.Scrypt.leWordBytes (window mem X n))) := by
  have hlen : ∀ k ≤ n, (Lib.Scrypt.leWordBytes (window mem X k)).length = 4 * k := by
    intro k hk
    rw [Lib.Scrypt.length_leWordBytes, length_window (by omega)]
  have hinit : B = overwrite B p (Lib.Scrypt.leWordBytes (window mem X 0)) := by
    rw [window_zero, Lib.Scrypt.leWordBytes, List.flatMap_nil, overwrite_nil]
  have hpass : ∀ k < n, ∀ B', B' = overwrite B p (Lib.Scrypt.leWordBytes (window mem X k)) →
      ∃ B'', (do stores B' (p + 4 * k) (le32enc (← load mem (X + k)))) = some B'' ∧
        B'' = overwrite B p (Lib.Scrypt.leWordBytes (window mem X (k + 1))) := by
    rintro k hk _ rfl
    have hk' := hlen k (by omega)
    have hload : load mem (X + k) = some mem[X + k] := Vector.getElem?_eq_getElem (by omega)
    have hnext : window mem X (k + 1) = window mem X k ++ [mem[X + k]] := by
      rw [window_add]
      congr 1
      apply List.ext_getElem?
      intro i
      rw [getElem?_window]
      by_cases hi : i = 0
      · rw [hi, if_pos (by decide), Nat.add_zero, ← load, hload, List.getElem?_cons_zero]
      · rw [if_neg (by omega), List.getElem?_eq_none (by rw [List.length_singleton]; omega)]
    have hbytes : Lib.Scrypt.leWordBytes (window mem X (k + 1)) =
        Lib.Scrypt.leWordBytes (window mem X k) ++ leBytes 4 mem[X + k].toNat := by
      rw [hnext, Lib.Scrypt.leWordBytes, List.flatMap_append, List.flatMap_singleton,
        Lib.Scrypt.leWordBytes]
    refine ⟨_, ?_, rfl⟩
    rw [hload, some_bind, le32enc_eq, stores_eq (by rw [length_leBytes]; omega), hbytes,
      ← overwrite_append, hk']
  obtain ⟨B', hloop, rfl⟩ := foldlM_range_spec
    (fun k B' => B' = overwrite B p (Lib.Scrypt.leWordBytes (window mem X k))) hinit hpass
  exact hloop

/-! ## The index into the table -/

/-- The two words that `integerify` reads decide the remainder by a power of two
up to `2 ^ 64`. -/
theorem wordsVal_mod {k : Nat} (hk : k ≤ 64) (x0 x1 : UInt32) (ws : List UInt32) :
    Lib.Scrypt.wordsVal (x0 :: x1 :: ws) % 2 ^ k = (x1.toNat * 2 ^ 32 + x0.toNat) % 2 ^ k := by
  have hsplit : Lib.Scrypt.wordsVal (x0 :: x1 :: ws) =
      (x1.toNat * 2 ^ 32 + x0.toNat) + 2 ^ 64 * Lib.Scrypt.wordsVal ws := by
    simp only [Lib.Scrypt.wordsVal]
    omega
  obtain ⟨m, hm⟩ := Nat.pow_dvd_pow 2 hk
  rw [hsplit, hm, Nat.mul_assoc, Nat.add_mul_mod_self_left]

/-- The index is the last block as an integer modulo `N`. -/
theorem integerify_spec (mem : Vector UInt32 size) {A B Z r : Nat} (places : Places size A B Z r)
    {N : UInt64} {k : Nat} (hN : N.toNat = 2 ^ k) :
    ∃ v, integerify mem A r = some v ∧
      (v &&& (N - 1)).toNat = Lib.Scrypt.integerify (window mem A (32 * r)) % N.toNat := by
  have hr := places.rpos
  have hA := places.bin
  have hk : k ≤ 64 := by
    have hlt := N.toNat_lt
    rw [hN] at hlt
    exact Nat.le_of_lt ((Nat.pow_lt_pow_iff_right (by decide)).mp hlt)
  have hlast : Lib.Scrypt.integerify (window mem A (32 * r)) =
      Lib.Scrypt.wordsVal (window mem (A + (2 * r - 1) * 16) 16) := by
    rw [Lib.Scrypt.integerify, getLastD_blocks_window places]
  have hlen : (window mem (A + (2 * r - 1) * 16) 16).length = 16 := length_window (by omega)
  obtain ⟨x0, ws, hws⟩ := List.exists_cons_of_length_pos
    (show 0 < (window mem (A + (2 * r - 1) * 16) 16).length by omega)
  rw [hws, List.length_cons] at hlen
  obtain ⟨x1, ws, rfl⟩ := List.exists_cons_of_length_pos (show 0 < ws.length by omega)
  have hload0 : load mem (A + (2 * r - 1) * 16) = some x0 :=
    load_of_window hws (show 0 < 16 by decide)
  have hload1 : load mem (A + (2 * r - 1) * 16 + 1) = some x1 :=
    load_of_window hws (show 1 < 16 by decide)
  have hv : ((x1.toUInt64 <<< 32) + x0.toUInt64).toNat = x1.toNat * 2 ^ 32 + x0.toNat := by
    have h0 := x0.toNat_lt
    have h1 := x1.toNat_lt
    simp only [UInt64.toNat_add, UInt64.toNat_shiftLeft, UInt32.toNat_toUInt64,
      UInt64.reduceToNat, Nat.shiftLeft_eq, Nat.reduceMod]
    omega
  have hmask : (N - 1).toNat = 2 ^ k - 1 := by
    have hpos : 0 < 2 ^ k := Nat.two_pow_pos k
    have hone : (1 : UInt64) ≤ N := by
      rw [UInt64.le_iff_toNat_le, hN]
      exact hpos
    rw [UInt64.toNat_sub_of_le N 1 hone, hN]
    rfl
  refine ⟨(x1.toUInt64 <<< 32) + x0.toUInt64, ?_, ?_⟩
  · rw [integerify, hload1, some_bind, hload0, some_bind]
    rfl
  · rw [UInt64.toNat_and, hmask, Nat.and_two_pow_sub_one_eq_mod, hv, hlast, hws, hN,
      wordsVal_mod hk]

/-! ## The phases -/

/-- Where the buffers and the table are. -/
structure Scratch (size V A B Z r N : Nat) : Prop where
  places : Places size A B Z r
  table : V + N * (32 * r) ≤ size
  table_a : A + 32 * r ≤ V ∨ V + N * (32 * r) ≤ A
  table_b : B + 32 * r ≤ V ∨ V + N * (32 * r) ≤ B
  table_z : Z + 16 ≤ V ∨ V + N * (32 * r) ≤ Z

/-- The two buffers change places after every block. -/
theorem Scratch.swap {V A B Z r N : Nat} (h : Scratch size V A B Z r N) :
    Scratch size V B A Z r N := by
  have hplaces := h.places
  refine ⟨⟨hplaces.rpos, hplaces.bout, hplaces.bin, hplaces.x, ?_, hplaces.bout_x, hplaces.bin_x⟩,
    h.table, h.table_b, h.table_a, h.table_z⟩
  exact hplaces.bin_bout.symm

/-- Outside the buffers and the table. -/
def Beside (V A B Z r N j : Nat) : Prop :=
  Outside A (32 * r) j ∧ Outside B (32 * r) j ∧ Outside Z 16 j ∧ Outside V (N * (32 * r)) j

theorem Beside.swap {V A B Z r N j : Nat} (h : Beside V A B Z r N j) : Beside V B A Z r N j :=
  ⟨h.2.1, h.1, h.2.2⟩

/-- The first `n` entries of the table. -/
def Table (mem : Vector UInt32 size) (V r n : Nat) (entry : Nat → List UInt32) : Prop :=
  ∀ j < n, window mem (V + j * (32 * r)) (32 * r) = entry j

theorem entry_room {j n : Nat} (r : Nat) (h : j < n) :
    j * (32 * r) + 32 * r ≤ n * (32 * r) := by
  rw [← Nat.succ_mul]
  exact Nat.mul_le_mul_right _ h

/-- A table that nothing is written to. -/
theorem Table.agree {mem mem' : Vector UInt32 size} {V r n : Nat} {entry : Nat → List UInt32}
    (h : Table mem V r n entry) {P : Nat → Prop} (hagree : AgreeOn P mem mem')
    (hP : ∀ i < n * (32 * r), P (V + i)) : Table mem' V r n entry := by
  intro j hj
  have hroom := entry_room r hj
  rw [← h j hj]
  apply hagree.window
  intro i hi
  rw [Nat.add_assoc]
  exact hP _ (by omega)

section Phases

variable {V A B Z r : Nat} {mem : Vector UInt32 size} {entry : Nat → List UInt32}

/-- A block of the first phase. -/
theorem storeBlock_spec {N i : Nat} (scratch : Scratch size V A B Z r N) (hi : i < N)
    (htable : Table mem V r i entry) (hA : window mem A (32 * r) = entry i) :
    ∃ mem', storeBlock mem V i A B Z r = some mem' ∧ Table mem' V r (i + 1) entry ∧
      window mem' B (32 * r) = Lib.Scrypt.blockMix (entry i) ∧
      AgreeOn (Beside V A B Z r N) mem mem' := by
  have hplaces := scratch.places
  have hbin := hplaces.bin
  have htab := scratch.table
  have hta := scratch.table_a
  have htb := scratch.table_b
  have htz := scratch.table_z
  have hroom := entry_room r hi
  have hwords : 16 * r * 2 = 32 * r := by omega
  have hbytes : 8 * (16 * r) = 128 * r := by omega
  have hcopy : blkcpy mem (V + i * (32 * r)) A (8 * (16 * r)) =
      some (overwrite mem (V + i * (32 * r)) (window mem A (16 * r * 2))) :=
    blkcpy_eq mem (16 * r) (by omega) (by omega) (by omega)
  rw [hwords, hbytes, hA] at hcopy
  have hlen : (entry i).length = 32 * r := by rw [← hA, length_window hbin]
  obtain ⟨mem', hmix, hB, hagree⟩ :=
    blockmixSalsa8_spec hplaces (overwrite mem (V + i * (32 * r)) (entry i))
  rw [window_overwrite_of_disjoint (by omega), hA] at hB
  have hframe := agreeOn_overwrite mem (V + i * (32 * r)) (entry i)
  rw [hlen] at hframe
  have hstored : Table (overwrite mem (V + i * (32 * r)) (entry i)) V r (i + 1) entry := by
    intro j hj
    by_cases hji : j = i
    · rw [hji, window_overwrite_eq hlen (by omega)]
    · have hbefore := entry_room r (show j < i by omega)
      rw [window_overwrite_of_disjoint (by omega), htable j (by omega)]
  refine ⟨mem', by rw [storeBlock, hcopy, some_bind, hmix], ?_, hB, ?_⟩
  · apply hstored.agree hagree
    intro m hm
    rw [Nat.succ_mul] at hm
    simp only [Untouched, Outside]
    omega
  · apply hframe.trans hagree
    intro j hj
    simp only [Beside, Untouched, Outside] at hj ⊢
    omega

/-- A block of the second phase. -/
theorem lookupBlock_spec {N : UInt64} {k : Nat} (hN : N.toNat = 2 ^ k)
    (scratch : Scratch size V A B Z r N.toNat) (htable : Table mem V r N.toNat entry) :
    ∃ mem', lookupBlock mem V A B Z r N = some mem' ∧ Table mem' V r N.toNat entry ∧
      window mem' B (32 * r) = Lib.Scrypt.blockMix (Lib.Scrypt.xorWords (window mem A (32 * r))
        (entry (Lib.Scrypt.integerify (window mem A (32 * r)) % N.toNat))) ∧
      AgreeOn (Beside V A B Z r N.toNat) mem mem' := by
  have hplaces := scratch.places
  have hbin := hplaces.bin
  have htab := scratch.table
  have hta := scratch.table_a
  have htb := scratch.table_b
  have htz := scratch.table_z
  obtain ⟨v, hinteger, hindex⟩ := integerify_spec mem hplaces hN
  have hunfold : lookupBlock mem V A B Z r N =
      (blkxor mem A (V + (v &&& (N - 1)).toNat * (32 * r)) (128 * r) >>= fun mem =>
        blockmixSalsa8 mem A B Z r) := by
    rw [lookupBlock, hinteger, some_bind]
  have hlt : (v &&& (N - 1)).toNat < N.toNat := by
    rw [hindex]
    apply Nat.mod_lt
    rw [hN]
    exact Nat.two_pow_pos k
  rw [hunfold, ← hindex]
  generalize (v &&& (N - 1)).toNat = j at hlt ⊢
  have hroom := entry_room r hlt
  have hwords : 16 * r * 2 = 32 * r := by omega
  have hbytes : 8 * (16 * r) = 128 * r := by omega
  have hxor : blkxor mem A (V + j * (32 * r)) (8 * (16 * r)) =
      some (overwrite mem A (Lib.Scrypt.xorWords (window mem A (16 * r * 2))
        (window mem (V + j * (32 * r)) (16 * r * 2)))) :=
    blkxor_eq mem (16 * r) (by omega) (by omega) (by omega)
  rw [hwords, hbytes, htable j hlt] at hxor
  have hlen : (Lib.Scrypt.xorWords (window mem A (32 * r)) (entry j)).length = 32 * r := by
    rw [Lib.Scrypt.xorWords, List.length_zipWith, ← htable j hlt, length_window hbin,
      length_window (by omega), Nat.min_self]
  generalize Lib.Scrypt.xorWords (window mem A (32 * r)) (entry j) = ws at hxor hlen
  obtain ⟨mem', hmix, hB, hagree⟩ := blockmixSalsa8_spec hplaces (overwrite mem A ws)
  rw [window_overwrite_eq hlen hbin] at hB
  have hframe := agreeOn_overwrite mem A ws
  rw [hlen] at hframe
  refine ⟨mem', by rw [hxor, some_bind, hmix], ?_, hB, ?_⟩
  · apply htable.agree (hframe.trans hagree fun j hj => hj)
    intro m hm
    simp only [Untouched, Outside]
    omega
  · exact hframe.trans hagree fun j hj => ⟨hj.1, hj.2.2.1, hj.2.1⟩

end Phases

/-! ## The loops -/

/-- What holds before the pass `i` of the first loop. -/
structure Stored (ws : List UInt32) (V X r i : Nat) (mem : Vector UInt32 size) : Prop where
  table : Table mem V r (2 * i) fun j => Lib.Scrypt.blockMix^[j] ws
  x : window mem X (32 * r) = Lib.Scrypt.blockMix^[2 * i] ws

/-- What holds before the pass `i` of the second loop. -/
structure LookedUp (ws : List UInt32) (V X r N i : Nat) (mem : Vector UInt32 size) : Prop where
  table : Table mem V r N fun j => Lib.Scrypt.blockMix^[j] ws
  x : window mem X (32 * r) =
    (Lib.Scrypt.romixStep N ws)^[2 * i] (Lib.Scrypt.blockMix^[N] ws)

section Loops

variable {ws : List UInt32} {V X Y Z r i : Nat} {mem : Vector UInt32 size}

theorem Stored.pass {N : Nat} (scratch : Scratch size V X Y Z r N) (hi : 2 * i + 1 < N)
    (h : Stored ws V X r i mem) :
    ∃ mem', (do
        let mem ← storeBlock mem V (2 * i) X Y Z r
        storeBlock mem V (2 * i + 1) Y X Z r) = some mem' ∧
      Stored ws V X r (i + 1) mem' ∧ AgreeOn (Beside V X Y Z r N) mem mem' := by
  obtain ⟨mem1, hstore1, htable1, hY, hframe1⟩ := storeBlock_spec scratch (by omega) h.table h.x
  rw [← Function.iterate_succ_apply' Lib.Scrypt.blockMix] at hY
  obtain ⟨mem2, hstore2, htable2, hX, hframe2⟩ := storeBlock_spec scratch.swap hi htable1 hY
  rw [← Function.iterate_succ_apply' Lib.Scrypt.blockMix] at hX
  exact ⟨mem2, by rw [hstore1, some_bind, hstore2], ⟨htable2, hX⟩,
    hframe1.trans hframe2 fun j hj => ⟨hj, hj.swap⟩⟩

theorem LookedUp.pass {N : UInt64} {k : Nat} (hN : N.toNat = 2 ^ k)
    (scratch : Scratch size V X Y Z r N.toNat) (h : LookedUp ws V X r N.toNat i mem) :
    ∃ mem', (do
        let mem ← lookupBlock mem V X Y Z r N
        lookupBlock mem V Y X Z r N) = some mem' ∧
      LookedUp ws V X r N.toNat (i + 1) mem' ∧ AgreeOn (Beside V X Y Z r N.toNat) mem mem' := by
  obtain ⟨mem1, hlookup1, htable1, hY, hframe1⟩ := lookupBlock_spec hN scratch h.table
  rw [h.x, ← Lib.Scrypt.romixStep,
    ← Function.iterate_succ_apply' (Lib.Scrypt.romixStep N.toNat ws)] at hY
  obtain ⟨mem2, hlookup2, htable2, hX, hframe2⟩ := lookupBlock_spec hN scratch.swap htable1
  rw [hY, ← Lib.Scrypt.romixStep,
    ← Function.iterate_succ_apply' (Lib.Scrypt.romixStep N.toNat ws)] at hX
  exact ⟨mem2, by rw [hlookup1, some_bind, hlookup2], ⟨htable2, hX⟩,
    hframe1.trans hframe2 fun j hj => ⟨hj, hj.swap⟩⟩

end Loops

/-- `smix` is `romix` on the bytes at `p`, for a number `N` that is a power of two
and not one. -/
theorem smix_spec {bytes : Nat} (B : Vector UInt8 bytes) {p r k V XY : Nat} {N : UInt64}
    (mem : Vector UInt32 size) (hN : N.toNat = 2 ^ (k + 1)) (hp : p + 128 * r ≤ bytes)
    (scratch : Scratch size V XY (XY + 32 * r) (XY + 64 * r) r N.toNat) :
    ∃ mem', smix B p r N mem V XY = some (overwrite B p (Lib.Scrypt.leWordBytes
        (Lib.Scrypt.romix N.toNat (Lib.Scrypt.leWords (window B p (128 * r))))), mem') ∧
      window mem' XY (32 * r) =
        Lib.Scrypt.romix N.toNat (Lib.Scrypt.leWords (window B p (128 * r))) ∧
      AgreeOn (Beside V XY (XY + 32 * r) (XY + 64 * r) r N.toNat) mem mem' := by
  have hX := scratch.places.bin
  have hbytes : 4 * (32 * r) = 128 * r := by omega
  have hcount : (N.toNat + 1) / 2 = 2 ^ k := by
    rw [hN, Nat.pow_succ]
    omega
  have htwice : 2 * 2 ^ k = N.toNat := by rw [hN, Nat.pow_succ, Nat.mul_comm]
  have hread : fill XY (32 * r) (fun _ k => le32dec (B.toList.drop (p + 4 * k))) mem =
      some (overwrite mem XY (Lib.Scrypt.leWords (window B p (4 * (32 * r))))) :=
    fill_words B mem (by omega) hX
  have hlen : (Lib.Scrypt.leWords (window B p (128 * r))).length = 32 * r := by
    rw [Lib.Scrypt.leWords, List.length_map, length_blocks, length_window hp]
    omega
  rw [hbytes] at hread
  rw [Lib.Scrypt.romix]
  generalize Lib.Scrypt.leWords (window B p (128 * r)) = ws at hread hlen ⊢
  have hframe0 := agreeOn_overwrite mem XY ws
  rw [hlen] at hframe0
  -- The first loop stores the values of the first phase.
  have hstored0 : Stored ws V XY r 0 (overwrite mem XY ws) :=
    ⟨fun j hj => absurd hj (Nat.not_lt_zero j), window_overwrite_eq hlen hX⟩
  obtain ⟨mem1, hstore, hstored, hframe1⟩ := foldlM_range_spec
    (fun i mem' => Stored ws V XY r i mem' ∧
      AgreeOn (Beside V XY (XY + 32 * r) (XY + 64 * r) r N.toNat) mem mem')
    ⟨hstored0, fun j hj => hframe0 j hj.1⟩ (n := 2 ^ k) (by
      rintro i hi mem' ⟨h, hframe⟩
      obtain ⟨mem'', hpass, hnext, hagree⟩ := h.pass scratch (show 2 * i + 1 < N.toNat by omega)
      exact ⟨mem'', hpass, hnext, hframe.trans hagree fun j hj => ⟨hj, hj⟩⟩)
  -- The second loop reads them.
  have hlooked0 : LookedUp ws V XY r N.toNat 0 mem1 :=
    ⟨htwice ▸ hstored.table, htwice ▸ hstored.x⟩
  obtain ⟨mem2, hlookup, hlooked, hframe2⟩ := foldlM_range_spec
    (fun i mem' => LookedUp ws V XY r N.toNat i mem' ∧
      AgreeOn (Beside V XY (XY + 32 * r) (XY + 64 * r) r N.toNat) mem mem')
    ⟨hlooked0, hframe1⟩ (n := 2 ^ k) (by
      rintro i - mem' ⟨h, hframe⟩
      obtain ⟨mem'', hpass, hnext, hagree⟩ := h.pass hN scratch
      exact ⟨mem'', hpass, hnext, hframe.trans hagree fun j hj => ⟨hj, hj⟩⟩)
  have hx := hlooked.x
  rw [htwice] at hx
  have hwrite := stores_words B mem2 (p := p) (X := XY) (n := 32 * r) (by omega) hX
  refine ⟨mem2, ?_, hx, hframe2⟩
  simp only [smix, hcount]
  rw [hread, some_bind, hstore, some_bind, hlookup, some_bind, hwrite, some_bind, hx]
  rfl

/-- `smix` replaces the `128 * r` bytes at `p` by what `romix` makes of them and
leaves the other bytes of the array, for every place of the buffers and of the
table in the memory.  It leaves the words beside the buffers and the table. -/
theorem smix_refines_romix {bytes : Nat} (B : Vector UInt8 bytes) (p r k V XY : Nat) (N : UInt64)
    (mem : Vector UInt32 size) (hr : 0 < r) (hN : N.toNat = 2 ^ (k + 1))
    (hp : p + 128 * r ≤ bytes) (hXY : XY + (64 * r + 16) ≤ size)
    (hV : V + N.toNat * (32 * r) ≤ size)
    (hdisjoint : XY + (64 * r + 16) ≤ V ∨ V + N.toNat * (32 * r) ≤ XY) :
    ∃ B' mem', smix B p r N mem V XY = some (B', mem') ∧
      window B' p (128 * r) = Lib.Scrypt.leWordBytes
        (Lib.Scrypt.romix N.toNat (Lib.Scrypt.leWords (window B p (128 * r)))) ∧
      AgreeOn (Outside p (128 * r)) B B' ∧
      AgreeOn (fun j => Outside XY (64 * r + 16) j ∧ Outside V (N.toNat * (32 * r)) j)
        mem mem' := by
  have scratch : Scratch size V XY (XY + 32 * r) (XY + 64 * r) r N.toNat := by
    refine ⟨⟨hr, ?_, ?_, ?_, ?_, ?_, ?_⟩, hV, ?_, ?_, ?_⟩ <;> omega
  obtain ⟨mem', hsmix, hX, hframe⟩ := smix_spec B mem hN hp scratch
  have hlen : (window mem' XY (32 * r)).length = 32 * r := length_window scratch.places.bin
  rw [hX] at hlen
  have hbytes : (Lib.Scrypt.leWordBytes (Lib.Scrypt.romix N.toNat
      (Lib.Scrypt.leWords (window B p (128 * r))))).length = 128 * r := by
    rw [Lib.Scrypt.length_leWordBytes, hlen]
    omega
  have hbeside := agreeOn_overwrite B p (Lib.Scrypt.leWordBytes (Lib.Scrypt.romix N.toNat
    (Lib.Scrypt.leWords (window B p (128 * r)))))
  rw [hbytes] at hbeside
  refine ⟨_, mem', hsmix, window_overwrite_eq hbytes hp, hbeside, ?_⟩
  intro j hj
  apply hframe
  simp only [Beside, Outside] at hj ⊢
  omega

/-- Two blocks of two rounds, between other bytes. -/
theorem smix_refines_romix_two :
    ∃ B' mem', smix (Vector.replicate 270 (3 : UInt8)) 7 2 2
        (Vector.replicate 272 (0 : UInt32)) 144 0 = some (B', mem') ∧
      window B' 7 256 = Lib.Scrypt.leWordBytes
        (Lib.Scrypt.romix 2 (Lib.Scrypt.leWords (window (Vector.replicate 270 3) 7 256))) ∧
      AgreeOn (Outside 7 256) (Vector.replicate 270 3) B' ∧
      AgreeOn (fun j => Outside 0 144 j ∧ Outside 144 128 j) (Vector.replicate 272 0) mem' :=
  smix_refines_romix (Vector.replicate 270 3) 7 2 0 144 0 2 (Vector.replicate 272 0) (by decide) rfl
    (by decide) (by decide) (by decide) (by decide)

end OracleMachine.Services.Scrypt
