import Mathlib.Data.Int.Bitwise
import OracleMachine.Lib.Keccak
import OracleMachine.Lib.Loop
import OracleMachine.Logs.Identity

/-!
# The hash function of the identities

`k12` of the source computes with Python's integers, which have no width: the
complement in the permutation is negative, and `to_bytes` fails on a lane that
does not fit.  This module has that computation (`Unbounded.k12`), and compares
three levels:

* the integers stay the values of 64-bit words, and the result is that of the
  model on words (`Unbounded.k12_eq`);
* a round on words is the round of the permutation on bits
  (`laneBits_keccakP1600`), with `_K12_ROT` for the offsets of the walk and
  `_K12_RC` for the last twelve round constants;
* the padded bytes are the padded bit string (`bits_padded`), so that for
  messages of one chunk the result is KangarooTwelve
  (`k12_is_kangarooTwelve`).
-/

namespace OracleMachine.Logs.KangarooTwelve

open Lib Lib.Bytes Lib.Bits Lib.Loop Identity

/-! ## The table of lanes -/

@[simp] theorem get_ofFn (f : Fin 5 → Fin 5 → UInt64) (x y : Fin 5) :
    (Lanes.ofFn f).get x y = f x y := by
  have hx : (5 * x.val + y.val) / 5 = x.val := by omega
  have hy : (5 * x.val + y.val) % 5 = y.val := by omega
  have hget : (Lanes.ofFn f).get x y =
      f ⟨(5 * x.val + y.val) / 5, by omega⟩ ⟨(5 * x.val + y.val) % 5, by omega⟩ :=
    Vector.getElem_ofFn (by omega)
  simp only [hget, hx, hy]

theorem get_set (lanes : Lanes) (x y : Fin 5) (lane : UInt64) (x' y' : Fin 5) :
    (lanes.set x y lane).get x' y' = if (x', y') = (x, y) then lane else lanes.get x' y' := by
  have hiff : 5 * x.val + y.val = 5 * x'.val + y'.val ↔ (x', y') = (x, y) := by
    rw [Prod.mk.injEq, Fin.ext_iff, Fin.ext_iff]
    omega
  have hget : (lanes.set x y lane).get x' y' =
      if 5 * x.val + y.val = 5 * x'.val + y'.val then lane else lanes.get x' y' :=
    Vector.getElem_set (by omega) (by omega)
  simp only [hget, hiff]

@[simp] theorem get_zero (x y : Fin 5) : Lanes.zero.get x y = 0 := get_ofFn _ x y

/-- The lane at a pair of indices. -/
def laneAt (lanes : Lanes) (p : Fin 5 × Fin 5) : UInt64 := lanes.get p.1 p.2

/-- Set the lane at a pair of indices. -/
def setLane (lanes : Lanes) (p : Fin 5 × Fin 5) (lane : UInt64) : Lanes := lanes.set p.1 p.2 lane

theorem laneAt_setLane (lanes : Lanes) (p : Fin 5 × Fin 5) (lane : UInt64)
    (p' : Fin 5 × Fin 5) :
    laneAt (setLane lanes p lane) p' = if p' = p then lane else laneAt lanes p' :=
  get_set lanes p.1 p.2 lane p'.1 p'.2

/-! ## The permutation on words and on bits -/

/-- The bits of the lanes. -/
def laneBits (lanes : Lanes) : Keccak.State := fun x y z =>
  (lanes.get x y).toBitVec.getLsbD z.val

/-- Rotating a word moves its bits up. -/
theorem getLsbD_rol (w : UInt64) (n : Nat) (z : Fin 64) :
    (Identity.rol w n).toBitVec.getLsbD z.val =
      w.toBitVec.getLsbD (z - Fin.ofNat 64 n).val := by
  have hz := z.isLt
  have hn : n % 64 < 64 := Nat.mod_lt n (by decide)
  have hbit (i : Nat) : w.toNat.testBit i = w.toBitVec.getLsbD i := rfl
  have hsub : (z - Fin.ofNat 64 n).val = (64 - n % 64 + z.val) % 64 := by rw [Fin.sub_def]; rfl
  rw [Identity.rol, UInt64.toBitVec_ofNat', BitVec.getLsbD_ofNat, decide_eq_true hz,
    Bool.true_and, Nat.testBit_or, Nat.testBit_shiftLeft, Nat.testBit_shiftRight, hbit, hbit, hsub]
  by_cases hlow : z.val < n % 64
  · have hwrap : (64 - n % 64 + z.val) % 64 = 64 - n % 64 + z.val := Nat.mod_eq_of_lt (by omega)
    rw [decide_eq_false (by omega), Bool.false_and, Bool.false_or, hwrap]
  · have hover : w.toBitVec.getLsbD (64 - n % 64 + z.val) = false :=
      BitVec.getLsbD_of_ge _ _ (by omega)
    have hwrap : (64 - n % 64 + z.val) % 64 = z.val - n % 64 := by omega
    rw [decide_eq_true (by omega), Bool.true_and, hover, Bool.or_false, hwrap]

/-- The first loops of a round. -/
def thetaLanes (lanes : Lanes) : Lanes :=
  let c (x : Fin 5) :=
    lanes.get x 0 ^^^ lanes.get x 1 ^^^ lanes.get x 2 ^^^ lanes.get x 3 ^^^ lanes.get x 4
  Lanes.ofFn fun x y => lanes.get x y ^^^ (c (x - 1) ^^^ Identity.rol (c (x + 1)) 1)

/-- `_K12_ROT[x][y]`. -/
def rot (x y : Fin 5) : Nat := (k12Rot.getD x []).getD y 0

/-- The loop that fills `b`. -/
def rhoPiLanes (lanes : Lanes) : Lanes :=
  indices.foldl (fun b p =>
    setLane b (p.2, 2 * p.1 + 3 * p.2) (Identity.rol (lanes.get p.1 p.2) (rot p.1 p.2))) Lanes.zero

/-- The loop that reads `b`. -/
def chiLanes (b : Lanes) : Lanes :=
  Lanes.ofFn fun x y => b.get x y ^^^ (~~~ b.get (x + 1) y &&& b.get (x + 2) y)

theorem round_eq (lanes : Lanes) (rc : UInt64) :
    Identity.round lanes rc =
      (chiLanes (rhoPiLanes (thetaLanes lanes))).set 0 0
        ((chiLanes (rhoPiLanes (thetaLanes lanes))).get 0 0 ^^^ rc) := rfl

theorem laneBits_theta (lanes : Lanes) :
    laneBits (thetaLanes lanes) = Keccak.theta (laneBits lanes) := by
  funext x y z
  simp only [laneBits, thetaLanes, get_ofFn, UInt64.toBitVec_xor, BitVec.getLsbD_xor, getLsbD_rol,
    Keccak.theta]
  rfl

theorem mem_indices (x y : Fin 5) : (x, y) ∈ indices := by
  rw [indices, List.mem_flatMap]
  exact ⟨x, List.mem_finRange x, List.mem_map_of_mem (List.mem_finRange y)⟩

/-- The place to which the loop that fills `b` moves the lane `(x + 3 * y, x)`. -/
theorem place_of_source : ∀ x y : Fin 5, 2 * (x + 3 * y) + 3 * x = y := by decide

theorem nodup_places : (indices.map fun p => (p.2, 2 * p.1 + 3 * p.2)).Nodup := by decide

/-- What the loop that fills `b` leaves at a place. -/
theorem get_rhoPi (lanes : Lanes) (x y : Fin 5) :
    (rhoPiLanes lanes).get x y = Identity.rol (lanes.get (x + 3 * y) x) (rot (x + 3 * y) x) := by
  have hloop := get_foldl_set laneAt_setLane
    (fun p : Fin 5 × Fin 5 => (p.2, 2 * p.1 + 3 * p.2))
    (fun p _ => Identity.rol (lanes.get p.1 p.2) (rot p.1 p.2))
    nodup_places Lanes.zero
    (mem_indices (x + 3 * y) x)
  simp only [place_of_source] at hloop
  exact hloop

/-- The table of rotations has the offsets of the walk, modulo the width. -/
theorem rot_eq_offset :
    ∀ x y : Fin 5, Fin.ofNat 64 (rot x y) = Fin.ofNat 64 (Keccak.offset x y) := by
  decide +kernel

theorem laneBits_rhoPi (lanes : Lanes) :
    laneBits (rhoPiLanes lanes) = Keccak.pi (Keccak.rho (laneBits lanes)) := by
  funext x y z
  rw [laneBits, get_rhoPi, getLsbD_rol, rot_eq_offset]
  rfl

theorem laneBits_chi (b : Lanes) : laneBits (chiLanes b) = Keccak.chi (laneBits b) := by
  funext x y z
  simp only [laneBits, chiLanes, get_ofFn, UInt64.toBitVec_xor, UInt64.toBitVec_and,
    UInt64.toBitVec_not, BitVec.getLsbD_xor, BitVec.getLsbD_and, BitVec.getLsbD_not, z.isLt,
    decide_true, Bool.true_and, Keccak.chi, Bool.xor_true]

/-- The table of constants has the last twelve of the shift register. -/
theorem k12Rc_eq_roundConstant : ∀ (i : Fin 12) (z : Fin 64),
    (k12Rc.getD i 0).toBitVec.getLsbD z.val = Keccak.roundConstant (12 + i.val) z := by
  decide +kernel

theorem laneBits_round (lanes : Lanes) (i : Fin 12) :
    laneBits (Identity.round lanes (k12Rc.getD i 0)) =
      Keccak.round (12 + i.val) (laneBits lanes) := by
  rw [round_eq, Keccak.round, ← laneBits_theta, ← laneBits_rhoPi, ← laneBits_chi]
  generalize chiLanes (rhoPiLanes (thetaLanes lanes)) = lanes
  funext x y z
  rw [laneBits, get_set, Keccak.iota]
  by_cases horigin : x = 0 ∧ y = 0
  · rw [if_pos (Prod.ext horigin.1 horigin.2), if_pos horigin, UInt64.toBitVec_xor,
      BitVec.getLsbD_xor, k12Rc_eq_roundConstant, laneBits, horigin.1, horigin.2]
  · rw [if_neg (fun h => horigin (Prod.mk.inj h)), if_neg horigin, laneBits]

theorem laneBits_keccakP1600 (lanes : Lanes) :
    laneBits (Identity.keccakP1600 lanes) = Keccak.keccakP 12 (laneBits lanes) := by
  have hconstants : k12Rc = (List.finRange 12).map fun i : Fin 12 => k12Rc.getD i.val 0 := by
    decide
  have hrange : List.range 12 = (List.finRange 12).map Fin.val := by decide
  have hstep (lanes : Lanes) (i : Fin 12) : Keccak.round (24 - 12 + i.val) (laneBits lanes) =
      laneBits (Identity.round lanes (k12Rc.getD i 0)) := by
    rw [laneBits_round]
  rw [Identity.keccakP1600, hconstants, List.foldl_map, Keccak.keccakP, hrange, List.foldl_map,
    List.foldl_hom laneBits hstep]

/-! ## Absorbing and reading lanes -/

/-- The word that a block adds to the lane with the number `i`. -/
def blockWord (block : List UInt8) (i : Nat) : UInt64 :=
  UInt64.ofNat (leVal (slice block (8 * i) 8))

/-- The loop that adds a block to the lanes. -/
def xorLanes (lanes : Lanes) (block : List UInt8) : Lanes :=
  (List.finRange 21).foldl (fun lanes i =>
    setLane lanes (laneIndex i) (laneAt lanes (laneIndex i) ^^^ blockWord block i)) lanes

theorem absorb_eq (lanes : Lanes) (block : List UInt8) :
    Identity.absorb lanes block = Identity.keccakP1600 (xorLanes lanes block) := rfl

theorem get_xorLanes (lanes : Lanes) (block : List UInt8) (x y : Fin 5) :
    (xorLanes lanes block).get x y =
      if 5 * y.val + x.val < 21 then lanes.get x y ^^^ blockWord block (5 * y.val + x.val)
      else lanes.get x y := by
  by_cases hlane : 5 * y.val + x.val < 21
  · have hindex : laneIndex ⟨5 * y.val + x.val, hlane⟩ = (x, y) := by
      apply Prod.ext
      · exact Fin.ext (show (5 * y.val + x.val) % 5 = x.val by omega)
      · exact Fin.ext (show (5 * y.val + x.val) / 5 = y.val by omega)
    have hloop := get_foldl_set laneAt_setLane laneIndex
      (fun i lane => lane ^^^ blockWord block i.val)
      (show ((List.finRange 21).map laneIndex).Nodup by decide) lanes
      (List.mem_finRange ⟨5 * y.val + x.val, hlane⟩)
    rw [hindex] at hloop
    rw [if_pos hlane]
    exact hloop
  · have hplace : (x, y) ∉ (List.finRange 21).map laneIndex := by
      intro hmem
      obtain ⟨i, -, hi⟩ := List.mem_map.mp hmem
      have hx : i.val % 5 = x.val := congrArg Fin.val (congrArg Prod.fst hi)
      have hy : i.val / 5 = y.val := congrArg Fin.val (congrArg Prod.snd hi)
      have hlt := i.isLt
      omega
    have hloop := get_foldl_set_of_notMem laneAt_setLane laneIndex
      (fun i lane => lane ^^^ blockWord block i.val) (List.finRange 21) lanes hplace
    rw [if_neg hlane]
    exact hloop

theorem getLsbD_blockWord (block : List UInt8) (i : Nat) (z : Fin 64) :
    (blockWord block i).toBitVec.getLsbD z.val = (bits block).getD (64 * i + z.val) false := by
  have hoff : 8 * (8 * i) = 64 * i := by omega
  rw [blockWord, UInt64.toBitVec_ofNat', BitVec.getLsbD_ofNat, decide_eq_true z.isLt,
    Bool.true_and, testBit_leVal, bits_slice, getD_slice _ _ z.isLt, hoff]

theorem laneBits_xorLanes (lanes : Lanes) {block : List UInt8} (hlen : block.length ≤ 168) :
    laneBits (xorLanes lanes block) = Keccak.xorBlock (laneBits lanes) (bits block) := by
  funext x y z
  rw [laneBits, get_xorLanes, Keccak.xorBlock, laneBits]
  by_cases hlane : 5 * y.val + x.val < 21
  · rw [if_pos hlane, UInt64.toBitVec_xor, BitVec.getLsbD_xor, getLsbD_blockWord]
  · rw [if_neg hlane, List.getD_eq_default _ _ (by rw [length_bits]; omega), Bool.xor_false]

/-- The lanes after all blocks. -/
def absorbed (message : List UInt8) : Lanes :=
  (List.range (message.length / rate)).foldl
    (fun lanes k => Identity.absorb lanes (slice message (k * rate) rate)) Lanes.zero

theorem laneBits_absorbed (message : List UInt8) :
    laneBits (absorbed message) = Keccak.absorb (Keccak.keccakP 12) 1344 (bits message) := by
  have hcount : (bits message).length / 1344 = message.length / rate := by
    rw [length_bits, show rate = 168 by rfl]
    omega
  have hzero : laneBits Lanes.zero = fun _ _ _ => false := by
    funext x y z
    rw [laneBits, get_zero]
    exact BitVec.getLsbD_zero
  have hstep (lanes : Lanes) (k : Nat) :
      Keccak.keccakP 12 (Keccak.xorBlock (laneBits lanes) (slice (bits message) (k * 1344) 1344)) =
        laneBits (Identity.absorb lanes (slice message (k * rate) rate)) := by
    have hblock : bits (slice message (k * rate) rate) = slice (bits message) (k * 1344) 1344 := by
      rw [bits_slice, show rate = 168 by rfl]
      exact congrArg (fun off => slice (bits message) off 1344) (by omega)
    have hlen : (slice message (k * rate) rate).length ≤ 168 := List.length_take_le _ _
    rw [absorb_eq, laneBits_keccakP1600, laneBits_xorLanes lanes hlen, hblock]
  rw [absorbed, Keccak.absorb, hcount, ← hzero]
  exact (List.foldl_hom laneBits hstep).symm

/-- The bytes of the lanes in the rate. -/
def laneBytes (lanes : Lanes) : List UInt8 :=
  (List.finRange 21).flatMap fun i =>
    leBytes 8 (lanes.get (laneIndex i).1 (laneIndex i).2).toNat

theorem length_laneBytes (lanes : Lanes) : (laneBytes lanes).length = 168 := by
  simp [laneBytes, List.length_flatMap]

theorem bits_laneBytes (lanes : Lanes) :
    bits (laneBytes lanes) = (Keccak.toBits (laneBits lanes)).take 1344 := by
  apply List.ext_getElem?
  intro i
  by_cases hi : i < 1344
  · have hlane : i / 64 < 21 := by omega
    have hpart (k : Fin 21) : ((List.range 64).map
        (lanes.get (laneIndex k).1 (laneIndex k).2).toNat.testBit).length = 64 := by
      rw [List.length_map, List.length_range]
    have hwords : bits (laneBytes lanes) = (List.finRange 21).flatMap fun k =>
        (List.range 64).map (lanes.get (laneIndex k).1 (laneIndex k).2).toNat.testBit := by
      rw [bits, laneBytes, List.flatMap_assoc]
      exact congrArg (fun f => List.flatMap f (List.finRange 21)) (funext fun k => bits_leBytes 8 _)
    have hx : (laneIndex ⟨i / 64, hlane⟩).1 = ⟨i / 64 % 5, by omega⟩ := rfl
    have hy : (laneIndex ⟨i / 64, hlane⟩).2 = ⟨i / 320, by omega⟩ :=
      Fin.ext (show i / 64 / 5 = i / 320 by omega)
    have hbits := getElem?_flatMap hpart (List.finRange 21) (i / 64) (Nat.mod_lt i (by decide))
    have hindex : (List.finRange 21)[i / 64]? = some ⟨i / 64, hlane⟩ := by
      rw [List.getElem?_eq_getElem (by rw [List.length_finRange]; exact hlane),
        List.getElem_finRange]
      rfl
    rw [Nat.div_add_mod, ← hwords, hindex] at hbits
    rw [hbits, Option.bind_some, List.getElem?_map, List.getElem?_range (Nat.mod_lt i (by decide)),
      hx, hy, List.getElem?_take_of_lt hi, Keccak.toBits, List.getElem?_ofFn,
      dif_pos (show i < 1600 by omega)]
    rfl
  · rw [List.getElem?_eq_none (by rw [length_bits, length_laneBytes]; omega),
      List.getElem?_eq_none (by rw [List.length_take]; omega)]

/-! ## Padding -/

/-- `padded[-1] |= 0x80`. -/
def closeLast (s : List UInt8) : List UInt8 :=
  s.set (s.length - 1) (s.getD (s.length - 1) 0 ||| 0x80)

theorem closeLast_concat (s : List UInt8) (b : UInt8) :
    closeLast (s ++ [b]) = s ++ [b ||| 0x80] := by
  have hlast : (s ++ [b]).length - 1 = s.length := by
    rw [List.length_append, List.length_singleton]
    omega
  rw [closeLast, hlast, List.set_append_right _ _ (Nat.le_refl _),
    List.getD_append_right _ _ _ _ (Nat.le_refl _), Nat.sub_self]
  rfl

/-- The number of zero bytes. -/
def fill (data : List UInt8) : Nat := (rate - (data ++ [0x00, 0x07]).length % rate) % rate

theorem padded_eq (data : List UInt8) :
    padded data = closeLast (data ++ [0x00, 0x07] ++ List.replicate (fill data) 0) := rfl

/-- The padded bytes are the padded string.  Without zero bytes the suffix is
the last byte of its block and takes the closing bit. -/
theorem bits_padded (data : List UInt8) :
    bits (padded data) = bits (data ++ [0x00]) ++ [true, true] ++
      Keccak.pad 1344 (bits (data ++ [0x00]) ++ [true, true]).length := by
  have hzeros : (1344 - ((bits (data ++ [0x00]) ++ [true, true]).length + 2) % 1344) % 1344 =
      8 * fill data + 4 := by
    simp only [fill, rate, length_bits, List.length_append, List.length_cons, List.length_nil]
    omega
  rw [padded_eq, Keccak.pad, hzeros, List.append_assoc, List.append_assoc]
  cases fill data with
  | zero =>
    have hsplit : data ++ ([0x00, 0x07] ++ List.replicate 0 0) = data ++ [0x00] ++ [0x07] := by
      rw [List.append_assoc]; rfl
    rw [hsplit, closeLast_concat, bits_append]
    exact congrArg (bits (data ++ [0x00]) ++ ·) (by decide)
  | succ q =>
    have hsplit : data ++ ([0x00, 0x07] ++ List.replicate (q + 1) 0) =
        data ++ [0x00] ++ [0x07] ++ List.replicate q 0 ++ [0x00] := by
      rw [List.replicate_succ']; simp
    have hsuffix : bits [0x07] = [true, true, true] ++ List.replicate 5 false := by decide
    have hlast : bits [0x00 ||| 0x80] = List.replicate 7 false ++ [true] := by decide
    have hcount : 8 * (q + 1) + 4 = 5 + 8 * q + 7 := by omega
    rw [hsplit, closeLast_concat, bits_append, bits_append, bits_append, bits_replicate_zero,
      hsuffix, hlast, hcount, List.replicate_add, List.replicate_add]
    simp only [List.append_assoc, List.cons_append, List.nil_append]

/-! ## The hash on words -/

theorem k12_eq (data : List UInt8) (outLen : Nat) :
    Identity.k12 data outLen =
      (List.replicate ((outLen + rate - 1) / rate)
        (laneBytes (absorbed (padded data)))).flatten.take outLen := rfl

/-- Up to 168 bytes of output are read from the lanes. -/
theorem k12_of_le (data : List UInt8) {outLen : Nat} (h : outLen ≤ 168) :
    Identity.k12 data outLen = (laneBytes (absorbed (padded data))).take outLen := by
  rw [k12_eq]
  by_cases hzero : outLen = 0
  · rw [hzero, List.take_zero, List.take_zero]
  · have hone : (outLen + rate - 1) / rate = 1 := by
      rw [show rate = 168 by rfl]
      omega
    rw [hone, List.replicate_one, List.flatten_singleton]

theorem k12_words {data : List UInt8} (hdata : data.length < 8192) {outLen : Nat}
    (h : outLen ≤ 168) : Identity.k12 data outLen = Keccak.kangarooTwelve data [] outLen := by
  have hbits : (Keccak.toBits (Keccak.absorb (Keccak.keccakP 12) 1344 (bits (padded data)))).take
      (8 * outLen) = bits (Identity.k12 data outLen) := by
    rw [k12_of_le data h, bits_take, bits_laneBytes, List.take_take, Nat.min_eq_left (by omega),
      laneBits_absorbed]
  have hlen : (Identity.k12 data outLen).length = outLen := by
    rw [k12_of_le data h, List.length_take, length_laneBytes, Nat.min_eq_left h]
  rw [Keccak.kangarooTwelve_of_short hdata, Keccak.node, Keccak.sponge_of_le (by omega),
    ← bits_padded, hbits]
  nth_rewrite 2 [← hlen]
  exact (bytes_bits _).symm

/-! ## The hash on Python's integers -/

namespace Unbounded

/-- A list of five lists of five integers. -/
structure Table where
  entries : Vector (Vector Int 5) 5

namespace Table

/-- `lanes[x][y]`. -/
def get (t : Table) (p : Fin 5 × Fin 5) : Int := (t.entries.get p.1).get p.2

/-- `lanes[x][y] = lane`. -/
def set (t : Table) (p : Fin 5 × Fin 5) (lane : Int) : Table where
  entries := t.entries.set p.1.val ((t.entries.get p.1).set p.2.val lane p.2.isLt) p.1.isLt

/-- `[[0] * 5 for _ in range(5)]`. -/
def zero : Table where
  entries := Vector.replicate 5 (Vector.replicate 5 0)

theorem get_set (t : Table) (p : Fin 5 × Fin 5) (lane : Int) (p' : Fin 5 × Fin 5) :
    (t.set p lane).get p' = if p' = p then lane else t.get p' := by
  have hrow : (t.set p lane).entries.get p'.1 =
      if p.1.val = p'.1.val then (t.entries.get p.1).set p.2.val lane p.2.isLt
      else t.entries.get p'.1 := Vector.getElem_set p.1.isLt p'.1.isLt
  rw [get, hrow]
  by_cases hx : p.1.val = p'.1.val
  · have hentry : ((t.entries.get p.1).set p.2.val lane p.2.isLt).get p'.2 =
        if p.2.val = p'.2.val then lane else (t.entries.get p.1).get p'.2 :=
      Vector.getElem_set p.2.isLt p'.2.isLt
    have hiff : p' = p ↔ p.2.val = p'.2.val := by
      rw [Prod.ext_iff, Fin.ext_iff, Fin.ext_iff]
      omega
    rw [if_pos hx, hentry, get, ← Fin.ext hx]
    simp only [hiff]
  · have hne : p' ≠ p := fun heq => hx (by rw [heq])
    rw [if_neg hx, if_neg hne, get]

end Table

/-- `_MASK64`. -/
def mask64 : Int := 2 ^ 64 - 1

/-- `_rol`. -/
def rol (x : Int) (n : Nat) : Int :=
  let n := n % 64
  Int.land (Int.lor (x <<< n) (x >>> (64 - n))) mask64

/-- One round of `_keccak_p1600_12`. -/
def round (lanes : Table) (rc : Int) : Table :=
  let c (x : Fin 5) := Int.xor (Int.xor (Int.xor (Int.xor (lanes.get (x, 0)) (lanes.get (x, 1)))
    (lanes.get (x, 2))) (lanes.get (x, 3))) (lanes.get (x, 4))
  let d (x : Fin 5) := Int.xor (c (x - 1)) (rol (c (x + 1)) 1)
  let lanes := indices.foldl (fun lanes p => lanes.set p (Int.xor (lanes.get p) (d p.1))) lanes
  let b := indices.foldl (fun b p =>
    b.set (p.2, 2 * p.1 + 3 * p.2) (rol (lanes.get p) (rot p.1 p.2))) Table.zero
  let lanes := indices.foldl (fun lanes p => lanes.set p
    (Int.xor (b.get p) (Int.land (Int.lnot (b.get (p.1 + 1, p.2))) (b.get (p.1 + 2, p.2))))) lanes
  lanes.set (0, 0) (Int.xor (lanes.get (0, 0)) rc)

/-- `_keccak_p1600_12`. -/
def keccakP1600 (lanes : Table) : Table :=
  k12Rc.foldl (fun lanes rc => round lanes rc.toNat) lanes

/-- Add one block to the lanes and permute them. -/
def absorb (lanes : Table) (block : List UInt8) : Table :=
  keccakP1600 ((List.finRange 21).foldl (fun lanes i =>
    lanes.set (laneIndex i)
      (Int.xor (lanes.get (laneIndex i)) (leVal (slice block (8 * i.val) 8)))) lanes)

/-- `lane.to_bytes(8, "little")`, which raises when the integer does not fit. -/
def toBytes (lane : Int) : Option (List UInt8) :=
  if 0 ≤ lane ∧ lane < 2 ^ 64 then some (leBytes 8 lane.toNat) else none

/-- The inner loop of the output. -/
def emit (lanes : Table) (out : List UInt8) : Option (List UInt8) :=
  (List.finRange 21).foldlM (fun out i => (toBytes (lanes.get (laneIndex i))).map (out ++ ·)) out

/-- The test and the body of the output loop. -/
def outputStep (lanes : Table) (outLen : Nat) (out : List UInt8) : Option (Turn (List UInt8)) :=
  if out.length < outLen then (emit lanes out).map .again else some (.leave out)

/-- `k12`.  Each pass of the output loop adds bytes, so that `outLen` passes
are enough. -/
def k12 (data : List UInt8) (outLen : Nat) : Option (List UInt8) :=
  let message := padded data
  let lanes := (List.range (message.length / rate)).foldl
    (fun lanes k => absorb lanes (slice message (k * rate) rate)) Table.zero
  (run (outputStep lanes outLen) (outLen + 1) []).map fun out => out.take outLen

/-! ### The integers stay words -/

/-- The table holds the values of the lanes. -/
def Holds (t : Table) (lanes : Lanes) : Prop :=
  ∀ p, t.get p = ((laneAt lanes p).toNat : Int)

theorem xor_words (v w : UInt64) : Int.xor v.toNat w.toNat = ((v ^^^ w).toNat : Int) := by
  rw [UInt64.toNat_xor]
  rfl

theorem andNot_words (v w : UInt64) :
    Int.land (Int.lnot v.toNat) w.toNat = ((~~~v &&& w).toNat : Int) := by
  have hbits : Nat.ldiff w.toNat v.toNat = (~~~v &&& w).toNat := by
    apply Nat.eq_of_testBit_eq
    intro i
    have hbit (u : UInt64) : u.toNat.testBit i = u.toBitVec.getLsbD i := rfl
    rw [Nat.testBit_ldiff, hbit, hbit, hbit, UInt64.toBitVec_and, UInt64.toBitVec_not,
      BitVec.getLsbD_and, BitVec.getLsbD_not]
    by_cases hi : i < 64
    · rw [decide_eq_true hi, Bool.true_and, Bool.and_comm]
    · rw [BitVec.getLsbD_of_ge w.toBitVec i (by omega), Bool.false_and, Bool.and_false]
  exact congrArg Nat.cast hbits

theorem rol_word (w : UInt64) (n : Nat) :
    rol w.toNat n = ((Identity.rol w n).toNat : Int) := by
  have hmask : (w.toNat <<< (n % 64) ||| w.toNat >>> (64 - n % 64)) &&& (2 ^ 64 - 1) =
      (Identity.rol w n).toNat := by
    rw [Nat.and_two_pow_sub_one_eq_mod, Identity.rol, UInt64.toNat_ofNat']
  exact congrArg Nat.cast hmask

theorem holds_zero : Holds Table.zero Lanes.zero := by
  have hzero : ∀ x y : Fin 5, Table.zero.get (x, y) = ((Lanes.zero.get x y).toNat : Int) := by
    decide
  exact fun p => hzero p.1 p.2

/-- A loop over all places that stores what the lanes have. -/
theorem holds_of_indices {t : Table} {lanes : Lanes} (value : Fin 5 × Fin 5 → Int → Int)
    (hvalue : ∀ p, value p (t.get p) = ((laneAt lanes p).toNat : Int)) :
    Holds (indices.foldl (fun t p => t.set p (value p (t.get p))) t) lanes := by
  intro p
  have hloop := get_foldl_set Table.get_set id value
    (show (indices.map id).Nodup by decide) t (mem_indices p.1 p.2)
  exact hloop.trans (hvalue p)

/-- The parity of a column, `c[x]`. -/
def column (t : Table) (x : Fin 5) : Int :=
  Int.xor (Int.xor (Int.xor (Int.xor (t.get (x, 0)) (t.get (x, 1))) (t.get (x, 2)))
    (t.get (x, 3))) (t.get (x, 4))

/-- The first loop of a round. -/
def thetaTable (t : Table) : Table :=
  indices.foldl (fun s p => s.set p (Int.xor (s.get p)
    (Int.xor (column t (p.1 - 1)) (rol (column t (p.1 + 1)) 1)))) t

/-- The loop that fills `b`. -/
def rhoPiTable (t : Table) : Table :=
  indices.foldl (fun b p => b.set (p.2, 2 * p.1 + 3 * p.2) (rol (t.get p) (rot p.1 p.2))) Table.zero

/-- The loop that reads `b` and overwrites the lanes. -/
def chiTable (b t : Table) : Table :=
  indices.foldl (fun t p => t.set p
    (Int.xor (b.get p) (Int.land (Int.lnot (b.get (p.1 + 1, p.2))) (b.get (p.1 + 2, p.2))))) t

theorem round_eq (t : Table) (rc : Int) :
    round t rc =
      (chiTable (rhoPiTable (thetaTable t)) (thetaTable t)).set (0, 0)
        (Int.xor ((chiTable (rhoPiTable (thetaTable t)) (thetaTable t)).get (0, 0)) rc) := rfl

theorem holds_theta {t : Table} {lanes : Lanes} (h : Holds t lanes) :
    Holds (thetaTable t) (thetaLanes lanes) := by
  have hcolumn (x : Fin 5) : column t x = ((lanes.get x 0 ^^^ lanes.get x 1 ^^^ lanes.get x 2 ^^^
      lanes.get x 3 ^^^ lanes.get x 4).toNat : Int) := by
    simp only [column, h _, xor_words, laneAt]
  refine holds_of_indices (fun p lane =>
    Int.xor lane (Int.xor (column t (p.1 - 1)) (rol (column t (p.1 + 1)) 1))) fun p => ?_
  rw [h p, hcolumn, hcolumn, rol_word, xor_words, xor_words, laneAt, laneAt, thetaLanes, get_ofFn]

theorem holds_rhoPi {t : Table} {lanes : Lanes} (h : Holds t lanes) :
    Holds (rhoPiTable t) (rhoPiLanes lanes) := by
  rintro ⟨x, y⟩
  have hloop := get_foldl_set Table.get_set
    (fun p : Fin 5 × Fin 5 => (p.2, 2 * p.1 + 3 * p.2))
    (fun p _ => rol (t.get p) (rot p.1 p.2))
    nodup_places Table.zero
    (mem_indices (x + 3 * y) x)
  simp only [place_of_source] at hloop
  rw [rhoPiTable, hloop, h, rol_word, laneAt, laneAt, get_rhoPi]

theorem holds_chi {b : Table} {lanes : Lanes} (h : Holds b lanes) (t : Table) :
    Holds (chiTable b t) (chiLanes lanes) := by
  refine holds_of_indices (fun p _ =>
    Int.xor (b.get p) (Int.land (Int.lnot (b.get (p.1 + 1, p.2))) (b.get (p.1 + 2, p.2))))
    fun p => ?_
  rw [h p, h, h, andNot_words, xor_words, laneAt, laneAt, laneAt, laneAt, chiLanes, get_ofFn]

theorem holds_set {t : Table} {lanes : Lanes} (h : Holds t lanes) (p : Fin 5 × Fin 5)
    (lane : UInt64) : Holds (t.set p lane.toNat) (setLane lanes p lane) := by
  intro p'
  rw [Table.get_set, laneAt_setLane, h p']
  by_cases hp : p' = p
  · rw [if_pos hp, if_pos hp]
  · rw [if_neg hp, if_neg hp]

theorem holds_round {t : Table} {lanes : Lanes} (h : Holds t lanes) (rc : UInt64) :
    Holds (round t rc.toNat) (Identity.round lanes rc) := by
  have hchi := holds_chi (holds_rhoPi (holds_theta h)) (thetaTable t)
  rw [round_eq, hchi (0, 0), xor_words]
  exact holds_set hchi (0, 0) _

theorem holds_absorb {t : Table} {lanes : Lanes} (h : Holds t lanes) {block : List UInt8} :
    Holds (absorb t block) (Identity.absorb lanes block) := by
  have hword (i : Nat) : leVal (slice block (8 * i) 8) = (blockWord block i).toNat := by
    have hlt := leVal_lt (slice block (8 * i) 8)
    have hlen : (slice block (8 * i) 8).length ≤ 8 := List.length_take_le _ _
    have hpow : 256 ^ (slice block (8 * i) 8).length ≤ 256 ^ 8 :=
      Nat.pow_le_pow_right (by decide) hlen
    rw [blockWord, UInt64.toNat_ofNat', Nat.mod_eq_of_lt (by omega)]
  rw [absorb_eq]
  refine List.foldl_rel (r := Holds) (List.foldl_rel (r := Holds) h ?_) ?_
  · intro i _ t lanes h
    rw [h, hword, xor_words]
    exact holds_set h _ _
  · intro rc _ t lanes h
    exact holds_round h rc

/-- All lanes fit, so `to_bytes` does not raise. -/
theorem emit_eq {t : Table} {lanes : Lanes} (h : Holds t lanes) (out : List UInt8) :
    emit t out = some (out ++ laneBytes lanes) := by
  have hbytes (i : Fin 21) : toBytes (t.get (laneIndex i)) =
      some (leBytes 8 (laneAt lanes (laneIndex i)).toNat) := by
    have hlt : (laneAt lanes (laneIndex i)).toNat < 2 ^ 64 := UInt64.toNat_lt _
    rw [h, toBytes, if_pos (by omega), Int.toNat_natCast]
  have hloop (l : List (Fin 21)) : ∀ out : List UInt8,
      l.foldlM (fun out i => (toBytes (t.get (laneIndex i))).map (out ++ ·)) out =
        some (out ++ l.flatMap fun i => leBytes 8 (laneAt lanes (laneIndex i)).toNat) := by
    induction l with
    | nil => intro out; rw [List.flatMap_nil, List.append_nil]; rfl
    | cons i l ih =>
      intro out
      rw [List.foldlM_cons, hbytes, List.flatMap_cons, ← List.append_assoc]
      exact ih _
  exact hloop (List.finRange 21) out

/-- The output loop makes as many passes as the output needs blocks. -/
theorem run_outputStep {t : Table} {lanes : Lanes} (h : Holds t lanes) (outLen : Nat) :
    ∀ (k fuel : Nat) (out : List UInt8), k < fuel → outLen ≤ out.length + 168 * k →
      out.length + 168 * k < outLen + 168 →
      run (outputStep t outLen) fuel out =
        some (out ++ (List.replicate k (laneBytes lanes)).flatten) := by
  intro k
  induction k with
  | zero =>
    intro fuel out hfuel hle _
    obtain ⟨fuel, rfl⟩ : ∃ f, fuel = f + 1 := ⟨fuel - 1, by omega⟩
    have hstep : outputStep t outLen out = some (.leave out) := if_neg (by omega)
    rw [run, hstep, List.replicate_zero, List.flatten_nil, List.append_nil]
  | succ k ih =>
    intro fuel out hfuel hle hlt
    obtain ⟨fuel, rfl⟩ : ∃ f, fuel = f + 1 := ⟨fuel - 1, by omega⟩
    have hstep : outputStep t outLen out = some (.again (out ++ laneBytes lanes)) := by
      rw [outputStep, if_pos (by omega), emit_eq h, Option.map_some]
    have hlen : (out ++ laneBytes lanes).length = out.length + 168 := by
      rw [List.length_append, length_laneBytes]
    rw [run, hstep, List.replicate_succ, List.flatten_cons, ← List.append_assoc]
    exact ih fuel _ (by omega) (by omega) (by omega)

/-- The computation on integers does not fail, and it is the one on words. -/
theorem k12_eq (data : List UInt8) (outLen : Nat) :
    k12 data outLen = some (Identity.k12 data outLen) := by
  have hlanes : Holds ((List.range ((padded data).length / rate)).foldl
      (fun lanes k => absorb lanes (slice (padded data) (k * rate) rate)) Table.zero)
      (absorbed (padded data)) :=
    List.foldl_rel (r := Holds) holds_zero fun k _ t lanes h => holds_absorb h
  rw [k12, run_outputStep hlanes outLen ((outLen + rate - 1) / rate), Option.map_some,
    List.nil_append, KangarooTwelve.k12_eq]
  all_goals
    simp only [List.length_nil, rate]
    omega

end Unbounded

/-- On messages of one chunk and outputs of one block, `k12` does not fail and
is KangarooTwelve with an empty customisation string: the sponge over the
message, a zero byte and the suffix.  The model on words computes the same. -/
theorem k12_is_kangarooTwelve (data : List UInt8) (hdata : data.length < 8192) (outLen : Nat)
    (hout : outLen ≤ 168) :
    Unbounded.k12 data outLen = some (Keccak.kangarooTwelve data [] outLen) ∧
    Identity.k12 data outLen = Keccak.kangarooTwelve data [] outLen ∧
    Keccak.kangarooTwelve data [] outLen =
      bytes outLen (Keccak.sponge (Keccak.keccakP 12) 1344
        (bits (data ++ [0x00]) ++ [true, true]) (8 * outLen)) := by
  refine ⟨?_, k12_words hdata hout, Keccak.kangarooTwelve_of_short hdata outLen⟩
  rw [Unbounded.k12_eq, k12_words hdata hout]

/-- The call that the identities make. -/
theorem k12_is_kangarooTwelve_digest :
    Unbounded.k12 (List.replicate 32 0) 3 =
      some (Keccak.kangarooTwelve (List.replicate 32 0) [] 3) :=
  (k12_is_kangarooTwelve (List.replicate 32 0) (by decide) 3 (by decide)).1

end OracleMachine.Logs.KangarooTwelve
