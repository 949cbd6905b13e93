import Mathlib.Data.List.Basic
import Mathlib.Data.Nat.Basic
import Mathlib.Tactic.Ring

/-!
# Little-endian integers in byte lists

`leBytes n v` is the `n`-byte little-endian encoding of `v`, with `v` taken
modulo `256 ^ n`, and `leVal` reads a byte list back.  A value that fits is read
back unchanged (`leVal_leBytes`), and bytes are written back unchanged
(`leBytes_leVal`).  `beVal` reads a list from its most
significant byte on, which is the little-endian value of the reversed list.

`slice` is the field of a packed record: `n` entries at an offset.  A field
behind a known number of bytes is found by `slice_append_right`, and a field in
front by `slice_append_left`.  `flatMap_slice` puts fields of one length together
again.
-/

namespace OracleMachine.Lib.Bytes

/-- The low `n` bytes of `v`, least significant first. -/
def leBytes : Nat → Nat → List UInt8
  | 0, _ => []
  | n + 1, v => UInt8.ofNat v :: leBytes n (v / 256)

/-- The value of a byte list, least significant byte first. -/
def leVal : List UInt8 → Nat
  | [] => 0
  | b :: bs => b.toNat + 256 * leVal bs

@[simp] theorem length_leBytes (n v : Nat) : (leBytes n v).length = n := by
  induction n generalizing v with
  | zero => rfl
  | succ n ih => rw [leBytes, List.length_cons, ih]

theorem leVal_lt (bs : List UInt8) : leVal bs < 256 ^ bs.length := by
  induction bs with
  | nil => decide
  | cons b bs ih =>
    have hb : b.toNat < 256 := UInt8.toNat_lt b
    rw [leVal, List.length_cons, Nat.pow_succ]
    omega

/-- Reading an encoding back gives the low bytes of the value. -/
theorem leVal_leBytes_mod (n v : Nat) : leVal (leBytes n v) = v % 256 ^ n := by
  induction n generalizing v with
  | zero => rw [leBytes, leVal, Nat.pow_zero, Nat.mod_one]
  | succ n ih =>
    have hb : (UInt8.ofNat v).toNat = v % 256 := UInt8.toNat_ofNat'
    rw [leBytes, leVal, ih, hb, Nat.pow_succ, Nat.mul_comm (256 ^ n) 256,
      Nat.mod_mul]

/-- A value that fits is read back unchanged. -/
theorem leVal_leBytes {n v : Nat} (h : v < 256 ^ n) :
    leVal (leBytes n v) = v := by
  rw [leVal_leBytes_mod, Nat.mod_eq_of_lt h]

/-- Writing a value that was read gives the bytes it was read from. -/
theorem leBytes_leVal (bs : List UInt8) : leBytes bs.length (leVal bs) = bs := by
  induction bs with
  | nil => rfl
  | cons b bs ih =>
    have hb : b.toNat < 256 := UInt8.toNat_lt b
    have hdiv : (b.toNat + 256 * leVal bs) / 256 = leVal bs := by omega
    have hbyte : UInt8.ofNat (b.toNat + 256 * leVal bs) = b := by
      apply UInt8.toNat_inj.mp
      rw [UInt8.toNat_ofNat']
      omega
    rw [List.length_cons, leVal, leBytes, hbyte, hdiv, ih]

/-- The bytes of a value are those of its low part. -/
theorem leBytes_mod (n v : Nat) : leBytes n (v % 256 ^ n) = leBytes n v := by
  have hbytes := leBytes_leVal (leBytes n v)
  rwa [length_leBytes, leVal_leBytes_mod] at hbytes

theorem leBytes_add (m n v : Nat) :
    leBytes (m + n) v = leBytes m v ++ leBytes n (v / 256 ^ m) := by
  induction m generalizing v with
  | zero => rw [Nat.zero_add, Nat.pow_zero, Nat.div_one, leBytes, List.nil_append]
  | succ m ih =>
    rw [Nat.succ_add, leBytes, ih, leBytes, Nat.div_div_eq_div_mul, Nat.pow_succ,
      Nat.mul_comm (256 ^ m), List.cons_append]

/-! ## Most significant byte first -/

/-- The low `n` bytes of `v`, most significant first. -/
def beBytes (n v : Nat) : List UInt8 := (leBytes n v).reverse

@[simp] theorem length_beBytes (n v : Nat) : (beBytes n v).length = n := by
  rw [beBytes, List.length_reverse, length_leBytes]

/-- The value of a byte list, most significant byte first. -/
def beVal (bs : List UInt8) : Nat := bs.foldl (fun v b => 256 * v + b.toNat) 0

theorem beVal_concat (bs : List UInt8) (b : UInt8) :
    beVal (bs ++ [b]) = 256 * beVal bs + b.toNat := by
  rw [beVal, List.foldl_append, List.foldl_cons, List.foldl_nil, beVal]

/-- The two orders read reversed lists alike. -/
theorem beVal_reverse (bs : List UInt8) : beVal bs.reverse = leVal bs := by
  induction bs with
  | nil => rfl
  | cons b bs ih =>
    rw [List.reverse_cons, beVal_concat, ih, leVal]
    omega

theorem leVal_append (as bs : List UInt8) :
    leVal (as ++ bs) = leVal as + 256 ^ as.length * leVal bs := by
  induction as with
  | nil => simp [leVal]
  | cons a as ih =>
    rw [List.cons_append, leVal, ih, leVal, List.length_cons]
    ring

theorem beVal_cons (b : UInt8) (bs : List UInt8) :
    beVal (b :: bs) = b.toNat * 256 ^ bs.length + beVal bs := by
  rw [← List.reverse_reverse (b :: bs), beVal_reverse, List.reverse_cons, leVal_append, leVal,
    leVal, List.length_reverse, ← beVal_reverse, List.reverse_reverse]
  ring

theorem beVal_lt (bs : List UInt8) : beVal bs < 256 ^ bs.length := by
  have hlt := leVal_lt bs.reverse
  rwa [← beVal_reverse, List.reverse_reverse, List.length_reverse] at hlt

/-! ## Fields of packed records -/

/-- The `n` entries of `bs` from offset `off` on. -/
def slice {α : Type} (bs : List α) (off n : Nat) : List α := (bs.drop off).take n

theorem slice_append_right {α : Type} {as bs : List α} {off n : Nat}
    (h : as.length ≤ off) : slice (as ++ bs) off n = slice bs (off - as.length) n := by
  rw [slice, slice, List.drop_append, List.drop_of_length_le h, List.nil_append]

theorem slice_append_left {α : Type} {as bs : List α} {n : Nat}
    (h : as.length = n) : slice (as ++ bs) 0 n = as := by
  rw [slice, List.drop_zero, List.take_append_of_le_length (by rw [h]),
    List.take_of_length_le (by rw [h])]

/-- A field between two others. -/
theorem slice_middle {α : Type} {as bs : List α} {off n : Nat} (has : as.length = off)
    (hbs : bs.length = n) (cs : List α) : slice (as ++ bs ++ cs) off n = bs := by
  rw [List.append_assoc, slice_append_right (by omega), has, Nat.sub_self, slice_append_left hbs]

theorem length_slice {α : Type} {bs : List α} {off n : Nat} (h : off + n ≤ bs.length) :
    (slice bs off n).length = n := by
  rw [slice, List.length_take, List.length_drop]
  omega

/-- A field is the same in every longer list. -/
theorem slice_of_isPrefix {α : Type} {as bs : List α} {off n : Nat} (hpre : as <+: bs)
    (h : off + n ≤ as.length) : slice bs off n = slice as off n := by
  obtain ⟨cs, rfl⟩ := hpre
  rw [slice, slice, List.drop_append_of_le_length (by omega),
    List.take_append_of_le_length (by rw [List.length_drop]; omega)]

theorem getD_slice {α : Type} (bs : List α) {off n i : Nat} (d : α) (hi : i < n) :
    (slice bs off n).getD i d = bs.getD (off + i) d := by
  simp [slice, List.getD_eq_getElem?_getD, hi]

/-- The parts of a concatenation whose parts have one length. -/
theorem slice_flatten {α : Type} {parts : List (List α)} {n : Nat}
    (hlen : ∀ part ∈ parts, part.length = n) {i : Nat} {part : List α}
    (hpart : parts[i]? = some part) : slice parts.flatten (n * i) n = part := by
  induction parts generalizing i with
  | nil => cases hpart
  | cons first parts ih =>
    have hfirst : first.length = n := hlen first List.mem_cons_self
    rw [List.flatten_cons]
    cases i with
    | zero =>
      have heq : first = part := Option.some.inj hpart
      rw [Nat.mul_zero, slice_append_left hfirst, heq]
    | succ i =>
      have hrest : n * (i + 1) - first.length = n * i := by
        rw [Nat.mul_succ]
        omega
      rw [slice_append_right (by rw [Nat.mul_succ]; omega), hrest]
      exact ih (fun part hmem => hlen part (List.mem_cons_of_mem first hmem)) hpart

/-- Fields of one length, side by side, are the front of the list. -/
theorem flatMap_slice {α : Type} (bs : List α) (n m : Nat) :
    (List.range m).flatMap (fun i => slice bs (n * i) n) = bs.take (n * m) := by
  induction m with
  | zero => rw [List.range_zero, List.flatMap_nil, Nat.mul_zero, List.take_zero]
  | succ m ih =>
    rw [List.range_succ, List.flatMap_append, ih, List.flatMap_singleton, Nat.mul_succ,
      List.take_add, slice]

end OracleMachine.Lib.Bytes
