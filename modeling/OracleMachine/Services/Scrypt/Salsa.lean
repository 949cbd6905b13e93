import OracleMachine.Lib.Scrypt
import OracleMachine.Lib.Memory

/-!
# The Salsa20/8 core and the block mixing of the Doge service

The functions from `blkcpy` to `blockmix_salsa8` work on pointers into one
memory of 32-bit words.
-/

namespace OracleMachine.Services.Scrypt

open Lib Lib.Blocks Lib.Memory

variable {size : Nat}

/-! ## Blocks of words -/

/-- `blkcpy`.  The source copies entries of type `size_t`, which are two words
each. -/
def blkcpy (mem : Vector UInt32 size) (dest src len : Nat) : Option (Vector UInt32 size) :=
  fill dest (len / 8 * 2) (fun mem i => load mem (src + i)) mem

/-- `blkxor`. -/
def blkxor (mem : Vector UInt32 size) (dest src len : Nat) : Option (Vector UInt32 size) :=
  update (· ^^^ ·) dest (len / 8 * 2) (fun mem i => load mem (src + i)) mem

/-! ## The core -/

/-- The macro `R` of `salsa20_8`. -/
def rotl (a b : UInt32) : UInt32 := (a <<< b) ||| (a >>> (32 - b))

/-- The statement `x[dst] ^= R(x[a]+x[b], n)`. -/
structure Statement where
  dst : Nat
  a : Nat
  b : Nat
  n : UInt32
  deriving DecidableEq

def Statement.exec (s : Statement) (x : Vector UInt32 16) : Option (Vector UInt32 16) := do
  let v := rotl ((← load x s.a) + (← load x s.b)) s.n
  store x s.dst ((← load x s.dst) ^^^ v)

/-- The statements of the loop body that operate on columns. -/
def columnStatements : List Statement :=
  [⟨4, 0, 12, 7⟩, ⟨8, 4, 0, 9⟩, ⟨12, 8, 4, 13⟩, ⟨0, 12, 8, 18⟩,
   ⟨9, 5, 1, 7⟩, ⟨13, 9, 5, 9⟩, ⟨1, 13, 9, 13⟩, ⟨5, 1, 13, 18⟩,
   ⟨14, 10, 6, 7⟩, ⟨2, 14, 10, 9⟩, ⟨6, 2, 14, 13⟩, ⟨10, 6, 2, 18⟩,
   ⟨3, 15, 11, 7⟩, ⟨7, 3, 15, 9⟩, ⟨11, 7, 3, 13⟩, ⟨15, 11, 7, 18⟩]

/-- The statements of the loop body that operate on rows. -/
def rowStatements : List Statement :=
  [⟨1, 0, 3, 7⟩, ⟨2, 1, 0, 9⟩, ⟨3, 2, 1, 13⟩, ⟨0, 3, 2, 18⟩,
   ⟨6, 5, 4, 7⟩, ⟨7, 6, 5, 9⟩, ⟨4, 7, 6, 13⟩, ⟨5, 4, 7, 18⟩,
   ⟨11, 10, 9, 7⟩, ⟨8, 11, 10, 9⟩, ⟨9, 8, 11, 13⟩, ⟨10, 9, 8, 18⟩,
   ⟨12, 15, 14, 7⟩, ⟨13, 12, 15, 9⟩, ⟨14, 13, 12, 13⟩, ⟨15, 14, 13, 18⟩]

/-- The loop body of `salsa20_8`. -/
def salsaPass (x : Vector UInt32 16) : Option (Vector UInt32 16) :=
  (columnStatements ++ rowStatements).foldlM (fun x s => s.exec x) x

/-- `salsa20_8`. -/
def salsa208 (mem : Vector UInt32 size) (B : Nat) : Option (Vector UInt32 size) := do
  let x ← fill 0 (64 / 8 * 2) (fun _ i => load mem (B + i)) (Vector.replicate 16 0)
  let x ← (List.range 4).foldlM (fun x _ => salsaPass x) x
  update (· + ·) B 16 (fun _ i => load x i) mem

/-! ## Mixing of blocks -/

/-- The three statements with which `blockmix_salsa8` treats a block: `X` is mixed
with the block and stored. -/
def mixBlock (mem : Vector UInt32 size) (X src dest : Nat) : Option (Vector UInt32 size) := do
  let mem ← blkxor mem X src 64
  let mem ← salsa208 mem X
  blkcpy mem dest X 64

/-- `blockmix_salsa8`.  The loop counts `i` in steps of two. -/
def blockmixSalsa8 (mem : Vector UInt32 size) (Bin Bout X r : Nat) :
    Option (Vector UInt32 size) := do
  let mem ← blkcpy mem X (Bin + (2 * r - 1) * 16) 64
  (List.range r).foldlM
    (fun mem k => do
      let i := 2 * k
      let mem ← mixBlock mem X (Bin + i * 16) (Bout + i * 8)
      mixBlock mem X (Bin + (i * 16 + 16)) (Bout + (i * 8 + r * 16)))
    mem

/-! ## Statements and quarter rounds -/

/-- What a statement makes of the words. -/
def Statement.apply (l : List UInt32) (s : Statement) : List UInt32 :=
  l.set s.dst (l.getD s.dst 0 ^^^ rotl (l.getD s.a 0 + l.getD s.b 0) s.n)

/-- The statement stays inside the array. -/
def Statement.Inside (s : Statement) : Prop := s.dst < 16 ∧ s.a < 16 ∧ s.b < 16

instance (s : Statement) : Decidable s.Inside := inferInstanceAs (Decidable (_ ∧ _ ∧ _))

theorem load_eq_getD (x : Vector UInt32 16) {i : Nat} (h : i < 16) :
    load x i = some (x.toList.getD i 0) := by
  rw [load, ← Vector.getElem?_toList, List.getD_eq_getElem?_getD,
    List.getElem?_eq_getElem (by rw [Vector.length_toList]; exact h), Option.getD_some]

theorem Statement.exec_spec {s : Statement} (h : s.Inside) (x : Vector UInt32 16) :
    ∃ x', s.exec x = some x' ∧ x'.toList = s.apply x.toList := by
  obtain ⟨hdst, ha, hb⟩ := h
  refine ⟨x.set s.dst (x.toList.getD s.dst 0 ^^^
    rotl (x.toList.getD s.a 0 + x.toList.getD s.b 0) s.n) hdst, ?_, ?_⟩
  · rw [Statement.exec, load_eq_getD x ha, some_bind, load_eq_getD x hb, some_bind,
      load_eq_getD x hdst, some_bind, store, dif_pos hdst]
  · rw [Vector.toList_set, Statement.apply]

theorem exec_statements {statements : List Statement} (h : ∀ s ∈ statements, s.Inside)
    (x : Vector UInt32 16) :
    ∃ x', statements.foldlM (fun x s => s.exec x) x = some x' ∧
      x'.toList = statements.foldl Statement.apply x.toList := by
  induction statements generalizing x with
  | nil => exact ⟨x, rfl, rfl⟩
  | cons s statements ih =>
    obtain ⟨x1, hexec, hx1⟩ := Statement.exec_spec (h s List.mem_cons_self) x
    obtain ⟨x2, hrest, hx2⟩ := ih (fun s hs => h s (List.mem_cons_of_mem _ hs)) x1
    refine ⟨x2, ?_, ?_⟩
    · rw [List.foldlM_cons, hexec, some_bind, hrest]
    · rw [hx2, hx1, List.foldl_cons]

/-- The four statements of a quarter round. -/
def quarterStatements (a b c d : Nat) : List Statement :=
  [⟨b, a, d, 7⟩, ⟨c, b, a, 9⟩, ⟨d, c, b, 13⟩, ⟨a, d, c, 18⟩]

theorem getD_set_self {l : List UInt32} {i : Nat} {v : UInt32} (h : i < l.length) :
    (l.set i v).getD i 0 = v := by
  rw [List.getD_eq_getElem?_getD, List.getElem?_set_self h, Option.getD_some]

theorem getD_set_ne {l : List UInt32} {i j : Nat} {v : UInt32} (h : i ≠ j) :
    (l.set i v).getD j 0 = l.getD j 0 := by
  rw [List.getD_eq_getElem?_getD, List.getElem?_set_ne h, List.getD_eq_getElem?_getD]

/-- Four statements are a quarter round, if they are about four places. -/
theorem foldl_quarterStatements {l : List UInt32} {a b c d : Nat} (hnodup : [a, b, c, d].Nodup)
    (hlt : ∀ i ∈ [a, b, c, d], i < l.length) :
    (quarterStatements a b c d).foldl Statement.apply l = Lib.Scrypt.quarterRound l a b c d := by
  simp only [List.nodup_cons, List.mem_cons, List.not_mem_nil, not_or, or_false, not_false_eq_true,
    List.nodup_nil, and_true] at hnodup
  obtain ⟨⟨hab, hac, had⟩, ⟨hbc, hbd⟩, hcd⟩ := hnodup
  simp only [List.forall_mem_cons] at hlt
  obtain ⟨ha, hb, hc, hd, -⟩ := hlt
  -- Each statement reads words of the argument and words that were just written.
  have h1 : Statement.apply l ⟨b, a, d, 7⟩ =
      l.set b (l.getD b 0 ^^^ rotl (l.getD a 0 + l.getD d 0) 7) := rfl
  have h2 : ∀ z1, Statement.apply (l.set b z1) ⟨c, b, a, 9⟩ =
      (l.set b z1).set c (l.getD c 0 ^^^ rotl (z1 + l.getD a 0) 9) := by
    intro z1
    simp only [Statement.apply]
    rw [getD_set_ne hbc, getD_set_self hb, getD_set_ne (Ne.symm hab)]
  have h3 : ∀ z1 z2, Statement.apply ((l.set b z1).set c z2) ⟨d, c, b, 13⟩ =
      ((l.set b z1).set c z2).set d (l.getD d 0 ^^^ rotl (z2 + z1) 13) := by
    intro z1 z2
    simp only [Statement.apply]
    rw [getD_set_ne hcd, getD_set_ne hbd, getD_set_self (by rw [List.length_set]; exact hc),
      getD_set_ne (Ne.symm hbc), getD_set_self hb]
  have h4 : ∀ z1 z2 z3, Statement.apply (((l.set b z1).set c z2).set d z3) ⟨a, d, c, 18⟩ =
      (((l.set b z1).set c z2).set d z3).set a (l.getD a 0 ^^^ rotl (z3 + z2) 18) := by
    intro z1 z2 z3
    simp only [Statement.apply]
    rw [getD_set_ne (Ne.symm had), getD_set_ne (Ne.symm hac), getD_set_ne (Ne.symm hab),
      getD_set_self (by rw [List.length_set, List.length_set]; exact hd), getD_set_ne (Ne.symm hcd),
      getD_set_self (by rw [List.length_set]; exact hc)]
  rw [quarterStatements, List.foldl_cons, List.foldl_cons, List.foldl_cons, List.foldl_cons,
    List.foldl_nil, h1, h2, h3, h4]
  rfl

/-- The places of a quarter round. -/
structure Quarter where
  a : Nat
  b : Nat
  c : Nat
  d : Nat
  deriving DecidableEq

def Quarter.statements (q : Quarter) : List Statement := quarterStatements q.a q.b q.c q.d

def Quarter.round (l : List UInt32) (q : Quarter) : List UInt32 :=
  Lib.Scrypt.quarterRound l q.a q.b q.c q.d

/-- The quarter rounds of a pass. -/
def quarters : List Quarter :=
  [⟨0, 4, 8, 12⟩, ⟨5, 9, 13, 1⟩, ⟨10, 14, 2, 6⟩, ⟨15, 3, 7, 11⟩, ⟨0, 1, 2, 3⟩, ⟨5, 6, 7, 4⟩,
   ⟨10, 11, 8, 9⟩, ⟨15, 12, 13, 14⟩]

theorem foldl_flatMap_statements {qs : List Quarter}
    (hqs : ∀ q ∈ qs, [q.a, q.b, q.c, q.d].Nodup ∧ ∀ i ∈ [q.a, q.b, q.c, q.d], i < 16)
    {l : List UInt32} (hl : l.length = 16) :
    (qs.flatMap Quarter.statements).foldl Statement.apply l = qs.foldl Quarter.round l := by
  induction qs generalizing l with
  | nil => rfl
  | cons q qs ih =>
    obtain ⟨hnodup, hlt⟩ := hqs q List.mem_cons_self
    have hround : q.statements.foldl Statement.apply l = q.round l :=
      foldl_quarterStatements hnodup (hl ▸ hlt)
    have hlen : (q.round l).length = 16 := by
      simp only [Quarter.round, Lib.Scrypt.quarterRound, List.length_set, hl]
    rw [List.flatMap_cons, List.foldl_append, hround,
      ih (fun q hmem => hqs q (List.mem_cons_of_mem _ hmem)) hlen, List.foldl_cons]

/-- The loop body is a double round. -/
theorem foldl_statements {l : List UInt32} (hl : l.length = 16) :
    (columnStatements ++ rowStatements).foldl Statement.apply l = Lib.Scrypt.doubleRound l := by
  have hstatements : columnStatements ++ rowStatements = quarters.flatMap Quarter.statements := by
    decide
  have hquarters : quarters =
      (List.range 4).map (fun k => ⟨5 * k % 16, (5 * k + 4) % 16, (5 * k + 8) % 16,
        (5 * k + 12) % 16⟩) ++
      (List.range 4).map (fun k => ⟨4 * k + k % 4, 4 * k + (k + 1) % 4, 4 * k + (k + 2) % 4,
        4 * k + (k + 3) % 4⟩) := by
    decide
  rw [hstatements, foldl_flatMap_statements (by decide) hl, hquarters, List.foldl_append,
    List.foldl_map, List.foldl_map]
  rfl

theorem salsaPass_spec (x : Vector UInt32 16) :
    ∃ x', salsaPass x = some x' ∧ x'.toList = Lib.Scrypt.doubleRound x.toList := by
  have hinside : ∀ s ∈ columnStatements ++ rowStatements, s.Inside := by decide
  obtain ⟨x', hexec, hx'⟩ := exec_statements hinside x
  exact ⟨x', hexec, by rw [hx', foldl_statements Vector.length_toList]⟩

/-! ## Blocks in memory -/

/-- `blkcpy` between blocks that do not overlap. -/
theorem blkcpy_eq (mem : Vector UInt32 size) (n : Nat) {dest src : Nat} (hdest : dest + n * 2 ≤ size)
    (hsrc : src + n * 2 ≤ size) (hdisjoint : dest + n * 2 ≤ src ∨ src + n * 2 ≤ dest) :
    blkcpy mem dest src (8 * n) = some (overwrite mem dest (window mem src (n * 2))) := by
  have hlen : (window mem src (n * 2)).length = n * 2 := length_window hsrc
  rw [blkcpy, Nat.mul_div_cancel_left n (by decide)]
  generalize hws : window mem src (n * 2) = ws at hlen
  rw [← hlen]
  apply fill_eq_overwrite ws (by omega)
  intro i hi
  rw [← hws, getElem?_window, if_pos (by omega), load, getElem?_overwrite, if_neg]
  rw [List.length_take]
  omega

/-- `blkxor` between blocks that do not overlap. -/
theorem blkxor_eq (mem : Vector UInt32 size) (n : Nat) {dest src : Nat} (hdest : dest + n * 2 ≤ size)
    (hsrc : src + n * 2 ≤ size) (hdisjoint : dest + n * 2 ≤ src ∨ src + n * 2 ≤ dest) :
    blkxor mem dest src (8 * n) = some (overwrite mem dest
      (Lib.Scrypt.xorWords (window mem dest (n * 2)) (window mem src (n * 2)))) := by
  rw [blkxor, Nat.mul_div_cancel_left n (by decide)]
  apply update_eq_overwrite hdest (length_window hsrc)
  intro i hi ws hws
  rw [getElem?_window, if_pos hi, load, getElem?_overwrite, if_neg (by omega)]

/-- `salsa20_8` applies the core to a block. -/
theorem salsa208_eq (mem : Vector UInt32 size) {B : Nat} (h : B + 16 ≤ size) :
    salsa208 mem B = some (overwrite mem B (Lib.Scrypt.salsa (window mem B 16))) := by
  have hlen : (window mem B 16).length = 16 := length_window h
  have hcopy : fill 0 (window mem B 16).length (fun _ i => load mem (B + i))
      (Vector.replicate 16 0) = some (overwrite (Vector.replicate 16 0) 0 (window mem B 16)) := by
    apply fill_eq_overwrite _ (by omega)
    intro i hi
    rw [getElem?_window, if_pos (by omega), load]
  have hinit : (overwrite (Vector.replicate 16 0) 0 (window mem B 16)).toList =
      Lib.Scrypt.doubleRound^[0] (window mem B 16) := toList_overwrite hlen
  have hpass : ∀ i < 4, ∀ x : Vector UInt32 16,
      x.toList = Lib.Scrypt.doubleRound^[i] (window mem B 16) →
      ∃ x', salsaPass x = some x' ∧
        x'.toList = Lib.Scrypt.doubleRound^[i + 1] (window mem B 16) := by
    intro i _ x hx
    obtain ⟨x', hpass, hx'⟩ := salsaPass_spec x
    exact ⟨x', hpass, by rw [hx', hx, Function.iterate_succ_apply']⟩
  obtain ⟨x, hpasses, hx⟩ := foldlM_range_spec
    (fun i (x : Vector UInt32 16) => x.toList = Lib.Scrypt.doubleRound^[i] (window mem B 16)) hinit
    hpass
  have hadd : update (· + ·) B 16 (fun _ i => load x i) mem =
      some (overwrite mem B (List.zipWith (· + ·) (window mem B 16) x.toList)) := by
    apply update_eq_overwrite h Vector.length_toList
    intro i _ ws _
    rw [load, Vector.getElem?_toList]
  rw [hlen] at hcopy
  rw [salsa208, hcopy, some_bind, hpasses, some_bind, hadd, hx, Lib.Scrypt.salsa]

/-! ## Mixing of blocks in memory -/

/-- A block is mixed into `X` and stored, and nothing else changes. -/
theorem mixBlock_spec {mem : Vector UInt32 size} {X src : Nat} (dest : Nat) (hX : X + 16 ≤ size)
    (hsrc : src + 16 ≤ size) (hdest : dest + 16 ≤ size) (hXsrc : X + 16 ≤ src ∨ src + 16 ≤ X)
    (hXdest : X + 16 ≤ dest ∨ dest + 16 ≤ X) {x b : List UInt32} (hx : window mem X 16 = x)
    (hb : window mem src 16 = b) :
    ∃ mem', mixBlock mem X src dest = some mem' ∧
      window mem' X 16 = Lib.Scrypt.salsa (Lib.Scrypt.xorWords x b) ∧
      window mem' dest 16 = Lib.Scrypt.salsa (Lib.Scrypt.xorWords x b) ∧
      AgreeOn (fun j => Outside X 16 j ∧ Outside dest 16 j) mem mem' := by
  have hxor := blkxor_eq mem 8 hX hsrc hXsrc
  have hxlen : (Lib.Scrypt.xorWords x b).length = 16 := by
    rw [Lib.Scrypt.xorWords, List.length_zipWith, ← hx, ← hb, length_window hX, length_window hsrc]
    rfl
  rw [hx, hb] at hxor
  generalize Lib.Scrypt.xorWords x b = v at hxor hxlen
  have hylen : (Lib.Scrypt.salsa v).length = 16 := by rw [Lib.Scrypt.length_salsa, hxlen]
  have hsalsa := salsa208_eq (overwrite mem X v) hX
  rw [window_overwrite_eq hxlen hX] at hsalsa
  generalize Lib.Scrypt.salsa v = y at hsalsa hylen
  have hcopy := blkcpy_eq (overwrite (overwrite mem X v) X y) 8 hdest hX (by omega)
  rw [window_overwrite_eq hylen hX] at hcopy
  refine ⟨overwrite (overwrite (overwrite mem X v) X y) dest y, ?_, ?_, ?_, ?_⟩
  · rw [mixBlock, hxor, some_bind, hsalsa, some_bind, hcopy]
  · rw [window_overwrite_of_disjoint (by omega), window_overwrite_eq hylen hX]
  · rw [window_overwrite_eq hylen hdest]
  · have h1 := agreeOn_overwrite mem X v
    have h2 := agreeOn_overwrite (overwrite mem X v) X y
    have h3 := agreeOn_overwrite (overwrite (overwrite mem X v) X y) dest y
    rw [hxlen] at h1
    rw [hylen] at h2 h3
    exact (h1.trans h2 fun j hj => ⟨hj, hj⟩).trans h3 fun j hj => hj

/-- Where the three arguments of `blockmix_salsa8` are. -/
structure Places (size Bin Bout X r : Nat) : Prop where
  rpos : 0 < r
  bin : Bin + 32 * r ≤ size
  bout : Bout + 32 * r ≤ size
  x : X + 16 ≤ size
  bin_bout : Bin + 32 * r ≤ Bout ∨ Bout + 32 * r ≤ Bin
  bin_x : Bin + 32 * r ≤ X ∨ X + 16 ≤ Bin
  bout_x : Bout + 32 * r ≤ X ∨ X + 16 ≤ Bout

/-- Outside the two places that `blockmix_salsa8` writes to. -/
def Untouched (Bout X r j : Nat) : Prop := Outside X 16 j ∧ Outside Bout (32 * r) j

section Blockmix

variable {mem mem' : Vector UInt32 size} {Bin Bout X r : Nat} (places : Places size Bin Bout X r)

include places

/-- The blocks of the argument. -/
theorem getD_blocks_window {n : Nat} (hn : n < 2 * r) :
    (blocks 16 (window mem Bin (32 * r))).getD n [] = window mem (Bin + 16 * n) 16 := by
  have hlen : (window mem Bin (32 * r)).length = 32 * r := length_window places.bin
  rw [List.getD_eq_getElem?_getD, getElem?_blocks (by omega), Option.getD_some,
    slice_window mem (by omega)]

theorem getLastD_blocks_window :
    (blocks 16 (window mem Bin (32 * r))).getLastD [] =
      window mem (Bin + (2 * r - 1) * 16) 16 := by
  have hr := places.rpos
  have hlen : (window mem Bin (32 * r)).length = 32 * r := length_window places.bin
  have hcount : 32 * r / 16 - 1 = 2 * r - 1 := by omega
  rw [List.getLastD_eq_getLast?, List.getLast?_eq_getElem?, length_blocks, hlen, hcount,
    ← List.getD_eq_getElem?_getD, getD_blocks_window places (by omega), Nat.mul_comm 16]

/-- The argument is not written to. -/
theorem window_of_agreeOn (h : AgreeOn (Untouched Bout X r) mem mem') {n : Nat} (hn : n < 2 * r) :
    window mem' (Bin + 16 * n) 16 = (blocks 16 (window mem Bin (32 * r))).getD n [] := by
  have hbout := places.bin_bout
  have hx := places.bin_x
  rw [getD_blocks_window places hn]
  apply h.window
  intro i hi
  simp only [Untouched, Outside]
  omega

omit places in
/-- What holds before the pass `k` of the loop. -/
structure Mixed (mem : Vector UInt32 size) (Bin Bout X r k : Nat) (mem' : Vector UInt32 size) :
    Prop where
  x : window mem' X 16 = Lib.Scrypt.link (blocks 16 (window mem Bin (32 * r))) (2 * k)
  even : window mem' Bout (16 * k) = (List.range k).flatMap fun j =>
    Lib.Scrypt.link (blocks 16 (window mem Bin (32 * r))) (2 * j + 1)
  odd : window mem' (Bout + 16 * r) (16 * k) = (List.range k).flatMap fun j =>
    Lib.Scrypt.link (blocks 16 (window mem Bin (32 * r))) (2 * j + 2)
  agree : AgreeOn (Untouched Bout X r) mem mem'

/-- A pass of the loop. -/
theorem Mixed.pass {k : Nat} (hk : k < r) (h : Mixed mem Bin Bout X r k mem') :
    ∃ mem'', (do
        let mem ← mixBlock mem' X (Bin + 2 * k * 16) (Bout + 2 * k * 8)
        mixBlock mem X (Bin + (2 * k * 16 + 16)) (Bout + (2 * k * 8 + r * 16))) = some mem'' ∧
      Mixed mem Bin Bout X r (k + 1) mem'' := by
  have hbin := places.bin
  have hbout := places.bout
  have hbinx := places.bin_x
  have hbinbout := places.bin_bout
  have hboutx := places.bout_x
  have hsrc1 : Bin + 2 * k * 16 = Bin + 16 * (2 * k) := by omega
  have hsrc2 : Bin + (2 * k * 16 + 16) = Bin + 16 * (2 * k + 1) := by omega
  have hdest1 : Bout + 2 * k * 8 = Bout + 16 * k := by omega
  have hdest2 : Bout + (2 * k * 8 + r * 16) = Bout + 16 * r + 16 * k := by omega
  rw [hsrc1, hsrc2, hdest1, hdest2]
  -- The block with an even number goes to the first half of the result.
  have hblock1 := window_of_agreeOn places h.agree (show 2 * k < 2 * r by omega)
  obtain ⟨mem1, hmix1, hx1, hstored1, hframe1⟩ := mixBlock_spec (Bout + 16 * k) places.x (by omega)
    (by omega) (by omega) (by omega) h.x hblock1
  have hagree1 : AgreeOn (Untouched Bout X r) mem mem1 := by
    apply h.agree.trans hframe1
    intro j hj
    refine ⟨hj, ?_⟩
    simp only [Untouched, Outside] at hj ⊢
    omega
  -- The next one goes to the second half.
  have hblock2 := window_of_agreeOn places hagree1 (show 2 * k + 1 < 2 * r by omega)
  obtain ⟨mem2, hmix2, hx2, hstored2, hframe2⟩ := mixBlock_spec (Bout + 16 * r + 16 * k) places.x
    (by omega) (by omega) (by omega) (by omega) hx1 hblock2
  have hkept2 : ∀ p n, (∀ i < n, Outside X 16 (p + i) ∧ Outside (Bout + 16 * r + 16 * k) 16 (p + i)) →
      window mem2 p n = window mem1 p n := fun p n hp => hframe2.window hp
  have hkept1 : ∀ p n, (∀ i < n, Outside X 16 (p + i) ∧ Outside (Bout + 16 * k) 16 (p + i)) →
      window mem1 p n = window mem' p n := fun p n hp => hframe1.window hp
  refine ⟨mem2, ?_, hx2, ?_, ?_, ?_⟩
  · rw [hmix1, some_bind, hmix2]
  · rw [Nat.mul_succ, window_add, hkept2 Bout (16 * k) (by simp only [Outside]; omega),
      hkept1 Bout (16 * k) (by simp only [Outside]; omega), h.even,
      hkept2 (Bout + 16 * k) 16 (by simp only [Outside]; omega), hstored1, List.range_succ,
      List.flatMap_append, List.flatMap_singleton]
    rfl
  · rw [Nat.mul_succ, window_add, hkept2 (Bout + 16 * r) (16 * k) (by simp only [Outside]; omega),
      hkept1 (Bout + 16 * r) (16 * k) (by simp only [Outside]; omega), h.odd, hstored2,
      List.range_succ, List.flatMap_append, List.flatMap_singleton]
    rfl
  · apply hagree1.trans hframe2
    intro j hj
    refine ⟨hj, ?_⟩
    simp only [Untouched, Outside] at hj ⊢
    omega

/-- `blockmix_salsa8` mixes the blocks at `Bin` into those at `Bout`. -/
theorem blockmixSalsa8_spec (mem : Vector UInt32 size) :
    ∃ mem', blockmixSalsa8 mem Bin Bout X r = some mem' ∧
      window mem' Bout (32 * r) = Lib.Scrypt.blockMix (window mem Bin (32 * r)) ∧
      AgreeOn (Untouched Bout X r) mem mem' := by
  have hr := places.rpos
  have hbin := places.bin
  have hbinx := places.bin_x
  have hlen : (window mem (Bin + (2 * r - 1) * 16) 16).length = 16 := length_window (by omega)
  have hcopy : blkcpy mem X (Bin + (2 * r - 1) * 16) 64 =
      some (overwrite mem X (window mem (Bin + (2 * r - 1) * 16) 16)) :=
    blkcpy_eq mem 8 places.x (by omega) (by omega)
  have hinit : Mixed mem Bin Bout X r 0 (overwrite mem X (window mem (Bin + (2 * r - 1) * 16) 16)) := by
    refine ⟨?_, ?_, ?_, ?_⟩
    · rw [window_overwrite_eq hlen places.x, ← getLastD_blocks_window places]
      rfl
    · rw [Nat.mul_zero, window_zero, List.range_zero, List.flatMap_nil]
    · rw [Nat.mul_zero, window_zero, List.range_zero, List.flatMap_nil]
    · have hframe := agreeOn_overwrite mem X (window mem (Bin + (2 * r - 1) * 16) 16)
      rw [hlen] at hframe
      intro j hj
      exact hframe j hj.1
  obtain ⟨mem', hloop, hmixed⟩ := foldlM_range_spec (Mixed mem Bin Bout X r) hinit
    fun k hk mem' h => h.pass places hk
  refine ⟨mem', ?_, ?_, hmixed.agree⟩
  · rw [blockmixSalsa8, hcopy, some_bind]
    exact hloop
  · have hcount : (blocks 16 (window mem Bin (32 * r))).length / 2 = r := by
      rw [length_blocks, length_window hbin]
      omega
    have hhalves : window mem' Bout (32 * r) =
        window mem' Bout (16 * r) ++ window mem' (Bout + 16 * r) (16 * r) := by
      rw [← window_add, ← Nat.add_mul]
    simp only [hhalves, hmixed.even, hmixed.odd, Lib.Scrypt.blockMix, hcount]

end Blockmix

end OracleMachine.Services.Scrypt
