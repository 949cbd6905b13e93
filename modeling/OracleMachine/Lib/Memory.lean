import Mathlib.Data.List.Basic
import OracleMachine.Lib.Bytes

/-!
# Arrays with checked accesses

A C array is a `Vector` here.  An access behind its end has no meaning: `load`,
`store`, `loads` and `stores` answer `none`.  A function that is written with
them and shown to return `some` never leaves its arrays.

`window mem p n` is the list of the `n` entries from `p` on, and `overwrite mem p
ws` is the array after `ws` was written at `p`.  A window of an overwritten array
is either what was written (`window_overwrite_self`) or what was there before
(`window_overwrite_of_disjoint`).

A `for` loop is a fold that may fail, and `foldlM_range_spec` is the rule for it;
`foldlM_flatten_spec` is the one for a loop over the pieces of a message.
`fill` is the loop `for (i = 0; i < n; i++) mem[p + i] = value`, where the value
may be read from the array itself; its rule is `fill_eq_overwrite`.
-/

namespace OracleMachine.Lib.Memory

open Lib.Bytes

variable {α : Type} {size : Nat}

/-! ## Accesses -/

/-- `mem[i]`. -/
def load (mem : Vector α size) (i : Nat) : Option α := mem[i]?

/-- `mem[i] = v`. -/
def store (mem : Vector α size) (i : Nat) (v : α) : Option (Vector α size) :=
  if h : i < size then some (mem.set i v h) else none

/-- The `n` entries behind a pointer to read-only data. -/
def loads (src : List α) (n : Nat) : Option (List α) :=
  if n ≤ src.length then some (src.take n) else none

/-- The array after `ws` was written at `p`, as far as it reaches. -/
def overwrite (mem : Vector α size) (p : Nat) (ws : List α) : Vector α size :=
  Vector.ofFn fun i => if p ≤ i.val then ws[i.val - p]?.getD (mem.get i) else mem.get i

/-- `memcpy(&mem[p], ws, n)` for the `n` entries of `ws`. -/
def stores (mem : Vector α size) (p : Nat) (ws : List α) : Option (Vector α size) :=
  if p + ws.length ≤ size then some (overwrite mem p ws) else none

/-- The `n` entries of an array from `p` on. -/
def window (mem : Vector α size) (p n : Nat) : List α := slice mem.toList p n

/-- A step of a function that did not fail. -/
theorem some_bind {β γ : Type} (a : β) (f : β → Option γ) : (some a >>= f) = f a := rfl

theorem loads_eq {src : List α} {n : Nat} (h : n ≤ src.length) : loads src n = some (src.take n) :=
  if_pos h

theorem stores_eq {mem : Vector α size} {p : Nat} {ws : List α} (h : p + ws.length ≤ size) :
    stores mem p ws = some (overwrite mem p ws) :=
  if_pos h

theorem getElem?_overwrite (mem : Vector α size) (p : Nat) (ws : List α) (j : Nat) :
    (overwrite mem p ws)[j]? =
      if p ≤ j ∧ j < p + ws.length ∧ j < size then ws[j - p]? else mem[j]? := by
  by_cases hj : j < size
  · have hget : mem.get ⟨j, hj⟩ = mem[j] := rfl
    rw [Vector.getElem?_eq_getElem hj, Vector.getElem?_eq_getElem hj, overwrite,
      Vector.getElem_ofFn, hget]
    by_cases hp : p ≤ j
    · by_cases hw : j < p + ws.length
      · have hin : j - p < ws.length := by omega
        rw [if_pos hp, if_pos ⟨hp, hw, hj⟩, List.getElem?_eq_getElem hin, Option.getD_some]
      · have hout : ws.length ≤ j - p := by omega
        rw [if_pos hp, if_neg (by omega), List.getElem?_eq_none hout, Option.getD_none]
    · rw [if_neg hp, if_neg (by omega)]
  · rw [if_neg (by omega), Vector.getElem?_eq_none (by omega), Vector.getElem?_eq_none (by omega)]

/-! ## Windows -/

theorem getElem?_window (mem : Vector α size) (p n i : Nat) :
    (window mem p n)[i]? = if i < n then mem[p + i]? else none := by
  rw [window, slice, List.getElem?_take]
  simp only [List.getElem?_drop, Vector.getElem?_toList]

theorem length_window {mem : Vector α size} {p n : Nat} (h : p + n ≤ size) :
    (window mem p n).length = n :=
  length_slice (by rw [Vector.length_toList]; exact h)

@[simp] theorem window_zero (mem : Vector α size) (p : Nat) : window mem p 0 = [] := by
  rw [window, slice, List.take_zero]

/-- The whole array. -/
theorem window_all (mem : Vector α size) : window mem 0 size = mem.toList := by
  rw [window, slice, List.drop_zero, List.take_of_length_le (by rw [Vector.length_toList])]

/-- Two windows next to each other. -/
theorem window_add (mem : Vector α size) (p m n : Nat) :
    window mem p (m + n) = window mem p m ++ window mem (p + m) n := by
  rw [window, window, window, slice, slice, slice, List.take_add, List.drop_drop]

/-- A window inside a window. -/
theorem slice_window (mem : Vector α size) {p n off m : Nat} (h : off + m ≤ n) :
    slice (window mem p n) off m = window mem (p + off) m := by
  rw [window, window, slice, slice, slice, List.drop_take, List.take_take, List.drop_drop,
    Nat.min_eq_left (by omega)]

/-- An entry that a window shows. -/
theorem load_of_window {mem : Vector α size} {p n : Nat} {ws : List α}
    (hwindow : window mem p n = ws) {i : Nat} (hi : i < n) : load mem (p + i) = ws[i]? := by
  rw [← hwindow, getElem?_window, if_pos hi, load]

theorem window_overwrite_self {mem : Vector α size} {p : Nat} {ws : List α}
    (h : p + ws.length ≤ size) : window (overwrite mem p ws) p ws.length = ws := by
  apply List.ext_getElem?
  intro i
  rw [getElem?_window]
  by_cases hi : i < ws.length
  · rw [if_pos hi, getElem?_overwrite, if_pos (by omega), Nat.add_sub_cancel_left]
  · rw [if_neg hi, List.getElem?_eq_none (by omega)]

theorem window_overwrite_of_disjoint {mem : Vector α size} {p q n : Nat} {ws : List α}
    (h : q + n ≤ p ∨ p + ws.length ≤ q) : window (overwrite mem p ws) q n = window mem q n := by
  apply List.ext_getElem?
  intro i
  rw [getElem?_window, getElem?_window]
  by_cases hi : i < n
  · rw [if_pos hi, if_pos hi, getElem?_overwrite, if_neg (by omega)]
  · rw [if_neg hi, if_neg hi]

theorem window_overwrite_eq {mem : Vector α size} {p n : Nat} {ws : List α} (hlen : ws.length = n)
    (h : p + n ≤ size) : window (overwrite mem p ws) p n = ws := by
  subst hlen
  exact window_overwrite_self h

/-- A write right behind the front of an array. -/
theorem window_overwrite_front {mem : Vector α size} {n : Nat} {front ws : List α}
    (hfront : window mem 0 n = front) (h : n + ws.length ≤ size) :
    window (overwrite mem n ws) 0 (n + ws.length) = front ++ ws := by
  rw [window_add, window_overwrite_of_disjoint (.inl (Nat.le_of_eq (Nat.zero_add n))),
    Nat.zero_add, window_overwrite_self h, hfront]

/-- An array whose front is overwritten. -/
theorem toList_overwrite_front (mem : Vector α size) {ws : List α} (h : ws.length ≤ size) :
    (overwrite mem 0 ws).toList = ws ++ mem.toList.drop ws.length := by
  have hself : window (overwrite mem 0 ws) 0 ws.length = ws :=
    window_overwrite_self (by rw [Nat.zero_add]; exact h)
  have hbehind : window (overwrite mem 0 ws) ws.length (size - ws.length) =
      window mem ws.length (size - ws.length) :=
    window_overwrite_of_disjoint (.inr (Nat.le_of_eq (Nat.zero_add _)))
  have hall := window_add (overwrite mem 0 ws) 0 ws.length (size - ws.length)
  rw [Nat.add_sub_cancel' h, window_all, Nat.zero_add, hself, hbehind, window, slice,
    List.take_of_length_le (by rw [List.length_drop, Vector.length_toList])] at hall
  exact hall

/-- An array that is overwritten as a whole. -/
theorem toList_overwrite {mem : Vector α size} {ws : List α} (h : ws.length = size) :
    (overwrite mem 0 ws).toList = ws := by
  rw [toList_overwrite_front mem (Nat.le_of_eq h),
    List.drop_of_length_le (by rw [Vector.length_toList, h]), List.append_nil]

/-! ## What is left as it was -/

/-- The two arrays agree at the places with a property. -/
def AgreeOn (P : Nat → Prop) (mem mem' : Vector α size) : Prop := ∀ j, P j → mem'[j]? = mem[j]?

/-- The place is not one of the `n` from `p` on. -/
def Outside (p n j : Nat) : Prop := j < p ∨ p + n ≤ j

theorem agreeOn_overwrite (mem : Vector α size) (p : Nat) (ws : List α) :
    AgreeOn (Outside p ws.length) mem (overwrite mem p ws) := by
  intro j hj
  rw [Outside] at hj
  rw [getElem?_overwrite, if_neg (by omega)]

theorem AgreeOn.trans {P Q R : Nat → Prop} {mem1 mem2 mem3 : Vector α size}
    (h12 : AgreeOn P mem1 mem2) (h23 : AgreeOn Q mem2 mem3) (h : ∀ j, R j → P j ∧ Q j) :
    AgreeOn R mem1 mem3 := by
  intro j hj
  rw [h23 j (h j hj).2, h12 j (h j hj).1]

theorem AgreeOn.window {P : Nat → Prop} {mem mem' : Vector α size} (h : AgreeOn P mem mem')
    {p n : Nat} (hP : ∀ i < n, P (p + i)) : window mem' p n = window mem p n := by
  apply List.ext_getElem?
  intro i
  rw [getElem?_window, getElem?_window]
  by_cases hi : i < n
  · rw [if_pos hi, if_pos hi, h _ (hP i hi)]
  · rw [if_neg hi, if_neg hi]

/-! ## Loops -/

/-- The rule for `for (i = 0; i < n; i++)` with a body whose accesses may fail:
an invariant that every pass carries on. -/
theorem foldlM_range_spec {β : Type} {body : β → Nat → Option β} (Inv : Nat → β → Prop) {n : Nat}
    {b : β} (hinit : Inv 0 b)
    (hstep : ∀ i < n, ∀ b, Inv i b → ∃ b', body b i = some b' ∧ Inv (i + 1) b') :
    ∃ b', (List.range n).foldlM body b = some b' ∧ Inv n b' := by
  induction n with
  | zero => exact ⟨b, rfl, hinit⟩
  | succ n ih =>
    obtain ⟨b', hfold, hinv⟩ := ih fun i hi => hstep i (by omega)
    obtain ⟨b'', hbody, hinv'⟩ := hstep n (by omega) b' hinv
    refine ⟨b'', ?_, hinv'⟩
    rw [List.range_succ, List.foldlM_append, hfold, Option.bind_eq_bind, Option.bind_some,
      List.foldlM_cons, hbody]
    rfl

/-- The rule for a loop over the pieces of a message: an invariant that says what
was taken in so far. -/
theorem foldlM_flatten_spec {β : Type} {body : β → List α → Option β} (Inv : List α → β → Prop)
    (hstep : ∀ message b piece, Inv message b →
      ∃ b', body b piece = some b' ∧ Inv (message ++ piece) b')
    (pieces : List (List α)) {message : List α} {b : β} (h : Inv message b) :
    ∃ b', pieces.foldlM body b = some b' ∧ Inv (message ++ pieces.flatten) b' := by
  induction pieces generalizing message b with
  | nil =>
    rw [List.flatten_nil, List.append_nil]
    exact ⟨b, rfl, h⟩
  | cons piece pieces ih =>
    obtain ⟨b1, hbody, h1⟩ := hstep message b piece h
    obtain ⟨b2, hrest, h2⟩ := ih h1
    refine ⟨b2, ?_, ?_⟩
    · rw [List.foldlM_cons, hbody, some_bind, hrest]
    · rwa [List.flatten_cons, ← List.append_assoc]

/-! ## Loops that fill an array -/

@[simp] theorem overwrite_nil (mem : Vector α size) (p : Nat) : overwrite mem p [] = mem := by
  apply Vector.ext
  intro i hi
  apply Option.some.inj
  rw [← Vector.getElem?_eq_getElem, ← Vector.getElem?_eq_getElem, getElem?_overwrite, if_neg]
  rw [List.length_nil]
  omega

/-- Two writes next to each other. -/
theorem overwrite_append (mem : Vector α size) (p : Nat) (xs ys : List α) :
    overwrite (overwrite mem p xs) (p + xs.length) ys = overwrite mem p (xs ++ ys) := by
  apply Vector.ext
  intro j hj
  apply Option.some.inj
  rw [← Vector.getElem?_eq_getElem, ← Vector.getElem?_eq_getElem, getElem?_overwrite,
    getElem?_overwrite, getElem?_overwrite, List.length_append]
  by_cases hys : p + xs.length ≤ j ∧ j < p + xs.length + ys.length
  · rw [if_pos (by omega), if_pos (by omega), List.getElem?_append_right (by omega), Nat.sub_sub]
  · rw [if_neg (by omega)]
    by_cases hxs : p ≤ j ∧ j < p + xs.length
    · rw [if_pos (by omega), if_pos (by omega), List.getElem?_append_left (by omega)]
    · rw [if_neg (by omega), if_neg (by omega)]

/-- One more entry. -/
theorem store_overwrite (mem : Vector α size) {p : Nat} {ws : List α} (v : α)
    (h : p + ws.length < size) :
    store (overwrite mem p ws) (p + ws.length) v = some (overwrite mem p (ws ++ [v])) := by
  rw [store, dif_pos h]
  apply congrArg some
  apply Vector.ext
  intro j hj
  apply Option.some.inj
  rw [← Vector.getElem?_eq_getElem, ← Vector.getElem?_eq_getElem, Vector.getElem?_set,
    getElem?_overwrite, getElem?_overwrite, List.length_append, List.length_singleton]
  by_cases hlast : p + ws.length = j
  · rw [if_pos hlast, if_pos (by omega), ← hlast, Nat.add_sub_cancel_left,
      List.getElem?_concat_length]
  · rw [if_neg hlast]
    by_cases hin : p ≤ j ∧ j < p + ws.length
    · rw [if_pos (by omega), if_pos (by omega), List.getElem?_append_left (by omega)]
    · rw [if_neg (by omega), if_neg (by omega)]

/-- `for (i = 0; i < n; i++) mem[p + i] = value`. -/
def fill (p n : Nat) (value : Vector α size → Nat → Option α) (mem : Vector α size) :
    Option (Vector α size) :=
  (List.range n).foldlM (fun mem i => (value mem i).bind (store mem (p + i))) mem

/-- The loop writes `ws`, if every pass finds its value after the passes before
it. -/
theorem fill_eq_overwrite {value : Vector α size → Nat → Option α} {mem : Vector α size} {p : Nat}
    (ws : List α) (h : p + ws.length ≤ size)
    (hvalue : ∀ i < ws.length, value (overwrite mem p (ws.take i)) i = ws[i]?) :
    fill p ws.length value mem = some (overwrite mem p ws) := by
  have hpass : ∀ i < ws.length, ∀ mem', mem' = overwrite mem p (ws.take i) →
      ∃ mem'', (value mem' i).bind (store mem' (p + i)) = some mem'' ∧
        mem'' = overwrite mem p (ws.take (i + 1)) := by
    rintro i hi mem' rfl
    have hlen : (ws.take i).length = i := List.length_take_of_le (by omega)
    have hroom : p + (ws.take i).length < size := by omega
    have hstore := store_overwrite mem ws[i] hroom
    rw [hlen, List.take_append_getElem] at hstore
    exact ⟨_, by rw [hvalue i hi, List.getElem?_eq_getElem hi, Option.bind_some, hstore], rfl⟩
  obtain ⟨mem', hfill, hmem'⟩ := foldlM_range_spec
    (fun i mem' => mem' = overwrite mem p (ws.take i))
    (by rw [List.take_zero, overwrite_nil]) hpass
  rw [fill, hfill, hmem', List.take_length]

/-- `for (i = 0; i < n; i++) mem[p + i] = f(mem[p + i], source[i])`. -/
def update {β : Type} (f : α → β → α) (p n : Nat) (source : Vector α size → Nat → Option β)
    (mem : Vector α size) : Option (Vector α size) :=
  fill p n (fun mem i => do return f (← load mem (p + i)) (← source mem i)) mem

/-- The loop combines the entries with those of the source, if the passes leave
the source as it is. -/
theorem update_eq_overwrite {β : Type} {f : α → β → α} {p n : Nat}
    {source : Vector α size → Nat → Option β} {mem : Vector α size} {src : List β}
    (h : p + n ≤ size) (hlen : src.length = n)
    (hsource : ∀ i < n, ∀ ws : List α, ws.length = i → source (overwrite mem p ws) i = src[i]?) :
    update f p n source mem = some (overwrite mem p (List.zipWith f (window mem p n) src)) := by
  have hget : ∀ i : Nat, (List.zipWith f (window mem p n) src)[i]? =
      (window mem p n)[i]?.bind fun d => src[i]?.map (f d) := by
    intro i
    rw [List.getElem?_zipWith]
    cases (window mem p n)[i]? <;> cases src[i]? <;> rfl
  have hzip : (List.zipWith f (window mem p n) src).length = n := by
    rw [List.length_zipWith, length_window h, hlen, Nat.min_self]
  generalize List.zipWith f (window mem p n) src = ws at hget hzip
  subst hzip
  apply fill_eq_overwrite ws h
  intro i hi
  have htake : (ws.take i).length = i := List.length_take_of_le (Nat.le_of_lt hi)
  have hload : load (overwrite mem p (ws.take i)) (p + i) = (window mem p ws.length)[i]? := by
    rw [load, getElem?_overwrite, if_neg (by omega), getElem?_window, if_pos hi]
  rw [hload, hsource i hi _ htake, hget, Option.bind_eq_bind]
  cases (window mem p ws.length)[i]? <;> cases src[i]? <;> rfl

end OracleMachine.Lib.Memory
