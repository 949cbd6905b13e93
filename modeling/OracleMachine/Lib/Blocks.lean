import Mathlib.Data.List.Basic
import OracleMachine.Lib.Bytes

/-!
# Lists cut into blocks

`blocks n xs` are the complete blocks of `n` entries of a list, and `rest n xs` is
what is left behind them.  A list that arrives in pieces has the same blocks:
those of the first piece, and those of what it left over together with the next
piece (`blocks_append`, `rest_append`).

`absorb` folds a compression function over the blocks, which is how an iterated
hash function and a machine that is fed in pieces proceed.
-/

namespace OracleMachine.Lib.Blocks

open Lib.Bytes

variable {α : Type} {n : Nat}

/-- The complete blocks of `n` entries. -/
def blocks (n : Nat) (xs : List α) : List (List α) :=
  (List.range (xs.length / n)).map fun i => slice xs (n * i) n

/-- What is behind the last complete block. -/
def rest (n : Nat) (xs : List α) : List α := xs.drop (n * (xs.length / n))

@[simp] theorem length_blocks (n : Nat) (xs : List α) : (blocks n xs).length = xs.length / n := by
  rw [blocks, List.length_map, List.length_range]

theorem length_of_mem_blocks (n : Nat) (xs : List α) : ∀ block ∈ blocks n xs, block.length = n := by
  intro block h
  obtain ⟨i, hi, rfl⟩ := List.mem_map.mp h
  have hlt : i < xs.length / n := List.mem_range.mp hi
  apply length_slice
  calc n * i + n = n * (i + 1) := (Nat.mul_succ n i).symm
    _ ≤ n * (xs.length / n) := Nat.mul_le_mul_left n hlt
    _ ≤ xs.length := Nat.mul_div_le xs.length n

/-- The blocks side by side are the list up to the rest. -/
theorem flatten_blocks (n : Nat) (xs : List α) :
    (blocks n xs).flatten = xs.take (n * (xs.length / n)) := by
  rw [blocks, ← List.flatMap_def, flatMap_slice]

theorem flatten_blocks_append_rest (n : Nat) (xs : List α) :
    (blocks n xs).flatten ++ rest n xs = xs := by
  rw [flatten_blocks, rest, List.take_append_drop]

theorem length_rest (n : Nat) (xs : List α) : (rest n xs).length = xs.length % n := by
  have hdiv := Nat.div_add_mod xs.length n
  rw [rest, List.length_drop]
  omega

theorem getElem?_blocks {xs : List α} {i : Nat} (h : i < xs.length / n) :
    (blocks n xs)[i]? = some (slice xs (n * i) n) := by
  rw [blocks, List.getElem?_map, List.getElem?_range h, Option.map_some]

/-! ## Lists that arrive in pieces -/

theorem blocks_of_lt {xs : List α} (h : xs.length < n) : blocks n xs = [] := by
  rw [blocks, Nat.div_eq_of_lt h, List.range_zero, List.map_nil]

theorem rest_of_lt {xs : List α} (h : xs.length < n) : rest n xs = xs := by
  rw [rest, Nat.div_eq_of_lt h, Nat.mul_zero, List.drop_zero]

/-- A complete block in front. -/
theorem blocks_append_block {block : List α} (hn : 0 < n) (h : block.length = n) (xs : List α) :
    blocks n (block ++ xs) = block :: blocks n xs := by
  have hcount : (block ++ xs).length / n = xs.length / n + 1 := by
    rw [List.length_append, h, Nat.add_comm, Nat.add_div_right _ hn]
  rw [blocks, hcount, List.range_succ_eq_map, List.map_cons, List.map_map, Nat.mul_zero,
    slice_append_left h, blocks]
  congr 1
  apply List.map_congr_left
  intro i _
  have hoff : n * (i + 1) = n * i + n := Nat.mul_succ n i
  show slice (block ++ xs) (n * (i + 1)) n = _
  rw [slice_append_right (by omega), h, hoff, Nat.add_sub_cancel]

theorem rest_append_block {block : List α} (hn : 0 < n) (h : block.length = n) (xs : List α) :
    rest n (block ++ xs) = rest n xs := by
  have hoff : n * ((block ++ xs).length / n) = block.length + n * (xs.length / n) := by
    rw [List.length_append, h, Nat.add_comm n, Nat.add_div_right _ hn, Nat.mul_succ, Nat.add_comm]
  rw [rest, hoff, List.drop_length_add_append, rest]

theorem blocks_flatten_append (hn : 0 < n) {bs : List (List α)} (hbs : ∀ b ∈ bs, b.length = n)
    (xs : List α) :
    blocks n (bs.flatten ++ xs) = bs ++ blocks n xs ∧ rest n (bs.flatten ++ xs) = rest n xs := by
  induction bs with
  | nil => exact ⟨rfl, rfl⟩
  | cons b bs ih =>
    have hb : b.length = n := hbs b List.mem_cons_self
    obtain ⟨hblocks, hrest⟩ := ih fun b hmem => hbs b (List.mem_cons_of_mem _ hmem)
    rw [List.flatten_cons, List.append_assoc, blocks_append_block hn hb, rest_append_block hn hb,
      hblocks, hrest]
    exact ⟨rfl, rfl⟩

/-- The blocks of a list that was cut into blocks. -/
theorem blocks_flatten (hn : 0 < n) {bs : List (List α)} (hbs : ∀ b ∈ bs, b.length = n) :
    blocks n bs.flatten = bs := by
  have hnil : blocks n ([] : List α) = [] := blocks_of_lt hn
  have hblocks := (blocks_flatten_append hn hbs []).1
  rwa [hnil, List.append_nil, List.append_nil] at hblocks

/-- The blocks of two pieces. -/
theorem blocks_append (hn : 0 < n) (xs ys : List α) :
    blocks n (xs ++ ys) = blocks n xs ++ blocks n (rest n xs ++ ys) := by
  have hpieces := (blocks_flatten_append hn (length_of_mem_blocks n xs)
    (rest n xs ++ ys)).1
  rwa [← List.append_assoc, flatten_blocks_append_rest] at hpieces

/-- The rest of two pieces. -/
theorem rest_append (hn : 0 < n) (xs ys : List α) :
    rest n (xs ++ ys) = rest n (rest n xs ++ ys) := by
  have hpieces := (blocks_flatten_append hn (length_of_mem_blocks n xs)
    (rest n xs ++ ys)).2
  rwa [← List.append_assoc, flatten_blocks_append_rest] at hpieces

/-! ## Absorbing -/

section Absorb

variable {σ : Type} (compress : σ → List α → σ) (s : σ)

/-- Compress the complete blocks, one after the other. -/
def absorb (n : Nat) (xs : List α) : σ := (blocks n xs).foldl compress s

theorem absorb_of_lt {xs : List α} (h : xs.length < n) : absorb compress s n xs = s := by
  rw [absorb, blocks_of_lt h, List.foldl_nil]

theorem absorb_append_block (hn : 0 < n) {block : List α} (h : block.length = n) (xs : List α) :
    absorb compress s n (block ++ xs) = absorb compress (compress s block) n xs := by
  rw [absorb, blocks_append_block hn h, List.foldl_cons, absorb]

/-- A second piece goes on where the first one stopped. -/
theorem absorb_append (hn : 0 < n) (xs ys : List α) :
    absorb compress s n (xs ++ ys) =
      absorb compress (absorb compress s n xs) n (rest n xs ++ ys) := by
  rw [absorb, blocks_append hn, List.foldl_append, absorb, absorb]

end Absorb

end OracleMachine.Lib.Blocks
