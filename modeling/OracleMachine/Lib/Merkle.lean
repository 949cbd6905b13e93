import Mathlib.Data.List.Basic

/-!
# Merkle trees with a doubled last node

A level of the tree is a list of nodes.  The level above has one node for each
pair of neighbours, and the last node of an odd level is paired with itself
(`parents`).  The root is what is left when a level has a single node.

The path of the leftmost leaf is the list of its siblings, one from each level
below the root (`leftSiblings`).  Folding the path up from the leaf gives the
root (`root_eq_foldl`): the leftmost node of the next level is made of the
first two nodes of this one, at every width.
-/

namespace OracleMachine.Lib.Merkle

variable {α : Type} (node : α → α → α)

/-- The level above. -/
def parents : List α → List α
  | [] => []
  | [a] => [node a a]
  | a :: b :: rest => node a b :: parents rest

theorem length_parents (level : List α) : (parents node level).length = (level.length + 1) / 2 := by
  fun_induction parents node level with
  | case1 => simp
  | case2 a => simp
  | case3 a b rest ih =>
    simp only [List.length_cons, ih]
    omega

/-- The root of the tree over a level.  There is none over the empty level. -/
def root : List α → Option α
  | [] => none
  | [a] => some a
  | a :: b :: rest => root (parents node (a :: b :: rest))
termination_by level => level.length
decreasing_by
  rw [length_parents]
  simp only [List.length_cons]
  omega

/-- The siblings of the leftmost node of every level, from the bottom up. -/
def leftSiblings : List α → List α
  | [] => []
  | [_] => []
  | a :: b :: rest => b :: leftSiblings (parents node (a :: b :: rest))
termination_by level => level.length
decreasing_by
  rw [length_parents]
  simp only [List.length_cons]
  omega

/-- The siblings lead from the leftmost leaf to the root. -/
theorem root_eq_foldl (a : α) (rest : List α) :
    root node (a :: rest) = some ((leftSiblings node (a :: rest)).foldl node a) := by
  -- one level up, the leftmost node is the pair of the first two
  have hlevels : ∀ (n : Nat) (a : α) (rest : List α), rest.length ≤ n →
      root node (a :: rest) = some ((leftSiblings node (a :: rest)).foldl node a) := by
    intro n
    induction n with
    | zero =>
      intro a rest hrest
      obtain rfl : rest = [] := List.eq_nil_of_length_eq_zero (by omega)
      rw [root, leftSiblings, List.foldl_nil]
    | succ n ih =>
      intro a rest hrest
      cases rest with
      | nil => rw [root, leftSiblings, List.foldl_nil]
      | cons b rest =>
        rw [root, leftSiblings, List.foldl_cons, parents]
        apply ih
        rw [length_parents]
        rw [List.length_cons] at hrest
        omega
  exact hlevels rest.length a rest (Nat.le_refl _)

end OracleMachine.Lib.Merkle
