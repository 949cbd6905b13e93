import Mathlib.Algebra.Ring.Nat
import Mathlib.Data.List.Basic

/-!
# Ranges of a memory

A range is an offset and a length.  Code that walks over a buffer with a
pointer reads ranges that follow each other; `consecutive` lists them for given
lengths.  They all lie inside a buffer exactly when the lengths add up to no
more than its size (`consecutive_inside_iff`): the end of the last range that
is not empty is the end of all of them.  A memory that holds given parts one
behind the other gives them back at these ranges (`read_consecutive`).
-/

namespace OracleMachine.Lib.Ranges

/-- `length` entries from `offset` on. -/
structure Range where
  offset : Nat
  length : Nat
  deriving DecidableEq

/-- Every entry of the range lies in a buffer of the given size. -/
def Range.Inside (size : Nat) (r : Range) : Prop := ∀ k < r.length, r.offset + k < size

instance (size : Nat) : DecidablePred (Range.Inside size) :=
  fun r => inferInstanceAs (Decidable (∀ k < r.length, r.offset + k < size))

/-- The entries of a range of a memory. -/
def Range.read {α : Type} (memory : Nat → α) (r : Range) : List α :=
  (List.range r.length).map fun k => memory (r.offset + k)

/-- Ranges of the given lengths, one after the other from `offset` on. -/
def consecutive : Nat → List Nat → List Range
  | _, [] => []
  | offset, n :: ns => ⟨offset, n⟩ :: consecutive (offset + n) ns

theorem inside_iff {size : Nat} {r : Range} :
    r.Inside size ↔ r.length = 0 ∨ r.offset + r.length ≤ size := by
  constructor
  · intro h
    by_cases hzero : r.length = 0
    · exact .inl hzero
    · have hlast := h (r.length - 1) (by omega)
      omega
  · intro h k hk
    omega

/-- Consecutive ranges lie inside a buffer exactly when the last entry does. -/
theorem consecutive_inside_iff {size : Nat} (offset : Nat) (lengths : List Nat) :
    (∀ r ∈ consecutive offset lengths, r.Inside size) ↔
      lengths.sum = 0 ∨ offset + lengths.sum ≤ size := by
  induction lengths generalizing offset with
  | nil => simp [consecutive]
  | cons n ns ih =>
    rw [consecutive, List.forall_mem_cons, ih, inside_iff, List.sum_cons]
    show (n = 0 ∨ offset + n ≤ size) ∧ _ ↔ _
    omega

theorem consecutive_append (offset : Nat) (ns ms : List Nat) :
    consecutive offset (ns ++ ms) =
      consecutive offset ns ++ consecutive (offset + ns.sum) ms := by
  induction ns generalizing offset with
  | nil => simp [consecutive]
  | cons n ns ih =>
    rw [List.cons_append, consecutive, consecutive, List.cons_append, ih, List.sum_cons,
      Nat.add_assoc]

/-! ## A memory that holds given parts -/

section Parts

variable {α : Type} (memory : Nat → α)

theorem read_add (offset n k : Nat) :
    Range.read memory ⟨offset, n + k⟩ =
      Range.read memory ⟨offset, n⟩ ++ Range.read memory ⟨offset + n, k⟩ := by
  simp only [Range.read, List.range_add, List.map_append, List.map_map, Function.comp_def,
    Nat.add_assoc]

theorem length_read (r : Range) : (Range.read memory r).length = r.length := by
  rw [Range.read, List.length_map, List.length_range]

/-- `memory` holds the entries from `offset` on. -/
def Holds (offset : Nat) (entries : List α) : Prop :=
  Range.read memory ⟨offset, entries.length⟩ = entries

/-- The memory that starts with the given entries and goes on as `behind`. -/
def startingWith (entries : List α) (behind : Nat → α) : Nat → α := fun k => entries.getD k (behind k)

theorem holds_startingWith (entries : List α) (behind : Nat → α) :
    Holds (startingWith entries behind) 0 entries := by
  apply List.ext_getElem
  · exact length_read _ _
  · intro k hk hlt
    simp [Range.read, startingWith, hlt]

theorem holds_append {offset : Nat} {as bs : List α} :
    Holds memory offset (as ++ bs) ↔
      Holds memory offset as ∧ Holds memory (offset + as.length) bs := by
  rw [Holds, List.length_append, read_add]
  constructor
  · intro h
    exact List.append_inj h (length_read memory _)
  · intro h
    rw [h.1, h.2]

/-- Parts that are held one behind the other are read back from their ranges. -/
theorem read_consecutive {offset : Nat} {parts : List (List α)}
    (h : Holds memory offset parts.flatten) :
    (consecutive offset (parts.map List.length)).map (Range.read memory) = parts := by
  induction parts generalizing offset with
  | nil => rfl
  | cons part parts ih =>
    have hheld := (holds_append memory).mp h
    rw [List.map_cons, consecutive, List.map_cons, hheld.1, ih hheld.2]

/-- Ranges of one length start at its multiples. -/
theorem consecutive_replicate (offset n k : Nat) :
    consecutive offset (List.replicate n k) =
      (List.range n).map fun i => ⟨offset + k * i, k⟩ := by
  induction n generalizing offset with
  | zero => rfl
  | succ n ih =>
    rw [List.replicate_succ, consecutive, ih, List.range_succ_eq_map, List.map_cons, List.map_map]
    simp only [Function.comp_def, Nat.mul_zero, Nat.add_zero, Nat.mul_succ, Nat.add_assoc,
      Nat.add_comm k]

end Parts

end OracleMachine.Lib.Ranges
