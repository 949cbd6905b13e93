import Mathlib.Algebra.Order.BigOperators.Group.List
import Mathlib.Algebra.Order.Group.Nat
import Mathlib.Data.List.Induction
import OracleMachine.Lib.Merkle
import OracleMachine.Services.DogeService

/-!
# The verdict on a share

What the reply of the Doge service says about a share.  A `Share` is a mining
task with a solution, in the terms of the mining protocol; `Share.toQuery` packs
it into the query structure.  `verdict_of_share` says that the service gives it
the verdict it stands for: the computor index of the extra nonce, and whether
the scrypt hash of the block header, as a 256-bit number, is at most the target.

The header carries the Merkle root of the block.  It is folded from the hash of
the coinbase transaction over the branches of the task, and is the root of the
tree over all transactions when the branches are the siblings on the path of
the coinbase (`root_of_branches`).
-/

namespace OracleMachine.Services.DogeService

open Lib Lib.Bytes Lib.Ranges

/-! ## The Merkle root -/

/-- The fold of `calculateMerkleRoot`, for any hash of byte strings. -/
def foldBranches (hash : List UInt8 → List UInt8) (coinbase : List UInt8)
    (merkleBranches : List (List UInt8)) : List UInt8 :=
  merkleBranches.foldl (fun currentHash branch => hash (currentHash ++ branch)) (hash coinbase)

theorem calculateMerkleRoot_eq (I : Interface)
    (coinbase1 coinbase2 extraNonce1 extraNonce2 : List UInt8)
    (merkleBranches : List (List UInt8)) :
    calculateMerkleRoot I coinbase1 coinbase2 extraNonce1 extraNonce2 merkleBranches =
      foldBranches (doubleSHA256 I) (coinbase1 ++ extraNonce1 ++ extraNonce2 ++ coinbase2)
        merkleBranches := rfl

/-- The root of the block.  If the branches are the siblings of the leftmost
nodes of the tree over the transaction hashes, of which the first is the hash
of the coinbase, then the fold gives the root of the tree.  This holds for any
hash in the place of the double SHA-256, and so for `calculateMerkleRoot`. -/
theorem root_of_branches :
    (∀ (hash : List UInt8 → List UInt8) (coinbase : List UInt8) (others : List (List UInt8)),
      Merkle.root (fun left right => hash (left ++ right)) (hash coinbase :: others) =
        some (foldBranches hash coinbase
          (Merkle.leftSiblings (fun left right => hash (left ++ right))
            (hash coinbase :: others)))) ∧
    ∀ (I : Interface) (coinbase1 coinbase2 extraNonce1 extraNonce2 : List UInt8)
      (others : List (List UInt8)),
      let node := fun left right => doubleSHA256 I (left ++ right)
      let leaves :=
        doubleSHA256 I (coinbase1 ++ extraNonce1 ++ extraNonce2 ++ coinbase2) :: others
      Merkle.root node leaves =
        some (calculateMerkleRoot I coinbase1 coinbase2 extraNonce1 extraNonce2
          (Merkle.leftSiblings node leaves)) := by
  have hroot : ∀ (hash : List UInt8 → List UInt8) (coinbase : List UInt8)
      (others : List (List UInt8)),
      Merkle.root (fun left right => hash (left ++ right)) (hash coinbase :: others) =
        some (foldBranches hash coinbase
          (Merkle.leftSiblings (fun left right => hash (left ++ right))
            (hash coinbase :: others))) := by
    intro hash coinbase others
    exact Merkle.root_eq_foldl _ (hash coinbase) others
  constructor
  · exact hroot
  · intro I coinbase1 coinbase2 extraNonce1 extraNonce2 others node leaves
    rw [calculateMerkleRoot_eq]
    exact hroot (doubleSHA256 I) _ others

/-! ## Shares -/

/-- A task and a solution.  The widths are those of the fields of the query. -/
structure Share where
  version : List UInt8
  prevBlockHash : List UInt8
  time : List UInt8
  difficultyNBits : List UInt8
  nonce : List UInt8
  target : List UInt8
  extraNonce1 : List UInt8
  extraNonce2 : List UInt8
  coinbase1 : List UInt8
  coinbase2 : List UInt8
  merkleBranches : List (List UInt8)
  header_length : version.length + prevBlockHash.length + time.length + difficultyNBits.length +
    nonce.length = 48
  target_length : target.length = 32
  extraNonce2_length : extraNonce2.length = 8

namespace Share

/-- The lengths of the branches as 32-bit words. -/
def lengthWords (share : Share) : List (List UInt8) :=
  share.merkleBranches.map fun branch => leBytes sizeofUnsigned branch.length

/-- The parts of `additionalData` in their order. -/
def parts (share : Share) : List (List UInt8) :=
  [share.extraNonce1, share.coinbase1, share.coinbase2, share.lengthWords.flatten] ++
    share.merkleBranches

/-- What is written to `additionalData`. -/
def serialise (share : Share) : List UInt8 := share.parts.flatten

/-- The query for a share.  `behind` is what follows the parts in memory. -/
def toQuery (share : Share) (behind : Nat → UInt8) : OracleQuery where
  target := share.target
  taskPartialHeaderVersion := share.version
  taskPartialHeaderPrevBlockHash := share.prevBlockHash
  taskPartialHeaderDifficultyNBits := share.difficultyNBits
  solutionTime := share.time
  solutionNonce := share.nonce
  solutionExtraNonce2 := share.extraNonce2
  extraNonce1NumBytes := UInt32.ofNat share.extraNonce1.length
  coinbase1NumBytes := UInt32.ofNat share.coinbase1.length
  coinbase2NumBytes := UInt32.ofNat share.coinbase2.length
  numMerkleBranches := UInt32.ofNat share.merkleBranches.length
  additionalData := startingWith share.serialise behind

/-- The coinbase transaction, in the order in which it is hashed. -/
def coinbase (share : Share) : List UInt8 :=
  share.coinbase1 ++ share.extraNonce1 ++ share.extraNonce2 ++ share.coinbase2

/-- The block header of the share.  The root is folded with the SHA-256 of the SHA-256. -/
def header (I : Interface) (share : Share) : List UInt8 :=
  share.version ++ share.prevBlockHash ++
    foldBranches (fun data => I.sha256 (I.sha256 data)) share.coinbase share.merkleBranches ++
    share.time ++ share.difficultyNBits ++ share.nonce

/-! ## Reading the parts back -/

theorem length_lengthWords (share : Share) :
    share.lengthWords.map List.length =
      List.replicate share.merkleBranches.length sizeofUnsigned := by
  simp only [lengthWords, List.map_map, Function.comp_def, length_leBytes, List.map_const']

theorem length_serialise (share : Share) :
    share.serialise.length =
      share.extraNonce1.length + share.coinbase1.length + share.coinbase2.length +
        share.merkleBranches.length * sizeofUnsigned +
        (share.merkleBranches.map List.length).sum := by
  simp only [serialise, parts, List.flatten_append, List.length_append, List.flatten_cons,
    List.flatten_nil, List.length_flatten, length_lengthWords, List.sum_replicate_nat, List.length_nil]
  omega

/-- The words are held behind the first three parts. -/
theorem holds_lengthWords (share : Share) (behind : Nat → UInt8) :
    Holds (share.toQuery behind).additionalData
      (share.extraNonce1.length + share.coinbase1.length + share.coinbase2.length)
      share.lengthWords.flatten := by
  have hheld : Holds (share.toQuery behind).additionalData 0 share.serialise :=
    holds_startingWith share.serialise behind
  simp only [serialise, parts, List.cons_append, List.nil_append, List.flatten_cons, holds_append,
    Nat.zero_add] at hheld
  exact hheld.2.2.2.1

section Fitting

variable {share : Share} (behind : Nat → UInt8) (hfits : share.serialise.length < 2 ^ 32)
include hfits

theorem toNat_counts :
    (share.toQuery behind).extraNonce1NumBytes.toNat = share.extraNonce1.length ∧
    (share.toQuery behind).coinbase1NumBytes.toNat = share.coinbase1.length ∧
    (share.toQuery behind).coinbase2NumBytes.toNat = share.coinbase2.length ∧
    (share.toQuery behind).numMerkleBranches.toNat = share.merkleBranches.length := by
  have hcount : ∀ n < 2 ^ 32, (UInt32.ofNat n).toNat = n := fun n hn => UInt32.toNat_ofNat_of_lt' hn
  rw [length_serialise, sizeofUnsigned] at hfits
  refine ⟨hcount _ ?_, hcount _ ?_, hcount _ ?_, hcount _ ?_⟩ <;> omega

theorem lengthsOffset_toQuery :
    (share.toQuery behind).lengthsOffset =
      share.extraNonce1.length + share.coinbase1.length + share.coinbase2.length := by
  obtain ⟨h1, h2, h3, -⟩ := toNat_counts behind hfits
  rw [OracleQuery.lengthsOffset, h1, h2, h3]

theorem length_branch_lt {branch : List UInt8} (hbranch : branch ∈ share.merkleBranches) :
    branch.length < 2 ^ 32 := by
  have hle : branch.length ≤ (share.merkleBranches.map List.length).sum :=
    List.le_sum_of_mem (List.mem_map_of_mem hbranch)
  rw [length_serialise] at hfits
  omega

/-- The words in front of the branches are read as their lengths. -/
theorem branchLengths_toQuery :
    (share.toQuery behind).branchLengths =
      share.merkleBranches.map fun branch => UInt32.ofNat branch.length := by
  have hwords := read_consecutive _ (holds_lengthWords share behind)
  rw [length_lengthWords, consecutive_replicate, List.map_map] at hwords
  have hread : (share.toQuery behind).branchLengths =
      share.lengthWords.map fun word => UInt32.ofNat (leVal word) := by
    rw [OracleQuery.branchLengths, (toNat_counts behind hfits).2.2.2, ← hwords, List.map_map]
    apply List.map_congr_left
    intro b _
    rw [OracleQuery.branchNumBytes, lengthsOffset_toQuery behind hfits]
    rfl
  rw [hread, lengthWords, List.map_map]
  apply List.map_congr_left
  intro branch hbranch
  have hlt := length_branch_lt hfits hbranch
  show UInt32.ofNat (leVal (leBytes 4 branch.length)) = _
  rw [leVal_leBytes hlt]

theorem toNat_branchLengths :
    (share.toQuery behind).branchLengths.map UInt32.toNat =
      share.merkleBranches.map List.length := by
  rw [branchLengths_toQuery behind hfits, List.map_map]
  apply List.map_congr_left
  intro branch hbranch
  exact UInt32.toNat_ofNat_of_lt' (length_branch_lt hfits hbranch)

theorem exactSize_toQuery : (share.toQuery behind).exactSize = share.serialise.length := by
  rw [OracleQuery.exactSize, lengthsOffset_toQuery behind hfits, toNat_branchLengths behind hfits,
    (toNat_counts behind hfits).2.2.2, length_serialise]

/-- The decoder inverts the serialisation. -/
theorem read_ranges :
    (share.toQuery behind).task.ranges.map (Range.read (share.toQuery behind).additionalData) =
      share.parts := by
  obtain ⟨h1, h2, h3, h4⟩ := toNat_counts behind hfits
  have hlengths : share.parts.map List.length =
      [share.extraNonce1.length, share.coinbase1.length, share.coinbase2.length,
        share.merkleBranches.length * sizeofUnsigned] ++ share.merkleBranches.map List.length := by
    simp only [parts, List.map_append, List.map_cons, List.map_nil, List.length_flatten,
      length_lengthWords, List.sum_replicate_nat]
  rw [ranges_task, h1, h2, h3, h4, toNat_branchLengths behind hfits, ← hlengths]
  exact read_consecutive _ (holds_startingWith share.serialise behind)

end Fitting
end Share

/-! ## The numbers compared -/

/-- The loop compares the numbers that the bytes stand for, most significant
byte first. -/
theorem verifyLoop_eq {hash target : List UInt8} (hlength : hash.length = target.length) :
    verifyLoop hash target = decide (beVal hash ≤ beVal target) := by
  induction hash generalizing target with
  | nil =>
    obtain rfl : target = [] := List.eq_nil_of_length_eq_zero hlength.symm
    simp [verifyLoop]
  | cons h hash ih =>
    cases target with
    | nil => simp at hlength
    | cons t target =>
      have hrest : hash.length = target.length := by simpa using hlength
      have hlt := beVal_lt hash
      have htlt := beVal_lt target
      rw [hrest] at hlt
      rw [verifyLoop, ih hrest, beVal_cons, beVal_cons, hrest]
      -- the first byte decides unless both are the same
      by_cases hless : h < t
      · rw [if_pos hless]
        have hstep : (h.toNat + 1) * 256 ^ target.length ≤ t.toNat * 256 ^ target.length :=
          Nat.mul_le_mul_right _ (UInt8.lt_iff_toNat_lt.mp hless)
        rw [Nat.add_mul] at hstep
        exact (decide_eq_true (by omega)).symm
      · rw [if_neg hless]
        by_cases hgreater : t < h
        · rw [if_pos hgreater]
          have hstep : (t.toNat + 1) * 256 ^ target.length ≤ h.toNat * 256 ^ target.length :=
            Nat.mul_le_mul_right _ (UInt8.lt_iff_toNat_lt.mp hgreater)
          rw [Nat.add_mul] at hstep
          exact (decide_eq_false (by omega)).symm
        · rw [if_neg hgreater]
          obtain rfl : h = t := UInt8.le_antisymm (UInt8.not_lt.mp hgreater) (UInt8.not_lt.mp hless)
          apply decide_eq_decide.mpr
          omega

/-- `verifyHashVsTarget` compares two little-endian integers. -/
theorem verifyHashVsTarget_eq {hash target : List UInt8} (hlength : hash.length = target.length) :
    verifyHashVsTarget hash target = decide (leVal hash ≤ leVal target) := by
  rw [verifyHashVsTarget, verifyLoop_eq (by simpa using hlength), beVal_reverse, beVal_reverse]

theorem toNat_shift_or (index : UInt32) (b : UInt8) (hindex : index.toNat < 2 ^ 24) :
    ((index <<< 8) ||| b.toUInt32).toNat = 256 * index.toNat + b.toNat := by
  have hb := UInt8.toNat_lt b
  have height : (8 : UInt32).toNat % 32 = 8 := by decide
  rw [UInt32.toNat_or, UInt32.toNat_shiftLeft, height, UInt8.toNat_toUInt32, Nat.shiftLeft_eq,
    Nat.mod_eq_of_lt (by omega), ← Nat.shiftLeft_eq, ← Nat.shiftLeft_add_eq_or_of_lt hb,
    Nat.shiftLeft_eq]
  omega

/-- Up to four bytes are shifted in without loss. -/
theorem toNat_foldl_shift (bytes : List UInt8) (hbytes : bytes.length ≤ 4) :
    (bytes.foldl (fun (index : UInt32) b => (index <<< 8) ||| b.toUInt32) 0).toNat =
      beVal bytes := by
  -- one byte more at the end: what is there so far has at most three
  induction bytes using List.reverseRecOn with
  | nil => rfl
  | append_singleton bytes b ih =>
    rw [List.length_append, List.length_singleton] at hbytes
    have hvalue := ih (by omega)
    have hlt : beVal bytes < 2 ^ 24 :=
      calc beVal bytes < 256 ^ bytes.length := beVal_lt bytes
        _ ≤ 256 ^ 3 := Nat.pow_le_pow_right (by decide) (by omega)
    rw [List.foldl_append, List.foldl_cons, List.foldl_nil,
      toNat_shift_or _ b (by rw [hvalue]; exact hlt), hvalue, beVal_concat]

theorem toNat_compIndex (I : Interface) (query : OracleQuery) :
    (compIndex I query).toNat =
      beVal (query.solutionExtraNonce2.take 4) % I.numberOfComputors.toNat := by
  rw [compIndex, UInt32.toNat_mod, toNat_foldl_shift _ (List.length_take_le 4 _)]

/-! ## The verdict -/

section Verdict

variable (I : Interface) (hsha256 : ∀ data, (I.sha256 data).length = 32)
include hsha256

theorem length_foldBranches (coinbase : List UInt8) (merkleBranches : List (List UInt8)) :
    (foldBranches (fun data => I.sha256 (I.sha256 data)) coinbase merkleBranches).length =
      32 := by
  induction merkleBranches using List.reverseRecOn with
  | nil => exact hsha256 _
  | append_singleton branches branch _ =>
    rw [foldBranches, List.foldl_append]
    exact hsha256 _

theorem length_header (share : Share) : (share.header I).length = 80 := by
  have hfields := share.header_length
  simp only [Share.header, List.length_append, length_foldBranches I hsha256]
  omega

/-- The reply to the query for a share that fits. -/
theorem processInterfaceQuery_toQuery {share : Share} {behind : Nat → UInt8}
    {queryPayload : List UInt8} (hsize : I.querySize ≤ queryPayload.length)
    (hquery : I.oracleQuery queryPayload = share.toQuery behind)
    (hfits : share.serialise.length ≤ I.additionalDataSize.toNat) :
    processInterfaceQuery I queryPayload =
      (0, { compIndex := compIndex I (share.toQuery behind)
            isValid := verifyHashVsTarget (I.scrypt (share.header I)) share.target }) := by
  have hlt : share.serialise.length < 2 ^ 32 := Nat.lt_of_le_of_lt hfits I.additionalDataSize.toNat_lt
  have hgather : gatherTask I (share.toQuery behind) = .ok (share.toQuery behind).task := by
    apply gatherTask_eq_ok_iff.mpr
    have hexact := Share.exactSize_toQuery behind hlt
    refine ⟨?_, ?_, rfl⟩
    · rw [UInt32.le_iff_toNat_le, toNat_fixedSize]
      rw [OracleQuery.exactSize] at hexact
      omega
    · rw [hexact, Nat.mod_eq_of_lt hlt]
      exact hfits
  have hparts := Share.read_ranges behind hlt
  simp only [Task.ranges, Share.parts, List.map_cons, List.cons_append, List.nil_append, List.cons.injEq] at hparts
  obtain ⟨h1, h2, h3, -, hbranches⟩ := hparts
  rw [processInterfaceQuery, if_neg (by omega), hquery]
  simp only [hgather, h1, h2, h3, hbranches]
  have hheader : fullHeader (share.toQuery behind)
      (calculateMerkleRoot I share.coinbase1 share.coinbase2 share.extraNonce1 share.extraNonce2
        share.merkleBranches) = share.header I := rfl
  have hroot : (share.toQuery behind).solutionExtraNonce2 = share.extraNonce2 := rfl
  rw [hroot, hheader, if_neg (by rw [length_header I hsha256]; decide)]
  rfl

/-- The verdict.  For every share whose parts fit into `additionalData`, the
service returns no error, the index of the computor in the first four bytes of
the extra nonce, and that the share is valid if and only if the scrypt hash of
its header is at most its target, both as little-endian 256-bit integers. -/
theorem verdict_of_share (hscrypt : ∀ data, (I.scrypt data).length = 32) (share : Share)
    (behind : Nat → UInt8) (queryPayload : List UInt8) (hsize : I.querySize ≤ queryPayload.length)
    (hquery : I.oracleQuery queryPayload = share.toQuery behind)
    (hfits : share.serialise.length ≤ I.additionalDataSize.toNat) :
    (processInterfaceQuery I queryPayload).1 = 0 ∧
    (processInterfaceQuery I queryPayload).2.compIndex.toNat =
      beVal (share.extraNonce2.take 4) % I.numberOfComputors.toNat ∧
    ((processInterfaceQuery I queryPayload).2.isValid = true ↔
      leVal (I.scrypt (share.header I)) ≤ leVal share.target) := by
  have hlength : (I.scrypt (share.header I)).length = share.target.length := by
    rw [hscrypt, share.target_length]
  rw [processInterfaceQuery_toQuery I hsha256 hsize hquery hfits]
  refine ⟨rfl, toNat_compIndex I _, ?_⟩
  show verifyHashVsTarget _ _ = true ↔ _
  rw [verifyHashVsTarget_eq hlength, decide_eq_true_iff]

end Verdict

/-- A share with two branches whose lengths differ. -/
def Share.sample : Share where
  version := List.replicate 4 1
  prevBlockHash := List.replicate 32 2
  time := List.replicate 4 3
  difficultyNBits := List.replicate 4 4
  nonce := List.replicate 4 5
  target := List.replicate 31 0 ++ [1]
  extraNonce1 := [6, 6]
  extraNonce2 := [0, 0, 2, 165, 0, 0, 0, 7]
  coinbase1 := [8]
  coinbase2 := [9, 9, 9]
  merkleBranches := [[10, 11], [12]]
  header_length := by decide
  target_length := by decide
  extraNonce2_length := by decide

/-- An interface for the query of this share, with simple hashes of 32 bytes. -/
def Interface.forSample : Interface where
  querySize := 0
  additionalDataSize := 17
  numberOfComputors := 676
  flagInvalidArg := 16
  oracleQuery := fun _ => Share.sample.toQuery fun _ => 0
  sha256 := fun data => List.replicate 32 (UInt8.ofNat (leVal data))
  scrypt := fun data => data.headD 0 :: List.replicate 31 0

/-- The share is valid and belongs to the computor 677 modulo 676. -/
theorem verdict_of_share_sample :
    processInterfaceQuery .forSample [] = (0, { compIndex := 1, isValid := true }) ∧
    ((processInterfaceQuery .forSample []).2.isValid = true ↔
      leVal (Interface.forSample.scrypt (Share.sample.header .forSample)) ≤
        leVal Share.sample.target) := by
  have hverdict := verdict_of_share .forSample (fun _ => List.length_replicate)
    (fun _ => by rw [Interface.forSample, List.length_cons, List.length_replicate]) Share.sample
    (fun _ => 0) [] (Nat.le_refl 0) rfl (by decide)
  exact ⟨by decide +kernel, hverdict.2.2⟩

end OracleMachine.Services.DogeService
