import OracleMachine.Lib.Bytes
import OracleMachine.Lib.Ranges

/-!
# Queries of the Doge share validation

`DogeService::processInterfaceQuery` checks a share of a Doge mining task.  The
parts of the task whose size varies are packed into the field `additionalData`
of the query: `extraNonce1`, `coinbase1`, `coinbase2`, an array of lengths, and
the Merkle branches of these lengths.  The counts in the query and the array of
lengths say where each part is.

The query structure is declared in the `qubic_core` submodule, which the
repository does not contain.  `Interface` collects what the code takes from it,
with the two hash functions.  The counts are 32-bit values here; narrower ones
are a special case, as the sums come out the same.  `additionalData` is the
memory from the start of the field on.  What lies behind the field is arbitrary.

The sizes are compared with the size of the field before the parts are read.
They are added up modulo 2^32, the lengths in an `int`, as in the source.
`task_inside_iff` says which queries are read inside the field once they have
passed both checks: those whose sizes add up to less than 2^32.
`wrapped_length_passes` is a query with one branch that passes and is not.
-/

namespace OracleMachine.Services.DogeService

open Lib.Bytes Lib.Ranges

/-- `DogeShareValidation::OracleQuery`.  The fields that the code copies are
given by their bytes. -/
structure OracleQuery where
  target : List UInt8
  taskPartialHeaderVersion : List UInt8
  taskPartialHeaderPrevBlockHash : List UInt8
  taskPartialHeaderDifficultyNBits : List UInt8
  solutionTime : List UInt8
  solutionNonce : List UInt8
  solutionExtraNonce2 : List UInt8
  extraNonce1NumBytes : UInt32
  coinbase1NumBytes : UInt32
  coinbase2NumBytes : UInt32
  numMerkleBranches : UInt32
  additionalData : Nat → UInt8

/-- `DogeShareValidation::OracleReply`. -/
structure OracleReply where
  compIndex : UInt32
  isValid : Bool
  deriving DecidableEq

/-- What the code takes from the `qubic_core` submodule and from the hash
libraries. -/
structure Interface where
  querySize : Nat
  additionalDataSize : UInt32
  numberOfComputors : UInt32
  flagInvalidArg : UInt16
  oracleQuery : List UInt8 → OracleQuery
  sha256 : List UInt8 → List UInt8
  scrypt : List UInt8 → List UInt8

/-! ## The parts of the task -/

/-- Where the parts of the task are, as offsets from the start of
`additionalData`. -/
structure Task where
  extraNonce1 : Range
  coinbase1 : Range
  coinbase2 : Range
  branchesNumBytes : Range
  merkleBranches : List Range
  deriving DecidableEq

/-- The parts in the order in which they are read. -/
def Task.ranges (task : Task) : List Range :=
  [task.extraNonce1, task.coinbase1, task.coinbase2, task.branchesNumBytes] ++ task.merkleBranches

/-- `sizeof(unsigned int)`. -/
def sizeofUnsigned : Nat := 4

namespace OracleQuery

/-- The first value of `additionalDataSize`: the three counts are added as 32-bit
values, the size of the array of lengths is a `size_t`, and the sum is cut to 32
bits. -/
def fixedSize (query : OracleQuery) : UInt32 :=
  ((query.extraNonce1NumBytes + query.coinbase1NumBytes + query.coinbase2NumBytes).toUInt64 +
    query.numMerkleBranches.toUInt64 * UInt64.ofNat sizeofUnsigned).toUInt32

/-- The offset of the array of lengths. -/
def lengthsOffset (query : OracleQuery) : Nat :=
  query.extraNonce1NumBytes.toNat + query.coinbase1NumBytes.toNat + query.coinbase2NumBytes.toNat

/-- `branchesNumBytes[b]`. -/
def branchNumBytes (query : OracleQuery) (b : Nat) : UInt32 :=
  UInt32.ofNat (leVal (Range.read query.additionalData
    ⟨query.lengthsOffset + sizeofUnsigned * b, sizeofUnsigned⟩))

/-- The array of lengths. -/
def branchLengths (query : OracleQuery) : List UInt32 :=
  (List.range query.numMerkleBranches.toNat).map query.branchNumBytes

/-- Where the parts are.  Each starts where the one before it ends. -/
def task (query : OracleQuery) : Task where
  extraNonce1 := ⟨0, query.extraNonce1NumBytes.toNat⟩
  coinbase1 := ⟨query.extraNonce1NumBytes.toNat, query.coinbase1NumBytes.toNat⟩
  coinbase2 := ⟨query.extraNonce1NumBytes.toNat + query.coinbase1NumBytes.toNat,
    query.coinbase2NumBytes.toNat⟩
  branchesNumBytes := ⟨query.lengthsOffset, query.numMerkleBranches.toNat * sizeofUnsigned⟩
  merkleBranches :=
    consecutive (query.lengthsOffset + query.numMerkleBranches.toNat * sizeofUnsigned)
      (query.branchLengths.map UInt32.toNat)

end OracleQuery

/-- `std::accumulate` over unsigned lengths with the start value `0`, which
makes it add them up in an `int`. -/
def accumulate (lengths : List UInt32) : Int32 :=
  lengths.foldl (fun sum n => (sum.toUInt32 + n).toInt32) 0

/-- The two checks of `additionalDataSize`, and the parts for a query that
passes both. -/
def gatherTask (I : Interface) (query : OracleQuery) : Except UInt16 Task :=
  let additionalDataSize := query.fixedSize
  if additionalDataSize > I.additionalDataSize then .error I.flagInvalidArg
  else
    let additionalDataSize := additionalDataSize + (accumulate query.branchLengths).toUInt32
    if additionalDataSize > I.additionalDataSize then .error I.flagInvalidArg
    else .ok query.task

/-! ## The verdict -/

/-- `doubleSHA256`. -/
def doubleSHA256 (I : Interface) (data : List UInt8) : List UInt8 := I.sha256 (I.sha256 data)

/-- `calculateMerkleRoot`. -/
def calculateMerkleRoot (I : Interface)
    (coinbase1 coinbase2 extraNonce1 extraNonce2 : List UInt8)
    (merkleBranches : List (List UInt8)) : List UInt8 :=
  merkleBranches.foldl (fun currentHash branch => doubleSHA256 I (currentHash ++ branch))
    (doubleSHA256 I (coinbase1 ++ extraNonce1 ++ extraNonce2 ++ coinbase2))

/-- The loop of `verifyHashVsTarget`, over the bytes from the most significant
one on. -/
def verifyLoop : List UInt8 → List UInt8 → Bool
  | h :: hash, t :: target =>
    if h < t then true else if h > t then false else verifyLoop hash target
  | _, _ => true

/-- `verifyHashVsTarget`. -/
def verifyHashVsTarget (hash target : List UInt8) : Bool :=
  verifyLoop hash.reverse target.reverse

/-- The computor index in the first four bytes of `solutionExtraNonce2`, most
significant byte first. -/
def compIndex (I : Interface) (query : OracleQuery) : UInt32 :=
  (query.solutionExtraNonce2.take 4).foldl (fun (index : UInt32) b => (index <<< 8) ||| b.toUInt32)
    0 % I.numberOfComputors

/-- The block header of the task and the solution. -/
def fullHeader (query : OracleQuery) (merkleRoot : List UInt8) : List UInt8 :=
  query.taskPartialHeaderVersion ++ query.taskPartialHeaderPrevBlockHash ++ merkleRoot ++
    query.solutionTime ++ query.taskPartialHeaderDifficultyNBits ++ query.solutionNonce

/-- `DogeService::processInterfaceQuery`: the error flags and the reply. -/
def processInterfaceQuery (I : Interface) (queryPayload : List UInt8) : UInt16 × OracleReply :=
  if queryPayload.length < I.querySize then (I.flagInvalidArg, { compIndex := 0, isValid := false })
  else
    let query := I.oracleQuery queryPayload
    let reply : OracleReply := { compIndex := compIndex I query, isValid := false }
    match gatherTask I query with
    | .error flags => (flags, reply)
    | .ok task =>
      let bytes := Range.read query.additionalData
      let merkleRoot := calculateMerkleRoot I (bytes task.coinbase1) (bytes task.coinbase2)
        (bytes task.extraNonce1) query.solutionExtraNonce2 (task.merkleBranches.map bytes)
      let header := fullHeader query merkleRoot
      if header.length ≠ 80 then (I.flagInvalidArg, reply)
      else (0, { reply with isValid := verifyHashVsTarget (I.scrypt header) query.target })

/-! ## The parts lie inside the field -/

/-- The exact size of all parts. -/
def OracleQuery.exactSize (query : OracleQuery) : Nat :=
  query.lengthsOffset + query.numMerkleBranches.toNat * sizeofUnsigned +
    (query.branchLengths.map UInt32.toNat).sum

/-- The parts follow each other. -/
theorem ranges_task (query : OracleQuery) :
    query.task.ranges = consecutive 0
      ([query.extraNonce1NumBytes.toNat, query.coinbase1NumBytes.toNat,
        query.coinbase2NumBytes.toNat, query.numMerkleBranches.toNat * sizeofUnsigned] ++
        query.branchLengths.map UInt32.toNat) := by
  rw [consecutive_append]
  simp [Task.ranges, OracleQuery.task, consecutive, OracleQuery.lengthsOffset, Nat.add_assoc]

/-- All parts lie inside a field exactly when their exact size is not larger. -/
theorem ranges_task_inside_iff (query : OracleQuery) (size : Nat) :
    (∀ r ∈ query.task.ranges, r.Inside size) ↔ query.exactSize ≤ size := by
  rw [ranges_task, consecutive_inside_iff, List.sum_append, OracleQuery.exactSize,
    OracleQuery.lengthsOffset]
  simp only [List.sum_cons, List.sum_nil]
  omega

theorem toNat_fixedSize (query : OracleQuery) :
    query.fixedSize.toNat =
      (query.lengthsOffset + query.numMerkleBranches.toNat * sizeofUnsigned) % 2 ^ 32 := by
  have hn := query.numMerkleBranches.toNat_lt
  have hsize : (UInt64.ofNat sizeofUnsigned).toNat = 4 := by decide
  rw [OracleQuery.fixedSize, OracleQuery.lengthsOffset, UInt64.toNat_toUInt32, UInt64.toNat_add,
    UInt64.toNat_mul, UInt32.toNat_toUInt64, UInt32.toNat_toUInt64, hsize, UInt32.toNat_add,
    UInt32.toNat_add, sizeofUnsigned]
  omega

/-- The sum of the lengths is exact modulo 2^32. -/
theorem toNat_accumulate (lengths : List UInt32) :
    (accumulate lengths).toUInt32.toNat = (lengths.map UInt32.toNat).sum % 2 ^ 32 := by
  have hfrom : ∀ sum : Int32,
      (lengths.foldl (fun sum n => (sum.toUInt32 + n).toInt32) sum).toUInt32.toNat =
        (sum.toUInt32.toNat + (lengths.map UInt32.toNat).sum) % 2 ^ 32 := by
    induction lengths with
    | nil =>
      intro sum
      have hlt := sum.toUInt32.toNat_lt
      simp only [List.foldl_nil, List.map_nil, List.sum_nil]
      omega
    | cons n lengths ih =>
      intro sum
      rw [List.foldl_cons, ih, UInt32.toUInt32_toInt32, UInt32.toNat_add, List.map_cons,
        List.sum_cons]
      omega
  have hzero : (0 : Int32).toUInt32.toNat = 0 := by decide
  rw [accumulate, hfrom, hzero, Nat.zero_add]

/-- What the second check compares is the exact size modulo 2^32. -/
theorem toNat_checkedSize (query : OracleQuery) :
    (query.fixedSize + (accumulate query.branchLengths).toUInt32).toNat =
      query.exactSize % 2 ^ 32 := by
  rw [UInt32.toNat_add, toNat_fixedSize, toNat_accumulate, OracleQuery.exactSize]
  omega

theorem gatherTask_eq_ok_iff {I : Interface} {query : OracleQuery} {task : Task} :
    gatherTask I query = .ok task ↔
      query.fixedSize ≤ I.additionalDataSize ∧
      query.exactSize % 2 ^ 32 ≤ I.additionalDataSize.toNat ∧ task = query.task := by
  rw [gatherTask, ← toNat_checkedSize, ← UInt32.le_iff_toNat_le, ← UInt32.not_lt, ← UInt32.not_lt]
  by_cases hfixed : I.additionalDataSize < query.fixedSize
  · simp [hfixed]
  · by_cases hsum : I.additionalDataSize <
        query.fixedSize + (accumulate query.branchLengths).toUInt32
    · simp [hfixed, hsum]
    · simp [hfixed, hsum, eq_comm]

/-- Bounds of the parts.  For a query that passes both checks, every part that
is read lies inside `additionalData` if and only if the sizes of all parts add
up to less than 2^32. -/
theorem task_inside_iff (I : Interface) (query : OracleQuery) (task : Task)
    (hpassed : gatherTask I query = .ok task) :
    (∀ r ∈ task.ranges, r.Inside I.additionalDataSize.toNat) ↔ query.exactSize < 2 ^ 32 := by
  obtain ⟨-, hsum, rfl⟩ := gatherTask_eq_ok_iff.mp hpassed
  have hsize := I.additionalDataSize.toNat_lt
  rw [ranges_task_inside_iff]
  constructor
  · intro hle
    omega
  · intro hlt
    rwa [Nat.mod_eq_of_lt hlt] at hsum

/-- A query whose counts are small and whose `additionalData` starts with the
given bytes. -/
def OracleQuery.sample (extraNonce1NumBytes numMerkleBranches : UInt32) (bytes : List UInt8) :
    OracleQuery where
  target := List.replicate 32 0
  taskPartialHeaderVersion := List.replicate 4 0
  taskPartialHeaderPrevBlockHash := List.replicate 32 0
  taskPartialHeaderDifficultyNBits := List.replicate 4 0
  solutionTime := List.replicate 4 0
  solutionNonce := List.replicate 4 0
  solutionExtraNonce2 := List.replicate 8 0
  extraNonce1NumBytes
  coinbase1NumBytes := 0
  coinbase2NumBytes := 0
  numMerkleBranches
  additionalData := fun k => bytes.getD k 0

/-- An interface with a field of the given size. -/
def Interface.sample (additionalDataSize : UInt32) : Interface where
  querySize := 0
  additionalDataSize
  numberOfComputors := 676
  flagInvalidArg := 16
  oracleQuery := OracleQuery.sample 0 0
  sha256 := id
  scrypt := id

/-- Two bytes of `extraNonce1` and a branch of three bytes, in a field of nine
bytes. -/
theorem task_inside_iff_one_branch :
    gatherTask (.sample 9) (.sample 2 1 [7, 7, 3, 0, 0, 0, 1, 2, 3]) =
        .ok ⟨⟨0, 2⟩, ⟨2, 0⟩, ⟨2, 0⟩, ⟨2, 4⟩, [⟨6, 3⟩]⟩ ∧
      ((∀ r ∈ Task.ranges ⟨⟨0, 2⟩, ⟨2, 0⟩, ⟨2, 0⟩, ⟨2, 4⟩, [⟨6, 3⟩]⟩, r.Inside 9) ↔
        (OracleQuery.sample 2 1 [7, 7, 3, 0, 0, 0, 1, 2, 3]).exactSize < 2 ^ 32) := by
  have hpassed : gatherTask (.sample 9) (.sample 2 1 [7, 7, 3, 0, 0, 0, 1, 2, 3]) =
      .ok ⟨⟨0, 2⟩, ⟨2, 0⟩, ⟨2, 0⟩, ⟨2, 4⟩, [⟨6, 3⟩]⟩ := by decide +kernel
  exact ⟨hpassed, task_inside_iff _ _ _ hpassed⟩

/-- One branch of 2^32 - 4 bytes.  With the four bytes of its length the size
wraps to zero, so that the query passes both checks, whatever the size of the
field is. -/
theorem gatherTask_wrapped {I : Interface} (hsize : 4 ≤ I.additionalDataSize) :
    gatherTask I (.sample 0 1 [0xFC, 0xFF, 0xFF, 0xFF]) =
        .ok (OracleQuery.sample 0 1 [0xFC, 0xFF, 0xFF, 0xFF]).task ∧
      ¬ Range.Inside I.additionalDataSize.toNat ⟨4, 4294967292⟩ := by
  have hfixed : (OracleQuery.sample 0 1 [0xFC, 0xFF, 0xFF, 0xFF]).fixedSize = 4 := by
    decide +kernel
  have hexact : (OracleQuery.sample 0 1 [0xFC, 0xFF, 0xFF, 0xFF]).exactSize = 2 ^ 32 := by
    decide +kernel
  constructor
  · apply gatherTask_eq_ok_iff.mpr
    rw [hfixed, hexact, Nat.mod_self]
    exact ⟨hsize, Nat.zero_le _, rfl⟩
  · have hlt := I.additionalDataSize.toNat_lt
    rw [inside_iff]
    show ¬ (4294967292 = 0 ∨ 4 + 4294967292 ≤ I.additionalDataSize.toNat)
    omega

/-- This query in a field of 1024 bytes: the branch is read from offset `4` on,
far beyond the field. -/
theorem wrapped_length_passes :
    gatherTask (.sample 1024) (.sample 0 1 [0xFC, 0xFF, 0xFF, 0xFF]) =
        .ok (OracleQuery.sample 0 1 [0xFC, 0xFF, 0xFF, 0xFF]).task ∧
      ⟨4, 4294967292⟩ ∈ (OracleQuery.sample 0 1 [0xFC, 0xFF, 0xFF, 0xFF]).task.ranges ∧
      ¬ Range.Inside 1024 ⟨4, 4294967292⟩ := by
  have hwrapped := gatherTask_wrapped (I := .sample 1024) (by decide)
  exact ⟨hwrapped.1, by decide +kernel, hwrapped.2⟩

end OracleMachine.Services.DogeService
