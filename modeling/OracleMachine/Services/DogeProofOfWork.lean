import OracleMachine.Services.DogeVerdict
import OracleMachine.Services.Scrypt.KeyDerivation

/-!
# Proof of work

The Doge service with the hash functions of `scrypt.c`.  `proof_of_work` says that
a share is valid if and only if the scrypt hash of the block header with the
Merkle root of the transactions is at most the target, where both hash functions
are those of the standards.
-/

namespace OracleMachine.Services.DogeService

open Lib Lib.Bytes Lib.Memory Scrypt

/-- What is on the stack before the hash functions are called: a context for
SHA-256, the array for the hash, and the scratchpad with its address. -/
structure Stack where
  ctx : SHA256Context
  hash : Vector UInt8 32
  address : UInt64
  scratchpad : Vector UInt8 131583

/-- The three calls of `doubleSHA256` for one of its rounds. -/
def sha256Round (stack : Stack) (data : List UInt8) : Option (List UInt8) := do
  let ctx ← sha256Update (sha256Init stack.ctx) data data.length
  let final ← sha256Final ctx
  return final.1

/-- The service with the functions of `scrypt.c`. -/
def Interface.hashing (I : Interface) (stack : Stack) : Interface :=
  { I with
    sha256 := fun data => (sha256Round stack data).getD []
    scrypt := fun header =>
      ((scrypt1024_1_1_256 header stack.hash stack.address stack.scratchpad).map
        Vector.toList).getD [] }

/-- The hash of a transaction, as the standard defines it. -/
def transactionHash (data : List UInt8) : List UInt8 := Sha256.hash (Sha256.hash data)

/-- The block header of a share with a Merkle root. -/
def Share.headerWith (share : Share) (root : List UInt8) : List UInt8 :=
  share.version ++ share.prevBlockHash ++ root ++ share.time ++ share.difficultyNBits ++ share.nonce

theorem sha256Round_eq (stack : Stack) (data : List UInt8) :
    sha256Round stack data = some (Sha256.hash data) := by
  obtain ⟨ctx, hupdate, habsorbed⟩ := (absorbed_init stack.ctx).update_all data
  rw [sha256Round, hupdate, some_bind, habsorbed.final]
  rfl

section Hashing

variable (I : Interface) (stack : Stack)

theorem sha256_hashing (data : List UInt8) :
    (I.hashing stack).sha256 data = Sha256.hash data := by
  show (sha256Round stack data).getD [] = Sha256.hash data
  rw [sha256Round_eq, Option.getD_some]

theorem doubleSHA256_hashing :
    (fun data => (I.hashing stack).sha256 ((I.hashing stack).sha256 data)) = transactionHash := by
  funext data
  rw [sha256_hashing, sha256_hashing, transactionHash]

theorem scrypt_hashing {header : List UInt8} (hheader : header.length = 80) :
    (I.hashing stack).scrypt header = headerHash header := by
  show ((scrypt1024_1_1_256 header stack.hash stack.address stack.scratchpad).map
    Vector.toList).getD [] = headerHash header
  rw [scrypt_eq (Nat.le_of_eq hheader.symm), Option.map_some, Option.getD_some,
    toList_overwrite (length_headerHash _), List.take_of_length_le (Nat.le_of_eq hheader)]

theorem header_hashing (share : Share) :
    share.header (I.hashing stack) =
      share.headerWith (foldBranches transactionHash share.coinbase share.merkleBranches) := by
  rw [Share.header, doubleSHA256_hashing, Share.headerWith]

end Hashing

/-- A share is valid if and only if it is a proof of work for its block.  The
transactions of the block are given by their hashes, of which the first is that
of the coinbase of the share, and the branches are the siblings on its path. -/
theorem proof_of_work (I : Interface) (stack : Stack) (share : Share) (others : List (List UInt8))
    (behind : Nat → UInt8) (queryPayload : List UInt8) (hsize : I.querySize ≤ queryPayload.length)
    (hquery : I.oracleQuery queryPayload = share.toQuery behind)
    (hfits : share.serialise.length ≤ I.additionalDataSize.toNat)
    (hbranches : share.merkleBranches =
      Merkle.leftSiblings (fun left right => transactionHash (left ++ right))
        (transactionHash share.coinbase :: others)) :
    ∃ root, Merkle.root (fun left right => transactionHash (left ++ right))
        (transactionHash share.coinbase :: others) = some root ∧
      (processInterfaceQuery (I.hashing stack) queryPayload).1 = 0 ∧
      ((processInterfaceQuery (I.hashing stack) queryPayload).2.isValid = true ↔
        leVal (Lib.Scrypt.scrypt (Pbkdf2.hmac Sha256.hash 64) 32 (share.headerWith root)
          (share.headerWith root) 1024 1 1 32) ≤ leVal share.target) := by
  have hsha256 : ∀ data, ((I.hashing stack).sha256 data).length = 32 := fun data => by
    rw [sha256_hashing, Sha256.length_hash]
  have hheader := length_header (I.hashing stack) hsha256 share
  have hroot := Merkle.root_eq_foldl (fun left right => transactionHash (left ++ right))
    (transactionHash share.coinbase) others
  rw [← hbranches] at hroot
  refine ⟨_, hroot, ?_⟩
  have hreply := processInterfaceQuery_toQuery (I.hashing stack) hsha256 hsize hquery hfits
  rw [hreply]
  refine ⟨rfl, ?_⟩
  show verifyHashVsTarget _ _ = true ↔ _
  rw [scrypt_hashing I stack hheader, verifyHashVsTarget_eq
    (by rw [length_headerHash, share.target_length]), decide_eq_true_iff, header_hashing]
  rfl

/-- A block with two transactions. -/
def Share.ofTwo : Share :=
  { Share.sample with merkleBranches := [List.replicate 32 10] }

/-- An interface for the query of this share. -/
def Interface.forTwo : Interface :=
  { Interface.forSample with
    additionalDataSize := 42
    oracleQuery := fun _ => Share.ofTwo.toQuery fun _ => 0 }

/-- Arrays that happen to be filled with zeros, at an address that is not a
multiple of 64. -/
def Stack.zeros : Stack where
  ctx := .cleared
  hash := Vector.replicate 32 0
  address := 4097
  scratchpad := Vector.replicate 131583 0

/-- The branch of the coinbase is the hash of the other transaction. -/
theorem proof_of_work_two :
    ∃ root, Merkle.root (fun left right => transactionHash (left ++ right))
        [transactionHash Share.ofTwo.coinbase, List.replicate 32 10] = some root ∧
      (processInterfaceQuery (Interface.forTwo.hashing .zeros) []).1 = 0 ∧
      ((processInterfaceQuery (Interface.forTwo.hashing .zeros) []).2.isValid = true ↔
        leVal (Lib.Scrypt.scrypt (Pbkdf2.hmac Sha256.hash 64) 32 (Share.ofTwo.headerWith root)
          (Share.ofTwo.headerWith root) 1024 1 1 32) ≤ leVal Share.ofTwo.target) := by
  refine proof_of_work .forTwo .zeros .ofTwo [List.replicate 32 10] (fun _ => 0) [] (Nat.le_refl 0)
    rfl (by decide) ?_
  rw [Merkle.leftSiblings, Merkle.parents, Merkle.parents, Merkle.leftSiblings]
  rfl

end OracleMachine.Services.DogeService
