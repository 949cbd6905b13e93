import OracleMachine.Lib.Bytes
import OracleMachine.Lib.Python

/-!
# What the two log services share

`read_evm_log` and `read_qubic_log` are Python services of one build.  A query
has 48 bytes: a number, a transaction hash and another number.  A reply starts
with a result code of eight bytes.  Both services read receipts over JSON-RPC
from every endpoint of a list.

The world outside is `Rpc`: what the call to an endpoint returns.  A call that
fails, or whose response is no JSON with a `result`, is `none`.  An endpoint may
stand in the list twice and may answer differently then, so that the call is
known by the position of the endpoint in the list.  What the services print is
left out.
-/

namespace OracleMachine.Logs

open Lib.Bytes Lib.Python

/-- `rpc(endpoint, method, params)` at the position of the endpoint. -/
abbrev Rpc := Nat → Str → Str → List Json → Option Json

/-- `QUERY_SIZE`. -/
def querySize : Nat := 48

/-- `NO_ERROR`. -/
def noError : UInt16 := 0x0

/-- `ORACLE_UNAVAIL`. -/
def oracleUnavail : UInt16 := 0x2

/-- `INVALID_ARG`. -/
def invalidArg : UInt16 := 0x10

/-- `bytes(n)`. -/
def zeros (n : Nat) : List UInt8 := List.replicate n 0

/-- A query, `struct.unpack("<Q32sQ", payload)`. -/
structure LogQuery where
  first : Nat
  txHash : List UInt8
  last : Nat
  deriving DecidableEq

/-- `struct.unpack("<Q32sQ", payload)`. -/
def unpackQuery (payload : List UInt8) : LogQuery where
  first := leVal (slice payload 0 8)
  txHash := slice payload 8 32
  last := leVal (slice payload 40 8)

/-- `code_reply` for replies of the given size. -/
def codeReply (replySize code : Nat) : List UInt8 := leBytes 8 code ++ zeros (replySize - 8)

/-- The result code of a reply. -/
def replyCode (reply : List UInt8) : Nat := leVal (slice reply 0 8)

/-- `hexb`. -/
def hexb (v : Json) : Option (List UInt8) :=
  match v with
  | .str (48 :: 120 :: digits) => fromHex digits
  | _ => none

/-- The value is a string that spells these bytes in hexadecimal behind `0x`. -/
def HexBytes (v : Json) (bs : List UInt8) : Prop :=
  ∃ digits, v = .str (lit "0x" ++ digits) ∧ fromHex digits = some bs

/-- The value is a string that spells this integer in hexadecimal. -/
def HexInt (py : Interpreter) (v : Json) (n : Int) : Prop :=
  ∃ s, v = .str s ∧ parseInt py 16 s = some n

theorem hexb_eq_some_iff {v : Json} {bs : List UInt8} : hexb v = some bs ↔ HexBytes v bs := by
  constructor
  · intro h
    unfold hexb at h
    split at h
    · next digits => exact ⟨digits, rfl, h⟩
    · simp at h
  · rintro ⟨digits, rfl, hdigits⟩
    exact hdigits

theorem intOfHex_eq_some_iff {py : Interpreter} {v : Json} {n : Int} :
    intOfHex py v = some n ↔ HexInt py v n := by
  constructor
  · intro h
    unfold intOfHex at h
    split at h
    · next s => exact ⟨s, rfl, h⟩
    · simp at h
  · rintro ⟨s, rfl, hs⟩
    exact hs

@[simp] theorem length_zeros (n : Nat) : (zeros n).length = n := List.length_replicate

/-- The three fields of a query, as they stand in its bytes. -/
theorem unpackQuery_eq {payload : List UInt8} (hlength : payload.length = 48) :
    unpackQuery payload =
      { first := leVal (payload.take 8), txHash := (payload.drop 8).take 32
        last := leVal (payload.drop 40) } := by
  have hlast : (payload.drop 40).take 8 = payload.drop 40 :=
    List.take_of_length_le (by rw [List.length_drop]; omega)
  simp only [unpackQuery, slice, List.drop_zero, hlast]

theorem length_codeReply {replySize : Nat} (h : 8 ≤ replySize) (code : Nat) :
    (codeReply replySize code).length = replySize := by
  rw [codeReply, List.length_append, length_leBytes, length_zeros]
  omega

/-- The code of a reply is read back. -/
theorem replyCode_append {code : Nat} (h : code < 2 ^ 64) (rest : List UInt8) :
    replyCode (leBytes 8 code ++ rest) = code := by
  rw [replyCode, slice_append_left (length_leBytes _ _), leVal_leBytes h]

theorem replyCode_codeReply (replySize : Nat) {code : Nat} (h : code < 2 ^ 64) :
    replyCode (codeReply replySize code) = code := replyCode_append h _

/-- What a service returned: these flags, and a reply with this code. -/
def Replies (result : Option (UInt16 × List UInt8)) (flags : UInt16) (code : Nat) : Prop :=
  ∃ reply, result = some (flags, reply) ∧ replyCode reply = code

theorem replies_some_iff {flags flags' : UInt16} {reply : List UInt8} {code : Nat} :
    Replies (some (flags, reply)) flags' code ↔ flags = flags' ∧ replyCode reply = code := by
  constructor
  · rintro ⟨_, hreply, hcode⟩
    obtain ⟨rfl, rfl⟩ := Prod.mk.inj (Option.some.inj hreply)
    exact ⟨rfl, hcode⟩
  · rintro ⟨rfl, hcode⟩
    exact ⟨reply, rfl, hcode⟩

/-- A reply that carries only a code has that code and no other. -/
theorem replies_codeReply_iff {flags flags' : UInt16} {replySize code code' : Nat}
    (h : code < 2 ^ 64) :
    Replies (some (flags, codeReply replySize code)) flags' code' ↔
      flags = flags' ∧ code = code' := by
  rw [replies_some_iff, replyCode_codeReply replySize h]

theorem not_replies_codeReply {flags : UInt16} {replySize code code' : Nat} (h : code < 2 ^ 64)
    (hne : code ≠ code') : ¬ Replies (some (flags, codeReply replySize code)) flags code' :=
  fun hreplies => hne ((replies_codeReply_iff h).mp hreplies).2

/-- A reply with another flag has no code under this one. -/
theorem not_replies_of_flags {flags flags' : UInt16} {reply : List UInt8} {code : Nat}
    (hne : flags ≠ flags') : ¬ Replies (some (flags, reply)) flags' code :=
  fun hreplies => hne (replies_some_iff.mp hreplies).1

end OracleMachine.Logs
