import OracleMachine.Lib.Bytes

/-!
# The wire layouts of the OM protocol

The three packed structures that travel between a Qubic node, the OM node and
an oracle service: the 8-byte `RequestResponseHeader`, the 16-byte
`OracleMachineQuery` and the 16-byte `OracleMachineReply`.  Their layout is the
one the README gives and the Python services pack and unpack.

The structures are declared in the `qubic_core` submodule, which the
repository includes but does not contain.  `Core` collects what the code takes
from it beyond the documented layout:

* `zeroSize`, what `header.size()` answers for an all-zero size field.  Every
  caller has to see an invalid size there.
* `oversize`, the size field that `checkAndSetSize` leaves behind for a size
  that does not fit 24 bits.
* the error flags, which the flag documentation makes non-zero.
-/

namespace OracleMachine.Network.Wire

open OracleMachine.Lib.Bytes

/-- What the code takes from the `qubic_core` submodule. -/
structure Core where
  zeroSize : Nat
  zeroSize_invalid : zeroSize < 8 ∨ 0xFFFF < zeroSize
  oversize : Nat → Nat
  flagInvalidOracle : UInt16
  flagOracleUnavail : UInt16
  flagInvalidOracle_ne_zero : flagInvalidOracle ≠ 0
  flagOracleUnavail_ne_zero : flagOracleUnavail ≠ 0

/-- A core for runs on concrete inputs: a zero size is answered as it is, and
the flag of an unavailable oracle is the one the Python services use. -/
def Core.sample : Core where
  zeroSize := 0
  zeroSize_invalid := .inl (by decide)
  oversize := fun _ => 0
  flagInvalidOracle := 1
  flagOracleUnavail := 2
  flagInvalidOracle_ne_zero := by decide
  flagOracleUnavail_ne_zero := by decide

/-! ## The header -/

/-- `RequestResponseHeader`: the eight raw bytes that `memcpy` moves. -/
@[ext] structure RequestResponseHeader where
  bytes : List UInt8
  length_bytes : bytes.length = 8
  deriving DecidableEq

namespace RequestResponseHeader

/-- `sizeof(RequestResponseHeader)`. -/
def sizeOf : Nat := 8

/-- Eight received bytes as a header.  A shorter read is no header. -/
def ofBytes? (bs : List UInt8) : Option RequestResponseHeader :=
  if h : bs.length = 8 then some ⟨bs, h⟩ else none

/-- The 24-bit little-endian size field. -/
def sizeField (h : RequestResponseHeader) : Nat := leVal (h.bytes.take 3)

/-- `header.size()`. -/
def size (core : Core) (h : RequestResponseHeader) : Nat :=
  if h.sizeField = 0 then core.zeroSize else h.sizeField

/-- `header.type()`. -/
def type (h : RequestResponseHeader) : UInt8 := h.bytes.getD 3 0

/-- A header made by `checkAndSetSize`, `setType` and `setDejavu`. -/
def make (core : Core) (size : Nat) (type : UInt8) (dejavu : UInt32) :
    RequestResponseHeader where
  bytes := leBytes 3 (if size < 2 ^ 24 then size else core.oversize size) ++
    type :: leBytes 4 dejavu.toNat
  length_bytes := by simp

theorem ofBytes?_eq_some {bs : List UInt8} (h : bs.length = 8) :
    ofBytes? bs = some ⟨bs, h⟩ := dif_pos h

theorem ofBytes?_eq_none {bs : List UInt8} (h : bs.length ≠ 8) :
    ofBytes? bs = none := dif_neg h

theorem sizeField_lt (h : RequestResponseHeader) : h.sizeField < 2 ^ 24 := by
  have hlt := leVal_lt (h.bytes.take 3)
  have hlen : (h.bytes.take 3).length = 3 := by
    rw [List.length_take, h.length_bytes]
    rfl
  rw [hlen] at hlt
  exact hlt

/-- A size that fits is the size field of the header it was set in. -/
theorem sizeField_make (core : Core) {size : Nat} (type : UInt8) (dejavu : UInt32)
    (hsize : size < 2 ^ 24) : (make core size type dejavu).sizeField = size := by
  simp only [sizeField, make, if_pos hsize]
  rw [List.take_append_of_le_length (by rw [length_leBytes]),
    List.take_of_length_le (by rw [length_leBytes]), leVal_leBytes hsize]

@[simp] theorem type_make (core : Core) (size : Nat) (type : UInt8) (dejavu : UInt32) :
    (make core size type dejavu).type = type := by
  simp only [RequestResponseHeader.type, make]
  rw [List.getD_eq_getElem?_getD, List.getElem?_append_right (by rw [length_leBytes]),
    length_leBytes]
  rfl

/-- A size of eight or more is answered as it stands in the size field. -/
theorem size_eq_sizeField {core : Core} {h : RequestResponseHeader}
    (hne : h.sizeField ≠ 0) : h.size core = h.sizeField := if_neg hne

/-- A header passes a size check up to a limit exactly when its size field
does: an all-zero field never passes. -/
theorem size_le_iff (core : Core) (h : RequestResponseHeader) {maxSize : Nat}
    (hmax : maxSize ≤ 0xFFFF) :
    (8 ≤ h.size core ∧ h.size core ≤ maxSize) ↔
      (8 ≤ h.sizeField ∧ h.sizeField ≤ maxSize) := by
  have hinvalid := core.zeroSize_invalid
  rw [size]
  split
  · omega
  · rfl

end RequestResponseHeader

/-- An OM frame: a header and as many payload bytes as its size field
announces. -/
structure Frame where
  header : RequestResponseHeader
  payload : List UInt8
  sizeField_eq : header.sizeField = 8 + payload.length
  deriving DecidableEq

namespace Frame

/-- The bytes of a frame on the wire. -/
def bytes (f : Frame) : List UInt8 := f.header.bytes ++ f.payload

@[simp] theorem length_bytes (f : Frame) :
    f.bytes.length = 8 + f.payload.length := by
  rw [bytes, List.length_append, f.header.length_bytes]

theorem size_eq (core : Core) (f : Frame) :
    f.header.size core = 8 + f.payload.length := by
  rw [RequestResponseHeader.size_eq_sizeField (by rw [f.sizeField_eq]; omega),
    f.sizeField_eq]

theorem take_bytes (f : Frame) : f.bytes.take 8 = f.header.bytes := by
  rw [bytes, List.take_append_of_le_length (by rw [f.header.length_bytes]),
    List.take_of_length_le (by rw [f.header.length_bytes])]

theorem drop_bytes (f : Frame) : f.bytes.drop 8 = f.payload := by
  rw [bytes, List.drop_append_of_le_length (by rw [f.header.length_bytes]),
    List.drop_of_length_le (by rw [f.header.length_bytes]), List.nil_append]

end Frame

/-! ## Queries and replies -/

/-- `OracleMachineQuery`, 16 bytes, little-endian. -/
structure OracleMachineQuery where
  oracleQueryId : UInt64
  oracleInterfaceIndex : UInt32
  timeoutInMilliseconds : UInt32
  deriving DecidableEq

namespace OracleMachineQuery

/-- `OracleMachineQuery::type()`. -/
def type : UInt8 := 190

/-- `sizeof(OracleMachineQuery)`. -/
def sizeOf : Nat := 16

/-- `memcpy` into an `OracleMachineQuery`. -/
def ofBytes (bs : List UInt8) : OracleMachineQuery where
  oracleQueryId := UInt64.ofNat (leVal (slice bs 0 8))
  oracleInterfaceIndex := UInt32.ofNat (leVal (slice bs 8 4))
  timeoutInMilliseconds := UInt32.ofNat (leVal (slice bs 12 4))

end OracleMachineQuery

/-- `OracleMachineReply`, 16 bytes, little-endian, with its reserved padding. -/
structure OracleMachineReply where
  oracleQueryId : UInt64
  oracleMachineErrorFlags : UInt16
  padding0 : UInt16
  padding1 : UInt32
  deriving DecidableEq

namespace OracleMachineReply

/-- `OracleMachineReply::type()`. -/
def type : UInt8 := 191

/-- `sizeof(OracleMachineReply)`. -/
def sizeOf : Nat := 16

/-- `memcpy` into an `OracleMachineReply`. -/
def ofBytes (bs : List UInt8) : OracleMachineReply where
  oracleQueryId := UInt64.ofNat (leVal (slice bs 0 8))
  oracleMachineErrorFlags := UInt16.ofNat (leVal (slice bs 8 2))
  padding0 := UInt16.ofNat (leVal (slice bs 10 2))
  padding1 := UInt32.ofNat (leVal (slice bs 12 4))

/-- `memcpy` out of an `OracleMachineReply`. -/
def toBytes (r : OracleMachineReply) : List UInt8 :=
  leBytes 8 r.oracleQueryId.toNat ++ leBytes 2 r.oracleMachineErrorFlags.toNat ++
    leBytes 2 r.padding0.toNat ++ leBytes 4 r.padding1.toNat

@[simp] theorem length_toBytes (r : OracleMachineReply) : r.toBytes.length = 16 := by
  simp [toBytes]

/-- A reply structure is read back from its bytes, whatever follows them. -/
theorem ofBytes_toBytes_append (r : OracleMachineReply) (rest : List UInt8) :
    ofBytes (r.toBytes ++ rest) = r := by
  have hid : slice (r.toBytes ++ rest) 0 8 = leBytes 8 r.oracleQueryId.toNat := by
    simp only [toBytes, List.append_assoc]
    exact slice_append_left (length_leBytes _ _)
  have hflags : slice (r.toBytes ++ rest) 8 2 =
      leBytes 2 r.oracleMachineErrorFlags.toNat := by
    simp only [toBytes, List.append_assoc]
    rw [slice_append_right (by simp), length_leBytes]
    exact slice_append_left (length_leBytes _ _)
  have hpad0 : slice (r.toBytes ++ rest) 10 2 = leBytes 2 r.padding0.toNat := by
    simp only [toBytes, List.append_assoc]
    rw [slice_append_right (by simp), slice_append_right (by simp), length_leBytes,
      length_leBytes]
    exact slice_append_left (length_leBytes _ _)
  have hpad1 : slice (r.toBytes ++ rest) 12 4 = leBytes 4 r.padding1.toNat := by
    simp only [toBytes, List.append_assoc]
    rw [slice_append_right (by simp), slice_append_right (by simp),
      slice_append_right (by simp), length_leBytes, length_leBytes, length_leBytes]
    exact slice_append_left (length_leBytes _ _)
  simp only [ofBytes, hid, hflags, hpad0, hpad1]
  rw [leVal_leBytes (UInt64.toNat_lt _), leVal_leBytes (UInt16.toNat_lt _),
    leVal_leBytes (UInt16.toNat_lt _), leVal_leBytes (UInt32.toNat_lt _),
    UInt64.ofNat_toNat, UInt16.ofNat_toNat, UInt16.ofNat_toNat, UInt32.ofNat_toNat]

end OracleMachineReply

end OracleMachine.Network.Wire
