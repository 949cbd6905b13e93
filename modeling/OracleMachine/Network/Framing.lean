import OracleMachine.Network.Session

/-!
# The frames of a byte stream

A connection carries OM frames one behind the other.  This module says which
frames a stream contains, without saying how anyone reads them: `nextFrame`
skips timeouts that stand between frames and takes one frame, and `framesOf`
goes on until the stream has no further frame.  The first invalid point ends
the list: a size field that is too small or too large, a frame cut by the end
of the stream, or a timeout inside a frame.

`nextFrame_eq_some_iff` is the meaning of one step, and `framesOf_append` that
frames put on the wire one by one are found again.

The limit on the size is a parameter, because the two sides have different
ones.
-/

namespace OracleMachine.Network.Framing

open Lib.Bytes Wire

/-- The stream behind leading timeouts. -/
def skipIdle : List (Option UInt8) → List (Option UInt8)
  | none :: ts => skipIdle ts
  | ts => ts

/-- The payload that a header announces. -/
def payloadOf (maxSize : Nat) (header : RequestResponseHeader)
    (ts : List (Option UInt8)) : Option (Frame × List (Option UInt8)) :=
  if header.sizeField ≤ maxSize then
    match readExact (header.sizeField - 8) ts with
    | .full payload rest =>
      if h : header.sizeField = 8 + payload.length then
        some (⟨header, payload, h⟩, rest)
      else none
    | _ => none
  else none

/-- The bytes of a list of frames. -/
def stream (sent : List Frame) : List UInt8 := sent.flatMap Frame.bytes

/-- The first frame of a stream and what follows it. -/
def nextFrame (maxSize : Nat) (ts : List (Option UInt8)) :
    Option (Frame × List (Option UInt8)) :=
  match readExact 8 (skipIdle ts) with
  | .full hdr rest => (RequestResponseHeader.ofBytes? hdr).bind (payloadOf maxSize · rest)
  | _ => none

/-- The frames of a stream, at most `fuel` of them. -/
def framesAux (maxSize : Nat) : Nat → List (Option UInt8) → List Frame
  | 0, _ => []
  | fuel + 1, ts =>
    match nextFrame maxSize ts with
    | none => []
    | some (f, rest) => f :: framesAux maxSize fuel rest

/-- The frames of a stream up to its first invalid point. -/
def framesOf (maxSize : Nat) (ts : List (Option UInt8)) : List Frame :=
  framesAux maxSize ts.length ts

/-! ## One frame -/

theorem skipIdle_eq (ts : List (Option UInt8)) :
    ∃ n, ts = List.replicate n none ++ skipIdle ts := by
  induction ts with
  | nil => exact ⟨0, rfl⟩
  | cons t ts ih =>
    cases t with
    | none =>
      obtain ⟨n, hn⟩ := ih
      exact ⟨n + 1, by rw [skipIdle, List.replicate_succ, List.cons_append, ← hn]⟩
    | some b => exact ⟨0, rfl⟩

theorem skipIdle_replicate_append (n : Nat) {ts : List (Option UInt8)}
    (h : skipIdle ts = ts) : skipIdle (List.replicate n none ++ ts) = ts := by
  induction n with
  | zero => exact h
  | succ n ih => rw [List.replicate_succ, List.cons_append, skipIdle, ih]

theorem skipIdle_frame (f : Frame) (rest : List (Option UInt8)) :
    skipIdle (f.bytes.map some ++ rest) = f.bytes.map some ++ rest := by
  cases h : f.bytes with
  | nil =>
    have hlen := f.length_bytes
    rw [h] at hlen
    simp at hlen
    omega
  | cons b bs => rfl

theorem payloadOf_eq_some {maxSize : Nat} {header : RequestResponseHeader}
    {ts rest : List (Option UInt8)} {f : Frame}
    (h : payloadOf maxSize header ts = some (f, rest)) :
    f.header = header ∧ ts = f.payload.map some ++ rest ∧
      8 + f.payload.length ≤ maxSize := by
  simp only [payloadOf] at h
  split at h
  · rename_i hmax
    split at h
    · rename_i payload rest' hread
      split at h
      · rename_i hsize
        simp only [Option.some.injEq, Prod.mk.injEq] at h
        obtain ⟨rfl, rfl⟩ := h
        exact ⟨rfl, (readExact_eq_full hread).2, hsize ▸ hmax⟩
      · simp at h
    · simp at h
  · simp at h

theorem payloadOf_eq_none {maxSize : Nat} {header : RequestResponseHeader}
    (ts : List (Option UInt8))
    (h : ¬(8 ≤ header.sizeField ∧ header.sizeField ≤ maxSize)) :
    payloadOf maxSize header ts = none := by
  cases hp : payloadOf maxSize header ts with
  | none => rfl
  | some p =>
    obtain ⟨hheader, -, hmax⟩ := payloadOf_eq_some hp
    have hsize := p.1.sizeField_eq
    rw [hheader] at hsize
    omega

theorem payloadOf_frame {maxSize : Nat} (f : Frame) (rest : List (Option UInt8))
    (hmax : 8 + f.payload.length ≤ maxSize) :
    payloadOf maxSize f.header (f.payload.map some ++ rest) = some (f, rest) := by
  simp only [payloadOf, f.sizeField_eq, if_pos hmax, Nat.add_sub_cancel_left,
    readExact_append_length, dite_true]

/-- A stream starts with the frame `f` exactly when it is some timeouts, the
bytes of `f` without a timeout in between, and the rest. -/
theorem nextFrame_eq_some_iff {maxSize : Nat} {ts rest : List (Option UInt8)} {f : Frame} :
    nextFrame maxSize ts = some (f, rest) ↔
      ∃ n, ts = List.replicate n none ++ (f.bytes.map some ++ rest) ∧
        8 + f.payload.length ≤ maxSize := by
  constructor
  · intro h
    simp only [nextFrame] at h
    split at h
    · rename_i hdr rest' hread
      obtain ⟨hlen, hts⟩ := readExact_eq_full hread
      rw [RequestResponseHeader.ofBytes?_eq_some hlen, Option.bind_some] at h
      obtain ⟨hheader, hrest, hmax⟩ := payloadOf_eq_some h
      obtain ⟨n, hn⟩ := skipIdle_eq ts
      refine ⟨n, ?_, hmax⟩
      rw [hn, hts, hrest, Frame.bytes, hheader, List.map_append, List.append_assoc]
    · simp at h
  · rintro ⟨n, rfl, hmax⟩
    have hread := readExact_append_length f.header.bytes (f.payload.map some ++ rest)
    rw [f.header.length_bytes] at hread
    simp only [nextFrame, skipIdle_replicate_append n (skipIdle_frame f rest)]
    rw [Frame.bytes, List.map_append, List.append_assoc, hread]
    simp only [RequestResponseHeader.ofBytes?_eq_some f.header.length_bytes, Option.bind_some]
    exact payloadOf_frame f rest hmax

/-- Without timeouts a stream starts with the frame `f` exactly when its bytes do. -/
theorem nextFrame_map_some_iff {maxSize : Nat} {bs : List UInt8}
    {rest : List (Option UInt8)} {f : Frame} :
    nextFrame maxSize (bs.map some) = some (f, rest) ↔
      ∃ tail, bs = f.bytes ++ tail ∧ rest = tail.map some ∧
        8 + f.payload.length ≤ maxSize := by
  rw [nextFrame_eq_some_iff]
  constructor
  · intro h
    obtain ⟨n, hbs, hmax⟩ := h
    cases n with
    | zero =>
      rw [List.replicate_zero, List.nil_append] at hbs
      obtain ⟨front, tail, rfl, hfront, htail⟩ := List.map_eq_append_iff.mp hbs
      rw [List.map_inj_right fun a b hab => Option.some.inj hab] at hfront
      exact ⟨tail, by rw [hfront], htail.symm, hmax⟩
    | succ n =>
      have hmem : none ∈ bs.map some := by
        rw [hbs]
        simp
      simp at hmem
  · intro h
    obtain ⟨tail, rfl, rfl, hmax⟩ := h
    exact ⟨0, by simp, hmax⟩

/-- Bytes that are too short for a header have no frame. -/
theorem nextFrame_short {maxSize : Nat} {bs : List UInt8} (h : bs.length < 8) :
    nextFrame maxSize (bs.map some) = none := by
  cases hnext : nextFrame maxSize (bs.map some) with
  | none => rfl
  | some p =>
    obtain ⟨tail, rfl, -, -⟩ := nextFrame_map_some_iff.mp hnext
    rw [List.length_append, Frame.length_bytes] at h
    omega

/-- Bytes whose header announces a bad size, or more bytes than follow it, have no
frame. -/
theorem nextFrame_cut {maxSize : Nat} {hdr tail : List UInt8} (hlen : hdr.length = 8)
    (h : 8 ≤ leVal (hdr.take 3) → leVal (hdr.take 3) ≤ maxSize →
      tail.length < leVal (hdr.take 3) - 8) :
    nextFrame maxSize ((hdr ++ tail).map some) = none := by
  cases hnext : nextFrame maxSize ((hdr ++ tail).map some) with
  | none => rfl
  | some p =>
    obtain ⟨after, hbytes, -, hmax⟩ := nextFrame_map_some_iff.mp hnext
    rw [Frame.bytes, List.append_assoc] at hbytes
    obtain ⟨rfl, rfl⟩ := List.append_inj hbytes (by rw [hlen, p.1.header.length_bytes])
    have hsize : leVal (p.1.header.bytes.take 3) = 8 + p.1.payload.length := p.1.sizeField_eq
    rw [hsize, List.length_append] at h
    have := h (by omega) hmax
    omega

/-- A frame takes at least its header from the stream. -/
theorem nextFrame_length {maxSize : Nat} {ts rest : List (Option UInt8)} {f : Frame}
    (h : nextFrame maxSize ts = some (f, rest)) : rest.length + 8 ≤ ts.length := by
  obtain ⟨n, rfl, -⟩ := nextFrame_eq_some_iff.mp h
  simp only [List.length_append, List.length_map, f.length_bytes]
  omega

/-! ## All frames -/

private theorem framesAux_fuel (maxSize fuel extra : Nat) (ts : List (Option UInt8))
    (hfuel : ts.length ≤ fuel) :
    framesAux maxSize (fuel + extra) ts = framesAux maxSize fuel ts := by
  induction fuel generalizing ts with
  | zero =>
    obtain rfl : ts = [] := List.eq_nil_of_length_eq_zero (by omega)
    cases extra with
    | zero => rfl
    | succ extra => rfl
  | succ fuel ih =>
    rw [show fuel + 1 + extra = fuel + extra + 1 by omega, framesAux, framesAux]
    split
    · rfl
    · rename_i f rest hnext
      have hlen := nextFrame_length hnext
      rw [ih rest (by omega)]

@[simp] theorem framesOf_nil (maxSize : Nat) : framesOf maxSize [] = [] := rfl

theorem framesOf_eq_nil {maxSize : Nat} {ts : List (Option UInt8)}
    (h : nextFrame maxSize ts = none) : framesOf maxSize ts = [] := by
  rw [framesOf]
  cases ts.length with
  | zero => rfl
  | succ n => rw [framesAux, h]

theorem framesOf_eq_cons {maxSize : Nat} {ts rest : List (Option UInt8)} {f : Frame}
    (h : nextFrame maxSize ts = some (f, rest)) :
    framesOf maxSize ts = f :: framesOf maxSize rest := by
  have hlen := nextFrame_length h
  obtain ⟨k, hk⟩ : ∃ k, ts.length = rest.length + k + 1 :=
    ⟨ts.length - rest.length - 1, by omega⟩
  rw [framesOf, hk, framesAux, h, framesOf]
  simp only [framesAux_fuel maxSize rest.length k rest (le_refl _)]

/-- Frames put on the wire one behind the other, with timeouts in front of
any of them, are the frames of the stream. -/
theorem framesOf_append {maxSize : Nat} (sent : List (Nat × Frame))
    (rest : List (Option UInt8))
    (hmax : ∀ p ∈ sent, 8 + p.2.payload.length ≤ maxSize) :
    framesOf maxSize
        ((sent.flatMap fun p => List.replicate p.1 none ++ p.2.bytes.map some) ++ rest) =
      sent.map Prod.snd ++ framesOf maxSize rest := by
  induction sent with
  | nil => rfl
  | cons p sent ih =>
    rw [List.flatMap_cons, List.map_cons, List.cons_append]
    have hnext : nextFrame maxSize
        ((List.replicate p.1 none ++ p.2.bytes.map some) ++
          (sent.flatMap fun p => List.replicate p.1 none ++ p.2.bytes.map some) ++ rest) =
        some (p.2,
          (sent.flatMap fun p => List.replicate p.1 none ++ p.2.bytes.map some) ++ rest) :=
      nextFrame_eq_some_iff.mpr ⟨p.1, by simp, hmax p (by simp)⟩
    rw [framesOf_eq_cons hnext, ih fun q hq => hmax q (by simp [hq])]

/-- Frames without timeouts are the frames of their bytes.  No frame is too
long for a limit of `2 ^ 24`. -/
theorem framesOf_stream (sent : List Frame) :
    framesOf (2 ^ 24) ((stream sent).map some) = sent := by
  have h := @framesOf_append (2 ^ 24) (sent.map fun f => (0, f)) [] (by
    intro p hp
    have hlt := p.2.header.sizeField_lt
    rw [p.2.sizeField_eq] at hlt
    omega)
  simpa [stream, List.flatMap_map, List.map_flatMap, Function.comp_def] using h

end OracleMachine.Network.Framing
