import OracleMachine.Services.Scrypt.Sha256

/-!
# Hashing in pieces

`SHA256_Update` may be called any number of times before `SHA256_Final`.
-/

namespace OracleMachine.Services.Scrypt

open Lib Lib.Bytes Lib.Blocks Lib.Memory

/-! ## What a context stands for -/

/-- The number of bits in the two counters. -/
def SHA256Context.bits (ctx : SHA256Context) : Nat := ctx.count0.toNat * 2 ^ 32 + ctx.count1.toNat

/-- The context has taken in a message: the hash value covers its complete
blocks, the front of the buffer is the rest, and the two counters hold its
length in bits, modulo 2^64. -/
structure Absorbed (ctx : SHA256Context) (message : List UInt8) : Prop where
  count : ctx.bits = 8 * message.length % 2 ^ 64
  state : registers ctx.state = absorb Sha256.compress Sha256.initial 64 message
  buf : window ctx.buf 0 (message.length % 64) = rest 64 message

theorem absorbed_init (ctx : SHA256Context) : Absorbed (sha256Init ctx) [] where
  count := by
    rw [List.length_nil, Nat.mul_zero, Nat.zero_mod]
    show 0 * 2 ^ 32 + 0 = 0
    rw [Nat.zero_mul]
  state := by
    have hinitial : registers (sha256Init ctx).state = Sha256.initial := by
      show registers #v[0x6A09E667, 0xBB67AE85, 0x3C6EF372, 0xA54FF53A, 0x510E527F, 0x9B05688C,
        0x1F83D9AB, 0x5BE0CD19] = _
      decide +kernel
    rw [hinitial, absorb_of_lt _ _ (by decide)]
  buf := by rw [List.length_nil, Nat.zero_mod, window_zero]; rfl

/-- The number of bytes in the buffer, as the code computes it. -/
theorem Absorbed.buffered {ctx : SHA256Context} {message : List UInt8}
    (h : Absorbed ctx message) :
    ((ctx.count1 >>> 3) &&& 0x3f).toNat = message.length % 64 := by
  have hcount := h.count
  rw [SHA256Context.bits] at hcount
  have hlt := ctx.count1.toNat_lt
  have hmask : (ctx.count1.toNat / 2 ^ 3) &&& 63 = ctx.count1.toNat / 2 ^ 3 % 64 :=
    Nat.and_two_pow_sub_one_eq_mod _ 6
  rw [UInt32.toNat_and, UInt32.toNat_shiftRight, Nat.shiftRight_eq_div_pow]
  show (ctx.count1.toNat / 2 ^ 3) &&& 63 = _
  rw [hmask]
  omega

/-- The number of bits after an update. -/
theorem toNat_count (count0 count1 : UInt32) (len : Nat) :
    ((if count1 + UInt32.ofNat len <<< 3 < UInt32.ofNat len <<< 3 then count0 + 1 else count0) +
      UInt32.ofNat (len >>> 29)).toNat * 2 ^ 32 + (count1 + UInt32.ofNat len <<< 3).toNat =
      (count0.toNat * 2 ^ 32 + count1.toNat + 8 * len) % 2 ^ 64 := by
  have h0 := count0.toNat_lt
  have h1 := count1.toNat_lt
  have hlow : (UInt32.ofNat len <<< 3).toNat = 8 * len % 2 ^ 32 := by
    rw [UInt32.toNat_shiftLeft, UInt32.toNat_ofNat', Nat.shiftLeft_eq]
    show len % 2 ^ 32 * 2 ^ 3 % 2 ^ 32 = _
    omega
  have hhigh : (UInt32.ofNat (len >>> 29)).toNat = len / 2 ^ 29 % 2 ^ 32 := by
    rw [UInt32.toNat_ofNat', Nat.shiftRight_eq_div_pow]
  have hone : (1 : UInt32).toNat = 1 := rfl
  by_cases hcarry : count1 + UInt32.ofNat len <<< 3 < UInt32.ofNat len <<< 3
  · rw [if_pos hcarry, UInt32.toNat_add, UInt32.toNat_add count0, hone, UInt32.toNat_add, hhigh,
      hlow]
    rw [UInt32.lt_iff_toNat_lt, UInt32.toNat_add, hlow] at hcarry
    omega
  · rw [if_neg hcarry, UInt32.toNat_add, UInt32.toNat_add, hhigh, hlow]
    rw [UInt32.lt_iff_toNat_lt, UInt32.toNat_add, hlow] at hcarry
    omega

/-! ## Updates -/

/-- The loop over complete blocks. -/
theorem completeBlocks_spec (state : Vector UInt32 8) (src : List UInt8) (len : Nat)
    (h : len ≤ src.length) :
    ∃ state' src', completeBlocks state src len = some (state', src', len % 64) ∧
      registers state' = absorb Sha256.compress (registers state) 64 (src.take len) ∧
      loads src' (len % 64) = some (rest 64 (src.take len)) := by
  induction len using Nat.strongRecOn generalizing state src with
  | ind len ih =>
    have hlen : (src.take len).length = len := List.length_take_of_le h
    rw [completeBlocks]
    by_cases hblock : 64 ≤ len
    · have hfirst : (src.take 64).length = 64 := List.length_take_of_le (by omega)
      have hsplit : src.take len = src.take 64 ++ (src.drop 64).take (len - 64) := by
        rw [← List.take_add, Nat.add_sub_cancel' hblock]
      obtain ⟨state1, htransform, hstate1⟩ := sha256Transform_spec state hfirst
      obtain ⟨state', src', hloop, hstate', hleft⟩ := ih (len - 64) (by omega) state1 (src.drop 64)
        (by rw [List.length_drop]; omega)
      have hmod : (len - 64) % 64 = len % 64 := by omega
      rw [hmod] at hloop hleft
      refine ⟨state', src', ?_, ?_, ?_⟩
      · rw [if_pos hblock, loads_eq (by omega), some_bind, htransform,
          some_bind, hloop]
      · rw [hstate', hstate1, hsplit, absorb_append_block _ _ (by decide) hfirst]
      · rw [hleft, hsplit, rest_append_block (by decide) hfirst]
    · have hmod : len % 64 = len := Nat.mod_eq_of_lt (by omega)
      refine ⟨state, src, ?_, ?_, ?_⟩
      · rw [if_neg hblock, hmod]
      · rw [absorb_of_lt _ _ (by omega)]
      · rw [hmod, loads_eq h, rest_of_lt (by omega)]

/-- What an update makes of the counters. -/
theorem Absorbed.count_update {ctx : SHA256Context} {message : List UInt8} (h : Absorbed ctx message)
    {src : List UInt8} {len : Nat} (hlen : len ≤ src.length) (state : Vector UInt32 8)
    (buf : Vector UInt8 64) :
    SHA256Context.bits
      { state, buf
        count0 := (if ctx.count1 + UInt32.ofNat len <<< 3 < UInt32.ofNat len <<< 3
          then ctx.count0 + 1 else ctx.count0) + UInt32.ofNat (len >>> 29)
        count1 := ctx.count1 + UInt32.ofNat len <<< 3 } =
      8 * (message ++ src.take len).length % 2 ^ 64 := by
  have hbits := h.count
  rw [SHA256Context.bits] at hbits
  rw [SHA256Context.bits, toNat_count, hbits, List.length_append, List.length_take_of_le hlen]
  omega

/-- An update whose bytes fit behind those in the buffer. -/
theorem Absorbed.update_short {ctx : SHA256Context} {message : List UInt8}
    (h : Absorbed ctx message) {src : List UInt8} {len : Nat} (hlen : len ≤ src.length)
    (hshort : len < 64 - message.length % 64) :
    ∃ ctx', sha256Update ctx src len = some ctx' ∧ Absorbed ctx' (message ++ src.take len) := by
  have htake : (src.take len).length = len := List.length_take_of_le hlen
  have hroom : message.length % 64 + (src.take len).length ≤ 64 := by omega
  have hsmall : (rest 64 message ++ src.take len).length < 64 := by
    rw [List.length_append, length_rest]
    omega
  refine ⟨_, ?_, h.count_update hlen ctx.state
    (overwrite ctx.buf (message.length % 64) (src.take len)), ?_, ?_⟩
  · simp only [sha256Update, h.buffered]
    rw [if_pos hshort, loads_eq hlen, some_bind, stores_eq hroom]
    rfl
  · rw [h.state, absorb_append _ _ (by decide), absorb_of_lt _ _ hsmall]
  · have hmod : (message ++ src.take len).length % 64 =
        message.length % 64 + (src.take len).length := by
      rw [List.length_append]
      omega
    rw [hmod, rest_append (by decide), rest_of_lt hsmall]
    exact window_overwrite_front h.buf hroom

/-- An update that completes the block in the buffer. -/
theorem Absorbed.update_long {ctx : SHA256Context} {message : List UInt8}
    (h : Absorbed ctx message) {src : List UInt8} {len : Nat} (hlen : len ≤ src.length)
    (hlong : ¬ len < 64 - message.length % 64) :
    ∃ ctx', sha256Update ctx src len = some ctx' ∧ Absorbed ctx' (message ++ src.take len) := by
  have hr64 : message.length % 64 < 64 := Nat.mod_lt _ (by decide)
  have hrest := length_rest 64 message
  generalize hr : message.length % 64 = r at *
  have htake : (src.take (64 - r)).length = 64 - r := List.length_take_of_le (by omega)
  have hroom : r + (src.take (64 - r)).length ≤ 64 := by omega
  -- The buffer with the first bytes is a block, and the loop takes the rest of the bytes.
  have hblock : (overwrite ctx.buf r (src.take (64 - r))).toList =
      rest 64 message ++ src.take (64 - r) := by
    have hwindow := window_overwrite_front (hr ▸ h.buf) hroom
    rwa [htake, Nat.add_sub_cancel' (Nat.le_of_lt hr64), window_all] at hwindow
  have hfull : (rest 64 message ++ src.take (64 - r)).length = 64 := by
    rw [List.length_append, hrest, htake]
    omega
  have hpieces : rest 64 message ++ src.take len =
      (rest 64 message ++ src.take (64 - r)) ++ (src.drop (64 - r)).take (len - (64 - r)) := by
    rw [List.append_assoc, ← List.take_add, Nat.add_sub_cancel' (by omega)]
  obtain ⟨state1, htransform, hstate1⟩ := sha256Transform_spec ctx.state hfull
  obtain ⟨state2, src2, hloop, hstate2, hleft⟩ := completeBlocks_spec state1 (src.drop (64 - r))
    (len - (64 - r)) (by rw [List.length_drop]; omega)
  have hleftLength : (rest 64 ((src.drop (64 - r)).take (len - (64 - r)))).length =
      (len - (64 - r)) % 64 := by
    rw [length_rest, List.length_take_of_le (by rw [List.length_drop]; omega)]
  generalize hleft64 : rest 64 ((src.drop (64 - r)).take (len - (64 - r))) = left at *
  refine ⟨_, ?_, h.count_update hlen state2
    (overwrite (overwrite ctx.buf r (src.take (64 - r))) 0 left), ?_, ?_⟩
  · simp only [sha256Update, h.buffered, hr]
    rw [if_neg hlong, loads_eq (by omega), some_bind, stores_eq hroom,
      some_bind, hblock, htransform]
    simp only [some_bind, hloop, hleft]
    rw [stores_eq (by omega)]
    rfl
  · rw [hstate2, hstate1, h.state, absorb_append _ _ (by decide), hpieces,
      absorb_append_block _ _ (by decide) hfull]
  · have hmod : (message ++ src.take len).length % 64 = left.length := by
      rw [hleftLength, List.length_append, List.length_take_of_le hlen]
      omega
    rw [hmod, rest_append (by decide), hpieces, rest_append_block (by decide) hfull, hleft64]
    exact window_overwrite_self (by omega)

/-- An update appends to the message. -/
theorem Absorbed.update {ctx : SHA256Context} {message : List UInt8} (h : Absorbed ctx message)
    {src : List UInt8} {len : Nat} (hlen : len ≤ src.length) :
    ∃ ctx', sha256Update ctx src len = some ctx' ∧ Absorbed ctx' (message ++ src.take len) := by
  by_cases hshort : len < 64 - message.length % 64
  · exact h.update_short hlen hshort
  · exact h.update_long hlen hshort

/-- An update with all bytes of a list. -/
theorem Absorbed.update_all {ctx : SHA256Context} {message : List UInt8} (h : Absorbed ctx message)
    (src : List UInt8) :
    ∃ ctx', sha256Update ctx src src.length = some ctx' ∧ Absorbed ctx' (message ++ src) := by
  have hupdate := h.update (Nat.le_refl src.length)
  rwa [List.take_length] at hupdate

/-! ## The digest -/

/-- The two counters are the length in 64 bits. -/
theorem beBytes_count {count0 count1 : UInt32} {bits : Nat}
    (hbits : count0.toNat * 2 ^ 32 + count1.toNat = bits % 2 ^ 64) :
    [count0, count1].flatMap (fun word => beBytes 4 word.toNat) = beBytes 8 bits := by
  have h1 := count1.toNat_lt
  have hlow : leBytes 4 (count0.toNat * 2 ^ 32 + count1.toNat) = leBytes 4 count1.toNat := by
    have hmod : (count0.toNat * 2 ^ 32 + count1.toNat) % 256 ^ 4 = count1.toNat := by omega
    rw [← leBytes_mod 4 (count0.toNat * 2 ^ 32 + count1.toNat), hmod]
  have hhigh : (count0.toNat * 2 ^ 32 + count1.toNat) / 256 ^ 4 = count0.toNat := by omega
  have hbytes : leBytes 8 bits = leBytes 4 count1.toNat ++ leBytes 4 count0.toNat := by
    have h8 : leBytes 8 (bits % 2 ^ 64) = leBytes 8 bits := leBytes_mod 8 bits
    rw [← h8, ← hbits, leBytes_add 4 4, hlow, hhigh]
  rw [beBytes, hbytes, List.reverse_append]
  rfl

/-- What `SHA256_Pad` appends in front of the length. -/
theorem take_pad {r plen : Nat} (hr : r < 64)
    (hplen : plen = if r < 56 then 56 - r else 120 - r) :
    pad.take plen = 0x80 :: List.replicate ((119 - r) % 64) 0 ∧ plen ≤ pad.length := by
  have hlen : pad.length = 64 := rfl
  have hzeros : plen = (119 - r) % 64 + 1 := by
    rw [hplen]
    split <;> omega
  rw [hzeros, pad, List.take_succ_cons, List.take_replicate, Nat.min_eq_left (by omega)]
  exact ⟨rfl, by rw [List.length_cons, List.length_replicate]; omega⟩

/-- `SHA256_Pad` completes the message of the standard. -/
theorem Absorbed.pad {ctx : SHA256Context} {message : List UInt8} (h : Absorbed ctx message) :
    ∃ ctx', sha256Pad ctx = some ctx' ∧
      Absorbed ctx' (message ++ Sha256.padding message.length) := by
  obtain ⟨hpad, hplen⟩ := take_pad (Nat.mod_lt message.length (by decide : 64 > 0)) rfl
  obtain ⟨ctx1, hupdate1, h1⟩ := h.update hplen
  obtain ⟨ctx2, hupdate2, h2⟩ := h1.update_all (beBytes 8 (8 * message.length))
  refine ⟨ctx2, ?_, ?_⟩
  · rw [length_beBytes] at hupdate2
    rw [sha256Pad, be32encVect_eq rfl, beBytes_count h.count, some_bind]
    simp only [h.buffered]
    rw [hupdate1, some_bind, hupdate2]
  · rwa [List.append_assoc, hpad] at h2

theorem Absorbed.final {ctx : SHA256Context} {message : List UInt8} (h : Absorbed ctx message) :
    sha256Final ctx = some (Sha256.hash message, .cleared) := by
  obtain ⟨ctx', hpad, h'⟩ := h.pad
  have hlen : ctx'.state.toList.length = 32 / 4 := Vector.length_toList
  rw [sha256Final, hpad, some_bind, be32encVect_eq hlen, ← toList_registers, h'.state]
  rfl

/-! ## Messages in pieces -/

/-- `SHA256_Init`, `SHA256_Update` for every piece, and `SHA256_Final`. -/
def sha256OfPieces (ctx : SHA256Context) (pieces : List (List UInt8)) :
    Option (List UInt8 × SHA256Context) := do
  let ctx ← pieces.foldlM (fun ctx piece => sha256Update ctx piece piece.length) (sha256Init ctx)
  sha256Final ctx

/-- The digest depends on the message only, and not on how it is cut into pieces
or on what the context held before. -/
theorem digest_of_pieces (ctx : SHA256Context) (pieces : List (List UInt8)) :
    sha256OfPieces ctx pieces = some (Sha256.hash pieces.flatten, .cleared) := by
  obtain ⟨ctx', hupdates, h⟩ := foldlM_flatten_spec (fun message ctx => Absorbed ctx message)
    (fun _ _ piece h => h.update_all piece) pieces (absorbed_init ctx)
  rw [sha256OfPieces, hupdates, some_bind, h.final, List.nil_append]

end OracleMachine.Services.Scrypt
