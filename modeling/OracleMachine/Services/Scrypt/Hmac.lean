import OracleMachine.Lib.Pbkdf2
import OracleMachine.Services.Scrypt.Streaming

/-!
# HMAC and PBKDF2 of the Doge service
-/

namespace OracleMachine.Services.Scrypt

open Lib Lib.Bytes Lib.Blocks Lib.Memory

/-! ## HMAC -/

/-- `HMAC_SHA256_CTX`. -/
structure HMACSHA256Context where
  ictx : SHA256Context
  octx : SHA256Context

/-- A context of two contexts that were cleared. -/
def HMACSHA256Context.cleared : HMACSHA256Context where
  ictx := .cleared
  octx := .cleared

/-- The key that `HMAC_SHA256_Init` goes on with, and the inner context. -/
def hmacKey (ictx : SHA256Context) (K : List UInt8) (Klen : Nat) :
    Option (List UInt8 × SHA256Context) :=
  if Klen > 64 then do
    let ictx ← sha256Update (sha256Init ictx) K Klen
    sha256Final ictx
  else do
    return (← loads K Klen, ictx)

/-- The array `pad` after `memset` with a byte and the loop `pad[i] ^= K[i]`. -/
def keyPad (byte : UInt8) (K : List UInt8) : Option (Vector UInt8 64) :=
  update (· ^^^ ·) 0 K.length (fun _ i => K[i]?) (Vector.replicate 64 byte)

/-- `HMAC_SHA256_Init`. -/
def hmacSha256Init (ctx : HMACSHA256Context) (K : List UInt8) (Klen : Nat) :
    Option HMACSHA256Context := do
  let key ← hmacKey ctx.ictx K Klen
  let pad ← keyPad 0x36 key.1
  let ictx ← sha256Update (sha256Init key.2) pad.toList 64
  let pad ← keyPad 0x5c key.1
  let octx ← sha256Update (sha256Init ctx.octx) pad.toList 64
  return { ictx, octx }

/-- `HMAC_SHA256_Update`. -/
def hmacSha256Update (ctx : HMACSHA256Context) (src : List UInt8) (len : Nat) :
    Option HMACSHA256Context := do
  let ictx ← sha256Update ctx.ictx src len
  return { ctx with ictx }

/-- `HMAC_SHA256_Final`: the digest and the context. -/
def hmacSha256Final (ctx : HMACSHA256Context) : Option (List UInt8 × HMACSHA256Context) := do
  let inner ← sha256Final ctx.ictx
  let octx ← sha256Update ctx.octx inner.1 32
  let outer ← sha256Final octx
  return (outer.1, { ictx := inner.2, octx := outer.2 })

/-! ## PBKDF2 -/

/-- What the loops of `PBKDF2_SHA256` work on. -/
structure Links where
  hctx : HMACSHA256Context
  U : List UInt8
  T : Vector UInt8 32

/-- The body of the loop `for (j = 2; j <= c; j++)`. -/
def linksPass (passwd : List UInt8) (passwdlen : Nat) (links : Links) : Option Links := do
  let hctx ← hmacSha256Init links.hctx passwd passwdlen
  let hctx ← hmacSha256Update hctx links.U 32
  let final ← hmacSha256Final hctx
  let T ← update (· ^^^ ·) 0 32 (fun _ k => final.1[k]?) links.T
  return { hctx := final.2, U := final.1, T }

/-- The loop `for (j = 2; j <= c; j++)` over a counter of 64 bits, which starts again
from zero behind its last value. -/
def linksLoop (passwd : List UInt8) (passwdlen : Nat) (c : UInt64) :
    Nat → UInt64 → Links → Option Links
  | 0, _, _ => none
  | fuel + 1, j, links =>
    if j ≤ c then do
      linksLoop passwd passwdlen c fuel (j + 1) (← linksPass passwd passwdlen links)
    else
      some links

/-- The block `i` of `PBKDF2_SHA256`, counted from zero.  A loop over `j` that still
runs after as many passes as `j` has values never ends. -/
def pbkdf2Block (PShctx : HMACSHA256Context) (passwd : List UInt8) (passwdlen : Nat)
    (c : UInt64) (i : Nat) : Option (Vector UInt8 32) := do
  let ivec := be32enc (UInt32.ofNat (i + 1))
  let hctx ← hmacSha256Update PShctx ivec 4
  let final ← hmacSha256Final hctx
  let T ← stores (Vector.replicate 32 0) 0 (← loads final.1 32)
  let links ← linksLoop passwd passwdlen c (2 ^ 64) 2 { hctx := final.2, U := final.1, T }
  return links.T

/-- The end of a pass of the loop over the blocks: as many bytes as necessary are
copied. -/
def copyBlock {size : Nat} (dkLen i : Nat) (T : Vector UInt8 32) (buf : Vector UInt8 size) :
    Option (Vector UInt8 size) := do
  let clen := dkLen - i * 32
  let clen := if clen > 32 then 32 else clen
  stores buf (i * 32) (← loads T.toList clen)

/-- `PBKDF2_SHA256`.  The contexts are local variables, and the loop over the
blocks runs while `i * 32 < dkLen`. -/
def pbkdf2Sha256 {size : Nat} (passwd : List UInt8) (passwdlen : Nat) (salt : List UInt8)
    (saltlen : Nat) (c : UInt64) (buf : Vector UInt8 size) (dkLen : Nat) :
    Option (Vector UInt8 size) := do
  let PShctx ← hmacSha256Init .cleared passwd passwdlen
  let PShctx ← hmacSha256Update PShctx salt saltlen
  (List.range ((dkLen + 31) / 32)).foldlM
    (fun buf i => do copyBlock dkLen i (← pbkdf2Block PShctx passwd passwdlen c i) buf) buf

/-! ## Keyed contexts -/

/-- The key as a block of SHA-256. -/
def blockKey (key : List UInt8) : List UInt8 := Pbkdf2.blockKey Sha256.hash 64 key

/-- The keyed hash of the standard, with SHA-256. -/
def hmacSha256 (key message : List UInt8) : List UInt8 := Pbkdf2.hmac Sha256.hash 64 key message

/-- The context was given a key and has taken in a message. -/
structure Keyed (ctx : HMACSHA256Context) (key message : List UInt8) : Prop where
  inner : Absorbed ctx.ictx ((blockKey key).map (0x36 ^^^ ·) ++ message)
  outer : Absorbed ctx.octx ((blockKey key).map (0x5c ^^^ ·))

/-- The key that is used has at most the length of a block. -/
theorem hmacKey_spec (ictx : SHA256Context) {K : List UInt8} {Klen : Nat} (h : Klen ≤ K.length) :
    ∃ key ictx', hmacKey ictx K Klen = some (key, ictx') ∧ key.length ≤ 64 ∧
      key ++ List.replicate (64 - key.length) 0 = blockKey (K.take Klen) := by
  have htake : (K.take Klen).length = Klen := List.length_take_of_le h
  rw [hmacKey, blockKey, Pbkdf2.blockKey, htake]
  by_cases hlong : 64 < Klen
  · obtain ⟨ctx, hupdate, habsorbed⟩ := (absorbed_init ictx).update h
    rw [List.nil_append] at habsorbed
    have hlen := Sha256.length_hash (K.take Klen)
    refine ⟨Sha256.hash (K.take Klen), .cleared, ?_, by omega, ?_⟩
    · rw [if_pos hlong, hupdate, some_bind, habsorbed.final]
    · rw [if_pos hlong]
  · refine ⟨K.take Klen, ictx, ?_, by omega, ?_⟩
    · rw [if_neg hlong, loads_eq h]
      rfl
    · rw [if_neg hlong]

/-- The array `pad` is the key with the byte added to every place. -/
theorem keyPad_spec (byte : UInt8) {key : List UInt8} (h : key.length ≤ 64) :
    ∃ pad, keyPad byte key = some pad ∧
      pad.toList = (key ++ List.replicate (64 - key.length) 0).map (byte ^^^ ·) := by
  have hwindow : window (Vector.replicate 64 byte) 0 key.length =
      List.replicate key.length byte := by
    rw [window, slice, Vector.toList_replicate, List.drop_zero, List.take_replicate,
      Nat.min_eq_left h]
  have hzip : List.zipWith (· ^^^ ·) (List.replicate key.length byte) key =
      key.map (byte ^^^ ·) := by
    apply List.ext_getElem?
    intro i
    rw [List.getElem?_zipWith, List.getElem?_replicate, List.getElem?_map]
    by_cases hi : i < key.length
    · rw [if_pos hi, List.getElem?_eq_getElem hi]
      rfl
    · rw [if_neg hi, List.getElem?_eq_none (Nat.le_of_not_lt hi)]
      rfl
  have hupdate : keyPad byte key =
      some (overwrite (Vector.replicate 64 byte) 0 (key.map (byte ^^^ ·))) := by
    rw [← hzip, ← hwindow]
    apply update_eq_overwrite (by omega) rfl
    intro i _ ws _
    rfl
  refine ⟨_, hupdate, ?_⟩
  rw [toList_overwrite_front _ (by rw [List.length_map]; exact h), List.length_map,
    Vector.toList_replicate, List.drop_replicate, List.map_append, List.map_replicate,
    UInt8.xor_zero]

/-- `HMAC_SHA256_Init` sets up both contexts for a key of any length. -/
theorem keyed_init (ctx : HMACSHA256Context) {K : List UInt8} {Klen : Nat} (h : Klen ≤ K.length) :
    ∃ ctx', hmacSha256Init ctx K Klen = some ctx' ∧ Keyed ctx' (K.take Klen) [] := by
  obtain ⟨key, ictx, hkey, hlen, hblock⟩ := hmacKey_spec ctx.ictx h
  obtain ⟨ipad, hipad, hipadList⟩ := keyPad_spec 0x36 hlen
  obtain ⟨opad, hopad, hopadList⟩ := keyPad_spec 0x5c hlen
  obtain ⟨inner, hinner, hinner'⟩ := (absorbed_init ictx).update_all ipad.toList
  obtain ⟨outer, houter, houter'⟩ := (absorbed_init ctx.octx).update_all opad.toList
  rw [Vector.length_toList] at hinner houter
  rw [List.nil_append, hipadList, hblock] at hinner'
  rw [List.nil_append, hopadList, hblock] at houter'
  refine ⟨{ ictx := inner, octx := outer }, ?_, ?_, houter'⟩
  · rw [hmacSha256Init, hkey, some_bind, hipad, some_bind, hinner, some_bind, hopad, some_bind,
      houter]
    rfl
  · rw [List.append_nil]
    exact hinner'

theorem Keyed.update {ctx : HMACSHA256Context} {key message : List UInt8}
    (h : Keyed ctx key message) {src : List UInt8} {len : Nat} (hlen : len ≤ src.length) :
    ∃ ctx', hmacSha256Update ctx src len = some ctx' ∧ Keyed ctx' key (message ++ src.take len) := by
  obtain ⟨ictx, hupdate, hinner⟩ := h.inner.update hlen
  rw [List.append_assoc] at hinner
  refine ⟨{ ctx with ictx }, ?_, hinner, h.outer⟩
  rw [hmacSha256Update, hupdate]
  rfl

theorem Keyed.update_all {ctx : HMACSHA256Context} {key message : List UInt8}
    (h : Keyed ctx key message) (src : List UInt8) :
    ∃ ctx', hmacSha256Update ctx src src.length = some ctx' ∧ Keyed ctx' key (message ++ src) := by
  have hupdate := h.update (Nat.le_refl src.length)
  rwa [List.take_length] at hupdate

theorem Keyed.final {ctx : HMACSHA256Context} {key message : List UInt8}
    (h : Keyed ctx key message) :
    hmacSha256Final ctx = some (hmacSha256 key message, .cleared) := by
  obtain ⟨octx, hupdate, houter⟩ := h.outer.update_all
    (Sha256.hash ((blockKey key).map (0x36 ^^^ ·) ++ message))
  rw [Sha256.length_hash] at hupdate
  rw [hmacSha256Final, h.inner.final, some_bind, hupdate, some_bind, houter.final, some_bind]
  rfl

/-- `HMAC_SHA256_Init`, `HMAC_SHA256_Update` for every piece, and
`HMAC_SHA256_Final`. -/
def hmacSha256OfPieces (ctx : HMACSHA256Context) (K : List UInt8) (pieces : List (List UInt8)) :
    Option (List UInt8 × HMACSHA256Context) := do
  let ctx ← hmacSha256Init ctx K K.length
  let ctx ← pieces.foldlM (fun ctx piece => hmacSha256Update ctx piece piece.length) ctx
  hmacSha256Final ctx

/-- The keyed hash, for keys and messages of every length. -/
theorem keyed_hash_of_pieces (ctx : HMACSHA256Context) (K : List UInt8)
    (pieces : List (List UInt8)) :
    hmacSha256OfPieces ctx K pieces =
      some (Pbkdf2.hmac Sha256.hash 64 K pieces.flatten, .cleared) := by
  obtain ⟨ctx1, hinit, h1⟩ := keyed_init ctx (Nat.le_refl K.length)
  obtain ⟨ctx2, hupdates, h2⟩ := foldlM_flatten_spec (fun message ctx => Keyed ctx _ message)
    (fun _ _ piece h => h.update_all piece) pieces h1
  rw [hmacSha256OfPieces, hinit, some_bind, hupdates, some_bind, h2.final, List.nil_append,
    List.take_length, hmacSha256]

/-! ## Derived keys -/

section Derive

variable {passwd : List UInt8} {passwdlen : Nat}

theorem length_hmacSha256 (key message : List UInt8) : (hmacSha256 key message).length = 32 :=
  Sha256.length_hash _

/-- The loop `T[k] ^= U[k]`. -/
theorem update_xor_spec (T : Vector UInt8 32) {U : List UInt8} (hU : U.length = 32) :
    ∃ T', update (· ^^^ ·) 0 32 (fun _ k => U[k]?) T = some T' ∧
      T'.toList = Pbkdf2.xorBytes T.toList U := by
  have hupdate : update (· ^^^ ·) 0 32 (fun _ k => U[k]?) T =
      some (overwrite T 0 (List.zipWith (· ^^^ ·) (window T 0 32) U)) := by
    apply update_eq_overwrite (Nat.le_refl 32) hU
    intro i _ ws _
    rfl
  refine ⟨_, hupdate, ?_⟩
  rw [window_all, toList_overwrite
    (by rw [List.length_zipWith, Vector.length_toList, hU, Nat.min_self]), Pbkdf2.xorBytes]

/-- A pass computes the next link and adds it. -/
theorem linksPass_spec (hpasswd : passwdlen ≤ passwd.length) {links : Links}
    (hU : links.U.length = 32) :
    ∃ links', linksPass passwd passwdlen links = some links' ∧
      links'.U = hmacSha256 (passwd.take passwdlen) links.U ∧
      links'.T.toList = Pbkdf2.xorBytes links.T.toList links'.U := by
  obtain ⟨hctx, hinit, hkeyed⟩ := keyed_init links.hctx hpasswd
  obtain ⟨hctx', hupdate, hkeyed'⟩ := hkeyed.update_all links.U
  obtain ⟨T, hxor, hT⟩ := update_xor_spec links.T
    (length_hmacSha256 (passwd.take passwdlen) links.U)
  rw [hU] at hupdate
  refine ⟨⟨.cleared, hmacSha256 (passwd.take passwdlen) links.U, T⟩, ?_, rfl, hT⟩
  rw [linksPass, hinit, some_bind, hupdate, some_bind, hkeyed'.final, some_bind, List.nil_append,
    hxor]
  rfl

/-- The links behind the first one. -/
theorem links_spec (hpasswd : passwdlen ≤ passwd.length) (n : Nat) (links : Links)
    (hU : links.U.length = 32) :
    ∃ links', (List.range n).foldlM (fun links _ => linksPass passwd passwdlen links) links =
        some links' ∧
      links'.T.toList = (List.range n).foldl (fun T j =>
        Pbkdf2.xorBytes T ((hmacSha256 (passwd.take passwdlen))^[j + 1] links.U)) links.T.toList := by
  obtain ⟨links', hloop, -, hT⟩ := foldlM_range_spec
    (fun i (links' : Links) =>
      (links'.U.length = 32 ∧ links'.U = (hmacSha256 (passwd.take passwdlen))^[i] links.U) ∧
      links'.T.toList = (List.range i).foldl (fun T j =>
        Pbkdf2.xorBytes T ((hmacSha256 (passwd.take passwdlen))^[j + 1] links.U)) links.T.toList)
    ⟨⟨hU, rfl⟩, rfl⟩ (by
      rintro i - links1 ⟨⟨hlen, hlink⟩, hT⟩
      obtain ⟨links2, hpass, hU2, hT2⟩ := linksPass_spec hpasswd hlen
      have hlink2 : links2.U = (hmacSha256 (passwd.take passwdlen))^[i + 1] links.U := by
        rw [hU2, hlink, Function.iterate_succ_apply']
      refine ⟨links2, hpass, ⟨?_, hlink2⟩, ?_⟩
      · rw [hU2, length_hmacSha256]
      · rw [hT2, hT, hlink2, List.range_succ, List.foldl_append]
        rfl)
  exact ⟨links', hloop, hT⟩

/-- The loop ends unless `c` is the largest value, and then has made a pass for every
value of `j` up to `c`. -/
theorem linksLoop_eq {c : UInt64} (hc : c.toNat < 2 ^ 64 - 1) {fuel : Nat} {j : UInt64}
    (hfuel : c.toNat + 1 - j.toNat < fuel) (links : Links) :
    linksLoop passwd passwdlen c fuel j links =
      (List.range (c.toNat + 1 - j.toNat)).foldlM
        (fun links _ => linksPass passwd passwdlen links) links := by
  induction fuel generalizing j links with
  | zero => exact absurd hfuel (Nat.not_lt_zero _)
  | succ fuel ih =>
    rw [linksLoop]
    by_cases hj : j ≤ c
    · have hle : j.toNat ≤ c.toNat := UInt64.le_iff_toNat_le.mp hj
      have hnext : (j + 1).toNat = j.toNat + 1 := by
        rw [UInt64.toNat_add, UInt64.toNat_one, Nat.mod_eq_of_lt (by omega)]
      have hcount : c.toNat + 1 - j.toNat = c.toNat + 1 - (j + 1).toNat + 1 := by omega
      rw [if_pos hj, hcount, List.range_succ_eq_map, List.foldlM_cons]
      congr 1
      funext links'
      rw [ih (by omega) links', List.foldlM_map]
    · have hlt : c.toNat < j.toNat := UInt64.lt_iff_toNat_lt.mp (UInt64.not_le.mp hj)
      rw [if_neg hj, Nat.sub_eq_zero_of_le hlt]
      rfl

/-- For the largest value no number of passes is enough. -/
theorem linksLoop_max (fuel : Nat) (j : UInt64) (links : Links) :
    linksLoop passwd passwdlen (UInt64.ofNat (2 ^ 64 - 1)) fuel j links = none := by
  induction fuel generalizing j links with
  | zero => rfl
  | succ fuel ih =>
    have hmax : (UInt64.ofNat (2 ^ 64 - 1)).toNat = 2 ^ 64 - 1 := by decide +kernel
    have hj : j ≤ UInt64.ofNat (2 ^ 64 - 1) := by
      rw [UInt64.le_iff_toNat_le, hmax]
      exact Nat.le_sub_one_of_lt j.toNat_lt
    rw [linksLoop, if_pos hj]
    cases linksPass passwd passwdlen links with
    | none => rfl
    | some links' => exact ih (j + 1) links'

/-- A block of the derived key. -/
theorem pbkdf2Block_spec (hpasswd : passwdlen ≤ passwd.length) {PShctx : HMACSHA256Context}
    {salt : List UInt8} (h : Keyed PShctx (passwd.take passwdlen) salt) {c : UInt64}
    (hc : c.toNat < 2 ^ 64 - 1) (i : Nat) :
    ∃ T, pbkdf2Block PShctx passwd passwdlen c i = some T ∧
      T.toList = Pbkdf2.deriveBlock (hmacSha256 (passwd.take passwdlen)) salt c.toNat (i + 1) := by
  have hivec : be32enc (UInt32.ofNat (i + 1)) = beBytes 4 (i + 1) := by
    rw [be32enc_eq, UInt32.toNat_ofNat', beBytes, beBytes]
    exact congrArg List.reverse (leBytes_mod 4 (i + 1))
  obtain ⟨hctx, hupdate, hkeyed⟩ := h.update_all (beBytes 4 (i + 1))
  rw [length_beBytes] at hupdate
  have hlen := length_hmacSha256 (passwd.take passwdlen) (salt ++ beBytes 4 (i + 1))
  generalize hU : hmacSha256 (passwd.take passwdlen) (salt ++ beBytes 4 (i + 1)) = U at hlen
  have hT : (overwrite (Vector.replicate 32 0) 0 U).toList = U := toList_overwrite hlen
  have htwo : (2 : UInt64).toNat = 2 := rfl
  have hcount : c.toNat + 1 - (2 : UInt64).toNat = c.toNat - 1 := by omega
  obtain ⟨links, hloop, hlinks⟩ := links_spec hpasswd (c.toNat - 1)
    ⟨.cleared, U, overwrite (Vector.replicate 32 0) 0 U⟩ hlen
  rw [← hcount, ← linksLoop_eq hc (by omega : _ < 2 ^ 64)] at hloop
  refine ⟨links.T, ?_, ?_⟩
  · rw [pbkdf2Block, hivec, hupdate, some_bind, hkeyed.final, some_bind, hU,
      loads_eq (Nat.le_of_eq hlen.symm), some_bind, List.take_of_length_le (Nat.le_of_eq hlen),
      stores_eq (by omega), some_bind, hloop]
    rfl
  · rw [hlinks, hT, Pbkdf2.deriveBlock, Pbkdf2.firstLink, hU]

/-- The end of a pass extends the derived key. -/
theorem copyBlock_eq {size dkLen i : Nat} {buf : Vector UInt8 size} {key : List UInt8}
    {T : Vector UInt8 32} (hsize : dkLen ≤ size) (hi : i * 32 < dkLen) (hkey : key.length = i * 32) :
    copyBlock dkLen i T (overwrite buf 0 (key.take dkLen)) =
      some (overwrite buf 0 ((key ++ T.toList).take dkLen)) := by
  have hT : T.toList.length = 32 := Vector.length_toList
  have hclen : (if dkLen - i * 32 > 32 then 32 else dkLen - i * 32) = min 32 (dkLen - i * 32) := by
    split <;> omega
  have hpart : (T.toList.take (min 32 (dkLen - i * 32))).length = min 32 (dkLen - i * 32) :=
    List.length_take_of_le (by omega)
  have hfront : key.take dkLen = key := List.take_of_length_le (by omega)
  have hnew : (key ++ T.toList).take dkLen = key ++ T.toList.take (min 32 (dkLen - i * 32)) := by
    have hmin := List.take_eq_take_min (i := dkLen - i * 32) (l := T.toList)
    rw [hT, Nat.min_comm] at hmin
    rw [List.take_append, hfront, hkey, hmin]
  have hjoin := overwrite_append buf 0 key (T.toList.take (min 32 (dkLen - i * 32)))
  rw [Nat.zero_add, hkey] at hjoin
  rw [copyBlock, hclen, loads_eq (by omega), some_bind, stores_eq (by omega), hfront, hjoin, hnew]

/-- `PBKDF2_SHA256` writes the derived key, and nothing else. -/
theorem pbkdf2Sha256_eq {size : Nat} (buf : Vector UInt8 size) {salt : List UInt8} {saltlen : Nat}
    {c : UInt64} (hc : c.toNat < 2 ^ 64 - 1) (dkLen : Nat) (hpasswd : passwdlen ≤ passwd.length)
    (hsalt : saltlen ≤ salt.length) (hsize : dkLen ≤ size) :
    pbkdf2Sha256 passwd passwdlen salt saltlen c buf dkLen = some (overwrite buf 0
      (Pbkdf2.derive (hmacSha256 (passwd.take passwdlen)) (salt.take saltlen) c.toNat 32
        dkLen)) := by
  obtain ⟨PShctx, hinit, hkeyed⟩ := keyed_init .cleared hpasswd
  obtain ⟨PShctx', hupdate, hkeyed'⟩ := hkeyed.update hsalt
  rw [List.nil_append] at hkeyed'
  -- Before block `i`, the buffer holds the key as far as the first `i` blocks reach.
  generalize hfront : Pbkdf2.deriveBlocks (hmacSha256 (passwd.take passwdlen))
    (salt.take saltlen) c.toNat = front
  have hpass : ∀ i < (dkLen + 31) / 32, ∀ buf1,
      (front i).length = i * 32 ∧ buf1 = overwrite buf 0 ((front i).take dkLen) →
      ∃ buf2, (do copyBlock dkLen i (← pbkdf2Block PShctx' passwd passwdlen c i) buf1) =
          some buf2 ∧
        (front (i + 1)).length = (i + 1) * 32 ∧
        buf2 = overwrite buf 0 ((front (i + 1)).take dkLen) := by
    rintro i hi buf1 ⟨hlen, rfl⟩
    obtain ⟨T, hT, hTlist⟩ := pbkdf2Block_spec hpasswd hkeyed' hc i
    have hnext : front (i + 1) = front i ++ T.toList := by
      rw [← hfront, hTlist, Pbkdf2.deriveBlocks]
    refine ⟨_, ?_, ?_, rfl⟩
    · rw [hT, some_bind, copyBlock_eq hsize (by omega) hlen, hnext]
    · rw [hnext, List.length_append, hlen, Vector.length_toList, Nat.succ_mul]
  have hstart : front 0 = [] := by rw [← hfront, Pbkdf2.deriveBlocks]
  obtain ⟨buf', hloop, -, rfl⟩ := foldlM_range_spec
    (fun i buf1 => (front i).length = i * 32 ∧ buf1 = overwrite buf 0 ((front i).take dkLen))
    ⟨by rw [hstart, List.length_nil, Nat.zero_mul],
      by rw [hstart, List.take_nil, overwrite_nil]⟩ hpass
  rw [pbkdf2Sha256, hinit, some_bind, hupdate, some_bind, hloop, Pbkdf2.derive, hfront]
  rfl

end Derive

/-- `PBKDF2_SHA256` writes the derived key to the front of the buffer and leaves
the bytes behind it.  The standard asks for an iteration and for at most `2 ^ 32 - 1`
blocks, and for the largest count the loop over the iterations does not end. -/
theorem derived_key_in_buffer {size : Nat} (passwd salt : List UInt8) (c : UInt64)
    (hc : 1 ≤ c.toNat ∧ c.toNat < 2 ^ 64 - 1) (buf : Vector UInt8 size) (dkLen : Nat)
    (hdkLen : dkLen ≤ size ∧ dkLen ≤ 32 * (2 ^ 32 - 1)) :
    ∃ buf', pbkdf2Sha256 passwd passwd.length salt salt.length c buf dkLen = some buf' ∧
      buf'.toList =
        Pbkdf2.derive (Pbkdf2.hmac Sha256.hash 64 passwd) salt c.toNat 32 dkLen ++
          buf.toList.drop dkLen := by
  have hlen := Pbkdf2.length_derive (hmacSha256 passwd) salt c.toNat (length_hmacSha256 passwd)
    (by decide : 0 < 32) dkLen
  have hkey := pbkdf2Sha256_eq buf hc.2 dkLen (Nat.le_refl passwd.length)
    (Nat.le_refl salt.length) hdkLen.1
  rw [List.take_length, List.take_length] at hkey
  refine ⟨_, hkey, ?_⟩
  rw [toList_overwrite_front buf (by rw [hlen]; exact hdkLen.1), hlen]
  rfl

/-- A key of 40 bytes in a buffer of 64. -/
theorem derived_key_in_buffer_64 :
    ∃ buf', pbkdf2Sha256 [1, 2, 3] 3 [4, 5] 2 1000 (Vector.replicate 64 7) 40 = some buf' ∧
      buf'.toList =
        Pbkdf2.derive (Pbkdf2.hmac Sha256.hash 64 [1, 2, 3]) [4, 5] 1000 32 40 ++
          List.replicate 24 7 := by
  obtain ⟨buf', hkey, hlist⟩ := derived_key_in_buffer [1, 2, 3] [4, 5] 1000 (by decide)
    (Vector.replicate 64 7) 40 (by decide)
  rw [Vector.toList_replicate, List.drop_replicate] at hlist
  exact ⟨buf', hkey, hlist⟩

end OracleMachine.Services.Scrypt
