import Mathlib.Logic.Function.Iterate
import XLArig.Panthera.Sha256

/-!
# XLArig.Panthera.Pbkdf2

HMAC and PBKDF2 of `crypto/randomx/panthera/sha256`.  Where there is one iteration and the output is
a number of whole digests, `PBKDF2_SHA256` prepares both last blocks, with their padding, and only
puts the number of the digest and the inner digest there.
-/

namespace XLArig

namespace Sha256

/-- `HMAC_SHA256_CTX`. -/
structure HmacCtx where
  ictx : Sha256Ctx
  octx : Sha256Ctx

/-- A pad with a key. -/
def xorPad (c : UInt8) (K : List UInt8) : List UInt8 :=
  K.map (c ^^^ ·) ++ List.replicate (64 - K.length) c

namespace Sha256Ctx

/-- `SHA256_Pad_Almost`; `none` where it returns -1. -/
def padAlmost (ctx : Sha256Ctx) : Option Sha256Ctx :=
  let r := ctx.buffered
  if 56 ≤ r then none
  else
    -- the length changes with the padding
    let len := be64enc ctx.count
    let ctx := ctx.update (pad.take (56 - r))
    let ctx := { ctx with buf := copy ctx.buf 63 (len.drop 7) }
    some (ctx.update (len.take 7))

end Sha256Ctx

/-! ## The padding without the last block -/

section

variable {ctx : Sha256Ctx} {message : List UInt8}

theorem Sha256Ctx.update_of_lt {src : List UInt8} (hne : src ≠ []) (h : src.length < 64 - ctx.buffered) :
    ctx.update src = { ctx with
      count := ctx.count + (UInt64.ofNat src.length <<< 3)
      buf := copy ctx.buf ctx.buffered src } := by
  have hpos : ¬ src.length = 0 := fun h => hne (List.length_eq_zero_iff.mp h)
  rw [Sha256Ctx.update, if_neg hpos]
  exact if_pos h

/-- The length is put at the end of a block, its last byte first. -/
theorem copy_length {buf bits : List UInt8} (hbuf : buf.length = 64) (hbits : bits.length = 8) :
    copy (copy buf 63 (bits.drop 7)) 56 (bits.take 7) = buf.take 56 ++ bits := by
  have hlast : (bits.drop 7).length = 1 := by rw [List.length_drop, hbits]
  have hfirst : (bits.take 7).length = 7 := by rw [List.length_take, hbits]; rfl
  have hlen : (buf.take 63).length = 63 := by rw [List.length_take, hbuf]; rfl
  rw [Sha256Ctx.copy_full (i := 63) (by omega), copy, hfirst]
  have htake : (buf.take 63 ++ bits.drop 7).take 56 = buf.take 56 := by
    rw [List.take_append_of_le_length (by omega), List.take_take]
    rfl
  have hdrop : (buf.take 63 ++ bits.drop 7).drop (56 + 7) = bits.drop 7 := List.drop_left' hlen
  rw [htake, hdrop, List.append_assoc, List.take_append_drop]

/-- The buffer is the last block. -/
theorem Sha256Ctx.Holds.padAlmost (h : ctx.Holds message) (hlt : message.length % 64 < 56) :
    ∃ ctx', ctx.padAlmost = some ctx' ∧ ctx'.state = (after message).1 ∧
      ctx'.buf = (after message).2 ++ padding message.length := by
  have hr := h.buffered
  have hbuf := h.length_buf
  have hcount := h.count
  rw [Sha256Ctx.padAlmost]
  simp only [hr, if_neg (Nat.not_le.mpr hlt), hcount]
  have hfill := Sha256Ctx.length_fill (show 56 - message.length % 64 ≤ 64 by omega)
  have hne : pad.take (56 - message.length % 64) ≠ [] := List.ne_nil_of_length_pos (by omega)
  have hpad := h.update (pad.take (56 - message.length % 64))
  have hr' := hpad.buffered
  rw [Sha256Ctx.update_of_lt hne (by omega), hr] at hr' hpad ⊢
  have hmod : (message ++ pad.take (56 - message.length % 64)).length % 64 = 56 := by
    rw [List.length_append, hfill]
    omega
  rw [hmod] at hr'
  have hlen' := hpad.length_buf
  have htail : (copy ctx.buf (message.length % 64) (pad.take (56 - message.length % 64))).take 56 =
      (after message).2 ++ pad.take (56 - message.length % 64) := by
    have hle : message.length % 64 ≤ ctx.buf.length := by omega
    have htake := Sha256Ctx.take_copy (pad.take (56 - message.length % 64)) hle
    rw [hfill, h.buf] at htake
    rw [← htake]
    congr 1
    omega
  generalize copy ctx.buf (message.length % 64) (pad.take (56 - message.length % 64)) = buf at *
  generalize hbits : be64enc (.ofNat (8 * message.length)) = bits
  have hbits' : bits.length = 8 := hbits ▸ rfl
  have hfirst : (bits.take 7).length = 7 := by rw [List.length_take, hbits']; rfl
  have hbuffered : ∀ buf', ({ ctx with
      count := ctx.count + (UInt64.ofNat (pad.take (56 - message.length % 64)).length <<< 3)
      buf := buf' } : Sha256Ctx).buffered = 56 := fun _ => hr'
  rw [Sha256Ctx.update_of_lt (List.ne_nil_of_length_pos (by omega)) (by rw [hfirst, hbuffered]; decide)]
  refine ⟨_, rfl, h.state, ?_⟩
  simp only [hbuffered]
  rw [copy_length hlen' hbits', htail, Sha256Ctx.padding_of_lt hlt, hbits, List.append_assoc]

end

namespace HmacCtx

/-- `_HMAC_SHA256_Init`; a key that is longer than a block is replaced by its digest. -/
def hmacInit (ctx : HmacCtx) (K : List UInt8) : HmacCtx :=
  let (K, ictx) :=
    if 64 < K.length then (ctx.ictx.sha256Init.update K).final
    else (K, ctx.ictx)
  ⟨ictx.sha256Init.update (xorPad 0x36 K), ctx.octx.sha256Init.update (xorPad 0x5c K)⟩

/-- `_HMAC_SHA256_Update`. -/
def update (ctx : HmacCtx) (input : List UInt8) : HmacCtx := { ctx with ictx := ctx.ictx.update input }

/-- `_HMAC_SHA256_Final`; its contexts are not used after it. -/
def final (ctx : HmacCtx) : List UInt8 :=
  let (ihash, _) := ctx.ictx.final
  (ctx.octx.update ihash).final.1

/-- `HMAC_SHA256_Buf`. -/
def hmacSha256Buf (ctx : HmacCtx) (K input : List UInt8) : List UInt8 := ((ctx.hmacInit K).update input).final

/-! ## PBKDF2 -/

/-- How often the loop over the digests runs. -/
def digests (dkLen : Nat) : Nat := (dkLen + 31) / 32

/-- The loop over `U_2`, `U_3` and so on. -/
def iterate (Phctx : HmacCtx) : (n : Nat) → (U T : List UInt8) → List UInt8
  | 0, _, T => T
  | n + 1, U, T =>
      let U := (Phctx.update U).final
      iterate Phctx n U (T.zipWith (· ^^^ ·) U)

/-- The part of `PBKDF2_SHA256` after `generic`. -/
def generic (Phctx : HmacCtx) (passwd salt : List UInt8) (c : UInt64) (dkLen : Nat) : List UInt8 :=
  let Phctx := Phctx.hmacInit passwd
  let PShctx := Phctx.update salt
  (List.range (digests dkLen)).flatMap fun i =>
    let ivec := be32enc (.ofNat (i + 1))
    let T := (PShctx.update ivec).final
    let T := if 1 < c then iterate Phctx (c.toNat - 1) T T else T
    let clen := dkLen - i * 32
    T.take (if 32 < clen then 32 else clen)

/-- The loop over the digests, with both last blocks prepared. -/
def prepared (istate ostate : Words) (ivecp : Nat) : (n i : Nat) → (ibuf obuf : List UInt8) → List UInt8
  | 0, _, _, _ => []
  | n + 1, i, ibuf, obuf =>
      let ibuf := copy ibuf ivecp (be32enc (.ofNat (i + 1)))
      let obuf := copy obuf 0 (be32encVect (transform istate ibuf))
      be32encVect (transform ostate obuf) ++ prepared istate ostate ivecp n (i + 1) ibuf obuf

/-- `PBKDF2_SHA256`; the contexts are not set up before. -/
def pbkdf2 (hctx Phctx : HmacCtx) (passwd salt : List UInt8) (c : UInt64) (dkLen : Nat) : List UInt8 :=
  if c = 1 ∧ dkLen &&& 31 = 0 ∧ salt.length &&& 63 ≤ 51 then
    let hctx := (hctx.hmacInit passwd).update salt
    let oldcount := hctx.ictx.count &&& 0x1f8
    let hctx := hctx.update [0, 0, 0, 0]
    if hctx.ictx.count &&& 0x1f8 < oldcount then generic Phctx passwd salt c dkLen
    else
      match hctx.ictx.padAlmost with
      | none => generic Phctx passwd salt c dkLen
      | some ictx =>
          let octx := { hctx.octx with count := hctx.octx.count + 256 }
          let octx := octx.padAlmost.getD octx
          prepared ictx.state octx.state (oldcount >>> 3).toNat (digests dkLen) 0 ictx.buf octx.buf
  else
    generic Phctx passwd salt c dkLen

/-! ## What they compute -/

/-- HMAC. -/
def hmac (K message : List UInt8) : List UInt8 :=
  let K := if 64 < K.length then sha256 K else K
  sha256 (xorPad 0x5c K ++ sha256 (xorPad 0x36 K ++ message))

/-- A digest of PBKDF2: the sum of `c` values. -/
def digest (passwd salt : List UInt8) (c i : Nat) : List UInt8 :=
  let U := hmac passwd (salt ++ be32enc (.ofNat i))
  ((List.range (c - 1)).map fun j => (hmac passwd)^[j + 1] U).foldl (List.zipWith (· ^^^ ·)) U

/-- PBKDF2. -/
def pbkdf2Spec (passwd salt : List UInt8) (c dkLen : Nat) : List UInt8 :=
  ((List.range (digests dkLen)).flatMap fun i => digest passwd salt c (i + 1)).take dkLen

/-! ## HMAC -/

/-- The key after the first step. -/
def blockKey (K : List UInt8) : List UInt8 := if 64 < K.length then sha256 K else K

/-- A context that was given a key and a message. -/
structure Keyed (ctx : HmacCtx) (K message : List UInt8) : Prop where
  ictx : ctx.ictx.Holds (xorPad 0x36 (blockKey K) ++ message)
  octx : ctx.octx.Holds (xorPad 0x5c (blockKey K))

section

variable {ctx hctx Phctx : HmacCtx} {K message passwd salt : List UInt8}

theorem Keyed.init (hi : ctx.ictx.buf.length = 64) (ho : ctx.octx.buf.length = 64) (K : List UInt8) :
    (ctx.hmacInit K).Keyed K [] := by
  have hblank : ∀ {c : Sha256Ctx}, c.buf.length = 64 → ∀ data, (c.sha256Init.update data).Holds data :=
    fun h data => by simpa using (Sha256Ctx.holds_init h).update data
  rw [hmacInit]
  by_cases hlong : 64 < K.length
  · obtain ⟨hdigest, hlen⟩ := (hblank hi K).digest
    simp only [if_pos hlong]
    refine ⟨?_, ?_⟩
    · rw [List.append_nil, blockKey, if_pos hlong, hdigest]
      exact hblank hlen _
    · rw [blockKey, if_pos hlong, hdigest]
      exact hblank ho _
  · simp only [if_neg hlong]
    refine ⟨?_, ?_⟩
    · rw [List.append_nil, blockKey, if_neg hlong]
      exact hblank hi _
    · rw [blockKey, if_neg hlong]
      exact hblank ho _

theorem Keyed.update (h : ctx.Keyed K message) (input : List UInt8) :
    (ctx.update input).Keyed K (message ++ input) := by
  refine ⟨?_, h.octx⟩
  rw [← List.append_assoc]
  exact h.ictx.update input

theorem Keyed.digest (h : ctx.Keyed K message) : ctx.final = hmac K message := by
  rw [HmacCtx.final, hmac]
  simp only [h.ictx.digest.1]
  exact (h.octx.update _).digest.1

/-- `HMAC_SHA256_Buf` computes HMAC. -/
theorem hmacSha256Buf_eq (hi : ctx.ictx.buf.length = 64) (ho : ctx.octx.buf.length = 64)
    (K input : List UInt8) : ctx.hmacSha256Buf K input = hmac K input :=
  ((Keyed.init hi ho K).update input).digest

theorem length_be32encVect (s : Words) : (be32encVect s).length = 32 := by
  have hlen : s.toList.length = 8 := s.length_toList
  obtain ⟨a, b, c, d, e, f, g, h, hs⟩ : ∃ a b c d e f g h, s.toList = [a, b, c, d, e, f, g, h] := by
    match hl : s.toList, hlen with
    | [a, b, c, d, e, f, g, h], _ => exact ⟨a, b, c, d, e, f, g, h, rfl⟩
  rw [be32encVect, hs]
  rfl

theorem length_hmac (K message : List UInt8) : (hmac K message).length = 32 := length_be32encVect _

/-! ## The general way -/

theorem iterate_eq (h : Phctx.Keyed passwd []) (n : Nat) (U T : List UInt8) :
    Phctx.iterate n U T =
      ((List.range n).map fun j => (hmac passwd)^[j + 1] U).foldl (List.zipWith (· ^^^ ·)) T := by
  induction n generalizing U T with
  | zero => rfl
  | succ n ih =>
      have hnext : (Phctx.update U).final = hmac passwd U := (h.update U).digest
      rw [iterate]
      simp only [hnext]
      rw [ih, List.range_succ_eq_map, List.map_cons, List.foldl_cons, List.map_map]
      rfl

theorem length_digest (c i : Nat) : (digest passwd salt c i).length = 32 := by
  have hall : ∀ (n : Nat) (U T : List UInt8), U.length = 32 → T.length = 32 →
      (((List.range n).map fun j => (hmac passwd)^[j + 1] U).foldl (List.zipWith (· ^^^ ·)) T).length = 32 := by
    intro n
    induction n with
    | zero => exact fun _ _ _ hT => hT
    | succ n ih =>
        intro U T hU hT
        rw [List.range_succ_eq_map, List.map_cons, List.foldl_cons, List.map_map]
        exact ih (hmac passwd U) _ (length_hmac _ _) (by
          rw [List.length_zipWith, hT, Function.iterate_one, length_hmac]
          rfl)
  exact hall _ _ _ (length_hmac _ _) (length_hmac _ _)

theorem length_flatMap {D : Nat → List UInt8} (hD : ∀ i, (D i).length = 32) (n : Nat) :
    ((List.range n).flatMap D).length = n * 32 := by
  simp [List.length_flatMap, hD]

/-- The end of the last digest is left out. -/
theorem take_flatMap {D : Nat → List UInt8} (hD : ∀ i, (D i).length = 32) (n len : Nat) :
    ((List.range n).flatMap D).take len = (List.range n).flatMap fun i => (D i).take (len - i * 32) := by
  induction n with
  | zero => simp
  | succ n ih =>
      simp only [List.range_succ, List.flatMap_append, List.flatMap_singleton]
      rw [List.take_append, ih, length_flatMap hD]

theorem generic_eq (hi : Phctx.ictx.buf.length = 64) (ho : Phctx.octx.buf.length = 64) (c : UInt64)
    (dkLen : Nat) : Phctx.generic passwd salt c dkLen = pbkdf2Spec passwd salt c.toNat dkLen := by
  have hkeyed := Keyed.init hi ho passwd
  rw [generic, pbkdf2Spec, take_flatMap fun i => length_digest c.toNat (i + 1)]
  refine congrArg (List.flatMap · _) (funext fun i => ?_)
  have hfirst : (((Phctx.hmacInit passwd).update salt).update (be32enc (.ofNat (i + 1)))).final =
      hmac passwd (salt ++ be32enc (.ofNat (i + 1))) := ((hkeyed.update salt).update _).digest
  have hdigest : (if 1 < c then (Phctx.hmacInit passwd).iterate (c.toNat - 1)
      (hmac passwd (salt ++ be32enc (.ofNat (i + 1)))) (hmac passwd (salt ++ be32enc (.ofNat (i + 1))))
      else hmac passwd (salt ++ be32enc (.ofNat (i + 1)))) = digest passwd salt c.toNat (i + 1) := by
    split_ifs with hc
    · exact iterate_eq hkeyed _ _ _
    · have hone : c.toNat - 1 = 0 := by
        have hle := UInt64.lt_iff_toNat_lt.not.mp hc
        have : (1 : UInt64).toNat = 1 := rfl
        omega
      rw [digest, hone]
      rfl
  simp only [hfirst, hdigest]
  split_ifs with hlong
  · rw [List.take_of_length_le (Nat.le_of_eq (length_digest _ _)), List.take_of_length_le (by rw [length_digest]; omega)]
  · rfl

/-! ## The prepared blocks -/

/-- A message that ends in a block together with its padding. -/
theorem sha256_last (message x : List UInt8) (h : message.length % 64 + x.length < 56) :
    be32encVect (transform (after message).1 ((after message).2 ++ x ++ padding (message.length + x.length))) =
      sha256 (message ++ x) := by
  have htail := Sha256Ctx.length_after message
  have hafter : after (message ++ x) = ((after message).1, (after message).2 ++ x) := by
    have hfits : (after message).2.length + x.length < chain.size := by
      rw [htail]
      simp only [chain]
      omega
    rw [after, Chain.absorb_append]
    exact Chain.absorb_of_lt hfits
  have hmod : (message.length + x.length) % 64 = message.length % 64 + x.length := by omega
  have hfull : ((after message).2 ++ x).length + (padding (message.length + x.length)).length = chain.size := by
    rw [Sha256Ctx.padding_of_lt (by omega), List.length_append, List.length_append, htail,
      Sha256Ctx.length_fill (by omega), Sha256Ctx.length_be64enc]
    simp only [chain]
    omega
  rw [Sha256Ctx.sha256_eq, hafter, List.length_append, Chain.absorb_of_eq (by simp [padding]) hfull]
  rfl

theorem copy_middle {a x z b : List UInt8} (h : z.length = x.length) :
    copy (a ++ x ++ b) a.length z = a ++ z ++ b := by
  rw [copy, List.append_assoc a x b, List.take_left, h, ← List.append_assoc a x b, ← List.length_append,
    List.drop_left]

/-- Each digest is put into the blocks that were prepared. -/
theorem prepared_eq {message key : List UInt8} (hmessage : message.length % 64 + 4 < 56)
    (hkey : key.length = 64) (n i : Nat) {x y : List UInt8} (hx : x.length = 4) (hy : y.length = 32) :
    prepared (after message).1 (after key).1 (after message).2.length n i
        ((after message).2 ++ x ++ padding (message.length + 4)) (y ++ padding 96) =
      (List.range' i n).flatMap fun i => sha256 (key ++ sha256 (message ++ be32enc (.ofNat (i + 1)))) := by
  induction n generalizing i x y with
  | zero => rfl
  | succ n ih =>
      have hivec : (be32enc (.ofNat (i + 1))).length = 4 := rfl
      have hinner : be32encVect (transform (after message).1 ((after message).2 ++ be32enc (.ofNat (i + 1)) ++
          padding (message.length + 4))) = sha256 (message ++ be32enc (.ofNat (i + 1))) :=
        sha256_last message (be32enc (.ofNat (i + 1))) hmessage
      generalize hihash : sha256 (message ++ be32enc (.ofNat (i + 1))) = ihash at hinner
      have hlen : ihash.length = 32 := by
        rw [← hihash]
        exact length_be32encVect _
      have hnone : (after key).2 = [] := by
        apply List.length_eq_zero_iff.mp
        rw [Sha256Ctx.length_after, hkey]
      have houter : be32encVect (transform (after key).1 (ihash ++ padding 96)) = sha256 (key ++ ihash) := by
        have hlast := sha256_last key ihash (by rw [hkey, hlen]; decide)
        rwa [hnone, List.nil_append, hkey, hlen] at hlast
      have hcopy : copy (y ++ padding 96) 0 ihash = ihash ++ padding 96 :=
        copy_middle (a := []) (hlen.trans hy.symm)
      rw [prepared, copy_middle (hivec.trans hx.symm)]
      simp only [hinner, hcopy]
      rw [ih (i + 1) hivec hlen, houter, List.range'_succ, List.flatMap_cons, hihash]

theorem length_blockKey (K : List UInt8) : (blockKey K).length ≤ 64 := by
  rw [blockKey]
  split_ifs with hlong
  · have hlen : (sha256 K).length = 32 := length_be32encVect _
    omega
  · exact Nat.le_of_not_lt hlong

theorem length_xorPad (c : UInt8) (K : List UInt8) : (xorPad c (blockKey K)).length = 64 := by
  have hle := length_blockKey K
  rw [xorPad, List.length_append, List.length_map, List.length_replicate]
  omega

/-- The count of the bytes in a block, in bits. -/
theorem count_and (n : Nat) : (UInt64.ofNat (8 * n) &&& 0x1f8).toNat = n % 64 * 8 := by
  have hmask : (0x1f8 : UInt64).toNat = (2 ^ 6 - 1) <<< 3 := rfl
  have hshift : 8 * n % 2 ^ 64 = (n % 2 ^ 61) <<< 3 := by
    rw [Nat.shiftLeft_eq]
    omega
  rw [UInt64.toNat_and, UInt64.toNat_ofNat', hmask, hshift, ← Nat.shiftLeft_and_distrib,
    Nat.and_two_pow_sub_one_eq_mod, Nat.shiftLeft_eq]
  omega

/-- A key of one block leaves nothing behind. -/
theorem after_key {key x : List UInt8} (hkey : key.length = 64) (hx : x.length < 64) :
    after (key ++ x) = ((after key).1, x) := by
  have hnone : (after key).2 = [] := by
    apply List.length_eq_zero_iff.mp
    rw [Sha256Ctx.length_after, hkey]
  have hlt : ([] : List UInt8).length + x.length < chain.size := by
    rw [List.length_nil, Nat.zero_add]
    exact hx
  have happend : after (key ++ x) = chain.absorb ((after key).1, (after key).2) x := Chain.absorb_append
  rw [happend, hnone, Chain.absorb_of_lt hlt, List.nil_append]

/-- Half a block more than the key is counted before it is there. -/
theorem holds_count {ctx : Sha256Ctx} {key : List UInt8} (h : ctx.Holds key) (hkey : key.length = 64) :
    ({ ctx with count := ctx.count + 256 } : Sha256Ctx).Holds (key ++ ctx.buf.take 32) := by
  have hbuf := h.length_buf
  have hlen : (ctx.buf.take 32).length = 32 := by
    rw [List.length_take, hbuf]
    rfl
  have hafter := after_key hkey (x := ctx.buf.take 32) (by rw [hlen]; decide)
  have hall : (key ++ ctx.buf.take 32).length = 96 := by rw [List.length_append, hkey, hlen]
  refine ⟨?_, ?_, hbuf, ?_⟩
  · rw [hafter]
    exact h.state
  · simp only [h.count, hkey, hall]
    rfl
  · rw [hafter, hall]

/-- **Both ways compute PBKDF2.**  The blocks that are prepared are those of the loop, and the way
back to the loop is never taken from there. -/
theorem pbkdf2_eq (hi : hctx.ictx.buf.length = 64) (ho : hctx.octx.buf.length = 64)
    (hi' : Phctx.ictx.buf.length = 64) (ho' : Phctx.octx.buf.length = 64) (c : UInt64) (dkLen : Nat) :
    pbkdf2 hctx Phctx passwd salt c dkLen = pbkdf2Spec passwd salt c.toNat dkLen := by
  rw [pbkdf2]
  split_ifs with hfast
  · obtain ⟨rfl, hwhole, hshort⟩ := hfast
    rw [Nat.and_two_pow_sub_one_eq_mod dkLen 5] at hwhole
    rw [Nat.and_two_pow_sub_one_eq_mod salt.length 6] at hshort
    have hkeyed := (Keyed.init hi ho passwd).update salt
    rw [List.nil_append] at hkeyed
    have hictx := hkeyed.ictx
    have hictx' := (hkeyed.update [0, 0, 0, 0]).ictx
    have hoctx := holds_count hkeyed.octx (length_xorPad 0x5c passwd)
    rw [← List.append_assoc] at hictx'
    have hmod : (xorPad 0x36 (blockKey passwd) ++ salt).length % 64 + 4 < 56 := by
      rw [List.length_append, length_xorPad]
      omega
    have hall : ∀ i, hmac passwd (salt ++ be32enc (.ofNat (i + 1))) =
        sha256 (xorPad 0x5c (blockKey passwd) ++
          sha256 (xorPad 0x36 (blockKey passwd) ++ salt ++ be32enc (.ofNat (i + 1)))) := fun i => by
      rw [List.append_assoc]
      rfl
    have hspec : pbkdf2Spec passwd salt (1 : UInt64).toNat dkLen =
        (List.range (digests dkLen)).flatMap fun i => hmac passwd (salt ++ be32enc (.ofNat (i + 1))) := by
      have hlen : ((List.range (digests dkLen)).flatMap fun i =>
          hmac passwd (salt ++ be32enc (.ofNat (i + 1)))).length = dkLen := by
        rw [length_flatMap fun i => length_hmac _ _, digests]
        omega
      exact List.take_of_length_le (Nat.le_of_eq hlen)
    rw [hspec]
    simp only [hall]
    generalize xorPad 0x36 (blockKey passwd) ++ salt = message at *
    generalize (hctx.hmacInit passwd).update salt = hctx' at *
    have hlen : (message ++ [0, 0, 0, 0]).length = message.length + 4 := List.length_append
    have hzeros : after (message ++ [0, 0, 0, 0]) = ((after message).1, (after message).2 ++ [0, 0, 0, 0]) := by
      have hfits : (after message).2.length + [(0 : UInt8), 0, 0, 0].length < chain.size := by
        rw [Sha256Ctx.length_after]
        simp only [chain, List.length_cons, List.length_nil]
        omega
      rw [after, Chain.absorb_append]
      exact Chain.absorb_of_lt hfits
    have hnot : ¬ (hctx'.update [0, 0, 0, 0]).ictx.count &&& 0x1f8 < hctx'.ictx.count &&& 0x1f8 := by
      rw [UInt64.lt_iff_toNat_lt, hictx'.count, hictx.count, count_and, count_and, hlen]
      omega
    have hivecp : ((hctx'.ictx.count &&& 0x1f8) >>> 3).toNat = (after message).2.length := by
      rw [UInt64.toNat_shiftRight, hictx.count, count_and, Sha256Ctx.length_after]
      simp only [UInt64.reduceToNat, Nat.reduceMod, Nat.shiftRight_eq_div_pow, Nat.reducePow]
      omega
    have hhalf : (hctx'.octx.buf.take 32).length = 32 := by
      rw [List.length_take, hkeyed.octx.length_buf]
      rfl
    have hkey := length_xorPad 0x5c passwd
    generalize xorPad 0x5c (blockKey passwd) = key at *
    have hlen' : (key ++ hctx'.octx.buf.take 32).length = 96 := by rw [List.length_append, hkey, hhalf]
    obtain ⟨ictx, hpad, hstate, hblock⟩ := hictx'.padAlmost (by rw [hlen]; omega)
    obtain ⟨octx, hpad', hstate', hblock'⟩ := hoctx.padAlmost (by rw [hlen']; decide)
    rw [after_key hkey (by omega)] at hstate' hblock'
    rw [hzeros] at hstate hblock
    rw [hlen] at hblock
    rw [hlen'] at hblock'
    have hsame : (hctx'.update [0, 0, 0, 0]).octx = hctx'.octx := rfl
    rw [if_neg hnot]
    simp only [hpad, hsame, hpad', Option.getD_some, hstate, hblock, hstate', hblock', hivecp,
      List.range_eq_range']
    exact prepared_eq hmod hkey _ 0 rfl hhalf
  · exact generic_eq hi' ho' c dkLen

end

/-- The first bytes do not depend on how many there are. -/
theorem take_pbkdf2Spec {m n : Nat} (h : m ≤ n) (passwd salt : List UInt8) (c : Nat) :
    (pbkdf2Spec passwd salt c n).take m = pbkdf2Spec passwd salt c m := by
  have hdigests : digests m ≤ digests n := Nat.div_le_div_right (by omega)
  obtain ⟨k, hk⟩ := Nat.exists_eq_add_of_le hdigests
  have hlen : m ≤ ((List.range (digests m)).flatMap fun i => digest passwd salt c (i + 1)).length := by
    rw [length_flatMap fun i => length_digest c (i + 1), digests]
    omega
  rw [pbkdf2Spec, List.take_take, Nat.min_eq_left h, hk, List.range_add, List.flatMap_append,
    List.take_append_of_le_length hlen]
  rfl

end HmacCtx

end Sha256

end XLArig
