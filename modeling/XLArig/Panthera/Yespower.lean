import XLArig.Panthera.Pbkdf2
import XLArig.Panthera.Smix

/-!
# XLArig.Panthera.Yespower

`yespower` of `yespower-ref.c` and of `yespower-opt.c`: a password hash, `smix`, and a last hash.

Version 1.0 of `yespower-opt.c` asks PBKDF2 for the two blocks that `smix` reads, and leaves in the
others what they held.  Allocations succeed.
-/

namespace XLArig

open Sha256

namespace Yespower

/-- `yespower_params_t`. -/
structure Params where
  version : Version
  N : UInt32
  r : UInt32
  pers : Option (List UInt8)

/-- The sanity check, without the one of `version`, and of `pers` with `perslen`. -/
def Params.IsSane (params : Params) : Prop :=
  ¬ (params.N < 1024 ∨ params.N > 512 * 1024 ∨ params.r < 8 ∨ params.r > 32 ∨
    params.N &&& (params.N - 1) ≠ 0)

instance (params : Params) : Decidable params.IsSane := inferInstanceAs (Decidable (¬ _))

/-- `le32dec`. -/
def le32dec (p : List UInt8) : UInt32 :=
  (p.getD 0 0).toUInt32 + ((p.getD 1 0).toUInt32 <<< 8) + ((p.getD 2 0).toUInt32 <<< 16) +
    ((p.getD 3 0).toUInt32 <<< 24)

/-- `le32enc`. -/
def le32enc (x : UInt32) : List UInt8 :=
  [x.toUInt8, (x >>> 8).toUInt8, (x >>> 16).toUInt8, (x >>> 24).toUInt8]

/-- The blocks at `B`. -/
def readBlocks (B : List UInt8) (n : Nat) : List Block :=
  (List.range n).map fun k => .ofWords fun i => le32dec ((B.drop (64 * k + 4 * i)).take 4)

def writeBlocks (B : List Block) : List UInt8 := B.flatMap fun b => b.words.flatMap le32enc

/-- The local variables and the allocated memory, as they are before. -/
structure Locals where
  sha : Sha256Ctx
  hmac : HmacCtx
  hctx : HmacCtx
  Phctx : HmacCtx
  B : List UInt8
  S : Rows
  V : Rows
  Swords : Array UInt32
  S2 : Nat
  w : Nat

/-- The buffers of 64 bytes. -/
structure Locals.Sized (m : Locals) : Prop where
  sha : m.sha.buf.length = 64
  hmac : m.hmac.ictx.buf.length = 64 ∧ m.hmac.octx.buf.length = 64
  hctx : m.hctx.ictx.buf.length = 64 ∧ m.hctx.octx.buf.length = 64
  Phctx : m.Phctx.ictx.buf.length = 64 ∧ m.Phctx.octx.buf.length = 64

/-- The end of version 0.5. -/
def lastHash (m : Locals) (pers : Option (List UInt8)) (sha256 B : List UInt8) : List UInt8 :=
  let dst := m.hctx.pbkdf2 m.Phctx sha256 B 1 32
  match pers with
  | some pers => m.sha.sha256Buf (m.hmac.hmacSha256Buf dst pers)
  | none => dst

/-- `yespower` of `yespower-ref.c`; `none` where it returns -1. -/
def yespower (m : Locals) (params : Params) (src : List UInt8) : Option (List UInt8) :=
  if ¬ params.IsSane then none
  else
    let version := params.version
    let N := params.N.toNat
    let r := params.r.toNat
    let part := version.sbytes1 / 8
    let ctx : PwxformCtx := ⟨version, m.Swords, 0, part, part + part, 0⟩
    let sha256 := m.sha.sha256Buf src
    let src := if version ≠ .v05 then params.pers.getD [] else src
    let B := m.hctx.pbkdf2 m.Phctx sha256 src 1 (128 * r)
    let sha256 := B.take 32
    let B := writeBlocks (smix (readBlocks B (2 * r)) r N m.S m.V ctx)
    if version = .v05 then some (lastHash m params.pers sha256 B)
    else some (m.hmac.hmacSha256Buf (B.drop (128 * r - 64)) sha256)

/-- `yespower` of `yespower-opt.c`. -/
def yespowerSimd (m : Locals) (params : Params) (src : List UInt8) : Option (List UInt8) :=
  if ¬ params.IsSane then none
  else
    let N := params.N.toNat
    let r := params.r.toNat
    let part := params.version.sbytes1
    let sha256 := m.sha.sha256Buf src
    match params.version with
    | .v05 =>
        let ctx : SimdCtx := ⟨m.Swords, 0, part, m.S2, m.w⟩
        let B := m.hctx.pbkdf2 m.Phctx sha256 src 1 (128 * r)
        let sha256 := B.take 32
        let B := writeBlocks (smixSimd .v05 (readBlocks B (2 * r)) r N m.S m.V ctx)
        some (lastHash m params.pers sha256 B)
    | .v10 =>
        let ctx : SimdCtx := ⟨m.Swords, 0, part, 2 * part, 0⟩
        let src := params.pers.getD []
        let B := m.hctx.pbkdf2 m.Phctx sha256 src 1 128 ++ m.B.drop 128
        let sha256 := B.take 32
        let B := writeBlocks (smixSimd .v10 (readBlocks B (2 * r)) r N m.S m.V ctx)
        some (m.hmac.hmacSha256Buf (B.drop (128 * r - 64)) sha256)

/-! ## They agree -/

section

variable {ctx : PwxformCtx} {B B' : List Block} {r N : Nat} {m m' : Locals} {bytes bytes' : List UInt8}

/-- Version 1.0 reads two blocks. -/
theorem smix1_take (hversion : ctx.version = .v10) (hB : B.take 2 = B'.take 2) (fill : Bool) (r N : Nat)
    (V : Rows) : smix1 fill B r N V ctx = smix1 fill B' r N V ctx := by
  have hne : ctx.version ≠ .v05 := by
    rw [hversion]
    decide
  rw [smix1, smix1, firstRow, firstRow, if_pos hne, if_pos hne, hB]

theorem smix_take (hversion : ctx.version = .v10) (hB : B.take 2 = B'.take 2) (hlen : 2 ≤ B.length)
    (r N : Nat) (S V : Rows) : smix B r N S V ctx = smix B' r N S V ctx := by
  have hpair : (B'.take 2).length = 2 * 1 := by rw [← hB, List.length_take, Nat.min_eq_left hlen]
  have hn : ctx.version.sbytes / 128 = 768 := by
    rw [hversion]
    rfl
  have hctx := smix1_fill_ctx (B'.take 2) (ctx.version.sbytes / 128) S ctx
  have hfirst : (smix1 true (B'.take 2) 1 (ctx.version.sbytes / 128) S ctx).1.length = 2 := by
    have hfilling : Agree .v10 true ctx none := ⟨rfl, hversion⟩
    rw [hn]
    exact (smix1_eq hfilling Nat.one_pos (fun _ => rfl) hpair (by decide) (by decide) (by decide) S S).2.2.2.1
  rw [smix, smix, hB]
  generalize smix1 true (B'.take 2) 1 (ctx.version.sbytes / 128) S ctx = filled at *
  obtain ⟨first, S₁, ctx₁⟩ := filled
  simp only at hctx hfirst
  obtain rfl := hctx
  have htake : ∀ rest : List Block, (first ++ rest).take 2 = first := fun rest => by
    rw [← hfirst, List.take_left]
  simp only
  have hversion' : ({ ctx₁ with S := sboxes S₁ (ctx₁.version.sbytes / 128) } : PwxformCtx).version = .v10 :=
    hversion
  rw [smix1_take hversion' ((htake (B.drop 2)).trans (htake (B'.drop 2)).symm)]

theorem ofWords_congr {f g : Nat → UInt32} (h : ∀ i < 16, f i = g i) : Block.ofWords f = .ofWords g := by
  simp only [Block.ofWords, h _ (show (0 : Nat) < 16 by decide), h _ (show 1 < 16 by decide),
    h _ (show 2 < 16 by decide), h _ (show 3 < 16 by decide), h _ (show 4 < 16 by decide),
    h _ (show 5 < 16 by decide), h _ (show 6 < 16 by decide), h _ (show 7 < 16 by decide),
    h _ (show 8 < 16 by decide), h _ (show 9 < 16 by decide), h _ (show 10 < 16 by decide),
    h _ (show 11 < 16 by decide), h _ (show 12 < 16 by decide), h _ (show 13 < 16 by decide),
    h _ (show 14 < 16 by decide), h _ (show 15 < 16 by decide)]

/-- The first two blocks are 128 bytes. -/
theorem readBlocks_take (h : bytes.take 128 = bytes'.take 128) (hr : 0 < r) :
    (readBlocks bytes (2 * r)).take 2 = (readBlocks bytes' (2 * r)).take 2 := by
  have hslice : ∀ (p : List UInt8) {k i : Nat}, k < 2 → i < 16 →
      (p.drop (64 * k + 4 * i)).take 4 = ((p.take 128).drop (64 * k + 4 * i)).take 4 := by
    intro p k i hk hi
    rw [List.drop_take, List.take_take, Nat.min_eq_left (by omega)]
  rw [readBlocks, readBlocks, ← List.map_take, ← List.map_take, List.take_range, Nat.min_eq_left (by omega)]
  refine List.map_congr_left fun k hk => ofWords_congr fun i hi => ?_
  have hk2 := List.mem_range.mp hk
  rw [hslice bytes hk2 hi, hslice bytes' hk2 hi, h]

theorem length_readBlocks (bytes : List UInt8) (n : Nat) : (readBlocks bytes n).length = n := by
  rw [readBlocks, List.length_map, List.length_range]

theorem Locals.Sized.sha256 (h : m.Sized) (src : List UInt8) : m.sha.sha256Buf src = Sha256.sha256 src := by
  show (m.sha.sha256Init.update src).final.1 = _
  simpa using ((Sha256Ctx.holds_init h.sha).update src).digest.1

theorem Locals.Sized.hmacBuf (h : m.Sized) (K input : List UInt8) :
    m.hmac.hmacSha256Buf K input = HmacCtx.hmac K input :=
  HmacCtx.hmacSha256Buf_eq h.hmac.1 h.hmac.2 K input

theorem Locals.Sized.pbkdf2 (h : m.Sized) (passwd salt : List UInt8) (n : Nat) :
    m.hctx.pbkdf2 m.Phctx passwd salt 1 n = HmacCtx.pbkdf2Spec passwd salt 1 n :=
  HmacCtx.pbkdf2_eq h.hctx.1 h.hctx.2 h.Phctx.1 h.Phctx.2 1 n

theorem Locals.Sized.lastHash (h : m.Sized) (h' : m'.Sized) (pers : Option (List UInt8)) (sha256 B : List UInt8) :
    Yespower.lastHash m pers sha256 B = Yespower.lastHash m' pers sha256 B := by
  cases pers with
  | none => exact (h.pbkdf2 ..).trans (h'.pbkdf2 ..).symm
  | some pers => simp only [Yespower.lastHash, h.pbkdf2, h'.pbkdf2, h.hmacBuf, h'.hmacBuf, h.sha256, h'.sha256]

theorem length_pbkdf2Spec (passwd salt : List UInt8) (c n : Nat) :
    (HmacCtx.pbkdf2Spec passwd salt c n).length = n := by
  rw [HmacCtx.pbkdf2Spec, List.length_take, HmacCtx.length_flatMap fun i => HmacCtx.length_digest c (i + 1),
    HmacCtx.digests]
  omega

/-- The bytes that PBKDF2 is asked for are the first ones of those that it is not. -/
theorem take_pbkdf2 {k n : Nat} (passwd salt rest : List UInt8) (hk : k ≤ 128) (hn : 128 ≤ n) :
    (HmacCtx.pbkdf2Spec passwd salt 1 128 ++ rest).take k = (HmacCtx.pbkdf2Spec passwd salt 1 n).take k := by
  rw [List.take_append_of_le_length (by rw [length_pbkdf2Spec]; exact hk), HmacCtx.take_pbkdf2Spec hk,
    HmacCtx.take_pbkdf2Spec (by omega)]

/-- The context that both set up. -/
theorem same_init (version : Version) (S : Array UInt32) (S2 w : Nat)
    (h : version = .v10 → S2 = 2 * version.sbytes1 ∧ w = 0) :
    Same version 4095 ⟨version, S, 0, version.sbytes1 / 8, version.sbytes1 / 8 + version.sbytes1 / 8, 0⟩
      ⟨S, 0, version.sbytes1, S2, w⟩ := by
  refine ⟨rfl, rfl, rfl, ?_, fun hv => ?_, fun hv => ?_⟩
  · cases version <;> rfl
  · obtain rfl := hv
    exact (h rfl).1
  · exact ⟨(h hv).2, rfl, Nat.zero_le _⟩

/-- The parameters that are let through. -/
theorem Params.IsSane.bounds {params : Params} (h : params.IsSane) :
    16 ≤ params.N.toNat ∧ params.N.toNat ≤ 2 ^ 31 ∧ 8 ≤ params.r.toNat ∧ params.N.toNat % 2 = 0 := by
  obtain ⟨hlow, hhigh, hr, -, hpow⟩ : ¬ params.N < 1024 ∧ ¬ params.N > 512 * 1024 ∧ ¬ params.r < 8 ∧
      ¬ params.r > 32 ∧ ¬ params.N &&& (params.N - 1) ≠ 0 := by
    simpa only [Params.IsSane, not_or] using h
  have h1024 : 1024 ≤ params.N.toNat := UInt32.le_iff_toNat_le.mp (UInt32.not_lt.mp hlow)
  have hmax : params.N.toNat ≤ 524288 := UInt32.le_iff_toNat_le.mp (UInt32.not_lt.mp hhigh)
  have h8 : 8 ≤ params.r.toNat := UInt32.le_iff_toNat_le.mp (UInt32.not_lt.mp hr)
  have hand : params.N.toNat &&& (params.N.toNat - 1) = 0 := by
    have hsub := UInt32.toNat_sub_of_le params.N 1 (UInt32.le_iff_toNat_le.mpr (show 1 ≤ params.N.toNat by omega))
    have hzero := congrArg UInt32.toNat (not_not.mp hpow)
    rw [UInt32.toNat_and, hsub] at hzero
    exact hzero
  refine ⟨by omega, by omega, h8, ?_⟩
  -- an odd number keeps its half
  by_contra hodd
  have hhalf := congrArg (· / 2 ^ 1) hand
  have heq : (params.N.toNat - 1) / 2 ^ 1 = params.N.toNat / 2 ^ 1 := by omega
  simp only [Nat.and_div_two_pow, heq, Nat.and_self] at hhalf
  omega

/-- **`yespower-opt.c` computes the hash of `yespower-ref.c`**, for all parameters and whatever the memory
of each held before. -/
theorem yespower_eq (h : m.Sized) (h' : m'.Sized) (params : Params) (src : List UInt8) :
    yespowerSimd m params src = yespower m' params src := by
  rw [yespowerSimd, yespower]
  by_cases hsane : params.IsSane
  · obtain ⟨hN, hN', hr, heven⟩ := hsane.bounds
    rw [if_neg (not_not.mpr hsane), if_neg (not_not.mpr hsane)]
    obtain ⟨version, N, r, pers⟩ := params
    simp only at hN hN' hr heven
    cases version with
    | v05 =>
        have hcond : ¬ Version.v05 ≠ .v05 := not_not.mpr rfl
        simp only [h.sha256, h'.sha256, h.pbkdf2, h'.pbkdf2, if_neg hcond, if_true, h.lastHash h']
        rw [smix_eq (same_init .v05 m'.Swords m.S2 m.w fun hv => absurd hv (by decide))
          (by omega) (length_readBlocks _ _) hN heven hN' m.S m'.S m.V m'.V]
    | v10 =>
        have hcond : Version.v10 ≠ .v05 := by decide
        have htake := fun {k : Nat} (hk : k ≤ 128) => take_pbkdf2 (n := 128 * r.toNat) (Sha256.sha256 src)
          (pers.getD []) (m.B.drop 128) hk (by omega)
        simp only [h.sha256, h'.sha256, h.pbkdf2, h'.pbkdf2, if_pos hcond, if_neg hcond, h.hmacBuf, h'.hmacBuf,
          htake (show 32 ≤ 128 by decide)]
        rw [smix_eq (same_init .v10 m'.Swords (2 * Version.v10.sbytes1) 0 fun _ => ⟨rfl, rfl⟩)
          (by omega) (length_readBlocks _ _) hN heven hN' m.S m'.S m.V m'.V,
          smix_take rfl (readBlocks_take (htake (Nat.le_refl 128)) (by omega))
            (by rw [length_readBlocks]; omega)]
  · rw [if_pos hsane, if_pos hsane]

end

/-- Memory that holds one byte everywhere. -/
def Locals.filled (x : UInt8) : Locals :=
  let sha : Sha256Ctx := ⟨initialState, 0, List.replicate 64 x⟩
  ⟨sha, ⟨sha, sha⟩, ⟨sha, sha⟩, ⟨sha, sha⟩, List.replicate 1024 x, fun _ => [], fun _ => [], #[], 0, 0⟩

theorem Locals.sized_filled (x : UInt8) : (Locals.filled x).Sized :=
  ⟨List.length_replicate, ⟨List.length_replicate, List.length_replicate⟩,
    ⟨List.length_replicate, List.length_replicate⟩, ⟨List.length_replicate, List.length_replicate⟩⟩

/-- With the parameters of `rx_yespower_k12`. -/
theorem yespower_eq_k12 :
    yespowerSimd (.filled 0) ⟨.v10, 2048, 8, none⟩ [1, 2, 3] =
      yespower (.filled 7) ⟨.v10, 2048, 8, none⟩ [1, 2, 3] :=
  yespower_eq (Locals.sized_filled 0) (Locals.sized_filled 7) ⟨.v10, 2048, 8, none⟩ [1, 2, 3]

end Yespower

end XLArig
