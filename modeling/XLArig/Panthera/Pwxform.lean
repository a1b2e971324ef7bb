import Mathlib.Algebra.Order.Ring.Nat
import XLArig.Panthera.Salsa20

/-!
# XLArig.Panthera.Pwxform

The transformation of a block by the S-boxes, in both files of `crypto/randomx/panthera`.

`yespower-ref.c` reads pairs of words and counts them; `yespower-opt.c` reads four words at once,
counts bytes, and masks both indices together.  The S-boxes are one piece of memory, of which three
parts take turns.
-/

namespace XLArig

namespace Yespower

inductive Version
  | v05
  | v10
  deriving DecidableEq

/-- `Swidth_to_Smask` of the version's `Swidth`. -/
def Version.smask : Version → UInt32
  | .v05 => 0xFF0
  | .v10 => 0x7FF0

/-! ## Pairs of words -/

/-- `pwxform_ctx_t` of `yespower-ref.c`; the parts of the S-boxes are numbers of pairs. -/
structure PwxformCtx where
  version : Version
  S : Array UInt32
  S0 : Nat
  S1 : Nat
  S2 : Nat
  w : Nat

/-- `((uint64_t) p[1] << 32) + p[0]`. -/
def pair (S : Array UInt32) (p : Nat) : UInt64 :=
  ((S.getD (2 * p + 1) 0).toUInt64 <<< 32) + (S.getD (2 * p) 0).toUInt64

/-- The body of the loop over `k`. -/
def pwxPair (S : Array UInt32) (p0 p1 : Nat) (xl xh : UInt32) : UInt64 :=
  let x := xh.toUInt64 * xl.toUInt64
  let x := x + pair S p0
  x ^^^ pair S p1

/-- The loop over `k`, for one of the four parts of a block. -/
def pwxSimple (ctx : PwxformCtx) (X : M128i) : M128i :=
  let p0 := ctx.S0 + (X.w0 &&& ctx.version.smask).toNat / 8
  let p1 := ctx.S1 + (X.w1 &&& ctx.version.smask).toNat / 8
  let x := pwxPair ctx.S p0 p1 X.w0 X.w1
  let x' := pwxPair ctx.S (p0 + 1) (p1 + 1) X.w2 X.w3
  ⟨x.toUInt32, (x >>> 32).toUInt32, x'.toUInt32, (x' >>> 32).toUInt32⟩

/-- Two pairs are written. -/
def setPairs (S : Array UInt32) (p : Nat) (X : M128i) : Array UInt32 :=
  (((S.setIfInBounds (2 * p) X.w0).setIfInBounds (2 * p + 1) X.w1).setIfInBounds (2 * p + 2) X.w2)
    |>.setIfInBounds (2 * p + 3) X.w3

/-- The body of the loop over `j`. -/
def pwxGather (i j : Nat) (ctx : PwxformCtx) (X : M128i) : M128i × PwxformCtx :=
  let X := pwxSimple ctx X
  if ctx.version ≠ .v05 ∧ (i = 0 ∨ j < 2) then
    if j % 2 = 1 then (X, { ctx with S := setPairs ctx.S (ctx.S1 + ctx.w) X, w := ctx.w + 2 })
    else (X, { ctx with S := setPairs ctx.S (ctx.S0 + ctx.w) X })
  else (X, ctx)

/-- The body of the loop over `i`. -/
def pwxRound (x : Block × PwxformCtx) (i : Nat) : Block × PwxformCtx :=
  let (B, ctx) := x
  let (X0, ctx) := pwxGather i 0 ctx B.q0
  let (X1, ctx) := pwxGather i 1 ctx B.q1
  let (X2, ctx) := pwxGather i 2 ctx B.q2
  let (X3, ctx) := pwxGather i 3 ctx B.q3
  (⟨X0, X1, X2, X3⟩, ctx)

def Version.pwxRounds : Version → Nat
  | .v05 => 6
  | .v10 => 3

/-- `pwxform`. -/
def pwxform (B : Block) (ctx : PwxformCtx) : Block × PwxformCtx :=
  let (B, ctx) := (List.range ctx.version.pwxRounds).foldl pwxRound (B, ctx)
  if ctx.version ≠ .v05 then
    (B, { ctx with
      S0 := ctx.S2
      S1 := ctx.S0
      S2 := ctx.S1
      w := ctx.w &&& ((1 <<< 11) * 2 - 1) })
  else (B, ctx)

/-! ## Four words at once -/

/-- `pwxform_ctx_t` of `yespower-opt.c`; the parts are numbers of bytes. -/
structure SimdCtx where
  S : Array UInt32
  S0 : Nat
  S1 : Nat
  S2 : Nat
  w : Nat

/-- The two halves of a register. -/
def M128i.low (a : M128i) : UInt64 := (a.w1.toUInt64 <<< 32) + a.w0.toUInt64

def M128i.high (a : M128i) : UInt64 := (a.w3.toUInt64 <<< 32) + a.w2.toUInt64

def M128i.ofHalves (l h : UInt64) : M128i :=
  ⟨l.toUInt32, (l >>> 32).toUInt32, h.toUInt32, (h >>> 32).toUInt32⟩

/-- `_mm_mul_epu32`. -/
def mmMulEpu32 (a b : M128i) : M128i :=
  .ofHalves (a.w0.toUInt64 * b.w0.toUInt64) (a.w2.toUInt64 * b.w2.toUInt64)

/-- `_mm_add_epi64`. -/
def mmAddEpi64 (a b : M128i) : M128i := .ofHalves (a.low + b.low) (a.high + b.high)

/-- `*(__m128i *)` at an address. -/
def load (S : Array UInt32) (address : Nat) : M128i :=
  ⟨S.getD (address / 4) 0, S.getD (address / 4 + 1) 0, S.getD (address / 4 + 2) 0,
    S.getD (address / 4 + 3) 0⟩

def store (S : Array UInt32) (address : Nat) (X : M128i) : Array UInt32 :=
  (((S.setIfInBounds (address / 4) X.w0).setIfInBounds (address / 4 + 1) X.w1).setIfInBounds
    (address / 4 + 2) X.w2) |>.setIfInBounds (address / 4 + 3) X.w3

/-- `Smask_to_Smask2`. -/
def Version.smask2 (version : Version) : UInt64 :=
  (version.smask.toUInt64 <<< 32) ||| version.smask.toUInt64

/-- `PWXFORM_SIMD`. -/
def pwxformSimd (version : Version) (ctx : SimdCtx) (X : M128i) : M128i :=
  let x := X.low &&& version.smask2
  let s0 := load ctx.S (ctx.S0 + x.toUInt32.toNat)
  let s1 := load ctx.S (ctx.S1 + (x >>> 32).toNat)
  let X := mmMulEpu32 (mmShuffleEpi32 X 0xB1) X
  let X := mmAddEpi64 X s0
  mmXorSi128 X s1

/-- `PWXFORM_ROUND`. -/
def pwxformRound (version : Version) (ctx : SimdCtx) (X : Block) : Block :=
  ⟨pwxformSimd version ctx X.q0, pwxformSimd version ctx X.q1, pwxformSimd version ctx X.q2,
    pwxformSimd version ctx X.q3⟩

/-- `PWXFORM_SIMD_WRITE` to the first part, and to the second one with the step after it. -/
def pwxformWrite0 (ctx : SimdCtx) (X : M128i) : M128i × SimdCtx :=
  let X := pwxformSimd .v10 ctx X
  (X, { ctx with S := store ctx.S (ctx.S0 + ctx.w) X })

def pwxformWrite1 (ctx : SimdCtx) (X : M128i) : M128i × SimdCtx :=
  let X := pwxformSimd .v10 ctx X
  (X, { ctx with S := store ctx.S (ctx.S1 + ctx.w) X, w := ctx.w + 16 })

/-- `PWXFORM_ROUND_WRITE4`. -/
def pwxformRoundWrite4 (x : Block × SimdCtx) : Block × SimdCtx :=
  let (X, ctx) := x
  let (X0, ctx) := pwxformWrite0 ctx X.q0
  let (X1, ctx) := pwxformWrite1 ctx X.q1
  let (X2, ctx) := pwxformWrite0 ctx X.q2
  let (X3, ctx) := pwxformWrite1 ctx X.q3
  (⟨X0, X1, X2, X3⟩, ctx)

/-- `PWXFORM_ROUND_WRITE2`. -/
def pwxformRoundWrite2 (x : Block × SimdCtx) : Block × SimdCtx :=
  let (X, ctx) := x
  let (X0, ctx) := pwxformWrite0 ctx X.q0
  let (X1, ctx) := pwxformWrite1 ctx X.q1
  (⟨X0, X1, pwxformSimd .v10 ctx X.q2, pwxformSimd .v10 ctx X.q3⟩, ctx)

/-- `PWXFORM` of both passes over the file. -/
def pwxformAll (version : Version) (X : Block) (ctx : SimdCtx) : Block × SimdCtx :=
  match version with
  | .v05 => ((pwxformRound .v05 ctx)^[6] X, ctx)
  | .v10 =>
      let (X, ctx) := pwxformRoundWrite2 (pwxformRoundWrite2 (pwxformRoundWrite4 (X, ctx)))
      (X, { ctx with
        w := ctx.w &&& Version.v10.smask2.toNat
        S2 := ctx.S1
        S1 := ctx.S0
        S0 := ctx.S2 })

/-! ## They agree -/

/-- A half from its two words. -/
theorem toNat_half (l h : UInt32) :
    ((h.toUInt64 <<< 32) + l.toUInt64).toNat = h.toNat * 2 ^ 32 + l.toNat := by
  have hl := l.toNat_lt
  have hh := h.toNat_lt
  simp only [UInt64.toNat_add, UInt64.toNat_shiftLeft, UInt32.toNat_toUInt64, UInt64.reduceToNat,
    Nat.reduceMod, Nat.shiftLeft_eq]
  omega

theorem half_words (x : UInt64) : ((x >>> 32).toUInt32.toUInt64 <<< 32) + x.toUInt32.toUInt64 = x := by
  apply UInt64.toNat_inj.mp
  have hx := x.toNat_lt
  rw [toNat_half]
  simp only [UInt64.toNat_toUInt32, UInt64.toNat_shiftRight, UInt64.reduceToNat, Nat.reduceMod,
    Nat.shiftRight_eq_div_pow]
  omega

theorem low_words (l h : UInt32) : ((h.toUInt64 <<< 32) + l.toUInt64).toUInt32 = l := by
  apply UInt32.toNat_inj.mp
  have hl := l.toNat_lt
  rw [UInt64.toNat_toUInt32, toNat_half]
  omega

theorem high_words (l h : UInt32) : (((h.toUInt64 <<< 32) + l.toUInt64) >>> 32).toUInt32 = h := by
  apply UInt32.toNat_inj.mp
  have hl := l.toNat_lt
  have hh := h.toNat_lt
  rw [UInt64.toNat_toUInt32, UInt64.toNat_shiftRight, toNat_half]
  simp only [UInt64.reduceToNat, Nat.reduceMod, Nat.shiftRight_eq_div_pow]
  omega

theorem M128i.low_ofHalves (l h : UInt64) : (M128i.ofHalves l h).low = l := half_words l

theorem M128i.high_ofHalves (l h : UInt64) : (M128i.ofHalves l h).high = h := half_words h

theorem mmXorSi128_ofHalves (l h : UInt64) (s : M128i) :
    mmXorSi128 (.ofHalves l h) s = .ofHalves (l ^^^ s.low) (h ^^^ s.high) := by
  have hshift : ∀ a b : UInt64, (a ^^^ b) >>> 32 = a >>> 32 ^^^ b >>> 32 := fun a b => by
    apply UInt64.toNat_inj.mp
    simp only [UInt64.toNat_shiftRight, UInt64.toNat_xor, UInt64.reduceToNat, Nat.reduceMod,
      Nat.shiftRight_xor_distrib]
  simp only [M128i.ofHalves, mmXorSi128, UInt64.toUInt32_xor, hshift, M128i.low, M128i.high, low_words,
    high_words]

theorem and_halves {a b c d : Nat} (hb : b < 2 ^ 32) (hd : d < 2 ^ 32) :
    ((a * 2 ^ 32 + b) &&& (c * 2 ^ 32 + d)) % 2 ^ 32 = b &&& d ∧
      ((a * 2 ^ 32 + b) &&& (c * 2 ^ 32 + d)) / 2 ^ 32 = a &&& c := by
  have hlow : ∀ x y : Nat, y < 2 ^ 32 → (x * 2 ^ 32 + y) % 2 ^ 32 = y := by omega
  have hhigh : ∀ x y : Nat, y < 2 ^ 32 → (x * 2 ^ 32 + y) / 2 ^ 32 = x := by omega
  rw [Nat.and_mod_two_pow, Nat.and_div_two_pow, hlow _ _ hb, hlow _ _ hd, hhigh _ _ hb, hhigh _ _ hd]
  exact ⟨rfl, rfl⟩

/-- The mask of both indices. -/
theorem low_and_smask2 (version : Version) (X : M128i) :
    (X.low &&& version.smask2).toUInt32.toNat = (X.w0 &&& version.smask).toNat ∧
      ((X.low &&& version.smask2) >>> 32).toNat = (X.w1 &&& version.smask).toNat := by
  have hmask : version.smask2.toNat = version.smask.toNat * 2 ^ 32 + version.smask.toNat := by
    cases version <;> rfl
  have hhalves := and_halves (a := X.w1.toNat) (c := version.smask.toNat) X.w0.toNat_lt
    version.smask.toNat_lt
  have hlow : (X.low &&& version.smask2).toNat = (X.w1.toNat * 2 ^ 32 + X.w0.toNat) &&&
      (version.smask.toNat * 2 ^ 32 + version.smask.toNat) := by
    rw [UInt64.toNat_and, M128i.low, toNat_half, hmask]
  rw [UInt64.toNat_toUInt32, UInt64.toNat_shiftRight, hlow, UInt32.toNat_and, UInt32.toNat_and]
  exact ⟨hhalves.1, (Nat.shiftRight_eq_div_pow _ _).trans hhalves.2⟩

/-- An index is that of two whole pairs. -/
theorem and_smask_mod (version : Version) (x : UInt32) : (x &&& version.smask).toNat % 16 = 0 := by
  have hmask : version.smask.toNat % 2 ^ 4 = 0 := by cases version <;> rfl
  rw [UInt32.toNat_and]
  exact (Nat.and_mod_two_pow (n := 4)).trans (by rw [hmask, Nat.and_zero])

/-- The same S-boxes, counted in pairs and in bytes. -/
structure Same (version : Version) (bound : Nat) (ctx : PwxformCtx) (simd : SimdCtx) : Prop where
  same : ctx.version = version
  S : simd.S = ctx.S
  S0 : simd.S0 = 8 * ctx.S0
  S1 : simd.S1 = 8 * ctx.S1
  S2 : version = .v10 → simd.S2 = 8 * ctx.S2
  w : version = .v10 → simd.w = 8 * ctx.w ∧ ctx.w % 2 = 0 ∧ ctx.w ≤ bound

section

variable {version : Version} {bound : Nat} {ctx : PwxformCtx} {simd : SimdCtx}

theorem load_pairs (S : Array UInt32) (address p : Nat) (h : address = 8 * p) :
    (load S address).low = pair S p ∧ (load S address).high = pair S (p + 1) := by
  have h0 : address / 4 = 2 * p := by omega
  have h2 : 2 * (p + 1) = 2 * p + 2 := by omega
  simp only [load, M128i.low, M128i.high, pair, h0, h2]
  exact ⟨trivial, trivial⟩

theorem store_pairs (S : Array UInt32) {address p : Nat} (h : address = 8 * p) (X : M128i) :
    store S address X = setPairs S p X := by
  have h0 : address / 4 = 2 * p := by omega
  rw [store, setPairs, h0]

/-- **One part of a block.** -/
theorem Same.part (h : Same version bound ctx simd) (X : M128i) :
    pwxformSimd version simd X = pwxSimple ctx X := by
  obtain ⟨hlow, hhigh⟩ := low_and_smask2 version X
  have h0 := and_smask_mod version X.w0
  have h1 := and_smask_mod version X.w1
  have hload0 := load_pairs ctx.S (8 * ctx.S0 + (X.w0 &&& version.smask).toNat)
    (ctx.S0 + (X.w0 &&& version.smask).toNat / 8) (by omega)
  have hload1 := load_pairs ctx.S (8 * ctx.S1 + (X.w1 &&& version.smask).toNat)
    (ctx.S1 + (X.w1 &&& version.smask).toNat / 8) (by omega)
  rw [pwxformSimd, pwxSimple]
  simp only [hlow, hhigh, h.S, h.S0, h.S1, h.same]
  rw [mmMulEpu32, mmAddEpi64, M128i.low_ofHalves, M128i.high_ofHalves, mmXorSi128_ofHalves, hload0.1,
    hload0.2, hload1.1, hload1.2]
  rfl

theorem Same.write0 (h : Same .v10 bound ctx simd) {i j : Nat} (hij : i = 0 ∨ j < 2) (hj : j % 2 = 0)
    (X : M128i) :
    (pwxformWrite0 simd X).1 = (pwxGather i j ctx X).1 ∧
      Same .v10 bound (pwxGather i j ctx X).2 (pwxformWrite0 simd X).2 := by
  obtain ⟨hw, heven, hbound⟩ := h.w rfl
  have hcond : ctx.version ≠ .v05 ∧ (i = 0 ∨ j < 2) := ⟨by rw [h.same]; decide, hij⟩
  rw [pwxformWrite0, pwxGather, if_pos hcond, if_neg (by omega), h.part]
  refine ⟨rfl, h.same, ?_, h.S0, h.S1, h.S2, h.w⟩
  simp only [h.S]
  exact store_pairs _ (by rw [h.S0, hw, Nat.mul_add]) _

theorem Same.write1 (h : Same .v10 bound ctx simd) {i j : Nat} (hij : i = 0 ∨ j < 2) (hj : j % 2 = 1)
    (X : M128i) :
    (pwxformWrite1 simd X).1 = (pwxGather i j ctx X).1 ∧
      Same .v10 (bound + 2) (pwxGather i j ctx X).2 (pwxformWrite1 simd X).2 := by
  obtain ⟨hw, heven, hbound⟩ := h.w rfl
  have hcond : ctx.version ≠ .v05 ∧ (i = 0 ∨ j < 2) := ⟨by rw [h.same]; decide, hij⟩
  rw [pwxformWrite1, pwxGather, if_pos hcond, if_pos hj, h.part]
  refine ⟨rfl, h.same, ?_, h.S0, h.S1, h.S2, fun _ => ⟨?_, ?_, ?_⟩⟩
  · simp only [h.S]
    exact store_pairs _ (by rw [h.S1, hw, Nat.mul_add]) _
  · simp only [hw]
    omega
  · simp only
    omega
  · simp only
    omega

/-- A part that is not written. -/
theorem Same.skip (h : Same version bound ctx simd) {i j : Nat} (hij : version = .v05 ∨ (i ≠ 0 ∧ 2 ≤ j))
    (X : M128i) : pwxGather i j ctx X = (pwxformSimd version simd X, ctx) := by
  have hcond : ¬ (ctx.version ≠ .v05 ∧ (i = 0 ∨ j < 2)) := by
    rw [h.same]
    rintro ⟨hv, hij'⟩
    obtain hv' | ⟨hi, hj⟩ := hij
    · exact hv hv'
    · omega
  rw [pwxGather, if_neg hcond, h.part]

/-- The first round writes all four parts. -/
theorem Same.write4 (h : Same .v10 bound ctx simd) (X : Block) :
    (pwxformRoundWrite4 (X, simd)).1 = (pwxRound (X, ctx) 0).1 ∧
      Same .v10 (bound + 4) (pwxRound (X, ctx) 0).2 (pwxformRoundWrite4 (X, simd)).2 := by
  rw [pwxformRoundWrite4, pwxRound]
  obtain ⟨e0, h0⟩ := h.write0 (j := 0) (.inl rfl) rfl X.q0
  obtain ⟨e1, h1⟩ := h0.write1 (j := 1) (.inl rfl) rfl X.q1
  obtain ⟨e2, h2⟩ := h1.write0 (j := 2) (.inl rfl) rfl X.q2
  obtain ⟨e3, h3⟩ := h2.write1 (j := 3) (.inl rfl) rfl X.q3
  refine ⟨?_, h3⟩
  simp only [e0, e1, e2, e3]

/-- The other rounds write two. -/
theorem Same.write2 (h : Same .v10 bound ctx simd) {i : Nat} (hi : i ≠ 0) (X : Block) :
    (pwxformRoundWrite2 (X, simd)).1 = (pwxRound (X, ctx) i).1 ∧
      Same .v10 (bound + 2) (pwxRound (X, ctx) i).2 (pwxformRoundWrite2 (X, simd)).2 := by
  rw [pwxformRoundWrite2, pwxRound]
  obtain ⟨e0, h0⟩ := h.write0 (i := i) (j := 0) (.inr (by decide)) rfl X.q0
  obtain ⟨e1, h1⟩ := h0.write1 (i := i) (j := 1) (.inr (by decide)) rfl X.q1
  have e2 := h1.skip (i := i) (j := 2) (.inr ⟨hi, Nat.le_refl 2⟩) X.q2
  have e3 := h1.skip (i := i) (j := 3) (.inr ⟨hi, by decide⟩) X.q3
  simp only [e0, e1, e2, e3]
  exact ⟨trivial, h1⟩

/-- A round without writing. -/
theorem Same.round (h : Same .v05 bound ctx simd) (i : Nat) (X : Block) :
    pwxRound (X, ctx) i = (pwxformRound .v05 simd X, ctx) := by
  rw [pwxRound]
  simp only [h.skip (i := i) (.inl rfl)]
  rfl

/-- The position in the S-boxes goes round. -/
theorem and_smask2 {w : Nat} (heven : w % 2 = 0) (hbound : w < 2 ^ 13) :
    8 * w &&& Version.v10.smask2.toNat = 8 * (w &&& ((1 <<< 11) * 2 - 1)) := by
  obtain ⟨u, rfl⟩ := Nat.dvd_of_mod_eq_zero heven
  have hmask : Version.v10.smask2.toNat = (0x7FF * 2 ^ 32 + 0x7FF) <<< 4 := rfl
  have hmask' : ((1 <<< 11) * 2 - 1 : Nat) = 2 ^ 12 - 1 := rfl
  have hshift : 8 * (2 * u) = u <<< 4 := by
    rw [Nat.shiftLeft_eq]
    omega
  have hu : u < 2 ^ 12 := by omega
  have hlow := (and_halves (a := 0) (b := u) (c := 0x7FF) (d := 0x7FF) (by omega) (by decide)).1
  rw [Nat.zero_mul, Nat.zero_add, Nat.mod_eq_of_lt (Nat.lt_of_le_of_lt Nat.and_le_left (by omega))] at hlow
  have hall : u &&& 0x7FF = u % 2 ^ 11 := Nat.and_two_pow_sub_one_eq_mod u 11
  rw [hmask, hmask', Nat.and_two_pow_sub_one_eq_mod, hshift, ← Nat.shiftLeft_and_distrib, hlow, hall,
    Nat.shiftLeft_eq]
  omega

/-- **The registers and the words compute the same block**, and leave the same S-boxes. -/
theorem Same.pwxformAll_eq (h : Same version 4095 ctx simd) (X : Block) :
    (pwxformAll version X simd).1 = (pwxform X ctx).1 ∧
      Same version 4095 (pwxform X ctx).2 (pwxformAll version X simd).2 := by
  cases version with
  | v05 =>
      have hrounds : ∀ (n : Nat) (X : Block), (List.range n).foldl pwxRound (X, ctx) =
          ((pwxformRound .v05 simd)^[n] X, ctx) := by
        intro n X
        induction n with
        | zero => rfl
        | succ n ih =>
            rw [List.range_succ, List.foldl_append, ih, Function.iterate_succ_apply']
            exact h.round n _
      have hnot : ¬ ctx.version ≠ .v05 := not_not.mpr h.same
      rw [pwxform, h.same]
      simp only [Version.pwxRounds, hrounds, if_neg hnot, pwxformAll]
      exact ⟨trivial, h⟩
  | v10 =>
      obtain ⟨e0, h0⟩ := h.write4 X
      have hfold : (List.range ctx.version.pwxRounds).foldl pwxRound (X, ctx) =
          [1, 2].foldl pwxRound (pwxRound (X, ctx) 0) := by
        have hrounds : List.range ctx.version.pwxRounds = [0, 1, 2] := by
          rw [h.same]
          rfl
        rw [hrounds, List.foldl_cons]
      have hv : ctx.version ≠ .v05 := by
        rw [h.same]
        decide
      rw [pwxform, hfold, pwxformAll]
      generalize pwxRound (X, ctx) 0 = x0 at *
      generalize pwxformRoundWrite4 (X, simd) = y0 at *
      obtain ⟨X0, c0⟩ := x0
      obtain ⟨Y0, s0⟩ := y0
      obtain rfl : Y0 = X0 := e0
      obtain ⟨e1, h1⟩ := h0.write2 (i := 1) (by decide) Y0
      rw [List.foldl_cons]
      generalize pwxRound (Y0, c0) 1 = x1 at *
      generalize pwxformRoundWrite2 (Y0, s0) = y1 at *
      obtain ⟨X1, c1⟩ := x1
      obtain ⟨Y1, s1⟩ := y1
      obtain rfl : Y1 = X1 := e1
      obtain ⟨e2, h2⟩ := h1.write2 (i := 2) (by decide) Y1
      rw [List.foldl_cons, List.foldl_nil]
      generalize pwxRound (Y1, c1) 2 = x2 at *
      generalize pwxformRoundWrite2 (Y1, s1) = y2 at *
      obtain ⟨X2, c2⟩ := x2
      obtain ⟨Y2, s2⟩ := y2
      obtain rfl : Y2 = X2 := e2
      obtain ⟨hw, heven, hbound⟩ := h2.w rfl
      have hmask := and_smask2 heven (Nat.lt_of_le_of_lt hbound (by decide))
      have hmod : ((1 <<< 11) * 2 - 1 : Nat) = 2 ^ 12 - 1 := rfl
      have hc2 : c2.version ≠ .v05 := by
        rw [h2.same]
        decide
      simp only at hw heven hbound hmask ⊢
      rw [if_pos hc2]
      refine ⟨rfl, h2.same, h2.S, h2.S2 rfl, h2.S0, fun _ => h2.S1, fun _ => ⟨?_, ?_, ?_⟩⟩
      · simp only [hw, hmask]
      · simp only [hmod, Nat.and_two_pow_sub_one_eq_mod]
        omega
      · simp only [hmod, Nat.and_two_pow_sub_one_eq_mod]
        omega

end

end Yespower

end XLArig
