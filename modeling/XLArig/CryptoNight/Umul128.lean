import XLArig.CryptoNight

/-!
# XLArig.CryptoNight.Umul128

`__umul128` of the builds without 128-bit integers, in `crypto/cn/CryptoNight_x86.h` and
`crypto/cn/CryptoNight_arm.h`, and the hash functions of these builds.

The factors are cut into halves, `a`, `b` and `c`, `d`.  Two of the additions can wrap around, and
a sum that has wrapped is one less than what was added to it (`toNat_add_carry`).
-/

namespace XLArig

/-- Whether an addition to `x` that gave `sum` has wrapped around. -/
def carry (sum x : UInt64) : UInt64 := if sum < x then 1 else 0

/-- The text of both headers, the higher half first. -/
def umul128Portable (multiplier multiplicand : UInt64) : UInt64 × UInt64 :=
  let a := multiplier >>> 32
  let b := multiplier &&& 0xFFFFFFFF
  let c := multiplicand >>> 32
  let d := multiplicand &&& 0xFFFFFFFF
  let ad := a * d
  let bd := b * d
  let adbc := ad + b * c
  let adbcCarry := carry adbc ad
  let productLo := bd + (adbc <<< 32)
  let productLoCarry := carry productLo bd
  (a * c + (adbc >>> 32) + (adbcCarry <<< 32) + productLoCarry, productLo)

/-- The 32-bit processors. -/
inductive Processor32
  | i386
  | arm
  deriving DecidableEq, Repr

/-- `__umul128`. -/
def Processor32.umul128 : Processor32 → UInt64 → UInt64 → UInt64 × UInt64
  | .i386 => umul128Portable
  | .arm => umul128Portable

/-! ## The product -/

/-- The carry is what an addition loses. -/
theorem toNat_add_carry (x y : UInt64) :
    (x + y).toNat + 2 ^ 64 * (carry (x + y) x).toNat = x.toNat + y.toNat := by
  have hx := x.toNat_lt
  have hy := y.toNat_lt
  have hsum : (x + y).toNat = (x.toNat + y.toNat) % 2 ^ 64 := UInt64.toNat_add x y
  rw [carry]
  split
  · next hlt =>
      rw [UInt64.lt_iff_toNat_lt] at hlt
      simp only [UInt64.toNat_one]
      omega
  · next hge =>
      rw [UInt64.lt_iff_toNat_lt] at hge
      simp only [UInt64.toNat_zero]
      omega

theorem carry_le_one (sum x : UInt64) : (carry sum x).toNat ≤ 1 := by
  rw [carry]
  split <;> simp

theorem toNat_high (x : UInt64) : (x >>> 32).toNat = x.toNat / 2 ^ 32 := by
  simp [UInt64.toNat_shiftRight, Nat.shiftRight_eq_div_pow]

theorem toNat_low (x : UInt64) : (x &&& 0xFFFFFFFF).toNat = x.toNat % 2 ^ 32 := by
  have hmask : (0xFFFFFFFF : UInt64).toNat = 2 ^ 32 - 1 := rfl
  rw [UInt64.toNat_and, hmask, Nat.and_two_pow_sub_one_eq_mod]

theorem toNat_raised (x : UInt64) : (x <<< 32).toNat = x.toNat % 2 ^ 32 * 2 ^ 32 := by
  simp only [UInt64.toNat_shiftLeft, Nat.shiftLeft_eq, UInt64.reduceToNat, Nat.reduceMod]
  omega

/-- The product of two halves fits. -/
theorem toNat_mul_halves {x y : UInt64} (hx : x.toNat < 2 ^ 32) (hy : y.toNat < 2 ^ 32) :
    (x * y).toNat = x.toNat * y.toNat := by
  have hlt : x.toNat * y.toNat < 2 ^ 32 * 2 ^ 32 := Nat.mul_lt_mul'' hx hy
  rw [UInt64.toNat_mul]
  exact Nat.mod_eq_of_lt hlt

/-- Both halves together are the product. -/
theorem umul128Portable_exact (x y : UInt64) :
    (umul128Portable x y).1.toNat * 2 ^ 64 + (umul128Portable x y).2.toNat =
      x.toNat * y.toNat := by
  have hx := x.toNat_lt
  have hy := y.toNat_lt
  set a := x >>> 32 with ha
  set b := x &&& 0xFFFFFFFF with hb
  set c := y >>> 32 with hc
  set d := y &&& 0xFFFFFFFF with hd
  have hsplitx : x.toNat = a.toNat * 2 ^ 32 + b.toNat := by
    rw [ha, hb, toNat_high, toNat_low]
    omega
  have hsplity : y.toNat = c.toNat * 2 ^ 32 + d.toNat := by
    rw [hc, hd, toNat_high, toNat_low]
    omega
  have halt : a.toNat < 2 ^ 32 := by rw [ha, toNat_high]; omega
  have hblt : b.toNat < 2 ^ 32 := by rw [hb, toNat_low]; omega
  have hclt : c.toNat < 2 ^ 32 := by rw [hc, toNat_high]; omega
  have hdlt : d.toNat < 2 ^ 32 := by rw [hd, toNat_low]; omega
  set adbc := a * d + b * c with hadbc
  set low := b * d + (adbc <<< 32) with hlow
  set k := carry adbc (a * d) with hk
  set l := carry low (b * d) with hl
  have hmiddle : adbc.toNat + 2 ^ 64 * k.toNat =
      a.toNat * d.toNat + b.toNat * c.toNat := by
    rw [hadbc, hk, hadbc, toNat_add_carry, toNat_mul_halves halt hdlt, toNat_mul_halves hblt hclt]
  have hlower : low.toNat + 2 ^ 64 * l.toNat =
      b.toNat * d.toNat + adbc.toNat % 2 ^ 32 * 2 ^ 32 := by
    rw [hlow, hl, hlow, toNat_add_carry, toNat_mul_halves hblt hdlt, toNat_raised]
  -- what the higher half would be without a modulus
  set high := a.toNat * c.toNat + adbc.toNat / 2 ^ 32 + k.toNat * 2 ^ 32 + l.toNat with hhigh
  have hexact : high * 2 ^ 64 + low.toNat = x.toNat * y.toNat := by
    have hcut := Nat.div_add_mod adbc.toNat (2 ^ 32)
    rw [hsplitx, hsplity, hhigh]
    linear_combination 2 ^ 32 * hmiddle + hlower + 2 ^ 32 * hcut
  have hfits : high < 2 ^ 64 := by
    have hlt : x.toNat * y.toNat < 2 ^ 64 * 2 ^ 64 := Nat.mul_lt_mul'' hx hy
    omega
  have hkone : k.toNat ≤ 1 := carry_le_one _ _
  have hkraised : (k <<< 32).toNat = k.toNat * 2 ^ 32 := by
    rw [toNat_raised, Nat.mod_eq_of_lt (by omega)]
  have hmul : (a * c).toNat = a.toNat * c.toNat := toNat_mul_halves halt hclt
  have hhi : (a * c + (adbc >>> 32) + (k <<< 32) + l).toNat = high := by
    simp only [UInt64.toNat_add, hmul, toNat_high, hkraised]
    omega
  have hresult : umul128Portable x y = (a * c + (adbc >>> 32) + (k <<< 32) + l, low) := rfl
  rw [hresult, hhi, hexact]

/-- Where there are 128-bit integers, the same halves. -/
theorem umul128Portable_eq : umul128Portable = CnLane.umul128 := by
  funext x y
  have hexact := umul128Portable_exact x y
  have hhi := (umul128Portable x y).1.toNat_lt
  have hlo := (umul128Portable x y).2.toNat_lt
  apply Prod.ext
  · apply UInt64.toNat_inj.mp
    simp only [CnLane.umul128, ← hexact, UInt64.toNat_ofNat']
    omega
  · apply UInt64.toNat_inj.mp
    simp only [CnLane.umul128, UInt64.toNat_mul, ← hexact]
    omega

/-! ## The hash functions

The product is the only step of a round that a 32-bit build takes another way. -/

section

variable [CnUnit] (umul128 : UInt64 → UInt64 → UInt64 × UInt64) (a : Algorithm) (soft : Bool)
variable (interleave : Nat) (height : UInt64)

open CnAlgo Algorithm Traced CnUnit

/-- `CnLane.mathPhase`, with the product of a build. -/
def CnLane.mathPhaseWith (c : CnLane) : Prog CnLane :=
  let before := c
  let c :=
    if base a = CN_2 then
      if isR a then c.variant4RandomMath a height else c.variant2IntegerMath
    else c
  let product := umul128 c.idx c.cl
  if base a = CN_2 then
    if a = CN_R then do
      let cx ← before.variant2Shuffle a false c.cx
      pure { c with cx := cx, al := c.al + product.1, ah := c.ah + product.2 }
    else do
      let product ← before.variant2Shuffle2 a (a == CN_RWZ) product.1 product.2
      pure { c with al := c.al + product.1, ah := c.ah + product.2 }
  else pure { c with al := c.al + product.1, ah := c.ah + product.2 }

def wordPhasesWith : List (CnLane → Prog CnLane) :=
  [fun c => c.loadPhase a soft interleave,
    fun c => c.aesPhase a soft interleave,
    fun c => c.tweakPhase a interleave,
    fun c => do
      let c ← c.followPhase a interleave
      let c ← c.mathPhaseWith umul128 a height
      let c ← c.storeWords a interleave
      c.turnPhase a interleave]

def stepPhasesWith : List (CnLane → Prog CnLane) :=
  [fun c => c.loadCx a 0,
    fun c =>
      CnLane.tweakPhase a 0 { c with
        cx := if a = CN_HEAVY_TUBE then CnUnit.aesRoundTweakDiv c.cx c.ax
          else CnUnit.aesenc soft c.cx c.ax },
    fun c => c.followPhase a 0,
    fun c => do
      let c ← c.mathPhaseWith umul128 a height
      let c ← c.storeVector a 0
      c.turnPhase a 0]

/-- The hash functions of a build: one lane or two with interleaving, and more lanes without. -/
def cryptonightHashWith (step : Bool) (input : List UInt8) (size : Nat) (ctx : List CnCtx) :
    Prog (List (List UInt8)) :=
  if step then
    cryptonightHash a soft 0 input size ctx (stepPhasesWith umul128 a soft height)
  else
    cryptonightHash a soft interleave input size ctx
      (wordPhasesWith umul128 a soft interleave height)

end

/-- **The portable product is exact.**  The halves that it returns are those of the product, so
the hash functions of a 32-bit build are those of a 64-bit one. -/
theorem umul128_exact (p : Processor32) :
    (∀ x y : UInt64,
      (p.umul128 x y).1.toNat * 2 ^ 64 + (p.umul128 x y).2.toNat = x.toNat * y.toNat) ∧
    p.umul128 = CnLane.umul128 ∧
    ∀ (_ : CnUnit) (a : Algorithm) (soft : Bool) (interleave : Nat) (height : UInt64)
      (input : List UInt8) (size : Nat) (ctx : List CnCtx),
      cryptonightHashWith p.umul128 a soft interleave height false input size ctx =
          cryptonightSingleHash a soft interleave input size height ctx ∧
        cryptonightHashWith p.umul128 a soft 0 height false input size ctx =
          cryptonightDoubleHash a soft input size height ctx ∧
        cryptonightHashWith p.umul128 a soft 0 height true input size ctx =
          cryptonightStepHash a soft input size height ctx := by
  have hportable : p.umul128 = umul128Portable := by cases p <;> rfl
  have heq : p.umul128 = CnLane.umul128 := hportable.trans umul128Portable_eq
  refine ⟨fun x y => ?_, heq, fun _ a soft interleave height input size ctx => ?_⟩
  · rw [hportable]
    exact umul128Portable_exact x y
  · rw [heq]
    exact ⟨rfl, rfl, rfl⟩

end XLArig
