import XLArig.CryptoNight.Umul128

/-!
# XLArig.RandomX.Arithmetic

`crypto/randomx/reciprocal` and the integer part of `crypto/randomx/instructions_portable`: the
reciprocal of a divisor by long division, and the high half of a product, with and without
128-bit integers.
-/

namespace XLArig.Portable

/-! ## The reciprocal -/

/-- The loop that counts the bits of the divisor. -/
def bsr (bit : UInt64) : Nat :=
  if bit = 0 then 0 else bsr (bit >>> 1) + 1
termination_by bit.toNat
decreasing_by
  have hpos : bit.toNat ≠ 0 := fun h => by
    have hbit : bit = 0 := UInt64.toNat_inj.mp h
    contradiction
  rw [UInt64.toNat_shiftRight, Nat.shiftRight_eq_div_pow]
  exact Nat.div_lt_self (Nat.pos_of_ne_zero hpos) (by decide)

/-- One digit of the quotient; the remainder is doubled without a 65th bit. -/
def reciprocalStep (divisor : UInt64) (x : UInt64 × UInt64) : UInt64 × UInt64 :=
  let (quotient, remainder) := x
  if remainder ≥ divisor - remainder then (quotient * 2 + 1, remainder * 2 - divisor)
  else (quotient * 2, remainder * 2)

def reciprocalLoop (divisor : UInt64) : (shift : Nat) → UInt64 × UInt64
  | 0 => (0x8000000000000000 / divisor, 0x8000000000000000 % divisor)
  | shift + 1 => reciprocalStep divisor (reciprocalLoop divisor shift)

/-- `randomx_reciprocal`. -/
def reciprocal (divisor : UInt64) : UInt64 := (reciprocalLoop divisor (bsr divisor)).1

/-- `isZeroOrPowerOf2`. -/
def isZeroOrPowerOf2 (x : UInt64) : Bool := x &&& (x - 1) == 0

/-! ## Products -/

/-- `rotr64`. -/
def rotr64 (a b : UInt64) : UInt64 := a >>> b ||| a <<< (-b &&& 63)

/-- `rotl64`. -/
def rotl64 (a b : UInt64) : UInt64 := a <<< b ||| a >>> (-b &&& 63)

/-- `mulh` with 128-bit integers. -/
def mulh (a b : UInt64) : UInt64 := .ofNat (a.toNat * b.toNat / 2 ^ 64)

/-- `unsigned64ToSigned2sCompl`. -/
def signed (x : UInt64) : Int := if x.toNat < 2 ^ 63 then x.toNat else x.toNat - 2 ^ 64

/-- `smulh` with 128-bit integers; the shift of a negative number rounds down. -/
def smulh (a b : UInt64) : UInt64 := .ofNat ((signed a * signed b / 2 ^ 64) % 2 ^ 64).toNat

/-- `LO`. -/
def lo (x : UInt64) : UInt64 := x &&& 0xFFFFFFFF

/-- `HI`. -/
def hi (x : UInt64) : UInt64 := x >>> 32

/-- `mulh` without them. -/
def mulhPortable (a b : UInt64) : UInt64 :=
  let x00 := lo a * lo b
  let x01 := lo a * hi b
  let x10 := hi a * lo b
  let x11 := hi a * hi b
  let m1 := lo x10 + lo x01 + hi x00
  let m2 := hi x10 + hi x01 + lo x11 + hi m1
  let m3 := hi x11 + hi m2
  (m3 <<< 32) + lo m2

/-- `smulh` without them. -/
def smulhPortable (a b : UInt64) : UInt64 :=
  let hi := mulhPortable a b
  let hi := if signed a < 0 then hi - b else hi
  if signed b < 0 then hi - a else hi

/-! ## The reciprocal is exact -/

variable {divisor : UInt64} {k : Nat}

theorem toNat_half (bit : UInt64) : (bit >>> 1).toNat = bit.toNat / 2 := by
  rw [UInt64.toNat_shiftRight, Nat.shiftRight_eq_div_pow]
  rfl

/-- The number of bits, and no more. -/
theorem bsr_spec (bit : UInt64) :
    bit.toNat < 2 ^ bsr bit ∧ (bit ≠ 0 → 2 ^ bsr bit ≤ 2 * bit.toNat) := by
  induction bit using bsr.induct with
  | case1 => simp [bsr]
  | case2 bit hbit ih =>
      have hpos : bit.toNat ≠ 0 := fun h => hbit (UInt64.toNat_inj.mp h)
      rw [bsr, if_neg hbit, Nat.pow_succ]
      obtain ⟨hlt, hle⟩ := ih
      rw [toNat_half] at hlt hle
      refine ⟨by omega, fun _ => ?_⟩
      by_cases hhalf : bit >>> 1 = 0
      · rw [hhalf, bsr, if_pos rfl]
        omega
      · have := hle hhalf
        omega

/-- The quotient and the remainder of a power of two, as long as the quotient has 64 bits. -/
theorem reciprocalLoop_spec (hd : divisor ≠ 0) (hk : 2 ^ (63 + k) / divisor.toNat < 2 ^ 64) :
    (reciprocalLoop divisor k).1.toNat = 2 ^ (63 + k) / divisor.toNat ∧
      (reciprocalLoop divisor k).2.toNat = 2 ^ (63 + k) % divisor.toNat := by
  have hpos : 0 < divisor.toNat := Nat.pos_of_ne_zero fun h => hd (UInt64.toNat_inj.mp h)
  induction k with
  | zero =>
      simp only [reciprocalLoop, UInt64.toNat_div, UInt64.toNat_mod]
      exact ⟨rfl, rfl⟩
  | succ k ih =>
      have hdouble : 2 ^ (63 + (k + 1)) = 2 * 2 ^ (63 + k) := by
        rw [← Nat.add_assoc, Nat.pow_succ, Nat.mul_comm]
      have hdiv := Nat.div_add_mod (2 ^ (63 + k)) divisor.toNat
      have hlt := Nat.mod_lt (2 ^ (63 + k)) hpos
      have hle : 2 ^ (63 + k) / divisor.toNat ≤ 2 ^ (63 + (k + 1)) / divisor.toNat :=
        Nat.div_le_div_right (by omega)
      obtain ⟨hq, hr⟩ := ih (by omega)
      rw [hdouble] at hk ⊢
      simp only [reciprocalLoop, reciprocalStep]
      generalize reciprocalLoop divisor k = x at hq hr ⊢
      obtain ⟨quotient, remainder⟩ := x
      simp only at hq hr ⊢
      generalize 2 ^ (63 + k) / divisor.toNat = q at *
      generalize 2 ^ (63 + k) % divisor.toNat = r at *
      have hd64 := divisor.toNat_lt
      have hrest : (divisor - remainder).toNat = divisor.toNat - r := by
        rw [UInt64.toNat_sub]
        omega
      by_cases hdigit : remainder ≥ divisor - remainder
      · have hge : divisor.toNat ≤ 2 * r := by
          have := UInt64.le_iff_toNat_le.mp hdigit
          omega
        obtain ⟨hquot, hrem⟩ : 2 * 2 ^ (63 + k) / divisor.toNat = 2 * q + 1 ∧
            2 * 2 ^ (63 + k) % divisor.toNat = 2 * r - divisor.toNat := by
          rw [Nat.div_mod_unique hpos, ← hdiv, Nat.mul_succ, Nat.mul_left_comm]
          omega
        rw [if_pos hdigit, hquot, hrem]
        rw [hquot] at hk
        simp only [UInt64.toNat_add, UInt64.toNat_sub, UInt64.toNat_mul, UInt64.reduceToNat, hq, hr]
        omega
      · have hlt2 : 2 * r < divisor.toNat := by
          have := mt UInt64.le_iff_toNat_le.mpr hdigit
          omega
        obtain ⟨hquot, hrem⟩ : 2 * 2 ^ (63 + k) / divisor.toNat = 2 * q ∧
            2 * 2 ^ (63 + k) % divisor.toNat = 2 * r := by
          rw [Nat.div_mod_unique hpos, ← hdiv, Nat.mul_left_comm]
          omega
        rw [if_neg hdigit, hquot, hrem]
        rw [hquot] at hk
        simp only [UInt64.toNat_mul, UInt64.reduceToNat, hq, hr]
        omega

/-- A divisor that `isZeroOrPowerOf2` turns down lies strictly between two powers. -/
theorem lt_of_isZeroOrPowerOf2 (h : isZeroOrPowerOf2 divisor = false) :
    divisor ≠ 0 ∧ 2 ^ bsr divisor < 2 * divisor.toNat := by
  have hd : divisor ≠ 0 := by
    rintro rfl
    exact absurd h (by decide)
  refine ⟨hd, lt_of_le_of_ne ((bsr_spec divisor).2 hd) fun heq => ?_⟩
  have hpos : divisor.toNat ≠ 0 := fun h0 => hd (UInt64.toNat_inj.mp h0)
  obtain ⟨n, hn⟩ : ∃ n, bsr divisor = n + 1 := by
    rw [bsr, if_neg hd]
    exact ⟨_, rfl⟩
  have hpow : divisor.toNat = 2 ^ n := by
    rw [hn, Nat.pow_succ] at heq
    omega
  -- a power of two and the number below have no bit in common
  have hzero : divisor &&& (divisor - 1) = 0 := by
    apply UInt64.toNat_inj.mp
    have hpred : (divisor - 1).toNat = 2 ^ n - 1 := by
      have hlt := divisor.toNat_lt
      rw [UInt64.toNat_sub, UInt64.toNat_one]
      omega
    rw [UInt64.toNat_and, hpred, Nat.and_two_pow_sub_one_eq_mod, hpow, Nat.mod_self]
    rfl
  simp [isZeroOrPowerOf2, hzero] at h

/-- **The reciprocal is exact**, and has 64 bits: it is the quotient of the highest power of two
for which there is room. -/
theorem reciprocal_exact (h : isZeroOrPowerOf2 divisor = false) :
    ∃ x, (reciprocal divisor).toNat = 2 ^ x / divisor.toNat ∧
      2 ^ x / divisor.toNat < 2 ^ 64 ∧ 2 ^ 64 ≤ 2 ^ (x + 1) / divisor.toNat := by
  obtain ⟨hd, hlow⟩ := lt_of_isZeroOrPowerOf2 h
  have hpos : 0 < divisor.toNat := Nat.pos_of_ne_zero fun h0 => hd (UInt64.toNat_inj.mp h0)
  have hup := (bsr_spec divisor).1
  have hhigh : 2 ^ (63 + bsr divisor) / divisor.toNat < 2 ^ 64 := by
    rw [Nat.div_lt_iff_lt_mul hpos, Nat.pow_add]
    omega
  refine ⟨63 + bsr divisor, (reciprocalLoop_spec hd hhigh).1, hhigh, ?_⟩
  rw [Nat.le_div_iff_mul_le hpos, Nat.add_right_comm, Nat.pow_add]
  omega

/-- The reciprocal of seven. -/
theorem reciprocal_exact_seven :
    ∃ x, (reciprocal 7).toNat = 2 ^ x / (7 : UInt64).toNat ∧
      2 ^ x / (7 : UInt64).toNat < 2 ^ 64 ∧ 2 ^ 64 ≤ 2 ^ (x + 1) / (7 : UInt64).toNat :=
  reciprocal_exact (by decide)

/-! ## The portable products are exact -/

theorem toNat_mulhPortable (a b : UInt64) :
    (mulhPortable a b).toNat = a.toNat * b.toNat / 2 ^ 64 := by
  have ha := a.toNat_lt
  have hb := b.toNat_lt
  have hal : (lo a).toNat = a.toNat % 2 ^ 32 := toNat_low a
  have hah : (hi a).toNat = a.toNat / 2 ^ 32 := toNat_high a
  have hbl : (lo b).toNat = b.toNat % 2 ^ 32 := toNat_low b
  have hbh : (hi b).toNat = b.toNat / 2 ^ 32 := toNat_high b
  set x00 := lo a * lo b with hx00
  set x01 := lo a * hi b with hx01
  set x10 := hi a * lo b with hx10
  set x11 := hi a * hi b with hx11
  have h00 : x00.toNat = (lo a).toNat * (lo b).toNat :=
    toNat_mul_halves (by omega) (by omega)
  have h01 : x01.toNat = (lo a).toNat * (hi b).toNat :=
    toNat_mul_halves (by omega) (by omega)
  have h10 : x10.toNat = (hi a).toNat * (lo b).toNat :=
    toNat_mul_halves (by omega) (by omega)
  have h11 : x11.toNat = (hi a).toNat * (hi b).toNat :=
    toNat_mul_halves (by omega) (by omega)
  have hproduct : a.toNat * b.toNat = x11.toNat * 2 ^ 64 + (x10.toNat + x01.toNat) * 2 ^ 32 +
      x00.toNat := by
    have hsplita : a.toNat = (hi a).toNat * 2 ^ 32 + (lo a).toNat := by omega
    have hsplitb : b.toNat = (hi b).toNat * 2 ^ 32 + (lo b).toNat := by omega
    rw [h00, h01, h10, h11, hsplita, hsplitb]
    ring
  have hle : a.toNat * b.toNat / 2 ^ 64 < 2 ^ 64 := by
    rw [Nat.div_lt_iff_lt_mul (by decide)]
    exact Nat.mul_lt_mul'' ha hb
  have hloNat : ∀ x : UInt64, (lo x).toNat = x.toNat % 2 ^ 32 := toNat_low
  have hhiNat : ∀ x : UInt64, (hi x).toNat = x.toNat / 2 ^ 32 := toNat_high
  have hx00lt := x00.toNat_lt
  have hx01lt := x01.toNat_lt
  have hx10lt := x10.toNat_lt
  have hx11lt := x11.toNat_lt
  rw [hproduct] at hle ⊢
  simp only [mulhPortable, ← hx00, ← hx01, ← hx10, ← hx11, UInt64.toNat_add, toNat_raised, hloNat,
    hhiNat]
  omega

/-- The portable `mulh` is the one with 128-bit integers. -/
theorem mulhPortable_eq : mulhPortable = mulh := by
  funext a b
  apply UInt64.toNat_inj.mp
  have hlt := (mulhPortable a b).toNat_lt
  rw [toNat_mulhPortable] at hlt ⊢
  rw [mulh, UInt64.toNat_ofNat', Nat.mod_eq_of_lt hlt]

theorem signed_eq (x : UInt64) :
    signed x = x.toNat - (if signed x < 0 then 1 else 0) * 2 ^ 64 := by
  have hx := x.toNat_lt
  rw [signed]
  split <;> split <;> omega

/-- A negative factor takes the other one off the high half. -/
theorem signed_mul_div (a b : UInt64) :
    signed a * signed b / 2 ^ 64 = (a.toNat * b.toNat / 2 ^ 64 : Nat) -
      (if signed a < 0 then 1 else 0) * b.toNat - (if signed b < 0 then 1 else 0) * a.toNat +
        (if signed a < 0 then 1 else 0) * (if signed b < 0 then 1 else 0) * 2 ^ 64 := by
  have ha := signed_eq a
  have hb := signed_eq b
  generalize (if signed a < 0 then (1 : Int) else 0) = n at ha ⊢
  generalize (if signed b < 0 then (1 : Int) else 0) = m at hb ⊢
  have hsplit : (a.toNat - n * 2 ^ 64) * (b.toNat - m * 2 ^ 64) =
      (a.toNat * b.toNat : Int) + (m * n * 2 ^ 64 - n * b.toNat - m * a.toNat) * 2 ^ 64 := by ring
  rw [ha, hb, hsplit, Int.add_mul_ediv_right _ _ (by decide)]
  push_cast
  ring

/-- **Without 128-bit integers, the same products.**  Both ways to take the high half agree, with
and without a sign. -/
theorem portable_eq : mulhPortable = mulh ∧ smulhPortable = smulh := by
  refine ⟨mulhPortable_eq, ?_⟩
  funext a b
  apply UInt64.toNat_inj.mp
  have ha := a.toNat_lt
  have hb := b.toNat_lt
  have hhi := toNat_mulhPortable a b
  have hlt := (mulhPortable a b).toNat_lt
  simp only [smulhPortable, smulh, signed_mul_div a b, UInt64.toNat_ofNat']
  generalize mulhPortable a b = high at *
  generalize a.toNat * b.toNat / 2 ^ 64 = p at *
  by_cases hna : signed a < 0 <;> by_cases hnb : signed b < 0 <;>
    simp only [hna, hnb, if_true, if_false, UInt64.toNat_sub] <;> omega

end XLArig.Portable
