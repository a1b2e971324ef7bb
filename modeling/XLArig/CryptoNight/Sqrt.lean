import Mathlib

/-!
# XLArig.CryptoNight.Sqrt

The square root of variant 2: `int_sqrt_v2` of `crypto/cn/CryptoNight_x86.h`, and the correction of
`VARIANT2_INTEGER_MATH` of `crypto/cn/CryptoNight_monero.h` on ARM.

Both start from a square root of the processor and compare one square with the input.  A candidate
is `2^33` less than a root, and what is compared is its square as a whole number of quarters, less
`2^64`: `int_sqrt_v2` does so with the next candidate, whose square need not fit 64 bits.
-/

namespace XLArig

namespace IntSqrt

/-! ## The code -/

/-- `_mm_sqrt_sd`, rounded downwards, of a double that is at least 1 and less than 2; both doubles
are given by their bits. -/
def sqrtSd (x : UInt64) : UInt64 :=
  ((1023 : UInt64) <<< 52) + .ofNat (Nat.sqrt (2 ^ 104 + x.toNat % 2 ^ 52 * 2 ^ 52) - 2 ^ 52)

/-- `int_sqrt_v2`. -/
def intSqrtV2 (n0 : UInt64) : UInt64 :=
  let r := sqrtSd ((n0 >>> 12) + ((1023 : UInt64) <<< 52))
  let s := r >>> 20
  let r := r >>> 19
  let x2 := (s - ((1022 : UInt64) <<< 32)) * (r - s - ((1022 : UInt64) <<< 32) + 1)
  if x2 < n0 then r + 1 else r

/-- What `VARIANT2_INTEGER_MATH` does on ARM after the root of the processor. -/
def fixUp (sqrtResult sqrtInput : UInt64) : UInt64 :=
  let s := sqrtResult >>> 1
  let b := sqrtResult &&& 1
  let r2 := s * (s + b) + (sqrtResult <<< 32)
  sqrtResult + ((if r2 + b > sqrtInput then -1 else 0) +
    if r2 + ((1 : UInt64) <<< 32) < sqrtInput - s then 1 else 0)

/-! ## The root -/

/-- The largest `r` with `(r + 2^33)^2 ≤ 4 * (2^64 + n)`. -/
def root (n : Nat) : Nat := Nat.sqrt (4 * (2 ^ 64 + n)) - 2 ^ 33

/-- The root of `2^64 - 1`. -/
def topRoot : Nat := 3558067407

/-- The least multiple of `2^12` with the root `topRoot`. -/
def limit : UInt64 := 18446744068217450496

variable {n m q r : Nat}

theorem le_sqrt_sub_iff {a b : Nat} (h : b ^ 2 ≤ a) : r ≤ Nat.sqrt a - b ↔ (r + b) ^ 2 ≤ a := by
  rw [Nat.le_sub_iff_add_le (Nat.le_sqrt'.mpr h), Nat.le_sqrt']

theorem two_pow_le_sqrt (n : Nat) : 2 ^ 33 ≤ Nat.sqrt (4 * (2 ^ 64 + n)) := by
  refine Nat.le_sqrt'.mpr ?_
  norm_num
  omega

theorem le_root_iff : r ≤ root n ↔ (r + 2 ^ 33) ^ 2 ≤ 4 * (2 ^ 64 + n) :=
  le_sqrt_sub_iff (Nat.le_sqrt'.mp (two_pow_le_sqrt n))

theorem isGreatest_root (n : Nat) :
    IsGreatest {r | (r + 2 ^ 33) ^ 2 ≤ 4 * (2 ^ 64 + n)} (root n) :=
  ⟨le_root_iff.mp le_rfl, fun _ hr => le_root_iff.mpr hr⟩

theorem root_mono (h : m ≤ n) : root m ≤ root n :=
  le_root_iff.mpr ((le_root_iff.mp le_rfl).trans (by omega))

theorem root_le_topRoot (h : n < 2 ^ 64) : root n ≤ topRoot := by
  by_contra hlt
  have hr : topRoot + 1 ≤ root n := by omega
  have hsq := le_root_iff.mp hr
  simp only [topRoot] at hsq
  omega

/-- Less than `2^32` more changes the root by one at most. -/
theorem root_add_le (h : n ≤ m + 2 ^ 32) : root n ≤ root m + 1 := by
  by_contra hlt
  have hr : root m + 1 + 1 ≤ root n := by omega
  have hsq := le_root_iff.mp hr
  have hnot : ¬ root m + 1 ≤ root m := by omega
  rw [le_root_iff] at hnot
  nlinarith

theorem topRoot_le_root_iff : topRoot ≤ root (4096 * m) ↔ limit.toNat ≤ 4096 * m := by
  have hlimit : limit.toNat = 18446744068217450496 := rfl
  rw [le_root_iff, hlimit, topRoot]
  omega

/-! ## The root of the processor -/

theorem sqrt_div_eq {a b k : Nat} (hk : 0 < k) (h : b = a * k ^ 2) :
    Nat.sqrt b / k = Nat.sqrt a := by
  refine Nat.eq_sqrt'.mpr ⟨?_, ?_⟩
  · have hle : (Nat.sqrt b / k * k) ^ 2 ≤ b :=
      (Nat.pow_le_pow_left (Nat.div_mul_le_self _ _) 2).trans (Nat.sqrt_le' _)
    rw [mul_pow] at hle
    exact Nat.le_of_mul_le_mul_right (hle.trans_eq h) (by positivity)
  · have hlt : Nat.sqrt b < (Nat.sqrt b / k + 1) * k :=
      Nat.lt_mul_of_div_lt (Nat.lt_succ_self _) hk
    rw [Nat.sqrt_lt', mul_pow] at hlt
    exact Nat.lt_of_mul_lt_mul_right (h.symm.trans_lt hlt)

/-- The upper bits of the mantissa are the root of the input without its lowest 12 bits. -/
theorem sqrt_mantissa (m : Nat) :
    Nat.sqrt (2 ^ 104 + m * 2 ^ 52) / 2 ^ 19 = 2 ^ 33 + root (4096 * m) := by
  have harg : 2 ^ 104 + m * 2 ^ 52 = 4 * (2 ^ 64 + 4096 * m) * (2 ^ 19) ^ 2 := by omega
  have hdiv : Nat.sqrt (2 ^ 104 + m * 2 ^ 52) / 2 ^ 19 = Nat.sqrt (4 * (2 ^ 64 + 4096 * m)) :=
    sqrt_div_eq (by norm_num) harg
  have hmin := two_pow_le_sqrt (4096 * m)
  have hroot : root (4096 * m) = Nat.sqrt (4 * (2 ^ 64 + 4096 * m)) - 2 ^ 33 := rfl
  omega

theorem toNat_sqrtSd (n : UInt64) :
    (sqrtSd ((n >>> 12) + ((1023 : UInt64) <<< 52))).toNat =
      1023 * 2 ^ 52 + (Nat.sqrt (2 ^ 104 + n.toNat / 4096 * 2 ^ 52) - 2 ^ 52) := by
  have hn := n.toNat_lt
  have harg : ((n >>> 12) + ((1023 : UInt64) <<< 52)).toNat % 2 ^ 52 = n.toNat / 4096 := by
    have hexp : ((1023 : UInt64) <<< 52).toNat = 1023 * 2 ^ 52 := rfl
    have hshift : (n >>> 12).toNat = n.toNat / 4096 := by
      simp [UInt64.toNat_shiftRight, Nat.shiftRight_eq_div_pow]
    rw [UInt64.toNat_add, hexp, hshift]
    omega
  have hlt : Nat.sqrt (2 ^ 104 + n.toNat / 4096 * 2 ^ 52) < 2 ^ 53 := by
    rw [Nat.sqrt_lt']
    omega
  have hexp : ((1023 : UInt64) <<< 52).toNat = 1023 * 2 ^ 52 := rfl
  rw [sqrtSd, harg, UInt64.toNat_add, hexp, UInt64.toNat_ofNat']
  omega

/-- What `int_sqrt_v2` compares with the input, for the root `r` of the processor. -/
def nextSquare (r : Nat) : Nat := (2 ^ 32 + r / 2) * (2 ^ 32 + (r - r / 2) + 1)

theorem toNat_intSqrtV2 (n : UInt64) :
    (intSqrtV2 n).toNat % 2 ^ 32 =
      (root (4096 * (n.toNat / 4096)) +
        if nextSquare (root (4096 * (n.toNat / 4096))) % 2 ^ 64 < n.toNat then 1 else 0) % 2 ^ 32 := by
  have hn := n.toNat_lt
  have hbits := toNat_sqrtSd n
  have hmant := sqrt_mantissa (n.toNat / 4096)
  have htop : root (4096 * (n.toNat / 4096)) ≤ topRoot := root_le_topRoot (by omega)
  simp only [topRoot] at htop
  simp only [intSqrtV2]
  generalize root (4096 * (n.toNat / 4096)) = r at *
  generalize sqrtSd ((n >>> 12) + ((1023 : UInt64) <<< 52)) = x at *
  generalize Nat.sqrt (2 ^ 104 + n.toNat / 4096 * 2 ^ 52) = y at *
  have hr : (x >>> 19).toNat = 1023 * 2 ^ 33 + r := by
    have : (x >>> 19).toNat = x.toNat / 2 ^ 19 := by
      simp [UInt64.toNat_shiftRight, Nat.shiftRight_eq_div_pow]
    omega
  have hs : (x >>> 20).toNat = 1023 * 2 ^ 32 + r / 2 := by
    have : (x >>> 20).toNat = x.toNat / 2 ^ 20 := by
      simp [UInt64.toNat_shiftRight, Nat.shiftRight_eq_div_pow]
    omega
  have hbias : ((1022 : UInt64) <<< 32).toNat = 1022 * 2 ^ 32 := rfl
  have hleft : ((x >>> 20) - ((1022 : UInt64) <<< 32)).toNat = 2 ^ 32 + r / 2 := by
    rw [UInt64.toNat_sub, hbias, hs]
    omega
  have hright : ((x >>> 19) - (x >>> 20) - ((1022 : UInt64) <<< 32) + 1).toNat =
      2 ^ 32 + (r - r / 2) + 1 := by
    rw [UInt64.toNat_add, UInt64.toNat_sub, UInt64.toNat_sub, hbias, hs, hr, UInt64.toNat_one]
    omega
  have hprod : (((x >>> 20) - ((1022 : UInt64) <<< 32)) *
      ((x >>> 19) - (x >>> 20) - ((1022 : UInt64) <<< 32) + 1)).toNat = nextSquare r % 2 ^ 64 := by
    rw [UInt64.toNat_mul, hleft, hright, nextSquare]
  simp only [UInt64.lt_iff_toNat_lt, hprod]
  split
  · rw [UInt64.toNat_add, hr, UInt64.toNat_one]
    omega
  · rw [hr]
    omega

/-- The next candidate is no root just when its square is more than the input. -/
theorem nextSquare_lt_iff : nextSquare r < 2 ^ 64 + n ↔ r + 1 ≤ root n := by
  rw [le_root_iff, nextSquare]
  rcases Nat.even_or_odd' r with ⟨t, rfl | rfl⟩
  · have hhalf : 2 * t / 2 = t := by omega
    have hrest : 2 * t - t = t := by omega
    have hsq : (2 * t + 1 + 2 ^ 33) ^ 2 = 4 * ((2 ^ 32 + t) * (2 ^ 32 + t + 1)) + 1 := by ring
    rw [hhalf, hrest, hsq]
    omega
  · have hhalf : (2 * t + 1) / 2 = t := by omega
    have hrest : 2 * t + 1 - t = t + 1 := by omega
    have hsq : (2 * t + 1 + 1 + 2 ^ 33) ^ 2 =
        4 * ((2 ^ 32 + t) * (2 ^ 32 + (t + 1) + 1)) + 4 := by ring
    rw [hhalf, hrest, hsq]
    omega

theorem nextSquare_lt (h : r < topRoot) : nextSquare r < 2 ^ 65 := by
  have hlt : nextSquare r < 2 ^ 64 + (2 ^ 64 - 1) := by
    rw [nextSquare_lt_iff, le_root_iff]
    have hsq : (r + 1 + 2 ^ 33) ^ 2 ≤ (topRoot + 2 ^ 33) ^ 2 :=
      Nat.pow_le_pow_left (by omega) 2
    simp only [topRoot] at hsq
    omega
  omega

theorem two_pow_le_nextSquare (r : Nat) : 2 ^ 64 ≤ nextSquare r := by
  have hle : 2 ^ 32 * 2 ^ 32 ≤ nextSquare r := Nat.mul_le_mul (by omega) (by omega)
  omega

/-- `int_sqrt_v2` gives the root but for the last inputs, where the square of the next candidate
does not fit. -/
theorem intSqrtV2_iff (n : UInt64) :
    (intSqrtV2 n).toNat % 2 ^ 32 = root n.toNat ↔ n < limit := by
  have hn := n.toNat_lt
  rw [toNat_intSqrtV2, UInt64.lt_iff_toNat_lt]
  have hlow : root (4096 * (n.toNat / 4096)) ≤ root n.toNat := root_mono (by omega)
  have hhigh : root n.toNat ≤ root (4096 * (n.toNat / 4096)) + 1 := root_add_le (by omega)
  have htop : root n.toNat ≤ topRoot := root_le_topRoot hn
  have hlimit := topRoot_le_root_iff (m := n.toNat / 4096)
  have hvalue : limit.toNat = 4096 * 4503599626029651 := rfl
  have hnext := nextSquare_lt_iff (r := root (4096 * (n.toNat / 4096))) (n := n.toNat)
  generalize root (4096 * (n.toNat / 4096)) = r at *
  by_cases hr : r < topRoot
  · have hsmall := nextSquare_lt hr
    have hbig := two_pow_le_nextSquare r
    have hmod : nextSquare r % 2 ^ 64 = nextSquare r - 2 ^ 64 := by omega
    simp only [topRoot] at hr htop hlimit
    rw [hmod]
    split <;> omega
  · have hreq : r = topRoot := by omega
    subst hreq
    have hwrap : nextSquare topRoot % 2 ^ 64 < n.toNat := by
      have : nextSquare topRoot % 2 ^ 64 < limit.toNat := by decide
      omega
    rw [if_pos hwrap]
    simp only [topRoot] at *
    omega

/-! ## The correction on ARM -/

/-- `r2`, as a number. -/
def square (q : Nat) : Nat := q / 2 * (q / 2 + q % 2) + q * 2 ^ 32

theorem sq_eq (q : Nat) : (q + 2 ^ 33) ^ 2 = 4 * (2 ^ 64 + square q) + q % 2 := by
  rw [square]
  rcases Nat.even_or_odd' q with ⟨t, rfl | rfl⟩
  · have hhalf : 2 * t / 2 = t := by omega
    have hmod : 2 * t % 2 = 0 := by omega
    rw [hhalf, hmod]
    ring
  · have hhalf : (2 * t + 1) / 2 = t := by omega
    have hmod : (2 * t + 1) % 2 = 1 := by omega
    rw [hhalf, hmod]
    ring

theorem lt_square_iff : n < square q + q % 2 ↔ root n < q := by
  have hle : q ≤ root n ↔ (q + 2 ^ 33) ^ 2 ≤ 4 * (2 ^ 64 + n) := le_root_iff
  rw [sq_eq] at hle
  omega

theorem square_lt_iff : square q + 2 ^ 32 + q / 2 < n ↔ q < root n := by
  have hle : q + 1 ≤ root n ↔ (q + 1 + 2 ^ 33) ^ 2 ≤ 4 * (2 ^ 64 + n) := le_root_iff
  have hsucc : (q + 1 + 2 ^ 33) ^ 2 = (q + 2 ^ 33) ^ 2 + 2 * (q + 2 ^ 33) + 1 := by ring
  rw [hsucc, sq_eq] at hle
  omega

theorem square_le (h : q ≤ topRoot) : square q ≤ square topRoot := by
  have hsq : (q + 2 ^ 33) ^ 2 ≤ (topRoot + 2 ^ 33) ^ 2 := Nat.pow_le_pow_left (by omega) 2
  rw [sq_eq, sq_eq] at hsq
  have hmod : topRoot % 2 = 1 := rfl
  omega

theorem half_le (h : q ≤ root n + 1) : q / 2 ≤ n := by
  have hsq : (root n + 2 ^ 33) ^ 2 ≤ 4 * (2 ^ 64 + n) := le_root_iff.mp le_rfl
  have heq : (root n + 2 ^ 33) ^ 2 = root n ^ 2 + 2 ^ 34 * root n + 2 ^ 66 := by ring
  have hpos : 0 ≤ root n ^ 2 := Nat.zero_le _
  omega

/-- One step to the root, up or down. -/
theorem fixUp_eq {q : Nat} {n : UInt64} (hlow : root n.toNat ≤ q + 1) (hhigh : q ≤ root n.toNat + 1)
    (htop : q ≤ topRoot) : (fixUp (.ofNat q) n).toNat = root n.toNat := by
  have hn := n.toNat_lt
  have hfits := square_le htop
  have hhalf := half_le hhigh
  have hdown := lt_square_iff (n := n.toNat) (q := q)
  have hup := square_lt_iff (n := n.toNat) (q := q)
  have hvalue : square topRoot = 18446744068217447384 := by decide
  have hbound : q ≤ 3558067407 := htop
  have hq : (UInt64.ofNat q).toNat = q := by
    rw [UInt64.toNat_ofNat']
    omega
  have hs : (UInt64.ofNat q >>> 1).toNat = q / 2 := by
    simp [UInt64.toNat_shiftRight, hq, Nat.shiftRight_eq_div_pow]
  have hb : (UInt64.ofNat q &&& 1).toNat = q % 2 := by
    simp [UInt64.toNat_and, hq, Nat.and_one_is_mod]
  have hshift : (UInt64.ofNat q <<< 32).toNat = q * 2 ^ 32 := by
    simp only [UInt64.toNat_shiftLeft, hq, Nat.shiftLeft_eq]
    have : UInt64.toNat 32 % 64 = 32 := rfl
    rw [this]
    omega
  have hone : ((1 : UInt64) <<< 32).toNat = 2 ^ 32 := rfl
  have hneg : (-1 : UInt64).toNat = 2 ^ 64 - 1 := rfl
  simp only [fixUp]
  generalize UInt64.ofNat q >>> 1 = s at *
  generalize UInt64.ofNat q &&& 1 = b at *
  have hr2 : (s * (s + b) + (UInt64.ofNat q <<< 32)).toNat = square q := by
    have hsum : (q / 2 + q % 2) % 2 ^ 64 = q / 2 + q % 2 := by omega
    have hsquare : square q = q / 2 * (q / 2 + q % 2) + q * 2 ^ 32 := rfl
    rw [UInt64.toNat_add, UInt64.toNat_mul, UInt64.toNat_add, hs, hb, hshift, hsum]
    omega
  have hrest : (n - s).toNat = n.toNat - q / 2 := by
    rw [UInt64.toNat_sub, hs]
    omega
  generalize s * (s + b) + (UInt64.ofNat q <<< 32) = r2 at *
  have habove : r2 + b > n ↔ root n.toNat < q := by
    rw [gt_iff_lt, UInt64.lt_iff_toNat_lt, UInt64.toNat_add, hr2, hb, ← hdown]
    omega
  have hbelow : r2 + ((1 : UInt64) <<< 32) < n - s ↔ q < root n.toNat := by
    rw [UInt64.lt_iff_toNat_lt, UInt64.toNat_add, hr2, hone, hrest, ← hup]
    omega
  rcases lt_trichotomy q (root n.toNat) with hlt | heq | hgt
  · rw [if_neg (by rw [habove]; omega), if_pos (hbelow.mpr hlt)]
    simp only [UInt64.toNat_add, hq, UInt64.toNat_zero, UInt64.toNat_one]
    omega
  · rw [if_neg (by rw [habove]; omega), if_neg (by rw [hbelow]; omega)]
    simp only [UInt64.toNat_add, hq, UInt64.toNat_zero]
    omega
  · rw [if_pos (habove.mpr hgt), if_neg (by rw [hbelow]; omega)]
    simp only [UInt64.toNat_add, hq, UInt64.toNat_zero, hneg]
    omega

/-! ## Start values -/

theorem le_two_mul_sqrt {b N : Nat} (h : (r + b) ^ 2 ≤ 4 * N) : (r : ℝ) ≤ 2 * √N - b := by
  have hreal : ((r + b : ℝ)) ^ 2 ≤ 4 * N := by exact_mod_cast h
  have hle : (r + b : ℝ) / 2 ≤ √N := Real.le_sqrt_of_sq_le (by linarith)
  linarith

theorem two_mul_sqrt_lt {b N : Nat} (h : 4 * N < (r + 1 + b) ^ 2) :
    2 * √N - b < (r : ℝ) + 1 := by
  have hreal : (4 * N : ℝ) < (r + 1 + b : ℝ) ^ 2 := by exact_mod_cast h
  have hlt : √(N : ℝ) < (r + 1 + b : ℝ) / 2 := (Real.sqrt_lt' (by positivity)).mpr (by linarith)
  linarith

theorem root_le_sqrt (n : Nat) : (root n : ℝ) ≤ 2 * √(2 ^ 64 + n) - 2 ^ 33 := by
  have h := le_two_mul_sqrt (le_root_iff.mp (le_refl (root n)))
  simp only [Nat.cast_add, Nat.cast_pow, Nat.cast_ofNat] at h
  exact h

theorem sqrt_lt_root (n : Nat) : 2 * √(2 ^ 64 + n) - 2 ^ 33 < (root n : ℝ) + 1 := by
  have hnot : ¬ root n + 1 ≤ root n := by omega
  rw [le_root_iff, not_le] at hnot
  have h := two_mul_sqrt_lt hnot
  simp only [Nat.cast_add, Nat.cast_pow, Nat.cast_ofNat] at h
  exact h

/-- No start value is above the root of the last input. -/
theorem sqrt_lt_topRoot {n : Nat} (h : n < 2 ^ 64) :
    2 * √(2 ^ 64 + n) - 2 ^ 33 + 2⁻¹ ^ 16 < (topRoot : ℝ) + 1 := by
  have hn : (n : ℝ) ≤ 2 ^ 64 := by exact_mod_cast h.le
  have hreal : (2 ^ 64 + n : ℝ) < ((topRoot + 1 + 2 ^ 33 - 2⁻¹ ^ 16) / 2 : ℝ) ^ 2 := by
    simp only [topRoot]
    norm_num
    linarith
  have hpos : (0 : ℝ) < (topRoot + 1 + 2 ^ 33 - 2⁻¹ ^ 16) / 2 := by
    simp only [topRoot]
    norm_num
  have hlt := (Real.sqrt_lt' hpos).mpr hreal
  rw [lt_div_iff₀ (by norm_num)] at hlt
  rw [← lt_sub_iff_add_lt, sub_lt_iff_lt_add]
  calc 2 * √(2 ^ 64 + n) = √(2 ^ 64 + n) * 2 := mul_comm ..
    _ < topRoot + 1 + 2 ^ 33 - 2⁻¹ ^ 16 := hlt
    _ = topRoot + 1 - 2⁻¹ ^ 16 + 2 ^ 33 := by ring

theorem fixUp_floor (n : UInt64) (x : ℝ) (hx : 0 ≤ x)
    (hnear : |x - (2 * √(2 ^ 64 + n.toNat) - 2 ^ 33)| ≤ 2⁻¹ ^ 16) :
    (fixUp (.ofNat ⌊x⌋₊) n).toNat = root n.toNat := by
  have hn := n.toNat_lt
  have hlow := root_le_sqrt n.toNat
  have hhigh := sqrt_lt_root n.toNat
  have htop := sqrt_lt_topRoot hn
  have hfloor : (⌊x⌋₊ : ℝ) ≤ x := Nat.floor_le hx
  have hceil : x < ⌊x⌋₊ + 1 := Nat.lt_floor_add_one x
  have hsmall : (2⁻¹ ^ 16 : ℝ) < 1 := by norm_num
  rw [abs_le] at hnear
  generalize 2 * √(2 ^ 64 + (n.toNat : ℝ)) - 2 ^ 33 = y at *
  generalize (2⁻¹ ^ 16 : ℝ) = e at *
  refine fixUp_eq ?_ ?_ ?_
  · have hlt : (root n.toNat : ℝ) < ⌊x⌋₊ + 1 + 1 := by linarith [hnear.1]
    have : root n.toNat < ⌊x⌋₊ + 1 + 1 := by exact_mod_cast hlt
    omega
  · have hlt : (⌊x⌋₊ : ℝ) < root n.toNat + 1 + 1 := by linarith [hnear.2]
    have : ⌊x⌋₊ < root n.toNat + 1 + 1 := by exact_mod_cast hlt
    omega
  · have hlt : (⌊x⌋₊ : ℝ) < topRoot + 1 := by linarith [hnear.2]
    have : ⌊x⌋₊ < topRoot + 1 := by exact_mod_cast hlt
    omega

/-- Both give the root of every input but the last ones, where only ARM does. -/
theorem sqrt_iff (n : UInt64) :
    ((intSqrtV2 n).toNat % 2 ^ 32 = root n.toNat ∧
      ∀ x : ℝ, 0 ≤ x → |x - (2 * √(2 ^ 64 + n.toNat) - 2 ^ 33)| ≤ 2⁻¹ ^ 16 →
        (fixUp (.ofNat ⌊x⌋₊) n).toNat = root n.toNat) ↔ n < limit :=
  ⟨fun h => (intSqrtV2_iff n).mp h.1, fun h => ⟨(intSqrtV2_iff n).mpr h, fixUp_floor n⟩⟩

theorem intSqrtV2_last :
    (intSqrtV2 18446744073709551615).toNat % 2 ^ 32 ≠
      root (18446744073709551615 : UInt64).toNat := by
  rw [Ne, intSqrtV2_iff]
  decide

end IntSqrt

end XLArig
