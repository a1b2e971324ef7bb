import XLArig.Panthera.Blockmix

/-!
# XLArig.Panthera.Smix1

The first walk of `smix`, which fills the rows of `V`.

`yespower-ref.c` keeps a row, copies it to `V` and mixes it in place, and takes the rows that it adds
by `wrap`.  `yespower-opt.c` mixes from one row of `V` into the next one, two rows at a time between
powers of two, and masks the numbers of the rows that it adds.  `N` is at most 512 * 1024, so the
counters are numbers.
-/

namespace XLArig

namespace Yespower

/-- The rows of `V`. -/
abbrev Rows := Nat → List Block

/-! ## A row in place -/

theorem and_pred_lt {x : UInt32} (h : x &&& (x - 1) ≠ 0) : (x &&& (x - 1)).toNat < x.toNat := by
  have hx : x ≠ 0 := by
    rintro rfl
    exact h (UInt32.zero_and ..)
  have hpos : 1 ≤ x := UInt32.le_iff_toNat_le.mpr (Nat.pos_of_ne_zero fun h => hx (UInt32.toNat_inj.mp h))
  rw [UInt32.toNat_and, UInt32.toNat_sub_of_le _ _ hpos]
  have hle : 1 ≤ x.toNat := UInt32.le_iff_toNat_le.mp hpos
  have hand : x.toNat &&& (x.toNat - (1 : UInt32).toNat) ≤ x.toNat - (1 : UInt32).toNat := Nat.and_le_right
  have hone : (1 : UInt32).toNat = 1 := rfl
  omega

/-- `p2floor`. -/
def p2floor (x : UInt32) : UInt32 :=
  if h : x &&& (x - 1) ≠ 0 then p2floor (x &&& (x - 1)) else x
termination_by x.toNat
decreasing_by exact and_pred_lt h

/-- `wrap`. -/
def wrap (x i : UInt32) : UInt32 :=
  let n := p2floor i
  (x &&& (n - 1)) + (i - n)

/-- The pairs of blocks after the first one, in version 1.0. -/
def spread : Nat → List Block → PwxformCtx → List Block × PwxformCtx
  | 0, _, ctx => ([], ctx)
  | k + 1, X, ctx =>
      let (X, ctx) := blockmixPwxform X ctx 1
      let (rest, ctx) := spread k X ctx
      (X ++ rest, ctx)

/-- `X` before the loop of `smix1`. -/
def firstRow (B : List Block) (r : Nat) (ctx : PwxformCtx) : List Block × PwxformCtx :=
  if ctx.version ≠ .v05 then
    let X := (B.take 2).map shuffle
    let (rest, ctx) := spread (r - 1) X ctx
    (X ++ rest, ctx)
  else (B.map shuffle, ctx)

/-- `blockmix_pwxform`, or `blockmix_salsa` where `V` is the memory of the S-boxes. -/
def mixRow (fill : Bool) (X : List Block) (ctx : PwxformCtx) (r : Nat) : List Block × PwxformCtx :=
  if fill then (blockmixSalsa X ctx.version.salsa20Rounds, ctx) else blockmixPwxform X ctx r

structure Walk where
  V : Rows
  X : List Block
  ctx : PwxformCtx

/-- The body of the loop of `smix1`. -/
def smix1Body (fill : Bool) (r : Nat) (s : Walk) (i : Nat) : Walk :=
  let V := Function.update s.V i s.X
  let X := if 1 < i then rowxor s.X (V (wrap (integerify s.X r) (.ofNat i)).toNat) else s.X
  let (X, ctx) := mixRow fill X s.ctx r
  ⟨V, X, ctx⟩

/-- The loop of `smix1`. -/
def smix1Loop (fill : Bool) (r N : Nat) (s : Walk) : Walk := (List.range N).foldl (smix1Body fill r) s

/-- `smix1`. -/
def smix1 (fill : Bool) (B : List Block) (r N : Nat) (V : Rows) (ctx : PwxformCtx) :
    List Block × Rows × PwxformCtx :=
  let (X, ctx) := firstRow B r ctx
  let s := smix1Loop fill r N ⟨V, X, ctx⟩
  (s.X.map unshuffle, s.V, s.ctx)

/-! ## From row to row -/

/-- `salsa20_simd_shuffle`. -/
def simdShuffle (B : Block) : Block :=
  ⟨⟨B.word 0, B.word 5, B.word 10, B.word 15⟩, ⟨B.word 4, B.word 9, B.word 14, B.word 3⟩,
    ⟨B.word 8, B.word 13, B.word 2, B.word 7⟩, ⟨B.word 12, B.word 1, B.word 6, B.word 11⟩⟩

/-- `salsa20_simd_unshuffle`. -/
def simdUnshuffle (B : Block) : Block :=
  ⟨⟨B.word 0, B.word 13, B.word 10, B.word 7⟩, ⟨B.word 4, B.word 1, B.word 14, B.word 11⟩,
    ⟨B.word 8, B.word 5, B.word 2, B.word 15⟩, ⟨B.word 12, B.word 9, B.word 6, B.word 3⟩⟩

def spreadSimd : Nat → List Block → Option SimdCtx → List Block × Option SimdCtx
  | 0, _, ctx => ([], ctx)
  | k + 1, X, ctx =>
      let (X, ctx) := blockmix .v10 X 1 ctx
      let (rest, ctx) := spreadSimd k X ctx
      (X ++ rest, ctx)

/-- The row 0 of `V`, of both passes over the file. -/
def firstRowSimd (version : Version) (B : List Block) (r : Nat) (ctx : Option SimdCtx) :
    List Block × Option SimdCtx :=
  match version with
  | .v05 => (B.map simdShuffle, ctx)
  | .v10 =>
      let X := (B.take 2).map simdShuffle
      let (rest, ctx) := spreadSimd (r - 1) X ctx
      (X ++ rest, ctx)

/-- The variables of `smix1`; `X` is the number of a row. -/
structure SimdWalk where
  V : Rows
  X : Nat
  j : UInt32
  ctx : Option SimdCtx

/-- `V_j`. -/
def SimdWalk.drawn (t : SimdWalk) (n extra : Nat) : List Block :=
  t.V ((t.j &&& (.ofNat n - 1)) + .ofNat extra).toNat

/-- One call of `blockmix_xor`. -/
def SimdWalk.next (version : Version) (r n extra : Nat) (t : SimdWalk) : SimdWalk :=
  let (Y, j, ctx) := blockmixXor version (t.V t.X) (t.drawn n extra) r t.ctx
  ⟨Function.update t.V (t.X + 1) Y, t.X + 1, j, ctx⟩

/-- The loop over `i`. -/
def SimdWalk.pairs (version : Version) (r n m i : Nat) (t : SimdWalk) : SimdWalk :=
  if i < m then ((t.next version r n (i - 1)).next version r n i).pairs version r n m (i + 2) else t
termination_by m - i

/-- The loop over `n`, and `n` at its end. -/
def SimdWalk.powers (version : Version) (r N n : Nat) (t : SimdWalk) : Nat × SimdWalk :=
  if 0 < n ∧ n < N then
    let m := if n < N / 2 then n else N - 1 - n
    (t.pairs version r n m 1).powers version r N (2 * n)
  else (n, t)
termination_by N - n

/-- `smix1` of `yespower-opt.c`. -/
def smix1Simd (version : Version) (B : List Block) (r N : Nat) (V : Rows) (ctx : Option SimdCtx) :
    List Block × Rows × Option SimdCtx :=
  let (X, ctx) := firstRowSimd version B r ctx
  let (Y, ctx) := blockmix version X r ctx
  let (Z, ctx) := blockmix version Y r ctx
  let V := Function.update (Function.update (Function.update V 0 X) 1 Y) 2 Z
  let (n, t) := SimdWalk.powers version r N 2 ⟨V, 2, integerify Z r, ctx⟩
  let n := n / 2
  let t := t.next version r n (N - 2 - n)
  let (X, _, ctx) := blockmixXor version (t.V t.X) (t.drawn n (N - 1 - n)) r t.ctx
  (X.map simdUnshuffle, t.V, ctx)

/-! ## The numbers of the rows -/

theorem and_pred_two_pow (e : Nat) : 2 ^ e &&& (2 ^ e - 1) = 0 := by
  rw [Nat.and_two_pow_sub_one_eq_mod, Nat.mod_self]

theorem and_pred_add {e k : Nat} (hk : 0 < k) (h : k < 2 ^ e) :
    (2 ^ e + k) &&& (2 ^ e + k - 1) = 2 ^ e + (k &&& (k - 1)) := by
  have hmod : ((2 ^ e + k) &&& (2 ^ e + k - 1)) % 2 ^ e = k &&& (k - 1) := by
    rw [Nat.and_mod_two_pow, Nat.add_mod_left, Nat.mod_eq_of_lt h, Nat.add_sub_assoc hk, Nat.add_mod_left,
      Nat.mod_eq_of_lt (by omega)]
  have hdiv : ((2 ^ e + k) &&& (2 ^ e + k - 1)) / 2 ^ e = 1 := by
    rw [Nat.and_div_two_pow, Nat.add_div_left _ (Nat.two_pow_pos e), Nat.div_eq_of_lt h,
      Nat.add_sub_assoc hk, Nat.add_div_left _ (Nat.two_pow_pos e), Nat.div_eq_of_lt (by omega)]
    rfl
  have hall := Nat.div_add_mod ((2 ^ e + k) &&& (2 ^ e + k - 1)) (2 ^ e)
  rw [hmod, hdiv, Nat.mul_one] at hall
  exact hall.symm

theorem p2floor_toNat {e k : Nat} (hk : k < 2 ^ e) {x : UInt32} (hx : x.toNat = 2 ^ e + k) :
    (p2floor x).toNat = 2 ^ e := by
  induction k using Nat.strongRecOn generalizing x with
  | ind k ih =>
      have hpow := Nat.two_pow_pos e
      have hle : 1 ≤ x := UInt32.le_iff_toNat_le.mpr (show 1 ≤ x.toNat by omega)
      have hand : (x &&& (x - 1)).toNat = (2 ^ e + k) &&& (2 ^ e + k - 1) := by
        rw [UInt32.toNat_and, UInt32.toNat_sub_of_le _ _ hle, hx]
        rfl
      rw [p2floor]
      by_cases hzero : k = 0
      · have h0 : ¬ x &&& (x - 1) ≠ 0 := by
          rw [not_not]
          apply UInt32.toNat_inj.mp
          rw [hand, hzero, Nat.add_zero, and_pred_two_pow]
          rfl
        rw [dif_neg h0, hx, hzero, Nat.add_zero]
      · rw [and_pred_add (by omega) hk] at hand
        have hsmall : k &&& (k - 1) < k := Nat.lt_of_le_of_lt Nat.and_le_right (by omega)
        have h0 : x &&& (x - 1) ≠ 0 := by
          intro h
          rw [h] at hand
          have hz : (0 : UInt32).toNat = 0 := rfl
          omega
        rw [dif_pos h0]
        exact ih _ hsmall (by omega) hand

/-- Both ways to draw a row. -/
theorem wrap_eq {e extra : Nat} (he : e < 31) (hextra : extra < 2 ^ e) (x : UInt32) :
    wrap x (.ofNat (2 ^ e + extra)) = (x &&& (.ofNat (2 ^ e) - 1)) + .ofNat extra := by
  have hpow : 2 ^ e < 2 ^ 31 := Nat.pow_lt_pow_right (by decide) he
  have hi : (UInt32.ofNat (2 ^ e + extra)).toNat = 2 ^ e + extra := UInt32.toNat_ofNat_of_lt' (by
    have hsize : UInt32.size = 2 ^ 32 := rfl
    omega)
  have hn : p2floor (.ofNat (2 ^ e + extra)) = .ofNat (2 ^ e) := by
    apply UInt32.toNat_inj.mp
    rw [p2floor_toNat hextra hi, UInt32.toNat_ofNat_of_lt']
    have hsize : UInt32.size = 2 ^ 32 := rfl
    omega
  have hsub : UInt32.ofNat (2 ^ e + extra) - .ofNat (2 ^ e) = .ofNat extra := by
    rw [UInt32.ofNat_add, UInt32.add_comm, UInt32.add_sub_cancel]
  rw [wrap, hn, hsub]

theorem drawn_lt {e extra : Nat} (he : e < 31) (hextra : extra < 2 ^ e) (x : UInt32) :
    ((x &&& (.ofNat (2 ^ e) - 1)) + .ofNat extra).toNat < 2 ^ e + extra := by
  have hpow : 2 ^ e < 2 ^ 31 := Nat.pow_lt_pow_right (by decide) he
  have hpos := Nat.two_pow_pos e
  have hsize : UInt32.size = 2 ^ 32 := rfl
  have hn : (UInt32.ofNat (2 ^ e)).toNat = 2 ^ e := UInt32.toNat_ofNat_of_lt' (by omega)
  have hx : (UInt32.ofNat extra).toNat = extra := UInt32.toNat_ofNat_of_lt' (by omega)
  have hle : 1 ≤ UInt32.ofNat (2 ^ e) := UInt32.le_iff_toNat_le.mpr (by rw [hn]; exact hpos)
  have hand : (x &&& (.ofNat (2 ^ e) - 1)).toNat ≤ 2 ^ e - 1 := by
    rw [UInt32.toNat_and, UInt32.toNat_sub_of_le _ _ hle, hn]
    exact Nat.and_le_right
  rw [UInt32.toNat_add, hx, Nat.mod_eq_of_lt (by omega)]
  omega

/-! ## They agree -/

/-- The S-boxes of both, where they are read. -/
def Agree (version : Version) (fill : Bool) (ctx : PwxformCtx) : Option SimdCtx → Prop
  | none => fill = true ∧ ctx.version = version
  | some simd => fill = false ∧ Same version 4095 ctx simd

section

variable {version : Version} {fill : Bool} {ctx : PwxformCtx} {simd : Option SimdCtx}
  {row row' B : List Block} {r i e extra n m N : Nat}

theorem length_salsaLoop (rounds : Nat) (row : List Block) (X : Block) :
    (salsaLoop rounds row X).length = row.length := by
  induction row generalizing X with
  | nil => rfl
  | cons b row ih => exact congrArg (· + 1) (ih _)

theorem length_mixRow (fill : Bool) (row : List Block) (ctx : PwxformCtx) (r : Nat) :
    (mixRow fill row ctx r).1.length = row.length := by
  cases fill with
  | true => exact length_salsaLoop ..
  | false => exact length_blockmixPwxform ..

theorem Agree.version_eq (h : Agree version fill ctx simd) : ctx.version = version := by
  cases simd with
  | none => exact h.2
  | some simd => exact h.2.same

/-- One row. -/
theorem Agree.mixed (h : Agree version fill ctx simd) (hr : 0 < r) (hfill : fill = true → r = 1)
    (hrow : row.length = 2 * r) :
    ∃ simd', blockmix version row r simd = ((mixRow fill row ctx r).1, simd') ∧
      Agree version fill (mixRow fill row ctx r).2 simd' := by
  cases simd with
  | none =>
      obtain ⟨hfilled, hversion⟩ := h
      obtain rfl := hfill hfilled
      obtain rfl := hfilled
      refine ⟨none, ?_, rfl, hversion⟩
      rw [blockmix_none version hrow, mixRow, if_pos rfl, hversion]
  | some simd =>
      obtain ⟨hfilled, hsame⟩ := h
      obtain rfl := hfilled
      obtain ⟨simd', heq, hsame'⟩ := blockmix_eq hsame hr hrow
      exact ⟨some simd', heq, rfl, hsame'⟩

/-- Two rows. -/
theorem Agree.mixedXor (h : Agree version fill ctx simd) (hr : 0 < r) (hfill : fill = true → r = 1)
    (hrow : row.length = 2 * r) (hrow' : row'.length = 2 * r) :
    ∃ simd', blockmixXor version row row' r simd = ((mixRow fill (rowxor row row') ctx r).1,
        integerify (mixRow fill (rowxor row row') ctx r).1 r, simd') ∧
      Agree version fill (mixRow fill (rowxor row row') ctx r).2 simd' := by
  cases simd with
  | none =>
      obtain ⟨hfilled, hversion⟩ := h
      obtain rfl := hfill hfilled
      obtain rfl := hfilled
      refine ⟨none, ?_, rfl, hversion⟩
      rw [blockmixXor_none version hrow hrow', mixRow, if_pos rfl, hversion]
  | some simd =>
      obtain ⟨hfilled, hsame⟩ := h
      obtain rfl := hfilled
      obtain ⟨simd', heq, hsame'⟩ := blockmixXor_eq hsame hr hrow hrow'
      exact ⟨some simd', heq, rfl, hsame'⟩

/-- The row `i` is in `X`, and has been written to `V` by the registers. -/
structure Reached (version : Version) (fill : Bool) (r i : Nat) (s : Walk) (t : SimdWalk) : Prop where
  X : t.X = i
  V : ∀ k ≤ i, t.V k = Function.update s.V i s.X k
  j : t.j = integerify s.X r
  ctx : Agree version fill s.ctx t.ctx
  length : ∀ k ≤ i, (t.V k).length = 2 * r

/-- What a call of `blockmix_xor` mixes. -/
theorem Reached.mixed {s : Walk} {t : SimdWalk} (h : Reached version fill r i s t) (hr : 0 < r)
    (hfill : fill = true → r = 1) (he : e < 31) (hextra : extra < 2 ^ e) (hi : i = 2 ^ e + extra)
    (h2 : 1 < i) :
    ∃ simd', blockmixXor version (t.V t.X) (t.drawn (2 ^ e) extra) r t.ctx =
        ((smix1Body fill r s i).X, integerify (smix1Body fill r s i).X r, simd') ∧
      Agree version fill (smix1Body fill r s i).ctx simd' ∧ (smix1Body fill r s i).X.length = 2 * r := by
  have hX : t.V t.X = s.X := by rw [h.X, h.V i (Nat.le_refl i), Function.update_self]
  have hlt := drawn_lt he hextra t.j
  have hdrawn : t.drawn (2 ^ e) extra =
      Function.update s.V i s.X (wrap (integerify s.X r) (.ofNat i)).toNat := by
    rw [SimdWalk.drawn, h.V _ (by omega), hi, wrap_eq he hextra, ← h.j]
  have hlen : (t.V t.X).length = 2 * r := by
    rw [h.X]
    exact h.length i (Nat.le_refl i)
  have hlen' : (t.drawn (2 ^ e) extra).length = 2 * r := h.length _ (by omega)
  obtain ⟨simd', heq, hagree⟩ := h.ctx.mixedXor hr hfill hlen hlen'
  rw [hX, hdrawn] at heq hagree
  have hbody : smix1Body fill r s i =
      ⟨Function.update s.V i s.X, (mixRow fill (rowxor s.X (Function.update s.V i s.X
        (wrap (integerify s.X r) (.ofNat i)).toNat)) s.ctx r).1, (mixRow fill (rowxor s.X
        (Function.update s.V i s.X (wrap (integerify s.X r) (.ofNat i)).toNat)) s.ctx r).2⟩ := by
    simp only [smix1Body, if_pos h2]
  rw [hX] at hlen
  rw [hdrawn] at hlen'
  rw [hbody, hX, hdrawn]
  refine ⟨simd', heq, hagree, ?_⟩
  rw [length_mixRow, length_rowxor (hlen.trans hlen'.symm), hlen]

theorem smix1Body_V (s : Walk) : (smix1Body fill r s i).V = Function.update s.V i s.X := rfl

/-- **One row further.** -/
theorem Reached.next {s : Walk} {t : SimdWalk} (h : Reached version fill r i s t) (hr : 0 < r)
    (hfill : fill = true → r = 1) (he : e < 31) (hextra : extra < 2 ^ e) (hi : i = 2 ^ e + extra)
    (h2 : 1 < i) :
    Reached version fill r (i + 1) (smix1Body fill r s i) (t.next version r (2 ^ e) extra) := by
  obtain ⟨simd', heq, hagree, hlen⟩ := h.mixed hr hfill he hextra hi h2
  have hnext : t.next version r (2 ^ e) extra = ⟨Function.update t.V (t.X + 1) (smix1Body fill r s i).X,
      t.X + 1, integerify (smix1Body fill r s i).X r, simd'⟩ := by
    rw [SimdWalk.next, heq]
  rw [hnext, h.X]
  refine ⟨rfl, fun k hk => ?_, rfl, hagree, fun k hk => ?_⟩
  · by_cases hlast : k = i + 1
    · simp only [hlast, Function.update_self]
    · show Function.update t.V (i + 1) _ k = _
      rw [Function.update_of_ne hlast, Function.update_of_ne hlast, smix1Body_V, h.V k (by omega)]
  · show (Function.update t.V (i + 1) _ k).length = _
    by_cases hlast : k = i + 1
    · rw [hlast, Function.update_self, hlen]
    · rw [Function.update_of_ne hlast]
      exact h.length k (by omega)

/-- The walk in place up to a row. -/
theorem smix1Loop_succ (fill : Bool) (r : Nat) (s : Walk) (i : Nat) :
    smix1Loop fill r (i + 1) s = smix1Body fill r (smix1Loop fill r i s) i := by
  rw [smix1Loop, smix1Loop, List.range_succ, List.foldl_append]
  rfl

/-- Two rows at a time, from the row `2 ^ e + 2 * a` on. -/
theorem Reached.pairs {s : Walk} (hr : 0 < r) (hfill : fill = true → r = 1) (he : e < 31) (he0 : 0 < e)
    (hm : m ≤ 2 ^ e) {a d : Nat} (hd : a + d = m / 2) {t : SimdWalk}
    (h : Reached version fill r (2 ^ e + 2 * a) (smix1Loop fill r (2 ^ e + 2 * a) s) t) :
    Reached version fill r (2 ^ e + 2 * (m / 2)) (smix1Loop fill r (2 ^ e + 2 * (m / 2)) s)
      (t.pairs version r (2 ^ e) m (2 * a + 1)) := by
  have hpow : 2 ≤ 2 ^ e := Nat.le_self_pow (Nat.pos_iff_ne_zero.mp he0) 2
  induction d generalizing a t with
  | zero =>
      obtain rfl : a = m / 2 := by omega
      rw [SimdWalk.pairs, if_neg (by omega)]
      exact h
  | succ d ih =>
      have hfirst := h.next hr hfill he (show 2 * a < 2 ^ e by omega) rfl (by omega)
      rw [← smix1Loop_succ] at hfirst
      have hsecond := hfirst.next hr hfill he (show 2 * a + 1 < 2 ^ e by omega) rfl (by omega)
      rw [← smix1Loop_succ] at hsecond
      rw [SimdWalk.pairs, if_pos (by omega)]
      exact ih (a := a + 1) (by omega) hsecond

/-- From a power of two to the row `N - 2`. -/
theorem Reached.powers {s : Walk} (hr : 0 < r) (hfill : fill = true → r = 1) (heven : N % 2 = 0)
    (hN : N ≤ 2 ^ 31) (he0 : 0 < e) (hn : 2 ^ e < N) {t : SimdWalk}
    (h : Reached version fill r (2 ^ e) (smix1Loop fill r (2 ^ e) s) t) :
    ∃ e', e' < 31 ∧ 2 ^ e' ≤ N - 2 ∧ N ≤ 2 * 2 ^ e' ∧
      (t.powers version r N (2 ^ e)).1 = 2 * 2 ^ e' ∧
      Reached version fill r (N - 2) (smix1Loop fill r (N - 2) s) (t.powers version r N (2 ^ e)).2 := by
  obtain ⟨d, hd⟩ : ∃ d, N - 2 ^ e = d := ⟨_, rfl⟩
  induction d using Nat.strongRecOn generalizing e t with
  | ind d ih =>
      have hpos := Nat.two_pow_pos e
      have he : e < 31 := (Nat.pow_lt_pow_iff_right (by decide)).mp (Nat.lt_of_lt_of_le hn hN)
      have hdvd : 2 ^ e % 2 = 0 := Nat.mod_eq_zero_of_dvd (dvd_pow_self 2 (Nat.pos_iff_ne_zero.mp he0))
      have hdouble : 2 * 2 ^ e = 2 ^ (e + 1) := (Nat.pow_succ').symm
      rw [SimdWalk.powers, if_pos ⟨hpos, hn⟩]
      by_cases hhalf : 2 ^ e < N / 2
      · have hpairs := Reached.pairs hr hfill he he0 (Nat.le_refl _) (a := 0) (Nat.zero_add _) h
        have hend : 2 ^ e + 2 * (2 ^ e / 2) = 2 ^ (e + 1) := by omega
        rw [hend] at hpairs
        simp only [if_pos hhalf, hdouble]
        exact ih (N - 2 ^ (e + 1)) (by omega) (Nat.succ_pos e) (by omega) hpairs rfl
      · have hpairs := Reached.pairs (m := N - 1 - 2 ^ e) hr hfill he he0 (by omega) (a := 0)
          (Nat.zero_add _) h
        have hend : 2 ^ e + 2 * ((N - 1 - 2 ^ e) / 2) = N - 2 := by omega
        rw [hend] at hpairs
        simp only [if_neg hhalf]
        rw [SimdWalk.powers, if_neg (by omega)]
        exact ⟨e, he, by omega, by omega, rfl, hpairs⟩

theorem simdShuffle_eq : simdShuffle = shuffle := rfl

theorem simdUnshuffle_eq : simdUnshuffle = unshuffle := rfl

end

section

variable {version : Version} {fill : Bool} {ctx : PwxformCtx} {simd : Option SimdCtx} {B : List Block} {r N : Nat}

/-- The pairs of blocks after the first one. -/
theorem Same.spread {simd : SimdCtx} (h : Same .v10 4095 ctx simd) (k : Nat) {X : List Block}
    (hX : X.length = 2) :
    ∃ simd', spreadSimd k X (some simd) = ((spread k X ctx).1, some simd') ∧
      Same .v10 4095 (spread k X ctx).2 simd' ∧ (spread k X ctx).1.length = 2 * k := by
  induction k generalizing ctx simd X with
  | zero => exact ⟨simd, rfl, h, rfl⟩
  | succ k ih =>
      have hpair : X.length = 2 * 1 := hX
      obtain ⟨simd₁, heq, hsame⟩ := blockmix_eq h Nat.one_pos hpair
      have hlen : (blockmixPwxform X ctx 1).1.length = 2 := by rw [length_blockmixPwxform, hX]
      obtain ⟨simd', hrest, hsame', hlen'⟩ := ih hsame hlen
      refine ⟨simd', ?_, hsame', ?_⟩
      · rw [spreadSimd, heq]
        simp only [hrest]
        rfl
      · rw [Yespower.spread]
        simp only [List.length_append, hlen, hlen']
        omega

/-- The first row. -/
theorem Agree.firstRow (h : Agree version fill ctx simd) (hr : 0 < r) (hfill : fill = true → r = 1)
    (hB : B.length = 2 * r) :
    ∃ simd', firstRowSimd version B r simd = ((firstRow B r ctx).1, simd') ∧
      Agree version fill (firstRow B r ctx).2 simd' ∧ (firstRow B r ctx).1.length = 2 * r := by
  have hversion := h.version_eq
  cases version with
  | v05 =>
      rw [Yespower.firstRow, if_neg (not_not.mpr hversion), firstRowSimd, simdShuffle_eq]
      exact ⟨simd, rfl, h, by rw [List.length_map, hB]⟩
  | v10 =>
      have hne : ctx.version ≠ .v05 := by
        rw [hversion]
        decide
      have hpair : ((B.take 2).map shuffle).length = 2 := by
        rw [List.length_map, List.length_take, hB]
        omega
      rw [Yespower.firstRow, if_pos hne, firstRowSimd, simdShuffle_eq]
      cases simd with
      | none =>
          obtain rfl := hfill h.1
          exact ⟨none, rfl, h, by simp [Yespower.spread, hB]⟩
      | some simd =>
          obtain ⟨hfilled, hsame⟩ := h
          obtain ⟨simd', heq, hsame', hlen⟩ := hsame.spread (r - 1) hpair
          refine ⟨some simd', ?_, ⟨hfilled, hsame'⟩, ?_⟩
          · simp only [heq]
          · simp only [List.length_append, hpair, hlen]
            omega

theorem smix1Body_of_le {s : Walk} {i : Nat} (hi : i ≤ 1) :
    smix1Body fill r s i = ⟨Function.update s.V i s.X, (mixRow fill s.X s.ctx r).1, (mixRow fill s.X s.ctx r).2⟩ := by
  simp only [smix1Body, if_neg (Nat.not_lt.mpr hi)]

/-- **Both fill the same rows and end with the same block**, whatever the memory held before. -/
theorem smix1_eq (h : Agree version fill ctx simd) (hr : 0 < r) (hfill : fill = true → r = 1)
    (hB : B.length = 2 * r) (h4 : 4 ≤ N) (heven : N % 2 = 0) (hN : N ≤ 2 ^ 31) (V V' : Rows) :
    (smix1Simd version B r N V simd).1 = (smix1 fill B r N V' ctx).1 ∧
      (∀ k < N, (smix1Simd version B r N V simd).2.1 k = (smix1 fill B r N V' ctx).2.1 k) ∧
      (∀ k < N, ((smix1 fill B r N V' ctx).2.1 k).length = 2 * r) ∧
      (smix1 fill B r N V' ctx).1.length = 2 * r ∧
      Agree version fill (smix1 fill B r N V' ctx).2.2 (smix1Simd version B r N V simd).2.2 := by
  obtain ⟨c₀, h₀, hagree₀, hlen₀⟩ := h.firstRow hr hfill hB
  rw [smix1Simd, smix1, h₀]
  generalize firstRow B r ctx = first at *
  obtain ⟨X, ctx₀⟩ := first
  obtain ⟨c₁, h₁, hagree₁⟩ := hagree₀.mixed hr hfill hlen₀
  have hlen₁ := (length_mixRow fill X ctx₀ r).trans hlen₀
  have hbody₁ : smix1Body fill r ⟨V', X, ctx₀⟩ 0 =
      ⟨Function.update V' 0 X, (mixRow fill X ctx₀ r).1, (mixRow fill X ctx₀ r).2⟩ :=
    smix1Body_of_le (Nat.zero_le 1)
  simp only at hlen₁ hagree₁ h₁
  generalize mixRow fill X ctx₀ r = second at *
  obtain ⟨Y, ctx₁⟩ := second
  obtain ⟨c₂, h₂, hagree₂⟩ := hagree₁.mixed hr hfill hlen₁
  have hlen₂ := (length_mixRow fill Y ctx₁ r).trans hlen₁
  have hbody₂ : smix1Body fill r ⟨Function.update V' 0 X, Y, ctx₁⟩ 1 =
      ⟨Function.update (Function.update V' 0 X) 1 Y, (mixRow fill Y ctx₁ r).1, (mixRow fill Y ctx₁ r).2⟩ :=
    smix1Body_of_le (Nat.le_refl 1)
  simp only at hlen₂ hagree₂ h₂
  generalize mixRow fill Y ctx₁ r = third at *
  obtain ⟨Z, ctx₂⟩ := third
  have hloop : smix1Loop fill r 2 ⟨V', X, ctx₀⟩ =
      ⟨Function.update (Function.update V' 0 X) 1 Y, Z, ctx₂⟩ := by
    rw [smix1Loop_succ, smix1Loop_succ, smix1Loop, List.range_zero, List.foldl_nil, hbody₁, hbody₂]
  -- the registers have written the rows 0, 1 and 2
  have hreached : Reached version fill r (2 ^ 1) (smix1Loop fill r (2 ^ 1) ⟨V', X, ctx₀⟩)
      ⟨Function.update (Function.update (Function.update V 0 X) 1 Y) 2 Z, 2, integerify Z r, c₂⟩ := by
    rw [Nat.pow_one, hloop]
    refine ⟨rfl, fun k hk => ?_, rfl, hagree₂, fun k hk => ?_⟩
    · obtain rfl | rfl | rfl : k = 0 ∨ k = 1 ∨ k = 2 := by omega
      · rfl
      · rfl
      · rfl
    · obtain rfl | rfl | rfl : k = 0 ∨ k = 1 ∨ k = 2 := by omega
      · exact hlen₀
      · exact hlen₁
      · exact hlen₂
  obtain ⟨e, he, hlt, hle, hn, hrow⟩ := hreached.powers (e := 1) hr hfill heven hN Nat.one_pos
    (show 2 ^ 1 < N by omega)
  have hrow' := hrow.next hr hfill he (show N - 2 - 2 ^ e < 2 ^ e by omega) (by omega) (by omega)
  have hprev : N - 2 + 1 = N - 1 := by omega
  rw [← smix1Loop_succ, hprev] at hrow'
  obtain ⟨simd', hlast, hagree', hlen'⟩ := hrow'.mixed hr hfill he
    (show N - 1 - 2 ^ e < 2 ^ e by omega) (by omega) (by omega)
  have hall : N - 1 + 1 = N := by omega
  rw [← smix1Loop_succ, hall] at hlast hagree' hlen'
  have hV : (smix1Loop fill r N ⟨V', X, ctx₀⟩).V =
      Function.update (smix1Loop fill r (N - 1) ⟨V', X, ctx₀⟩).V (N - 1)
        (smix1Loop fill r (N - 1) ⟨V', X, ctx₀⟩).X := by
    have hsucc := smix1Loop_succ fill r ⟨V', X, ctx₀⟩ (N - 1)
    rw [hall] at hsucc
    rw [hsucc, smix1Body_V]
  have hhalf : 2 * 2 ^ e / 2 = 2 ^ e := by omega
  rw [Nat.pow_one] at hn hrow' hlast
  simp only [h₁, h₂, hn, hhalf, hlast, simdUnshuffle_eq]
  refine ⟨trivial, fun k hk => ?_, fun k hk => ?_, by rw [List.length_map, hlen'], hagree'⟩
  · rw [hV]
    exact hrow'.V k (by omega)
  · rw [hV, ← hrow'.V k (by omega)]
    exact hrow'.length k (by omega)

end

end Yespower

end XLArig
