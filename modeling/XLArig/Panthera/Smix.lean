import Mathlib.Data.List.Basic
import XLArig.Panthera.Smix1

/-!
# XLArig.Panthera.Smix

The second walk of `smix`, which adds rows of `V` and writes the sums back, and `smix`.
-/

namespace XLArig

namespace Yespower

/-! ## A row in place -/

/-- The body of the loop of `smix2`. -/
def smix2Body (r N Nloop : Nat) (s : Walk) : Walk :=
  let j := (integerify s.X r &&& (.ofNat N - 1)).toNat
  let X := rowxor s.X (s.V j)
  let V := if Nloop ≠ 2 then Function.update s.V j X else s.V
  let (X, ctx) := blockmixPwxform X s.ctx r
  ⟨V, X, ctx⟩

/-- `smix2`. -/
def smix2 (B : List Block) (r N Nloop : Nat) (V : Rows) (ctx : PwxformCtx) :
    List Block × Rows × PwxformCtx :=
  let s := (smix2Body r N Nloop)^[Nloop] ⟨V, B.map shuffle, ctx⟩
  (s.X.map unshuffle, s.V, s.ctx)

/-! ## Two rows at a time -/

/-- The variables of `smix2`. -/
structure SimdRow where
  V : Rows
  X : List Block
  j : UInt32
  ctx : SimdCtx

/-- `blockmix_xor_save`, and the number of the next row. -/
def SimdRow.save (version : Version) (r N : Nat) (t : SimdRow) : SimdRow :=
  let (X, V_j, x, ctx) := blockmixXorSave version t.X (t.V t.j.toNat) r t.ctx
  ⟨Function.update t.V t.j.toNat V_j, X, x &&& (.ofNat N - 1), ctx⟩

/-- The loop; `Nloop` is even. -/
def SimdRow.saves (version : Version) (r N Nloop : Nat) (t : SimdRow) : SimdRow :=
  let t := (t.save version r N).save version r N
  if 0 < Nloop - 2 then t.saves version r N (Nloop - 2) else t
termination_by Nloop

/-- `smix2` of both passes over `yespower-opt.c`. -/
def smix2Simd (version : Version) (B : List Block) (r N Nloop : Nat) (V : Rows) (ctx : SimdCtx) :
    List Block × Rows × Option SimdCtx :=
  let X := B.map simdShuffle
  let j := integerify X r &&& (.ofNat N - 1)
  if version = .v10 ∨ 2 < Nloop then
    let t := SimdRow.saves version r N Nloop ⟨V, X, j, ctx⟩
    (t.X.map simdUnshuffle, t.V, some t.ctx)
  else
    let (Y, x, ctx) := blockmixXor version X (V j.toNat) r (some ctx)
    let j := x &&& (.ofNat N - 1)
    let (X, _, ctx) := blockmixXor version Y (V j.toNat) r ctx
    (X.map simdUnshuffle, V, ctx)

/-! ## They agree -/

/-- The same rows, as far as they are drawn. -/
structure Alike (version : Version) (r N : Nat) (s : Walk) (t : SimdRow) : Prop where
  V : ∀ k < N, t.V k = s.V k
  X : t.X = s.X
  j : t.j = integerify s.X r &&& (.ofNat N - 1)
  ctx : Same version 4095 s.ctx t.ctx
  lengthV : ∀ k < N, (s.V k).length = 2 * r
  lengthX : s.X.length = 2 * r

section

variable {version : Version} {ctx : PwxformCtx} {simd : SimdCtx} {B : List Block} {r N Nloop : Nat}

theorem masked_lt (hN : 0 < N) (hN' : N ≤ 2 ^ 31) (x : UInt32) : (x &&& (.ofNat N - 1)).toNat < N := by
  have hn : (UInt32.ofNat N).toNat = N := UInt32.toNat_ofNat_of_lt' (by
    have hsize : UInt32.size = 2 ^ 32 := rfl
    omega)
  have hle : 1 ≤ UInt32.ofNat N := UInt32.le_iff_toNat_le.mpr (by rw [hn]; exact hN)
  rw [UInt32.toNat_and, UInt32.toNat_sub_of_le _ _ hle, hn]
  exact Nat.lt_of_le_of_lt Nat.and_le_right (Nat.sub_lt hN (by decide))

/-- One row. -/
theorem Alike.save {s : Walk} {t : SimdRow} (h : Alike version r N s t) (hr : 0 < r) (hN : 0 < N)
    (hN' : N ≤ 2 ^ 31) (hNloop : Nloop ≠ 2) :
    Alike version r N (smix2Body r N Nloop s) (t.save version r N) := by
  have hj := masked_lt hN hN' (integerify s.X r)
  rw [← h.j] at hj
  have hrow := h.V _ hj
  obtain ⟨simd', heq, hsame⟩ := blockmixXorSave_eq h.ctx hr (h.X ▸ h.lengthX)
    (hrow ▸ h.lengthV _ hj : (t.V t.j.toNat).length = 2 * r)
  rw [h.X, hrow] at heq hsame
  have hlen : (rowxor s.X (s.V t.j.toNat)).length = 2 * r := by
    rw [length_rowxor (h.lengthX.trans (h.lengthV _ hj).symm), h.lengthX]
  have hbody : smix2Body r N Nloop s = ⟨Function.update s.V t.j.toNat (rowxor s.X (s.V t.j.toNat)),
      (blockmixPwxform (rowxor s.X (s.V t.j.toNat)) s.ctx r).1,
      (blockmixPwxform (rowxor s.X (s.V t.j.toNat)) s.ctx r).2⟩ := by
    simp only [smix2Body, if_pos hNloop, ← h.j]
  rw [hbody, SimdRow.save, h.X, hrow, heq]
  refine ⟨fun k hk => ?_, rfl, rfl, hsame, fun k hk => ?_, ?_⟩
  · by_cases hkj : k = t.j.toNat
    · simp only [hkj, Function.update_self]
    · simp only [Function.update_of_ne hkj, h.V k hk]
  · by_cases hkj : k = t.j.toNat
    · simp only [hkj, Function.update_self, hlen]
    · simp only [Function.update_of_ne hkj, h.lengthV k hk]
  · rw [length_blockmixPwxform, hlen]

theorem Alike.saves {s : Walk} {t : SimdRow} (h : Alike version r N s t) (hr : 0 < r) (hN : 0 < N)
    (hN' : N ≤ 2 ^ 31) (hNloop : Nloop ≠ 2) (n : Nat) :
    Alike version r N ((smix2Body r N Nloop)^[2 * (n + 1)] s) (t.saves version r N (2 * (n + 1))) := by
  induction n generalizing s t with
  | zero =>
      rw [SimdRow.saves, if_neg (by omega)]
      exact (h.save hr hN hN' hNloop).save hr hN hN' hNloop
  | succ n ih =>
      have hstep : 2 * (n + 1 + 1) = 2 * (n + 1) + 2 := by omega
      rw [SimdRow.saves, if_pos (by omega), hstep, Nat.add_sub_cancel, Function.iterate_add_apply]
      exact ih ((h.save hr hN hN' hNloop).save hr hN hN' hNloop)

/-- **Both end with the same block and the same rows.** -/
theorem smix2_eq (h : Same version 4095 ctx simd) (hr : 0 < r) (hN : 0 < N) (hN' : N ≤ 2 ^ 31)
    (hB : B.length = 2 * r) {V V' : Rows} (hV : ∀ k < N, V k = V' k) (hlen : ∀ k < N, (V' k).length = 2 * r)
    (heven : Nloop % 2 = 0) (hpos : 0 < Nloop) (htwo : version = .v10 → Nloop ≠ 2) :
    (smix2Simd version B r N Nloop V simd).1 = (smix2 B r N Nloop V' ctx).1 ∧
      ∃ simd', (smix2Simd version B r N Nloop V simd).2.2 = some simd' ∧
        (∀ k < N, (smix2Simd version B r N Nloop V simd).2.1 k = (smix2 B r N Nloop V' ctx).2.1 k) ∧
        (∀ k < N, ((smix2 B r N Nloop V' ctx).2.1 k).length = 2 * r) ∧
        (smix2 B r N Nloop V' ctx).1.length = 2 * r ∧
        Same version 4095 (smix2 B r N Nloop V' ctx).2.2 simd' := by
  have hlenX : (B.map shuffle).length = 2 * r := by rw [List.length_map, hB]
  rw [smix2Simd, smix2, simdShuffle_eq, simdUnshuffle_eq]
  by_cases htwice : Nloop = 2
  · subst htwice
    have hnot : ¬ (version = .v10 ∨ 2 < 2) := by
      rintro (hv | hlt)
      · exact htwo hv rfl
      · omega
    have hj := masked_lt hN hN' (integerify (B.map shuffle) r)
    obtain ⟨c₁, h₁, hsame₁⟩ := blockmixXor_eq h hr hlenX (hlen _ hj)
    have hlen₁ : (blockmixPwxform (rowxor (B.map shuffle)
        (V' (integerify (B.map shuffle) r &&& (.ofNat N - 1)).toNat)) ctx r).1.length = 2 * r := by
      rw [length_blockmixPwxform, length_rowxor (hlenX.trans (hlen _ hj).symm), hlenX]
    have hj₁ := masked_lt hN hN' (integerify (blockmixPwxform (rowxor (B.map shuffle)
        (V' (integerify (B.map shuffle) r &&& (.ofNat N - 1)).toNat)) ctx r).1 r)
    obtain ⟨c₂, h₂, hsame₂⟩ := blockmixXor_eq hsame₁ hr hlen₁ (hlen _ hj₁)
    simp only [if_neg hnot, hV _ hj, h₁, hV _ hj₁, h₂]
    refine ⟨rfl, c₂, rfl, hV, hlen, ?_, hsame₂⟩
    exact (List.length_map _).trans ((length_blockmixPwxform _ _ _).trans
      ((length_rowxor (hlen₁.trans (hlen _ hj₁).symm)).trans hlen₁))
  · have hloop : version = .v10 ∨ 2 < Nloop := .inr (by omega)
    have halike : Alike version r N ⟨V', B.map shuffle, ctx⟩
        ⟨V, B.map shuffle, integerify (B.map shuffle) r &&& (.ofNat N - 1), simd⟩ :=
      ⟨hV, rfl, rfl, h, hlen, hlenX⟩
    obtain ⟨n, rfl⟩ : ∃ n, Nloop = 2 * (n + 1) := ⟨Nloop / 2 - 1, by omega⟩
    have hend := halike.saves hr hN hN' htwice n
    simp only [if_pos hloop, hend.X]
    exact ⟨trivial, _, rfl, hend.V, hend.lengthV, (List.length_map _).trans hend.lengthX, hend.ctx⟩

end

/-! ## `smix` -/

/-- `Swidth_to_Sbytes1` of the version's `Swidth`. -/
def Version.sbytes1 : Version → Nat
  | .v05 => 4096
  | .v10 => 32768

/-- `Sbytes`. -/
def Version.sbytes : Version → Nat
  | .v05 => 2 * Version.v05.sbytes1
  | .v10 => 3 * Version.v10.sbytes1

def Block.words (B : Block) : List UInt32 := (List.range 16).map B.word

/-- The memory of the S-boxes, which is filled as rows of two blocks. -/
def sboxes (V : Rows) (n : Nat) : Array UInt32 :=
  ((List.range n).flatMap fun k => (V k).flatMap Block.words).toArray

/-- `Nloop_rw`. -/
def Version.nloopRw (version : Version) (N : Nat) : Nat :=
  match version with
  | .v05 => (N + 2) / 3 / 2 * 2
  | .v10 => ((N + 2) / 3 + 1) / 2 * 2

/-- `Nloop_all`. -/
def nloopAll (N : Nat) : Nat := ((N + 2) / 3 + 1) / 2 * 2

/-- `smix`. -/
def smix (B : List Block) (r N : Nat) (S V : Rows) (ctx : PwxformCtx) : List Block :=
  let n := ctx.version.sbytes / 128
  let (first, S, ctx) := smix1 true (B.take 2) 1 n S ctx
  let ctx := { ctx with S := sboxes S n }
  let (B, V, ctx) := smix1 false (first ++ B.drop 2) r N V ctx
  let (B, V, ctx) := smix2 B r N (ctx.version.nloopRw N) V ctx
  (smix2 B r N (nloopAll N - ctx.version.nloopRw N) V ctx).1

/-- `smix` of `yespower-opt.c`; the second pass over the file has no `Nloop_all`. -/
def smixSimd (version : Version) (B : List Block) (r N : Nat) (S V : Rows) (ctx : SimdCtx) : List Block :=
  let n := version.sbytes / 128
  let (first, S, _) := smix1Simd version (B.take 2) 1 n S none
  let ctx := { ctx with S := sboxes S n }
  let (B, V, c) := smix1Simd version (first ++ B.drop 2) r N V (some ctx)
  let (B, V, c) := smix2Simd version B r N (version.nloopRw N) V (c.getD ctx)
  match version with
  | .v05 => if version.nloopRw N < nloopAll N then (smix2Simd version B r N 2 V (c.getD ctx)).1 else B
  | .v10 => B

section

variable {version : Version} {ctx : PwxformCtx} {simd : SimdCtx} {B : List Block} {r N : Nat}

/-- The S-boxes are not read while they are filled. -/
theorem smix1_fill_ctx (B : List Block) (n : Nat) (S : Rows) (ctx : PwxformCtx) :
    (smix1 true B 1 n S ctx).2.2 = ctx := by
  have hloop : ∀ (n : Nat) (s : Walk), (smix1Loop true 1 n s).ctx = s.ctx := by
    intro n s
    induction n with
    | zero => rfl
    | succ n ih =>
        rw [smix1Loop_succ]
        exact ih
  have hfirst : (firstRow B 1 ctx).2 = ctx := by
    rw [firstRow]
    split <;> rfl
  rw [smix1]
  exact (hloop _ _).trans hfirst

theorem sboxes_congr {V V' : Rows} {n : Nat} (h : ∀ k < n, V k = V' k) : sboxes V n = sboxes V' n := by
  have hrows : ∀ k ∈ List.range n, (V k).flatMap Block.words = (V' k).flatMap Block.words := by
    intro k hk
    rw [h k (List.mem_range.mp hk)]
  rw [sboxes, sboxes, List.flatMap_congr hrows]

theorem Same.withS (h : Same version 4095 ctx simd) (S : Array UInt32) :
    Same version 4095 { ctx with S } { simd with S } :=
  ⟨h.same, rfl, h.S0, h.S1, h.S2, h.w⟩

theorem smix2_zero (B : List Block) (r N : Nat) (V : Rows) (ctx : PwxformCtx) :
    (smix2 B r N 0 V ctx).1 = B := by
  show (B.map shuffle).map unshuffle = B
  rw [List.map_map]
  exact (List.map_congr_left fun b _ => unshuffle_shuffle b).trans (List.map_id B)

theorem nloopRw_spec (version : Version) (hN : 16 ≤ N) :
    version.nloopRw N % 2 = 0 ∧ 2 < version.nloopRw N ∧
      (nloopAll N = version.nloopRw N ∨ version = .v05 ∧ nloopAll N = version.nloopRw N + 2) := by
  rw [nloopAll]
  cases version with
  | v05 =>
      have heq : Version.v05.nloopRw N = (N + 2) / 3 / 2 * 2 := rfl
      have hall : ((N + 2) / 3 + 1) / 2 * 2 = (N + 2) / 3 / 2 * 2 ∨
          ((N + 2) / 3 + 1) / 2 * 2 = (N + 2) / 3 / 2 * 2 + 2 := by omega
      rw [heq]
      exact ⟨by omega, by omega, hall.imp_right fun htwo => ⟨rfl, htwo⟩⟩
  | v10 =>
      have heq : Version.v10.nloopRw N = ((N + 2) / 3 + 1) / 2 * 2 := rfl
      rw [heq]
      omega

/-- **The registers mix the block as the words do**, whatever the memory held before. -/
theorem smix_eq (h : Same version 4095 ctx { simd with S := ctx.S }) (hr : 0 < r) (hB : B.length = 2 * r) (hN : 16 ≤ N)
    (heven : N % 2 = 0) (hN' : N ≤ 2 ^ 31) (S S' V V' : Rows) :
    smixSimd version B r N S V simd = smix B r N S' V' ctx := by
  have hpair : (B.take 2).length = 2 * 1 := by
    rw [List.length_take, hB]
    omega
  have hn : 4 ≤ version.sbytes / 128 ∧ version.sbytes / 128 % 2 = 0 ∧ version.sbytes / 128 ≤ 2 ^ 31 := by
    cases version <;> decide
  have hfilling : Agree version true ctx none := ⟨rfl, h.same⟩
  obtain ⟨hfirst, hrows, -, hlen, -⟩ := smix1_eq hfilling Nat.one_pos (fun _ => rfl) hpair hn.1 hn.2.1 hn.2.2
    S S'
  have hctx := smix1_fill_ctx (B.take 2) (version.sbytes / 128) S' ctx
  rw [smix, smixSimd, h.same]
  generalize smix1Simd version (B.take 2) 1 (version.sbytes / 128) S none = opt₁ at *
  generalize smix1 true (B.take 2) 1 (version.sbytes / 128) S' ctx = ref₁ at *
  obtain ⟨first, S₁, c₁⟩ := opt₁
  obtain ⟨first', S₁', ctx₁⟩ := ref₁
  simp only at hfirst hrows hlen hctx
  obtain rfl := hfirst
  obtain rfl := hctx
  have hblock : (first ++ B.drop 2).length = 2 * r := by
    rw [List.length_append, hlen, List.length_drop, hB]
    omega
  have hsame := h.withS (sboxes S₁' (version.sbytes / 128))
  simp only [sboxes_congr hrows]
  generalize sboxes S₁' (version.sbytes / 128) = words at *
  have hfilled : Agree version false { ctx₁ with S := words } (some { simd with S := words }) := ⟨rfl, hsame⟩
  obtain ⟨hB₂, hV₂, hlenV₂, hlenB₂, hagree₂⟩ := smix1_eq hfilled hr (fun h => absurd h Bool.false_ne_true)
    hblock (by omega) heven hN' V V'
  generalize smix1Simd version (first ++ B.drop 2) r N V (some { simd with S := words }) = opt₂ at *
  generalize smix1 false (first ++ B.drop 2) r N V' { ctx₁ with S := words } = ref₂ at *
  obtain ⟨B₂, V₂, c₂⟩ := opt₂
  obtain ⟨B₂', V₂', ctx₂⟩ := ref₂
  simp only at hB₂ hV₂ hlenV₂ hlenB₂ hagree₂
  obtain rfl := hB₂
  obtain ⟨simd₂, rfl⟩ : ∃ simd₂, c₂ = some simd₂ := by
    cases c₂ with
    | none => exact absurd hagree₂.1 Bool.false_ne_true
    | some simd₂ => exact ⟨simd₂, rfl⟩
  have hsame₂ : Same version 4095 ctx₂ simd₂ := hagree₂.2
  obtain ⟨hrw, hlarge, hall⟩ := nloopRw_spec version hN
  obtain ⟨hB₃, simd₃, hc₃, hV₃, hlenV₃, hlenB₃, hsame₃⟩ := smix2_eq hsame₂ hr (by omega) hN' hlenB₂ hV₂ hlenV₂
    hrw (by omega) (fun _ => by omega)
  simp only [Option.getD_some, hsame₂.same]
  generalize smix2Simd version B₂ r N (version.nloopRw N) V₂ simd₂ = opt₃ at *
  generalize smix2 B₂ r N (version.nloopRw N) V₂' ctx₂ = ref₃ at *
  obtain ⟨B₃, V₃, c₃⟩ := opt₃
  obtain ⟨B₃', V₃', ctx₃⟩ := ref₃
  simp only at hB₃ hc₃ hV₃ hlenV₃ hlenB₃ hsame₃
  obtain rfl := hB₃
  obtain rfl := hc₃
  simp only [Option.getD_some, hsame₃.same]
  obtain hnone | ⟨rfl, htwo⟩ := hall
  · rw [hnone, Nat.sub_self, smix2_zero]
    cases version with
    | v05 => rw [if_neg (Nat.lt_irrefl _)]
    | v10 => rfl
  · have hdiff : Version.v05.nloopRw N + 2 - Version.v05.nloopRw N = 2 := by omega
    rw [htwo, hdiff]
    simp only [if_pos (show Version.v05.nloopRw N < Version.v05.nloopRw N + 2 by omega)]
    exact (smix2_eq hsame₃ hr (by omega) hN' hlenB₃ hV₃ hlenV₃ (by decide) (by decide)
      (fun hv => absurd hv (by decide))).1

end

end Yespower

end XLArig
