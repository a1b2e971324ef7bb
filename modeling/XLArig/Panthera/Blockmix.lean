import Mathlib.Data.List.GetD
import XLArig.Panthera.Pwxform

/-!
# XLArig.Panthera.Blockmix

A row of blocks is mixed: in place, with another row added before (`yespower-ref.c`), or with the
two rows added on the way, two blocks in one round of the loop (`yespower-opt.c`).
-/

namespace XLArig

namespace Yespower

/-- `salsa20_rounds`. -/
def Version.salsa20Rounds : Version → Nat
  | .v05 => 8
  | .v10 => 2

/-- `integerify`. -/
def integerify (B : List Block) (r : Nat) : UInt32 := (B.getD (2 * r - 1) default).word 0

/-! ## In place -/

/-- The loop of `blockmix_salsa`. -/
def salsaLoop (rounds : Nat) : List Block → (X : Block) → List Block
  | [], _ => []
  | b :: B, X =>
      let X := salsa20 (blkxor X b) rounds
      X :: salsaLoop rounds B X

/-- `blockmix_salsa`; a row has two blocks. -/
def blockmixSalsa (B : List Block) (rounds : Nat) : List Block := salsaLoop rounds B (B.getD 1 default)

/-- The loop of `blockmix_pwxform`. -/
def pwxformLoop (r1 : Nat) : List Block → (X : Block) → PwxformCtx → List Block × PwxformCtx
  | [], _, ctx => ([], ctx)
  | b :: B, X, ctx =>
      let X := if 1 < r1 then blkxor X b else X
      let (X, ctx) := pwxform X ctx
      let (B, ctx) := pwxformLoop r1 B X ctx
      (X :: B, ctx)

/-- `blockmix_pwxform`. -/
def blockmixPwxform (B : List Block) (ctx : PwxformCtx) (r : Nat) : List Block × PwxformCtx :=
  let r1 := 128 * r / 64
  let X := B.getD (r1 - 1) default
  let (B, ctx) := pwxformLoop r1 B X ctx
  let i := (r1 - 1) * 64 / 64
  (B.modify i fun b => salsa20 b ctx.version.salsa20Rounds, ctx)

/-! ## From row to row -/

/-- `SALSA20`, which is another macro in each pass. -/
def Version.salsa (version : Version) (X : Block) : Block :=
  match version with
  | .v05 => salsa20Wrapper X 4
  | .v10 => salsa20Wrapper X 1

/-- `blockmix_salsa` of `yespower-opt.c`. -/
def blockmixSalsaSimd (version : Version) (Bin : List Block) : List Block :=
  let X := Bin.getD 1 default
  let X := version.salsa (xorX X (Bin.getD 0 default))
  let X' := version.salsa (xorX X (Bin.getD 1 default))
  [X, X']

/-- `blockmix_salsa_xor`. -/
def blockmixSalsaXor (version : Version) (Bin1 Bin2 : List Block) : List Block × UInt32 :=
  let X := xorX (Bin1.getD 1 default) (Bin2.getD 1 default)
  let X := xorX X (Bin1.getD 0 default)
  let X := version.salsa (xorX X (Bin2.getD 0 default))
  let X' := xorX X (Bin1.getD 1 default)
  let X' := version.salsa (xorX X' (Bin2.getD 1 default))
  ([X, X'], X'.word 0)

/-- The loop of `blockmix`; `r` is the index of the last block. -/
def blockmixLoop (version : Version) (r : Nat) : (i : Nat) → List Block → (X : Block) → SimdCtx →
    List Block × SimdCtx
  | _, [], _, ctx => ([], ctx)
  | i, b :: Bin, X, ctx =>
      let (X, ctx) := pwxformAll version (xorX X b) ctx
      if r ≤ i then ([version.salsa X], ctx)
      else
        let (Bout, ctx) := blockmixLoop version r (i + 1) Bin X ctx
        (X :: Bout, ctx)

/-- `blockmix`. -/
def blockmix (version : Version) (Bin : List Block) (r : Nat) :
    Option SimdCtx → List Block × Option SimdCtx
  | none => (blockmixSalsaSimd version Bin, none)
  | some ctx =>
      let r := r * 2 - 1
      let (Bout, ctx) := blockmixLoop version r 0 Bin (Bin.getD r default) ctx
      (Bout, some ctx)

/-- The loop of `blockmix_xor`; `r` is the index of the last block but one. -/
def blockmixXorLoop (version : Version) (r : Nat) : (i : Nat) → (Bin1 Bin2 : List Block) → (X : Block) →
    SimdCtx → List Block × UInt32 × SimdCtx
  | i, b :: b' :: Bin1, c :: c' :: Bin2, X, ctx =>
      let X := xorX (xorX X b) c
      let (X, ctx) := pwxformAll version X ctx
      let X' := xorX (xorX X b') c'
      let (X', ctx) := pwxformAll version X' ctx
      if r ≤ i then
        let X' := version.salsa X'
        ([X, X'], X'.word 0, ctx)
      else
        let (Bout, x, ctx) := blockmixXorLoop version r (i + 2) Bin1 Bin2 X' ctx
        (X :: X' :: Bout, x, ctx)
  | _, _, _, X, ctx => ([], X.word 0, ctx)

/-- `blockmix_xor`. -/
def blockmixXor (version : Version) (Bin1 Bin2 : List Block) (r : Nat) :
    Option SimdCtx → List Block × UInt32 × Option SimdCtx
  | none =>
      let (Bout, x) := blockmixSalsaXor version Bin1 Bin2
      (Bout, x, none)
  | some ctx =>
      let r := r * 2 - 1
      let X := xorX (Bin1.getD r default) (Bin2.getD r default)
      let (Bout, x, ctx) := blockmixXorLoop version (r - 1) 0 Bin1 Bin2 X ctx
      (Bout, x, some ctx)

/-- The loop of `blockmix_xor_save`: `XOR_X_WRITE_XOR_Y_2` writes the sum to the second row. -/
def blockmixXorSaveLoop (version : Version) (r : Nat) : (i : Nat) → (Bin1out Bin2 : List Block) →
    (X : Block) → SimdCtx → List Block × List Block × UInt32 × SimdCtx
  | i, b :: b' :: Bin1out, c :: c' :: Bin2, X, ctx =>
      let Y := xorX c b
      let (X, ctx) := pwxformAll version (xorX X Y) ctx
      let Y' := xorX c' b'
      let (X', ctx) := pwxformAll version (xorX X Y') ctx
      if r ≤ i then
        let X' := version.salsa X'
        ([X, X'], [Y, Y'], X'.word 0, ctx)
      else
        let (Bin1out, Bin2, x, ctx) := blockmixXorSaveLoop version r (i + 2) Bin1out Bin2 X' ctx
        (X :: X' :: Bin1out, Y :: Y' :: Bin2, x, ctx)
  | _, _, _, X, ctx => ([], [], X.word 0, ctx)

/-- `blockmix_xor_save`. -/
def blockmixXorSave (version : Version) (Bin1out Bin2 : List Block) (r : Nat) (ctx : SimdCtx) :
    List Block × List Block × UInt32 × SimdCtx :=
  let r := r * 2 - 1
  let X := xorX (Bin1out.getD r default) (Bin2.getD r default)
  blockmixXorSaveLoop version (r - 1) 0 Bin1out Bin2 X ctx

/-! ## They agree -/

/-- `blkxor` of two rows. -/
def rowxor : List Block → List Block → List Block := List.zipWith blkxor

section

variable {version : Version} {ctx : PwxformCtx} {simd : SimdCtx} {row row' : List Block} {r i : Nat}

theorem blkxor_assoc (a b c : Block) : blkxor (blkxor a b) c = blkxor a (blkxor b c) := by
  simp only [blkxor, Block.ofWords, Block.word, UInt32.xor_assoc]

theorem blkxor_comm (a b : Block) : blkxor a b = blkxor b a := by
  simp only [blkxor, UInt32.xor_comm]

theorem salsa_eq (version : Version) (X : Block) : version.salsa X = salsa20 X version.salsa20Rounds := by
  cases version
  · exact salsa20Wrapper_eq X 4
  · exact salsa20Wrapper_eq X 1

/-- One block of a pass. -/
theorem Same.step (h : Same version 4095 ctx simd) (X : Block) :
    ∃ Y ctx' simd', pwxform X ctx = (Y, ctx') ∧ pwxformAll version X simd = (Y, simd') ∧
      Same version 4095 ctx' simd' := by
  obtain ⟨hX, hsame⟩ := h.pwxformAll_eq X
  exact ⟨_, _, _, rfl, Prod.ext hX rfl, hsame⟩

theorem pwxformLoop_cons {r1 : Nat} (hr1 : 1 < r1) {b X Y : Block} {ctx ctx' : PwxformCtx}
    (h : pwxform (blkxor X b) ctx = (Y, ctx')) :
    pwxformLoop r1 (b :: row) X ctx =
      (Y :: (pwxformLoop r1 row Y ctx').1, (pwxformLoop r1 row Y ctx').2) := by
  rw [pwxformLoop, if_pos hr1, h]

/-- A pass over the rest of a row, from the block `i` on. -/
theorem blockmixLoop_eq (h : Same version 4095 ctx simd) (hrow : i + row.length = r + 1) (hne : row ≠ [])
    {r1 : Nat} (hr1 : 1 < r1) (X : Block) :
    (blockmixLoop version r i row X simd).1 = (pwxformLoop r1 row X ctx).1.modify (r - i) version.salsa ∧
      Same version 4095 (pwxformLoop r1 row X ctx).2 (blockmixLoop version r i row X simd).2 := by
  induction row generalizing i X ctx simd with
  | nil => exact absurd rfl hne
  | cons b row ih =>
      rw [List.length_cons] at hrow
      obtain ⟨Y, ctx', simd', href, hopt, hsame⟩ := h.step (blkxor X b)
      rw [pwxformLoop_cons hr1 href, blockmixLoop, xorX_eq, hopt]
      by_cases hlast : r ≤ i
      · obtain rfl : row = [] := List.length_eq_zero_iff.mp (by omega)
        have hzero : r - i = 0 := by omega
        simp only [if_pos hlast, hzero]
        exact ⟨rfl, hsame⟩
      · have hstep : r - i = r - (i + 1) + 1 := by omega
        have hne' : row ≠ [] := List.ne_nil_of_length_pos (by omega)
        obtain ⟨heq, hsame'⟩ := ih hsame (i := i + 1) (by omega) hne' Y
        simp only [if_neg hlast, hstep, List.modify_succ_cons, heq]
        exact ⟨trivial, hsame'⟩

theorem exists_pair : ∀ row : List Block, 2 ≤ row.length → ∃ b b' rest, row = b :: b' :: rest
  | b :: b' :: rest, _ => ⟨b, b', rest, rfl⟩

/-- Two rows added on the way, from the block `i` on. -/
theorem blockmixXorLoop_eq (h : Same version 4095 ctx simd) {n : Nat} (hrow : row.length = 2 * (n + 1))
    (hrow' : row'.length = 2 * (n + 1)) (hr : r = i + 2 * n) {r1 : Nat} (hr1 : 1 < r1) (X : Block) :
    (blockmixXorLoop version r i row row' X simd).1 =
        (pwxformLoop r1 (rowxor row row') X ctx).1.modify (2 * n + 1) version.salsa ∧
      (blockmixXorLoop version r i row row' X simd).2.1 =
        ((blockmixXorLoop version r i row row' X simd).1.getD (2 * n + 1) default).word 0 ∧
      Same version 4095 (pwxformLoop r1 (rowxor row row') X ctx).2
        (blockmixXorLoop version r i row row' X simd).2.2 := by
  induction n generalizing i row row' X ctx simd with
  | zero =>
      obtain ⟨b, b', row, rfl⟩ := exists_pair _ (Nat.le_of_eq hrow.symm)
      obtain ⟨c, c', row', rfl⟩ := exists_pair _ (Nat.le_of_eq hrow'.symm)
      obtain rfl : row = [] := List.length_eq_zero_iff.mp (by simpa using hrow)
      obtain rfl : row' = [] := List.length_eq_zero_iff.mp (by simpa using hrow')
      obtain ⟨Y, ctx', simd', href, hopt, hsame⟩ := h.step (blkxor X (blkxor b c))
      obtain ⟨Y', ctx'', simd'', href', hopt', hsame'⟩ := hsame.step (blkxor Y (blkxor b' c'))
      rw [blockmixXorLoop, xorX_eq, xorX_eq, blkxor_assoc, hopt]
      simp only [xorX_eq, blkxor_assoc, hopt', rowxor, List.zipWith_cons_cons, List.zipWith_nil_left,
        pwxformLoop_cons hr1 href, pwxformLoop_cons hr1 href', if_pos (show r ≤ i by omega)]
      exact ⟨rfl, rfl, hsame'⟩
  | succ n ih =>
      obtain ⟨b, b', row, rfl⟩ := exists_pair row (by omega)
      obtain ⟨c, c', row', rfl⟩ := exists_pair row' (by omega)
      simp only [List.length_cons] at hrow hrow'
      have hrest : row.length = 2 * (n + 1) := by omega
      have hrest' : row'.length = 2 * (n + 1) := by omega
      obtain ⟨Y, ctx', simd', href, hopt, hsame⟩ := h.step (blkxor X (blkxor b c))
      obtain ⟨Y', ctx'', simd'', href', hopt', hsame'⟩ := hsame.step (blkxor Y (blkxor b' c'))
      obtain ⟨heq, hx, hsame''⟩ := ih hsame' hrest hrest' (i := i + 2) (by omega) Y'
      rw [blockmixXorLoop, xorX_eq, xorX_eq, blkxor_assoc, hopt]
      simp only [xorX_eq, blkxor_assoc, hopt', rowxor, List.zipWith_cons_cons,
        pwxformLoop_cons hr1 href, pwxformLoop_cons hr1 href', if_neg (show ¬ r ≤ i by omega)]
      refine ⟨?_, ?_, hsame''⟩
      · rw [heq]
        rfl
      · rw [hx]
        rfl

/-- The rows added beforehand. -/
theorem blockmixXorSaveLoop_eq (version : Version) {n : Nat} (hrow : row.length = 2 * (n + 1))
    (hrow' : row'.length = 2 * (n + 1)) (hr : r = i + 2 * n) (X : Block) (simd : SimdCtx) :
    (blockmixXorSaveLoop version r i row row' X simd).1 = (blockmixXorLoop version r i row row' X simd).1 ∧
      (blockmixXorSaveLoop version r i row row' X simd).2.1 = rowxor row row' ∧
      (blockmixXorSaveLoop version r i row row' X simd).2.2 =
        (blockmixXorLoop version r i row row' X simd).2 := by
  induction n generalizing i row row' X simd with
  | zero =>
      obtain ⟨b, b', row, rfl⟩ := exists_pair _ (Nat.le_of_eq hrow.symm)
      obtain ⟨c, c', row', rfl⟩ := exists_pair _ (Nat.le_of_eq hrow'.symm)
      obtain rfl : row = [] := List.length_eq_zero_iff.mp (by simpa using hrow)
      obtain rfl : row' = [] := List.length_eq_zero_iff.mp (by simpa using hrow')
      rw [blockmixXorSaveLoop, blockmixXorLoop]
      simp only [xorX_eq, blkxor_assoc, blkxor_comm c, blkxor_comm c', rowxor, List.zipWith_cons_cons,
        List.zipWith_nil_left, if_pos (show r ≤ i by omega)]
      exact ⟨trivial, trivial, trivial⟩
  | succ n ih =>
      obtain ⟨b, b', row, rfl⟩ := exists_pair row (by omega)
      obtain ⟨c, c', row', rfl⟩ := exists_pair row' (by omega)
      simp only [List.length_cons] at hrow hrow'
      have hrest : row.length = 2 * (n + 1) := by omega
      have hrest' : row'.length = 2 * (n + 1) := by omega
      rw [blockmixXorSaveLoop, blockmixXorLoop]
      simp only [xorX_eq, blkxor_assoc, blkxor_comm c, blkxor_comm c', rowxor, List.zipWith_cons_cons,
        if_neg (show ¬ r ≤ i by omega)]
      generalize pwxformAll version (blkxor X (blkxor b c)) simd = x
      generalize pwxformAll version (blkxor x.1 (blkxor b' c')) x.2 = y
      obtain ⟨hout, hsaved, hlast⟩ := ih hrest hrest' (i := i + 2) (by omega) y.1 y.2
      refine ⟨by rw [hout], ?_, hlast⟩
      rw [hsaved]
      rfl

theorem length_pwxformLoop (r1 : Nat) (row : List Block) (X : Block) (ctx : PwxformCtx) :
    (pwxformLoop r1 row X ctx).1.length = row.length := by
  induction row generalizing X ctx with
  | nil => rfl
  | cons b row ih => exact congrArg (· + 1) (ih _ _)

theorem length_blockmixPwxform (row : List Block) (ctx : PwxformCtx) (r : Nat) :
    (blockmixPwxform row ctx r).1.length = row.length := by
  rw [blockmixPwxform]
  exact (List.length_modify ..).trans (length_pwxformLoop ..)

theorem length_rowxor (h : row.length = row'.length) : (rowxor row row').length = row.length := by
  rw [rowxor, List.length_zipWith, h, Nat.min_self]

/-- **One row is mixed as in place.** -/
theorem blockmix_eq (h : Same version 4095 ctx simd) (hr : 0 < r) (hrow : row.length = 2 * r) :
    ∃ simd', blockmix version row r (some simd) = ((blockmixPwxform row ctx r).1, some simd') ∧
      Same version 4095 (blockmixPwxform row ctx r).2 simd' := by
  have hr1 : 128 * r / 64 = 2 * r := by omega
  have hlast : (r * 2 - 1) * 64 / 64 = r * 2 - 1 := Nat.mul_div_cancel _ (by decide)
  have hne : row ≠ [] := List.ne_nil_of_length_pos (by omega)
  obtain ⟨heq, hsame⟩ := blockmixLoop_eq h (i := 0) (r := r * 2 - 1) (by omega) hne
    (show 1 < 2 * r by omega) (row.getD (r * 2 - 1) default)
  have hX : 2 * r - 1 = r * 2 - 1 := by omega
  refine ⟨(blockmixLoop version (r * 2 - 1) 0 row (row.getD (r * 2 - 1) default) simd).2, ?_, ?_⟩
  · rw [blockmix, blockmixPwxform]
    simp only [hr1, hlast, hX, heq, Nat.sub_zero, hsame.same]
    rw [funext (salsa_eq version)]
  · rw [blockmixPwxform]
    simp only [hr1, hX]
    exact hsame

/-- **Two rows are mixed as their sum in place.** -/
theorem blockmixXor_eq (h : Same version 4095 ctx simd) (hr : 0 < r) (hrow : row.length = 2 * r)
    (hrow' : row'.length = 2 * r) :
    ∃ simd', blockmixXor version row row' r (some simd) =
        ((blockmixPwxform (rowxor row row') ctx r).1,
          integerify (blockmixPwxform (rowxor row row') ctx r).1 r, some simd') ∧
      Same version 4095 (blockmixPwxform (rowxor row row') ctx r).2 simd' := by
  have hr1 : 128 * r / 64 = 2 * r := by omega
  have hlast : (2 * (r - 1) + 1) * 64 / 64 = 2 * (r - 1) + 1 := Nat.mul_div_cancel _ (by decide)
  have hX : r * 2 - 1 = 2 * (r - 1) + 1 := by omega
  have hX' : 2 * r - 1 = 2 * (r - 1) + 1 := by omega
  have hget : blkxor (row.getD (2 * (r - 1) + 1) default) (row'.getD (2 * (r - 1) + 1) default) =
      (rowxor row row').getD (2 * (r - 1) + 1) default := by
    rw [rowxor, List.getD_eq_getElem _ _ (by omega), List.getD_eq_getElem _ _ (by omega),
      List.getD_eq_getElem _ _ (by rw [List.length_zipWith]; omega), List.getElem_zipWith]
  have hrow₁ : row.length = 2 * (r - 1 + 1) := by omega
  have hrow₁' : row'.length = 2 * (r - 1 + 1) := by omega
  obtain ⟨heq, hx, hsame⟩ := blockmixXorLoop_eq h hrow₁ hrow₁' (Nat.zero_add _).symm
    (show 1 < 2 * r by omega) ((rowxor row row').getD (2 * (r - 1) + 1) default)
  refine ⟨(blockmixXorLoop version (2 * (r - 1)) 0 row row'
    ((rowxor row row').getD (2 * (r - 1) + 1) default) simd).2.2, ?_, ?_⟩
  · rw [blockmixXor, blockmixPwxform, integerify]
    simp only [hr1, hlast, hX, hX', xorX_eq, hget, Nat.add_sub_cancel, hx, heq, hsame.same]
    rw [funext (salsa_eq version)]
  · rw [blockmixPwxform]
    simp only [hr1, hX']
    exact hsame

/-- **The sum is kept in the second row.** -/
theorem blockmixXorSave_eq (h : Same version 4095 ctx simd) (hr : 0 < r) (hrow : row.length = 2 * r)
    (hrow' : row'.length = 2 * r) :
    ∃ simd', blockmixXorSave version row row' r simd =
        ((blockmixPwxform (rowxor row row') ctx r).1, rowxor row row',
          integerify (blockmixPwxform (rowxor row row') ctx r).1 r, simd') ∧
      Same version 4095 (blockmixPwxform (rowxor row row') ctx r).2 simd' := by
  obtain ⟨simd', heq, hsame⟩ := blockmixXor_eq h hr hrow hrow'
  refine ⟨simd', ?_, hsame⟩
  have hrow₁ : row.length = 2 * (r - 1 + 1) := by omega
  have hrow₁' : row'.length = 2 * (r - 1 + 1) := by omega
  have hindex : r * 2 - 1 - 1 = 0 + 2 * (r - 1) := by omega
  obtain ⟨hout, hsaved, hrest⟩ := blockmixXorSaveLoop_eq version hrow₁ hrow₁' hindex
    (xorX (row.getD (r * 2 - 1) default) (row'.getD (r * 2 - 1) default)) simd
  rw [blockmixXor] at heq
  simp only [Prod.mk.injEq, Option.some.injEq] at heq
  rw [blockmixXorSave]
  exact Prod.ext (hout.trans heq.1) (Prod.ext hsaved (hrest.trans (Prod.ext heq.2.1 heq.2.2)))

/-- **Without S-boxes.** -/
theorem blockmix_none (version : Version) (hrow : row.length = 2) :
    blockmix version row 1 none = (blockmixSalsa row version.salsa20Rounds, none) := by
  obtain ⟨b, b', rest, rfl⟩ := exists_pair _ (Nat.le_of_eq hrow.symm)
  obtain rfl : rest = [] := List.length_eq_zero_iff.mp (by simpa using hrow)
  rw [blockmix, blockmixSalsaSimd, salsa_eq, salsa_eq]
  rfl

theorem blockmixXor_none (version : Version) (hrow : row.length = 2) (hrow' : row'.length = 2) :
    blockmixXor version row row' 1 none =
      (blockmixSalsa (rowxor row row') version.salsa20Rounds,
        integerify (blockmixSalsa (rowxor row row') version.salsa20Rounds) 1, none) := by
  obtain ⟨b, b', rest, rfl⟩ := exists_pair _ (Nat.le_of_eq hrow.symm)
  obtain ⟨c, c', rest', rfl⟩ := exists_pair _ (Nat.le_of_eq hrow'.symm)
  obtain rfl : rest = [] := List.length_eq_zero_iff.mp (by simpa using hrow)
  obtain rfl : rest' = [] := List.length_eq_zero_iff.mp (by simpa using hrow')
  simp only [blockmixXor, blockmixSalsaXor, salsa_eq, xorX_eq, blkxor_assoc, blockmixSalsa, rowxor,
    List.zipWith_cons_cons, List.zipWith_nil_left, salsaLoop, List.getD_cons_zero, List.getD_cons_succ,
    integerify]

end

end Yespower

end XLArig
