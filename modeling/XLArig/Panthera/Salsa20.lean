import Mathlib.Logic.Function.Iterate

/-!
# XLArig.Panthera.Salsa20

The blocks of `crypto/randomx/panthera/yespower` and the Salsa20 core on them: with single words
(`yespower-ref.c`), and with the registers of SSE2 (`yespower-opt.c`).

Both keep the words of a block in the order in which the registers want them.
-/

namespace XLArig

namespace Yespower

/-- `__m128i`: four words. -/
structure M128i where
  w0 : UInt32
  w1 : UInt32
  w2 : UInt32
  w3 : UInt32
  deriving DecidableEq, Inhabited

/-- 16 words, or `salsa20_blk_t`. -/
structure Block where
  q0 : M128i
  q1 : M128i
  q2 : M128i
  q3 : M128i
  deriving DecidableEq, Inhabited

/-- `B[i]`. -/
def Block.word (B : Block) : (i : Nat) → UInt32
  | 0 => B.q0.w0 | 1 => B.q0.w1 | 2 => B.q0.w2 | 3 => B.q0.w3
  | 4 => B.q1.w0 | 5 => B.q1.w1 | 6 => B.q1.w2 | 7 => B.q1.w3
  | 8 => B.q2.w0 | 9 => B.q2.w1 | 10 => B.q2.w2 | 11 => B.q2.w3
  | 12 => B.q3.w0 | 13 => B.q3.w1 | 14 => B.q3.w2 | _ => B.q3.w3

def Block.ofWords (f : Nat → UInt32) : Block :=
  ⟨⟨f 0, f 1, f 2, f 3⟩, ⟨f 4, f 5, f 6, f 7⟩, ⟨f 8, f 9, f 10, f 11⟩, ⟨f 12, f 13, f 14, f 15⟩⟩

/-- `x[i * 5 % 16] = B[i]` for each `i`; 13 is the inverse of 5. -/
def unshuffle (B : Block) : Block := .ofWords fun k => B.word (k * 13 % 16)

/-- `B[i] = x[i * 5 % 16]` for each `i`. -/
def shuffle (x : Block) : Block := .ofWords fun i => x.word (i * 5 % 16)

/-- `blkxor` of 16 words. -/
def blkxor (dst src : Block) : Block := .ofWords fun i => dst.word i ^^^ src.word i

/-! ## Single words -/

/-- `R(a, b)`. -/
def rotl (a b : UInt32) : UInt32 := (a <<< b) ||| (a >>> (32 - b))

/-- A round on columns. -/
def columns : Block → Block
  | ⟨⟨x0, x1, x2, x3⟩, ⟨x4, x5, x6, x7⟩, ⟨x8, x9, x10, x11⟩, ⟨x12, x13, x14, x15⟩⟩ =>
      let x4 := x4 ^^^ rotl (x0 + x12) 7
      let x8 := x8 ^^^ rotl (x4 + x0) 9
      let x12 := x12 ^^^ rotl (x8 + x4) 13
      let x0 := x0 ^^^ rotl (x12 + x8) 18
      let x9 := x9 ^^^ rotl (x5 + x1) 7
      let x13 := x13 ^^^ rotl (x9 + x5) 9
      let x1 := x1 ^^^ rotl (x13 + x9) 13
      let x5 := x5 ^^^ rotl (x1 + x13) 18
      let x14 := x14 ^^^ rotl (x10 + x6) 7
      let x2 := x2 ^^^ rotl (x14 + x10) 9
      let x6 := x6 ^^^ rotl (x2 + x14) 13
      let x10 := x10 ^^^ rotl (x6 + x2) 18
      let x3 := x3 ^^^ rotl (x15 + x11) 7
      let x7 := x7 ^^^ rotl (x3 + x15) 9
      let x11 := x11 ^^^ rotl (x7 + x3) 13
      let x15 := x15 ^^^ rotl (x11 + x7) 18
      ⟨⟨x0, x1, x2, x3⟩, ⟨x4, x5, x6, x7⟩, ⟨x8, x9, x10, x11⟩, ⟨x12, x13, x14, x15⟩⟩

/-- A round on rows. -/
def rows : Block → Block
  | ⟨⟨x0, x1, x2, x3⟩, ⟨x4, x5, x6, x7⟩, ⟨x8, x9, x10, x11⟩, ⟨x12, x13, x14, x15⟩⟩ =>
      let x1 := x1 ^^^ rotl (x0 + x3) 7
      let x2 := x2 ^^^ rotl (x1 + x0) 9
      let x3 := x3 ^^^ rotl (x2 + x1) 13
      let x0 := x0 ^^^ rotl (x3 + x2) 18
      let x6 := x6 ^^^ rotl (x5 + x4) 7
      let x7 := x7 ^^^ rotl (x6 + x5) 9
      let x4 := x4 ^^^ rotl (x7 + x6) 13
      let x5 := x5 ^^^ rotl (x4 + x7) 18
      let x11 := x11 ^^^ rotl (x10 + x9) 7
      let x8 := x8 ^^^ rotl (x11 + x10) 9
      let x9 := x9 ^^^ rotl (x8 + x11) 13
      let x10 := x10 ^^^ rotl (x9 + x8) 18
      let x12 := x12 ^^^ rotl (x15 + x14) 7
      let x13 := x13 ^^^ rotl (x12 + x15) 9
      let x14 := x14 ^^^ rotl (x13 + x12) 13
      let x15 := x15 ^^^ rotl (x14 + x13) 18
      ⟨⟨x0, x1, x2, x3⟩, ⟨x4, x5, x6, x7⟩, ⟨x8, x9, x10, x11⟩, ⟨x12, x13, x14, x15⟩⟩

/-- `salsa20` of `yespower-ref.c`. -/
def salsa20 (B : Block) (rounds : Nat) : Block :=
  let x := (fun x => rows (columns x))^[(rounds + 1) / 2] (unshuffle B)
  let y := shuffle x
  .ofWords fun i => B.word i + y.word i

/-! ## Registers -/

/-- `_mm_add_epi32`. -/
def mmAddEpi32 (a b : M128i) : M128i := ⟨a.w0 + b.w0, a.w1 + b.w1, a.w2 + b.w2, a.w3 + b.w3⟩

/-- `_mm_xor_si128`. -/
def mmXorSi128 (a b : M128i) : M128i :=
  ⟨a.w0 ^^^ b.w0, a.w1 ^^^ b.w1, a.w2 ^^^ b.w2, a.w3 ^^^ b.w3⟩

/-- `_mm_slli_epi32`. -/
def mmSlliEpi32 (a : M128i) (n : UInt32) : M128i := ⟨a.w0 <<< n, a.w1 <<< n, a.w2 <<< n, a.w3 <<< n⟩

/-- `_mm_srli_epi32`. -/
def mmSrliEpi32 (a : M128i) (n : UInt32) : M128i := ⟨a.w0 >>> n, a.w1 >>> n, a.w2 >>> n, a.w3 >>> n⟩

/-- A word by its number. -/
def M128i.word (a : M128i) : Nat → UInt32
  | 0 => a.w0
  | 1 => a.w1
  | 2 => a.w2
  | _ => a.w3

/-- `_mm_shuffle_epi32`. -/
def mmShuffleEpi32 (a : M128i) (imm : Nat) : M128i :=
  ⟨a.word (imm % 4), a.word (imm / 4 % 4), a.word (imm / 16 % 4), a.word (imm / 64 % 4)⟩

/-- `ARX`. -/
def arx (out in1 in2 : M128i) (s : UInt32) : M128i :=
  let tmp := mmAddEpi32 in1 in2
  mmXorSi128 (mmXorSi128 out (mmSlliEpi32 tmp s)) (mmSrliEpi32 tmp (32 - s))

/-- The first half of `SALSA20_2ROUNDS`. -/
def columnsSimd : Block → Block
  | ⟨X0, X1, X2, X3⟩ =>
      let X1 := arx X1 X0 X3 7
      let X2 := arx X2 X1 X0 9
      let X3 := arx X3 X2 X1 13
      let X0 := arx X0 X3 X2 18
      ⟨X0, mmShuffleEpi32 X1 0x93, mmShuffleEpi32 X2 0x4E, mmShuffleEpi32 X3 0x39⟩

/-- The second half. -/
def rowsSimd : Block → Block
  | ⟨X0, X1, X2, X3⟩ =>
      let X3 := arx X3 X0 X1 7
      let X2 := arx X2 X3 X0 9
      let X1 := arx X1 X2 X3 13
      let X0 := arx X0 X1 X2 18
      ⟨X0, mmShuffleEpi32 X1 0x39, mmShuffleEpi32 X2 0x4E, mmShuffleEpi32 X3 0x93⟩

/-- `SALSA20_wrapper` around some pairs of rounds. -/
def salsa20Wrapper (X : Block) (doublerounds : Nat) : Block :=
  let Z := X
  let X := (fun X => rowsSimd (columnsSimd X))^[doublerounds] X
  ⟨mmAddEpi32 X.q0 Z.q0, mmAddEpi32 X.q1 Z.q1, mmAddEpi32 X.q2 Z.q2, mmAddEpi32 X.q3 Z.q3⟩

/-- `XOR_X`. -/
def xorX (X B : Block) : Block :=
  ⟨mmXorSi128 X.q0 B.q0, mmXorSi128 X.q1 B.q1, mmXorSi128 X.q2 B.q2, mmXorSi128 X.q3 B.q3⟩

/-! ## They agree -/

/-- The bits of the two shifts do not meet. -/
theorem xor_shifts (a x : UInt32) {s : UInt32} (h0 : 0 < s.toNat) (h : s.toNat < 32) :
    (a ^^^ (x <<< s)) ^^^ (x >>> (32 - s)) = a ^^^ rotl x s := by
  have hleft : (s.toBitVec % 32).toNat = s.toNat := by
    rw [BitVec.toNat_umod]
    exact Nat.mod_eq_of_lt h
  have hsub : (32 - s).toNat = 32 - s.toNat := UInt32.toNat_sub_of_le _ _ (UInt32.le_iff_toNat_le.mpr (Nat.le_of_lt h))
  have hright : ((32 - s).toBitVec % 32).toNat = 32 - s.toNat := by
    rw [BitVec.toNat_umod, ← hsub]
    exact Nat.mod_eq_of_lt (by rw [UInt32.toNat_toBitVec, hsub]; exact Nat.sub_lt (by decide) h0)
  have hor : (x <<< s) ^^^ (x >>> (32 - s)) = rotl x s := by
    apply UInt32.toBitVec_inj.mp
    ext i hi
    simp only [rotl, UInt32.toBitVec_xor, UInt32.toBitVec_or, UInt32.toBitVec_shiftLeft,
      UInt32.toBitVec_shiftRight, BitVec.getElem_xor, BitVec.getElem_or, BitVec.shiftLeft_eq',
      BitVec.ushiftRight_eq', hleft, hright, BitVec.getElem_shiftLeft, BitVec.getElem_ushiftRight]
    by_cases hlt : i < s.toNat
    · simp [hlt]
    · have hout : x.toBitVec.getLsbD (32 - s.toNat + i) = false := BitVec.getLsbD_of_ge _ _ (by omega)
      simp [hout]
  rw [UInt32.xor_assoc, hor]

theorem arx_eq (out in1 in2 : M128i) {s : UInt32} (h0 : 0 < s.toNat) (h : s.toNat < 32) :
    arx out in1 in2 s = ⟨out.w0 ^^^ rotl (in1.w0 + in2.w0) s, out.w1 ^^^ rotl (in1.w1 + in2.w1) s,
      out.w2 ^^^ rotl (in1.w2 + in2.w2) s, out.w3 ^^^ rotl (in1.w3 + in2.w3) s⟩ := by
  simp only [arx, mmXorSi128, mmSlliEpi32, mmSrliEpi32, mmAddEpi32, xor_shifts _ _ h0 h]

/-- The registers after the columns are the rows. -/
def rowsOf (x : Block) : Block :=
  ⟨⟨x.word 0, x.word 5, x.word 10, x.word 15⟩, ⟨x.word 3, x.word 4, x.word 9, x.word 14⟩,
    ⟨x.word 2, x.word 7, x.word 8, x.word 13⟩, ⟨x.word 1, x.word 6, x.word 11, x.word 12⟩⟩

theorem columnsSimd_eq (x : Block) : columnsSimd (shuffle x) = rowsOf (columns x) := by
  obtain ⟨⟨x0, x1, x2, x3⟩, ⟨x4, x5, x6, x7⟩, ⟨x8, x9, x10, x11⟩, ⟨x12, x13, x14, x15⟩⟩ := x
  simp only [columnsSimd, arx_eq _ _ _ (show 0 < (7 : UInt32).toNat by decide) (by decide),
    arx_eq _ _ _ (show 0 < (9 : UInt32).toNat by decide) (by decide),
    arx_eq _ _ _ (show 0 < (13 : UInt32).toNat by decide) (by decide),
    arx_eq _ _ _ (show 0 < (18 : UInt32).toNat by decide) (by decide), shuffle]
  rfl

theorem rowsSimd_eq (x : Block) : rowsSimd (rowsOf x) = shuffle (rows x) := by
  obtain ⟨⟨x0, x1, x2, x3⟩, ⟨x4, x5, x6, x7⟩, ⟨x8, x9, x10, x11⟩, ⟨x12, x13, x14, x15⟩⟩ := x
  simp only [rowsSimd, arx_eq _ _ _ (show 0 < (7 : UInt32).toNat by decide) (by decide),
    arx_eq _ _ _ (show 0 < (9 : UInt32).toNat by decide) (by decide),
    arx_eq _ _ _ (show 0 < (13 : UInt32).toNat by decide) (by decide),
    arx_eq _ _ _ (show 0 < (18 : UInt32).toNat by decide) (by decide), rowsOf]
  rfl

theorem shuffle_unshuffle (B : Block) : shuffle (unshuffle B) = B := rfl

theorem unshuffle_shuffle (x : Block) : unshuffle (shuffle x) = x := rfl

theorem mmAddEpi32_comm (a b : M128i) : mmAddEpi32 a b = mmAddEpi32 b a := by
  simp only [mmAddEpi32, UInt32.add_comm]

/-- **The registers compute the Salsa20 core.** -/
theorem salsa20Wrapper_eq (B : Block) (doublerounds : Nat) :
    salsa20Wrapper B doublerounds = salsa20 B (2 * doublerounds) := by
  have hrounds : (2 * doublerounds + 1) / 2 = doublerounds := by omega
  have hround : ∀ (n : Nat) (x : Block), (fun X => rowsSimd (columnsSimd X))^[n] (shuffle x) =
      shuffle ((fun x => rows (columns x))^[n] x) := by
    intro n
    induction n with
    | zero => exact fun _ => rfl
    | succ n ih =>
        intro x
        rw [Function.iterate_succ_apply, Function.iterate_succ_apply, columnsSimd_eq, rowsSimd_eq, ih]
  rw [salsa20Wrapper, salsa20, hrounds, ← shuffle_unshuffle B, hround, shuffle_unshuffle]
  simp only [mmAddEpi32_comm _ B.q0, mmAddEpi32_comm _ B.q1, mmAddEpi32_comm _ B.q2, mmAddEpi32_comm _ B.q3]
  rfl

theorem xorX_eq (X B : Block) : xorX X B = blkxor X B := rfl

end Yespower

end XLArig
