import Mathlib.Data.Fin.VecNotation
import Mathlib.Data.Fintype.Basic
import Mathlib.Tactic.FinCases
import Mathlib.Logic.Function.Iterate
import Mathlib.Data.Nat.Bitwise

/-!
# XLArig.Keccak.Permutation

The permutation of Keccak twice: `keccakf` of `base/crypto/keccak`, which is unrolled and changes
the lanes in place, and the reference of `crypto/randomx/panthera`, which goes over rows and
columns.  Both are the same for 24 rounds; the reference makes the last rounds where there are
fewer of them.
-/

namespace XLArig

namespace Keccak

theorem neZero_rows : NeZero 5 := ⟨by decide⟩

theorem neZero_rounds : NeZero 24 := ⟨by decide⟩

theorem neZero_lanes : NeZero 25 := ⟨by decide⟩

attribute [local instance] neZero_rows neZero_rounds neZero_lanes

abbrev Lanes := Fin 25 → UInt64

/-- `keccakf_rndc`, and `KeccakRoundConstants`. -/
def roundConstants : Fin 24 → UInt64 :=
  ![0x0000000000000001, 0x0000000000008082, 0x800000000000808a, 0x8000000080008000,
    0x000000000000808b, 0x0000000080000001, 0x8000000080008081, 0x8000000000008009,
    0x000000000000008a, 0x0000000000000088, 0x0000000080008009, 0x000000008000000a,
    0x000000008000808b, 0x800000000000008b, 0x8000000000008089, 0x8000000000008003,
    0x8000000000008002, 0x8000000000000080, 0x000000000000800a, 0x800000008000000a,
    0x8000000080008081, 0x8000000000008080, 0x0000000080000001, 0x8000000080008008]

/-! ## The unrolled round -/

def ROTL64 (x y : UInt64) : UInt64 := x <<< y ||| x >>> (64 - y)

/-- `Theta` of `keccakf`. -/
def Theta (st : Lanes) : Lanes :=
  let bc : Fin 5 → UInt64 :=
    ![st 0 ^^^ st 5 ^^^ st 10 ^^^ st 15 ^^^ st 20, st 1 ^^^ st 6 ^^^ st 11 ^^^ st 16 ^^^ st 21,
      st 2 ^^^ st 7 ^^^ st 12 ^^^ st 17 ^^^ st 22, st 3 ^^^ st 8 ^^^ st 13 ^^^ st 18 ^^^ st 23,
      st 4 ^^^ st 9 ^^^ st 14 ^^^ st 19 ^^^ st 24]
  fun k =>
    let i : Fin 5 := .ofNat 5 k
    st k ^^^ (bc (i + 4) ^^^ ROTL64 (bc (i + 1)) 1)

/-- The assignments of `Rho Pi`: where to, where from, and by how much. -/
def rhoPi : List (Fin 25 × Fin 25 × UInt64) :=
  [(1, 6, 44), (6, 9, 20), (9, 22, 61), (22, 14, 39), (14, 20, 18), (20, 2, 62), (2, 12, 43),
    (12, 13, 25), (13, 19, 8), (19, 23, 56), (23, 15, 41), (15, 4, 27), (4, 24, 14), (24, 21, 2),
    (21, 8, 55), (8, 16, 45), (16, 5, 36), (5, 3, 28), (3, 18, 21), (18, 17, 15), (17, 11, 10),
    (11, 7, 6), (7, 10, 3)]

def RhoPi (st : Lanes) : Lanes :=
  let t := st 1
  let st := rhoPi.foldl (fun st a => Function.update st a.1 (ROTL64 (st a.2.1) a.2.2)) st
  Function.update st 10 (ROTL64 t 1)

/-- One of the first rows of `Chi`. -/
def ChiRow (j : Fin 25) (st : Lanes) : Lanes :=
  let bc0 := st j
  let bc1 := st (j + 1)
  let st := Function.update st j (st j ^^^ (~~~st (j + 1) &&& st (j + 2)))
  let st := Function.update st (j + 1) (st (j + 1) ^^^ (~~~st (j + 2) &&& st (j + 3)))
  let st := Function.update st (j + 2) (st (j + 2) ^^^ (~~~st (j + 3) &&& st (j + 4)))
  let st := Function.update st (j + 3) (st (j + 3) ^^^ (~~~st (j + 4) &&& bc0))
  Function.update st (j + 4) (st (j + 4) ^^^ (~~~bc0 &&& bc1))

/-- The last row of `Chi`. -/
def ChiLast (j : Fin 25) (st : Lanes) : Lanes :=
  let bc0 := st j
  let bc1 := st (j + 1)
  let bc2 := st (j + 2)
  let bc3 := st (j + 3)
  let bc4 := st (j + 4)
  let st := Function.update st j (st j ^^^ (~~~bc1 &&& bc2))
  let st := Function.update st (j + 1) (st (j + 1) ^^^ (~~~bc2 &&& bc3))
  let st := Function.update st (j + 2) (st (j + 2) ^^^ (~~~bc3 &&& bc4))
  let st := Function.update st (j + 3) (st (j + 3) ^^^ (~~~bc4 &&& bc0))
  Function.update st (j + 4) (st (j + 4) ^^^ (~~~bc0 &&& bc1))

def Chi (st : Lanes) : Lanes :=
  ChiLast 20 (ChiRow 15 (ChiRow 10 (ChiRow 5 (ChiRow 0 st))))

/-- `Iota`. -/
def Iota (round : Fin 24) (st : Lanes) : Lanes :=
  Function.update st 0 (st 0 ^^^ roundConstants round)

/-- `keccakf`. -/
def keccakf (st : Lanes) : (rounds : Nat) → Lanes
  | 0 => st
  | rounds + 1 => Iota (.ofNat 24 rounds) (Chi (RhoPi (Theta (keccakf st rounds))))

/-! ## The reference -/

def index (x y : Nat) : Fin 25 := .ofNat 25 (x % 5 + 5 * (y % 5))

def ROL64 (a offset : UInt64) : UInt64 := if offset ≠ 0 then a <<< offset ^^^ a >>> (64 - offset) else a

/-- `KeccakRhoOffsets`. -/
def rhoOffsets : Fin 25 → UInt64 :=
  ![0, 1, 62, 28, 27, 36, 44, 6, 55, 20, 3, 10, 43, 25, 39, 41, 45, 15, 21, 8, 18, 2, 61, 56, 14]

/-- Both loops over the rows and columns. -/
def forLanes (f : Nat → Nat → Lanes → Lanes) (A : Lanes) : Lanes :=
  (List.range 5).foldl (fun A x => (List.range 5).foldl (fun A y => f x y A) A) A

def theta (A : Lanes) : Lanes :=
  let C : Fin 5 → UInt64 := fun x => (List.range 5).foldl (fun c y => c ^^^ A (index x y)) 0
  let D : Fin 5 → UInt64 := fun x => ROL64 (C (x + 1)) 1 ^^^ C (x + 4)
  forLanes (fun x y A => Function.update A (index x y) (A (index x y) ^^^ D (.ofNat 5 x))) A

def rho (A : Lanes) : Lanes :=
  forLanes (fun x y A => Function.update A (index x y) (ROL64 (A (index x y)) (rhoOffsets (index x y)))) A

def pi (A : Lanes) : Lanes :=
  let tempA := A
  forLanes
    (fun x y A => Function.update A (index (0 * x + 1 * y) (2 * x + 3 * y)) (tempA (index x y))) A

def chi (A : Lanes) : Lanes :=
  (List.range 5).foldl
    (fun A y =>
      let C : Nat → UInt64 := fun x =>
        A (index x y) ^^^ (~~~A (index (x + 1) y) &&& A (index (x + 2) y))
      (List.range 5).foldl (fun A x => Function.update A (index x y) (C x)) A)
    A

def iota (indexRound : Fin 24) (A : Lanes) : Lanes :=
  Function.update A (index 0 0) (A (index 0 0) ^^^ roundConstants indexRound)

/-- `KeccakP1600Round`. -/
def KeccakP1600Round (indexRound : Fin 24) (A : Lanes) : Lanes :=
  iota indexRound (chi (pi (rho (theta A))))

/-- `KeccakP1600OnWords`. -/
def KeccakP1600OnWords (state : Lanes) (nrRounds : Nat) : Lanes :=
  (List.range' (24 - nrRounds) nrRounds).foldl
    (fun state i => KeccakP1600Round (.ofNat 24 i) state) state

/-! ## Both are the same -/

section Rounds

variable (st : Lanes)

/-- A rotation has no bit twice. -/
theorem or_eq_xor {a b n : Nat} (ha : 2 ^ n ∣ a) (hb : b < 2 ^ n) : a ||| b = a ^^^ b := by
  refine Nat.eq_of_testBit_eq fun i => ?_
  rw [Nat.testBit_or, Nat.testBit_xor]
  obtain ⟨c, rfl⟩ := ha
  by_cases hi : i < n
  · simp [Nat.testBit_two_pow_mul, Nat.not_le.mpr hi]
  · have hfalse : b.testBit i = false :=
      Nat.testBit_lt_two_pow (hb.trans_le (Nat.pow_le_pow_right (by decide) (Nat.le_of_not_lt hi)))
    simp [hfalse]

theorem ROTL64_eq {x y : UInt64} (h0 : y ≠ 0) (h : y.toNat < 64) : ROTL64 x y = ROL64 x y := by
  have hsub : (64 - y).toNat = 64 - y.toNat := by
    rw [UInt64.toNat_sub_of_le _ _ (UInt64.le_iff_toNat_le.mpr (by simp; omega))]
    rfl
  have hpos : y.toNat ≠ 0 := fun hy => h0 (UInt64.toNat_inj.mp hy)
  rw [ROTL64, ROL64, if_pos h0]
  apply UInt64.toNat_inj.mp
  rw [UInt64.toNat_or, UInt64.toNat_xor]
  apply or_eq_xor (n := y.toNat)
  · rw [UInt64.toNat_shiftLeft, Nat.mod_eq_of_lt h, Nat.shiftLeft_eq]
    have hpow : 2 ^ y.toNat ∣ 2 ^ 64 := Nat.pow_dvd_pow 2 h.le
    exact (Nat.dvd_mod_iff hpow).mpr (Nat.dvd_mul_left _ _)
  · rw [UInt64.toNat_shiftRight, hsub, Nat.mod_eq_of_lt (by omega), Nat.shiftRight_eq_div_pow]
    apply Nat.div_lt_of_lt_mul
    rw [← Nat.pow_add, Nat.sub_add_cancel (by omega)]
    exact x.toNat_lt

/-- A loop over the lanes that changes each of them on its own. -/
theorem forLanes_update (f : Nat → Nat → UInt64 → UInt64) :
    forLanes (fun x y A => Function.update A (index x y) (f x y (A (index x y)))) st =
      fun k : Fin 25 => f (k % 5) (k / 5) (st k) := by
  funext k
  fin_cases k <;> rfl

/-- The parity of a column. -/
def column (x : Fin 5) : UInt64 := (List.range 5).foldl (fun c y => c ^^^ st (index x y)) 0

theorem theta_eq : theta st = fun k =>
    st k ^^^ (ROL64 (column st (.ofNat 5 k + 1)) 1 ^^^ column st (.ofNat 5 k + 4)) := by
  funext k
  fin_cases k <;> rfl

theorem Theta_eq : Theta st = theta st := by
  have hbc : ![st 0 ^^^ st 5 ^^^ st 10 ^^^ st 15 ^^^ st 20,
      st 1 ^^^ st 6 ^^^ st 11 ^^^ st 16 ^^^ st 21, st 2 ^^^ st 7 ^^^ st 12 ^^^ st 17 ^^^ st 22,
      st 3 ^^^ st 8 ^^^ st 13 ^^^ st 18 ^^^ st 23, st 4 ^^^ st 9 ^^^ st 14 ^^^ st 19 ^^^ st 24] =
      column st := by
    funext x
    have hzero : column st x = 0 ^^^ st (index x 0) ^^^ st (index x 1) ^^^ st (index x 2) ^^^
        st (index x 3) ^^^ st (index x 4) := rfl
    rw [hzero, UInt64.zero_xor]
    fin_cases x <;> rfl
  rw [theta_eq, Theta, hbc]
  funext k
  simp only
  rw [ROTL64_eq (by decide) (by decide), UInt64.xor_comm (column st _)]

/-- Where `pi` takes each lane from. -/
def piSource : Fin 25 → Fin 25 :=
  ![0, 6, 12, 18, 24, 3, 9, 10, 16, 22, 1, 7, 13, 19, 20, 4, 5, 11, 17, 23, 2, 8, 14, 15, 21]

theorem pi_eq : pi st = fun k => st (piSource k) := by
  funext k
  fin_cases k <;> rfl

theorem rho_eq : rho st = fun k => ROL64 (st k) (rhoOffsets k) := by
  funext k
  fin_cases k <;> rfl

theorem RhoPi_eq : RhoPi st =
    fun k => if k = 0 then st 0 else ROTL64 (st (piSource k)) (rhoOffsets (piSource k)) := by
  funext k
  fin_cases k <;> rfl

theorem Chi_eq : Chi st = chi st := by
  funext k
  fin_cases k <;> rfl

theorem RhoPi_eq_pi_rho : RhoPi st = pi (rho st) := by
  rw [RhoPi_eq, pi_eq, rho_eq]
  funext k
  have hoffset : ∀ k : Fin 25, k ≠ 0 → rhoOffsets (piSource k) ≠ 0 ∧
      (rhoOffsets (piSource k)).toNat < 64 := by decide
  split_ifs with hk
  · subst hk
    rfl
  · obtain ⟨h0, h⟩ := hoffset k hk
    exact ROTL64_eq h0 h

/-- **The unrolled permutation is the reference.** -/
theorem keccakf_eq : keccakf st 24 = KeccakP1600OnWords st 24 := by
  have hround : ∀ round st, Iota round (Chi (RhoPi (Theta st))) = KeccakP1600Round round st := by
    intro round st
    rw [Theta_eq, RhoPi_eq_pi_rho, Chi_eq]
    rfl
  have hrounds : ∀ n, keccakf st n =
      (List.range' 0 n).foldl (fun st i => KeccakP1600Round (.ofNat 24 i) st) st := by
    intro n
    induction n with
    | zero => rfl
    | succ n ih => rw [keccakf, hround, ih, List.range'_1_concat, List.foldl_append, Nat.zero_add]; rfl
  exact hrounds 24

end Rounds
end Keccak

end XLArig
