import Mathlib.Data.List.Sort
import XLArig.StableSort

/-!
# XLArig.AstroBwt

`crypto/astrobwt/AstroBWT`: the suffixes of a key stream are sorted, and what stands before each of
them is hashed.

`sort_indices` does not compare suffixes but windows of 13 bytes: the first 43 bits are a part of
the entry that is sorted, the rest is read from the text.  Two counting sorts by ten bits each are
followed by an insertion sort.  What is read or written outside of the text and the two arrays is a
fault.

SHA3 and Salsa20 are left open (`Functions`).
-/

namespace XLArig

namespace AstroBwt

open StableSort

inductive Fault
  | read
  | write
  deriving DecidableEq

def stage1Size : Nat := 147253

def allocationSize : Nat := stage1Size + 1048576 + (128 - stage1Size % 64)

/-! ## The sort -/

/-- Bytes as a number, the first byte being the highest. -/
def number (bytes : List UInt8) : Nat := bytes.foldl (fun n b => 256 * n + b.toNat) 0

/-- `bswap_64` of the eight bytes at `v + i`. -/
def loadSwapped (v : List UInt8) (i : Nat) : Except Fault UInt64 :=
  if i + 8 ≤ v.length then .ok (.ofNat (number ((v.drop i).take 8))) else .error .read

theorem neZero_countingSortSize : NeZero 1024 := ⟨by decide⟩

attribute [local instance] neZero_countingSortSize

/-- The lower digit of a key: ten bits. -/
def digit0 (k : UInt64) : Fin 1024 := .ofNat _ ((k >>> 44) &&& 1023).toNat

/-- The upper digit of a key, and of an entry. -/
def digit1 (k : UInt64) : Fin 1024 := .ofNat _ (k >>> 54).toNat

/-- The upper 43 bits of a key, and the position. -/
def entry (k : UInt64) (i : Nat) : UInt64 := (k &&& (0 - 1 : UInt64) <<< 21) ||| UInt64.ofNat i

/-- The position of an entry. -/
def position (t : UInt64) : Nat := (t &&& ((1 : UInt64) <<< 21 - 1)).toNat

/-- The loop that counts both digits of the first `n` keys. -/
def counters (v : List UInt8) : Nat → Except Fault ((Fin 1024 → UInt32) × (Fin 1024 → UInt32))
  | 0 => .ok (fun _ => 0, fun _ => 0)
  | i + 1 => do
      let (c0, c1) ← counters v i
      let k ← loadSwapped v i
      .ok (Function.update c0 (digit0 k) (c0 (digit0 k) + 1),
        Function.update c1 (digit1 k) (c1 (digit1 k) + 1))

def smaller (v : List UInt8) (a b : UInt64) : Except Fault Bool := do
  let valueA := a >>> 21
  let valueB := b >>> 21
  if valueA < valueB then .ok true
  else if valueB < valueA then .ok false
  else
    let dataA ← loadSwapped v ((a % (1 : UInt64) <<< 21).toNat + 5)
    let dataB ← loadSwapped v ((b % (1 : UInt64) <<< 21).toNat + 5)
    .ok (dataA < dataB)

/-- The counting sorts and the insertion sort of `N` positions of the text `v`. -/
def sortIndices (N : Nat) (v : List UInt8) (indices tmpIndices : List UInt64) :
    Except Fault (List UInt64 × List UInt64) := do
  let (c0, c1) ← counters v N
  let tmpIndices ← scatter .write
    (fun i => do
      let k ← loadSwapped v i
      .ok (digit0 k, entry k i))
    N (ends c0 1023).2 tmpIndices
  let indices ← scatter .write
    (fun i => do
      let data ← fetch .read tmpIndices i
      .ok (digit1 data, data))
    N (ends c1 1023).2 indices
  let prevT ← fetch .read indices 0
  let indices ← insertFrom .write (smaller v) (N - 1) 0 prevT indices
  .ok (indices, tmpIndices)

/-! ## The hash -/

/-- `sha3_HashBuffer` with 256 bits, and the bytes of `XORKeyStream`. -/
class Functions where
  sha3 : List UInt8 → List UInt8
  salsa20 : (key : List UInt8) → (size : Nat) → List UInt8
  length_salsa20 : ∀ key size, (salsa20 key size).length = size

/-- The part of the scratchpad that the positions are sorted in. -/
structure Scratchpad where
  indices : List UInt64
  tmpIndices : List UInt64
  length_indices : indices.length = allocationSize
  length_tmpIndices : tmpIndices.length = allocationSize

/-- `tmp[indices[i] & ((1 << 21) - 1)]`, where `tmp` is right before the output. -/
def before (memory : List UInt8) (indices : List UInt64) (i : Nat) : Except Fault UInt8 := do
  let t ← fetch .read indices i
  fetch .read memory (15 + position t)

/-- The loop over the next `n` positions from `i` on. -/
def gather (memory : List UInt8) (indices : List UInt64) : (n i : Nat) → Except Fault (List UInt8)
  | 0, _ => .ok []
  | n + 1, i => do
      let b ← before memory indices i
      let rest ← gather memory indices n (i + 1)
      .ok (b :: rest)

/-- The loop that takes four positions at once, and the one over what is left. -/
def gather4 (memory : List UInt8) (indices : List UInt64) (rest : Nat) :
    (blocks i : Nat) → Except Fault (List UInt8)
  | 0, i => gather memory indices rest i
  | blocks + 1, i => do
      let b0 ← before memory indices (i + 0)
      let b1 ← before memory indices (i + 1)
      let b2 ← before memory indices (i + 2)
      let b3 ← before memory indices (i + 3)
      let bytes ← gather4 memory indices rest blocks (i + 4)
      .ok (b0 :: b1 :: b2 :: b3 :: bytes)

/-- `*(uint32_t*)(key) & 0xfffff`. -/
def stage2Extra (key : List UInt8) : Nat :=
  (((key.getD 0 0).toUInt32 ||| (key.getD 1 0).toUInt32 <<< 8 ||| (key.getD 2 0).toUInt32 <<< 16 |||
    (key.getD 3 0).toUInt32 <<< 24) &&& 0xfffff).toNat

/-- The words of an array after bytes were written at its start. -/
def overwrite (words : List UInt64) (bytes : List UInt8) : List UInt64 :=
  words.mapIdx fun j w =>
    (List.range 8).foldl
      (fun acc b =>
        acc ||| (bytes.getD (8 * j + b) (w >>> .ofNat (8 * b)).toUInt8).toUInt64 <<< .ofNat (8 * b))
      0

section Hash

variable [Functions]

/-- `Salsa20_XORKeyStream`: the output has sixteen zeros before it and sixteen after it. -/
def keyStream (key : List UInt8) (size : Nat) : List UInt8 :=
  List.replicate 16 0 ++ Functions.salsa20 key size ++ List.replicate 16 0

/-- `astrobwt_dero`, where `stage1_result` is written over `tmp_indices`; there is no output when the second stage is too large. -/
def astrobwtDero (input : List UInt8) (scratchpad : Scratchpad) (stage2MaxSize : Int) :
    Except Fault (Option (List UInt8)) := do
  let key := Functions.sha3 input
  let memory := keyStream key stage1Size
  let (indices, tmpIndices) ← sortIndices (stage1Size + 1) (memory.drop 16)
    (scratchpad.indices.take (stage1Size + 1)) (scratchpad.tmpIndices.take (stage1Size + 1))
  let stage1Result ← gather memory indices (stage1Size + 1) 0
  let key := Functions.sha3 stage1Result
  let stage2Size := stage1Size + stage2Extra key
  if stage2MaxSize < (stage2Size : Int) then .ok none
  else
    let memory := keyStream key stage2Size
    let indices := indices ++ scratchpad.indices.drop (stage1Size + 1)
    let tmpIndices := overwrite (tmpIndices ++ scratchpad.tmpIndices.drop (stage1Size + 1))
      stage1Result
    let (indices, _) ← sortIndices (stage2Size + 1) (memory.drop 16)
      (indices.take (stage2Size + 1)) (tmpIndices.take (stage2Size + 1))
    let stage2Result ← gather4 memory indices ((stage2Size + 1) % 4) ((stage2Size + 1) / 4) 0
    .ok (some (Functions.sha3 stage2Result))

end Hash

/-! ## Numbers and windows -/

theorem number_concat (xs : List UInt8) (x : UInt8) :
    number (xs ++ [x]) = 256 * number xs + x.toNat := by
  simp [number, List.foldl_append]

theorem number_append (xs ys : List UInt8) :
    number (xs ++ ys) = number xs * 256 ^ ys.length + number ys := by
  induction ys using List.reverseRecOn with
  | nil => simp [number]
  | append_singleton ys y ih =>
      rw [← List.append_assoc, number_concat, number_concat, ih, List.length_append,
        List.length_singleton, pow_succ]
      ring

theorem number_lt (xs : List UInt8) : number xs < 256 ^ xs.length := by
  induction xs using List.reverseRecOn with
  | nil => simp [number]
  | append_singleton xs x ih =>
      have hx : x.toNat < 256 := x.toNat_lt
      rw [number_concat, List.length_append, List.length_singleton, pow_succ]
      omega

theorem number_cons (x : UInt8) (xs : List UInt8) :
    number (x :: xs) = x.toNat * 256 ^ xs.length + number xs := by
  have h := number_append [x] xs
  simpa [number] using h

/-- Among as many bytes, the order of the numbers is the one of the texts. -/
theorem number_lt_iff {xs ys : List UInt8} (h : xs.length = ys.length) :
    number xs < number ys ↔ xs < ys := by
  induction xs generalizing ys with
  | nil =>
      obtain rfl : ys = [] := List.length_eq_zero_iff.mp h.symm
      simp
  | cons x xs ih =>
      obtain _ | ⟨y, ys⟩ := ys
      · simp at h
      have hlen : xs.length = ys.length := by simpa using h
      have hxs : number xs < 256 ^ ys.length := hlen ▸ number_lt xs
      have hys : number ys < 256 ^ ys.length := number_lt ys
      rw [number_cons, number_cons, hlen, List.cons_lt_cons_iff, ← ih hlen, UInt8.lt_iff_toNat_lt]
      obtain hlt | heq | hgt := lt_trichotomy x.toNat y.toNat
      · have hle : (x.toNat + 1) * 256 ^ ys.length ≤ y.toNat * 256 ^ ys.length :=
          Nat.mul_le_mul_right _ hlt
        rw [add_mul, one_mul] at hle
        exact ⟨fun _ => .inl hlt, fun _ => by omega⟩
      · have hxy : x = y := UInt8.toNat_inj.mp heq
        subst hxy
        simp
      · have hle : (y.toNat + 1) * 256 ^ ys.length ≤ x.toNat * 256 ^ ys.length :=
          Nat.mul_le_mul_right _ hgt
        rw [add_mul, one_mul] at hle
        refine ⟨fun h => by omega, fun h => ?_⟩
        obtain h | ⟨rfl, -⟩ := h
        · omega
        · omega

theorem number_inj {xs ys : List UInt8} (hlen : xs.length = ys.length)
    (h : number xs = number ys) : xs = ys := by
  have hlt : ¬ xs < ys := fun hlt => by
    have := (number_lt_iff hlen).mpr hlt
    omega
  have hgt : ¬ ys < xs := fun hgt => by
    have := (number_lt_iff hlen.symm).mpr hgt
    omega
  exact List.le_antisymm hgt hlt

theorem append_lt_append {xs ys : List UInt8} (hlen : xs.length = ys.length) (h : xs < ys)
    {xs' ys' : List UInt8} : xs ++ xs' < ys ++ ys' := by
  induction xs generalizing ys with
  | nil =>
      obtain rfl : ys = [] := List.length_eq_zero_iff.mp hlen.symm
      exact absurd h (List.lt_irrefl _)
  | cons x xs ih =>
      obtain _ | ⟨y, ys⟩ := ys
      · simp at hlen
      rw [List.cons_append, List.cons_append, List.cons_lt_cons_iff]
      obtain h | ⟨hxy, h⟩ := List.cons_lt_cons_iff.mp h
      · exact .inl h
      · exact .inr ⟨hxy, ih (by simpa using hlen) h⟩

/-! ## Keys and entries -/

section Entries

variable {v : List UInt8} {i j N : Nat}

/-- The key of a position. -/
def key (v : List UInt8) (i : Nat) : UInt64 := .ofNat (number ((v.drop i).take 8))

theorem loadSwapped_eq (h : i + 8 ≤ v.length) : loadSwapped v i = .ok (key v i) := if_pos h

theorem toNat_key : (key v i).toNat = number ((v.drop i).take 8) := by
  have hlt := number_lt ((v.drop i).take 8)
  have hlen : ((v.drop i).take 8).length ≤ 8 := List.length_take_le ..
  have hpow : 256 ^ ((v.drop i).take 8).length ≤ 256 ^ 8 := Nat.pow_le_pow_right (by norm_num) hlen
  rw [key, UInt64.toNat_ofNat', Nat.mod_eq_of_lt]
  omega

theorem and_high {k : Nat} (hk : k < 2 ^ 64) :
    k &&& (2 ^ 43 - 1) <<< 21 = k / 2 ^ 21 * 2 ^ 21 := by
  rw [← Nat.shiftRight_eq_div_pow, ← Nat.shiftLeft_eq]
  refine Nat.eq_of_testBit_eq fun b => ?_
  rw [Nat.testBit_and, Nat.testBit_shiftLeft, Nat.testBit_shiftLeft, Nat.testBit_two_pow_sub_one,
    Nat.testBit_shiftRight]
  by_cases hb : b < 64
  · by_cases h21 : 21 ≤ b
    · have hsub : 21 + (b - 21) = b := by omega
      have hlt : b - 21 < 43 := by omega
      simp [h21, hsub, hlt]
    · simp [h21]
  · have hfalse : k.testBit b = false :=
      Nat.testBit_lt_two_pow (hk.trans_le (Nat.pow_le_pow_right (by norm_num) (by omega)))
    have hsub : 21 + (b - 21) = b := by omega
    simp [hfalse, hsub]

theorem toNat_entry {k : UInt64} (h : i < 2 ^ 21) :
    (entry k i).toNat = k.toNat / 2 ^ 21 * 2 ^ 21 + i := by
  have hhigh : ((0 - 1 : UInt64) <<< 21).toNat = (2 ^ 43 - 1) <<< 21 := by decide
  have hi : i % 2 ^ 64 = i := Nat.mod_eq_of_lt (by omega)
  rw [entry, UInt64.toNat_or, UInt64.toNat_and, hhigh, and_high k.toNat_lt, UInt64.toNat_ofNat', hi,
    ← Nat.shiftLeft_eq, Nat.shiftLeft_add_eq_or_of_lt h]

theorem toNat_position (t : UInt64) : position t = t.toNat % 2 ^ 21 := by
  have hmask : ((1 : UInt64) <<< 21 - 1).toNat = 2 ^ 21 - 1 := by decide
  rw [position, UInt64.toNat_and, hmask, Nat.and_two_pow_sub_one_eq_mod]

theorem val_digit0 (k : UInt64) : (digit0 k).val = k.toNat / 2 ^ 44 % 1024 := by
  have hmask : (1023 : UInt64).toNat = 2 ^ 10 - 1 := by decide
  rw [digit0, Fin.val_ofNat, UInt64.toNat_and, hmask, Nat.and_two_pow_sub_one_eq_mod,
    UInt64.toNat_shiftRight, Nat.shiftRight_eq_div_pow]
  exact Nat.mod_mod ..

theorem val_digit1 (k : UInt64) : (digit1 k).val = k.toNat / 2 ^ 54 := by
  have hk : k.toNat < 2 ^ 64 := k.toNat_lt
  rw [digit1, Fin.val_ofNat, UInt64.toNat_shiftRight, Nat.shiftRight_eq_div_pow]
  exact Nat.mod_eq_of_lt (by simp; omega)

theorem position_entry {k : UInt64} (h : i < 2 ^ 21) : position (entry k i) = i := by
  rw [toNat_position, toNat_entry h]
  omega

theorem digit0_entry {k : UInt64} (h : i < 2 ^ 21) : digit0 (entry k i) = digit0 k := by
  apply Fin.ext
  rw [val_digit0, val_digit0, toNat_entry h]
  omega

theorem digit1_entry {k : UInt64} (h : i < 2 ^ 21) : digit1 (entry k i) = digit1 k := by
  apply Fin.ext
  rw [val_digit1, val_digit1, toNat_entry h]
  omega

end Entries

/-! ## The order -/

/-- The bytes that decide where a suffix comes. -/
def window (v : List UInt8) (i : Nat) : List UInt8 := (v.drop i).take 13

/-- The windows decide, and the positions where windows are equal. -/
def Before (v : List UInt8) (i j : Nat) : Prop :=
  window v i < window v j ∨ window v i = window v j ∧ i < j

section Order

variable {v : List UInt8} {i j N : Nat}

theorem length_window (h : i + 13 ≤ v.length) : (window v i).length = 13 := by
  simp only [window, List.length_take, List.length_drop]
  omega

/-- A window as two numbers, of which the second one overlaps the key. -/
theorem window_spec (h : i + 13 ≤ v.length) :
    ∃ top mid low, mid < 2 ^ 24 ∧ low < 2 ^ 40 ∧ (key v i).toNat = top * 2 ^ 24 + mid ∧
      (key v (i + 5)).toNat = mid * 2 ^ 40 + low ∧
      number (window v i) = top * 2 ^ 64 + (mid * 2 ^ 40 + low) := by
  have hcut : ∀ a b m, a + b ≤ m → ∀ w : List UInt8,
      (w.drop a).take b = ((w.take m).drop a).take b := by
    intro a b m hab w
    rw [List.drop_take, List.take_take, Nat.min_eq_left (by omega)]
  have hsplit : ∀ a b m (w : List UInt8), a + b = m → m ≤ w.length →
      number (w.take m) = number (w.take a) * 256 ^ b + number ((w.drop a).take b) := by
    rintro a b m w rfl hm
    have hlen : ((w.drop a).take b).length = b := by
      simp only [List.length_take, List.length_drop]
      omega
    rw [List.take_add, number_append, hlen]
  have hlt : ∀ n (w : List UInt8), number (w.take n) < 256 ^ n := fun n w =>
    (number_lt _).trans_le (Nat.pow_le_pow_right (by norm_num) (List.length_take_le ..))
  have hlen : (v.drop i).length = v.length - i := List.length_drop
  have hlen5 : (v.drop (i + 5)).length = v.length - (i + 5) := List.length_drop
  have hlen8 : (v.drop (i + 8)).length = v.length - (i + 8) := List.length_drop
  have hkey := hsplit 5 3 8 (v.drop i) rfl (by omega)
  have hrest := hsplit 3 5 8 (v.drop (i + 5)) rfl (by omega)
  have hall := hsplit 5 8 13 (v.drop i) rfl (by omega)
  rw [List.drop_drop] at hkey hrest hall
  refine ⟨number ((v.drop i).take 5), number ((v.drop (i + 5)).take 3),
    number ((v.drop (i + 8)).take 5), ?_, ?_, ?_, ?_, ?_⟩
  · exact (hlt 3 _).trans_eq (by norm_num)
  · exact (hlt 5 _).trans_eq (by norm_num)
  · rw [toNat_key, hkey]
    norm_num
  · rw [toNat_key, hrest]
    norm_num
  · rw [window, hall, hrest]
    norm_num

/-- The upper bits and, where they are equal, the bytes that are read again compare the windows. -/
theorem smaller_eq (hi : i + 13 ≤ v.length) (hj : j + 13 ≤ v.length) (hi' : i < 2 ^ 21)
    (hj' : j < 2 ^ 21) :
    smaller v (entry (key v i) i) (entry (key v j) j) =
      .ok (decide (number (window v i) < number (window v j))) := by
  obtain ⟨ti, mi, li, hmi, hli, hki, hri, hwi⟩ := window_spec hi
  obtain ⟨tj, mj, lj, hmj, hlj, hkj, hrj, hwj⟩ := window_spec hj
  have hshift : ∀ t : UInt64, (t >>> 21).toNat = t.toNat / 2 ^ 21 := fun t => by
    rw [UInt64.toNat_shiftRight, Nat.shiftRight_eq_div_pow]
    rfl
  have hmod : ∀ t : UInt64, (t % (1 : UInt64) <<< 21).toNat = t.toNat % 2 ^ 21 := fun t => by
    rw [UInt64.toNat_mod]
    rfl
  have hupper : ∀ {k : UInt64} {i}, i < 2 ^ 21 →
      (entry k i >>> 21).toNat = k.toNat / 2 ^ 21 := fun h => by
    rw [hshift, toNat_entry h]
    omega
  have hplace : ∀ {k : UInt64} {i}, i < 2 ^ 21 → (entry k i % (1 : UInt64) <<< 21).toNat = i :=
    fun h => by
      rw [hmod, toNat_entry h]
      omega
  simp only [smaller, UInt64.lt_iff_toNat_lt, hupper hi', hupper hj', hplace hi', hplace hj',
    loadSwapped_eq (show i + 5 + 8 ≤ v.length from hi),
    loadSwapped_eq (show j + 5 + 8 ≤ v.length from hj), bind, Except.bind, hki, hkj, hri, hrj, hwi,
    hwj]
  split_ifs with hlt hgt
  · rw [decide_eq_true (by omega)]
  · rw [decide_eq_false (by omega)]
  · refine congrArg Except.ok (decide_eq_decide.mpr ?_)
    omega

theorem counters_eq (h : ∀ i < N, i + 8 ≤ v.length) :
    counters v N = .ok (tally (fun i => digit0 (key v i)) N, tally (fun i => digit1 (key v i)) N) := by
  induction N with
  | zero => rfl
  | succ N ih =>
      rw [counters, ih fun i hi => h i (by omega)]
      simp only [bind, Except.bind, loadSwapped_eq (h N (by omega))]
      rfl

/-- What is counted does not depend on the order. -/
theorem tally_perm {K : Nat} {f g : Nat → Fin K}
    (h : ((List.range N).map f).Perm ((List.range N).map g)) : tally f N = tally g N := by
  funext d
  have hcount : ∀ f : Nat → Fin K, count f d N = ((List.range N).map f).countP (· = d) := fun f => by
    rw [List.countP_map]
    rfl
  rw [tally_eq, tally_eq, hcount, hcount, h.countP_eq]

/-- **The three sorts put the positions in the order of their windows**, and in their own order
where windows are equal; nothing outside of the text and the arrays is read or written. -/
theorem sortIndices_sorts {indices tmpIndices : List UInt64} (hN : 0 < N) (h21 : N ≤ 2 ^ 21)
    (hv : N + 12 ≤ v.length) (hindices : indices.length = N) (htmp : tmpIndices.length = N) :
    ∃ ys tmp, sortIndices N v indices tmpIndices = .ok (ys, tmp) ∧ ys.length = N ∧ tmp.length = N ∧
      (ys.map position).Perm (List.range N) ∧ (ys.map position).Pairwise (Before v) := by
  have hplace : ∀ {i}, i < N → i < 2 ^ 21 := fun h => by omega
  have hload : ∀ i < N, i + 8 ≤ v.length := fun i hi => by omega
  -- by the lower digit
  have hfirst : ∀ i < N, (do
      let k ← loadSwapped v i
      .ok (digit0 k, entry k i)) = Except.ok (digit0 (key v i), entry (key v i) i) := fun i hi => by
    simp only [loadSwapped_eq (hload i hi), bind, Except.bind]
  obtain ⟨tmp, htmpEq, htmpPerm, htmpPair⟩ := scatter_sorts (e := Fault.write) (by omega) hfirst
    (fun i hi => (digit0_entry (hplace hi)).symm) (fun a b => position a < position b)
    (fun i j hij hj => by
      rw [position_entry (hplace (hij.trans hj)), position_entry (hplace hj)]
      exact hij) htmp
  have htmpLength : tmp.length = N := by simpa using htmpPerm.length_eq
  have htmpMap : (List.range N).map (fun i => tmp.getD i 0) = tmp := by
    refine List.ext_getElem (by simp [htmpLength]) fun i hi _ => ?_
    rw [List.getElem_map, List.getElem_range, List.getD_eq_getElem]
  -- by the upper digit
  have hsecond : ∀ i < N, (do
      let data ← fetch Fault.read tmp i
      .ok (digit1 data, data)) = Except.ok (digit1 (tmp.getD i 0), tmp.getD i 0) := fun i hi => by
    rw [fetch_eq (htmpLength ▸ hi), List.getD_eq_getElem _ _ (htmpLength ▸ hi)]
    rfl
  obtain ⟨zs, hzsEq, hzsPerm, hzsPair⟩ := scatter_sorts (e := Fault.write) (by omega) hsecond
    (fun i hi => rfl) (ByKey digit0 fun a b => position a < position b)
    (fun i j hij hj => by
      rw [List.getD_eq_getElem _ _ (by omega), List.getD_eq_getElem _ _ (by omega)]
      exact List.pairwise_iff_getElem.mp htmpPair i j (by omega) (by omega) hij) hindices
  rw [htmpMap] at hzsPerm
  have hcount : tally (fun i => digit1 (tmp.getD i 0)) N = tally (fun i => digit1 (key v i)) N := by
    apply tally_perm
    have hmap := htmpPerm.map digit1
    rw [← htmpMap, List.map_map, List.map_map] at hmap
    refine hmap.trans (.of_eq (List.map_congr_left fun i hi => ?_))
    exact digit1_entry (hplace (List.mem_range.mp hi))
  -- by the windows
  have hzs : zs.Perm ((List.range N).map fun i => entry (key v i) i) := hzsPerm.trans htmpPerm
  have hentry : ∀ t ∈ zs, ∃ i < N, t = entry (key v i) i := by
    intro t ht
    obtain ⟨i, hi, rfl⟩ := List.mem_map.mp (hzs.mem_iff.mp ht)
    exact ⟨i, List.mem_range.mp hi, rfl⟩
  have hzsLength : zs.length = N := by simpa using hzs.length_eq
  obtain ⟨z, rest, rfl⟩ : ∃ z rest, zs = z :: rest :=
    List.exists_cons_of_length_pos (by omega)
  have hpair := List.pairwise_cons.mp hzsPair
  have hsmaller : ∀ a b, (∃ i < N, a = entry (key v i) i) → (∃ i < N, b = entry (key v i) i) →
      smaller v a b =
        .ok (decide (number (window v (position a)) < number (window v (position b)))) := by
    rintro a b ⟨i, hi, rfl⟩ ⟨j, hj, rfl⟩
    rw [smaller_eq (by omega) (by omega) (hplace hi) (hplace hj), position_entry (hplace hi),
      position_entry (hplace hj)]
  obtain ⟨ys, hysEq, hysPerm, hysPair⟩ := insertFrom_sorts (e := Fault.write) (A := []) hsmaller
    (by simp) hpair.2 (by simpa using hpair.1) hentry
  have hys : ys.Perm ((List.range N).map fun i => entry (key v i) i) := hysPerm.trans hzs
  refine ⟨ys, tmp, ?_, by simpa using hys.length_eq, htmpLength, ?_, ?_⟩
  · have hlen : N - 1 = rest.length := by
      rw [List.length_cons] at hzsLength
      omega
    simp only [sortIndices, counters_eq hload, bind, Except.bind] at htmpEq hzsEq ⊢
    rw [htmpEq]
    have hfirst : fetch Fault.read (z :: rest) 0 = .ok z := rfl
    simp only [List.length_nil, List.nil_append] at hysEq
    simp only [← hcount, hzsEq, hfirst, hlen, hysEq]
  · refine (hys.map position).trans (.of_eq ?_)
    rw [List.map_map]
    exact (List.map_congr_left fun i hi => position_entry (hplace (List.mem_range.mp hi))).trans
      (List.map_id _)
  · rw [List.pairwise_map]
    refine hysPair.imp_of_mem fun {a b} ha hb hab => ?_
    obtain ⟨i, hi, rfl⟩ := hentry a (hysPerm.mem_iff.mp ha)
    obtain ⟨j, hj, rfl⟩ := hentry b (hysPerm.mem_iff.mp hb)
    have hlen : (window v i).length = (window v j).length := by
      rw [length_window (by omega), length_window (by omega)]
    simp only [ByKey, position_entry (hplace hi), position_entry (hplace hj)] at hab ⊢
    obtain hlt | ⟨heq, hrest⟩ := hab
    · exact .inl ((number_lt_iff hlen).mp hlt)
    · have hwindow : window v i = window v j := number_inj hlen heq
      have hkey : key v i = key v j := by
        have htake : ∀ i, (v.drop i).take 8 = (window v i).take 8 := fun i => by
          rw [window, List.take_take]
          rfl
        rw [key, key, htake, htake, hwindow]
      rw [digit1_entry (hplace hi), digit1_entry (hplace hj), digit0_entry (hplace hi),
        digit0_entry (hplace hj), hkey] at hrest
      obtain h | ⟨-, h | ⟨-, h⟩⟩ := hrest
      · exact absurd h (lt_irrefl _)
      · exact absurd h (lt_irrefl _)
      · exact .inr ⟨hwindow, h⟩

theorem Before.asymm (h : Before v i j) : ¬ Before v j i := by
  rintro (h' | ⟨h', hji⟩)
  · obtain h | ⟨h, -⟩ := h
    · exact List.lt_irrefl _ (List.lt_trans h h')
    · exact List.lt_irrefl _ (h ▸ h')
  · obtain h | ⟨-, hij⟩ := h
    · exact List.lt_irrefl _ (h' ▸ h)
    · omega

/-- There is one order of the positions only. -/
theorem order_unique {is js : List Nat} (h : is.Perm js) (his : is.Pairwise (Before v))
    (hjs : js.Pairwise (Before v)) : is = js :=
  h.eq_of_pairwise (fun _ _ _ _ hij hji => absurd hji hij.asymm) his hjs

/-- The positions of a text in the order of their windows. -/
def order (N : Nat) (v : List UInt8) : List Nat :=
  (List.range N).mergeSort fun i j =>
    window v i < window v j ∨ window v i = window v j ∧ i ≤ j

theorem order_spec (N : Nat) (v : List UInt8) :
    (order N v).Perm (List.range N) ∧ (order N v).Pairwise (Before v) := by
  have hperm : (order N v).Perm (List.range N) := List.mergeSort_perm ..
  refine ⟨hperm, ?_⟩
  have hsorted : (order N v).Pairwise fun i j =>
      window v i < window v j ∨ window v i = window v j ∧ i ≤ j := by
    have h : (order N v).Pairwise fun i j => decide
        (window v i < window v j ∨ window v i = window v j ∧ i ≤ j) = true :=
      List.pairwise_mergeSort ?_ ?_ (List.range N)
    · exact h.imp of_decide_eq_true
    · intro i j k hij hjk
      simp only [decide_eq_true_eq] at hij hjk ⊢
      obtain hij | ⟨hij, hij'⟩ := hij
      · obtain hjk | ⟨hjk, -⟩ := hjk
        · exact .inl (List.lt_trans hij hjk)
        · exact .inl (hjk ▸ hij)
      · rw [hij]
        exact hjk.imp_right fun h => ⟨h.1, hij'.trans h.2⟩
    · intro i j
      simp only [Bool.or_eq_true, decide_eq_true_eq]
      by_cases hlt : window v i < window v j
      · exact .inl (.inl hlt)
      by_cases hgt : window v j < window v i
      · exact .inr (.inl hgt)
      have heq : window v i = window v j := List.le_antisymm hgt hlt
      obtain hij | hij := Nat.le_total i j
      · exact .inl (.inr ⟨heq, hij⟩)
      · exact .inr (.inr ⟨heq.symm, hij⟩)
  have hnodup : (order N v).Nodup := hperm.nodup_iff.mpr List.nodup_range
  refine (hsorted.and hnodup).imp fun {i j} h => ?_
  exact h.1.imp_right fun heq => ⟨heq.1, Nat.lt_of_le_of_ne heq.2 h.2⟩

/-- Where all windows differ, the suffixes themselves are sorted. -/
theorem order_suffixes (hv : N + 12 ≤ v.length)
    (h : ∀ i < N, ∀ j < N, window v i = window v j → i = j) :
    (order N v).Pairwise fun i j => v.drop i < v.drop j := by
  obtain ⟨hperm, hpair⟩ := order_spec N v
  refine hpair.imp_of_mem fun {i j} hi hj hij => ?_
  have hi : i < N := List.mem_range.mp (hperm.mem_iff.mp hi)
  have hj : j < N := List.mem_range.mp (hperm.mem_iff.mp hj)
  obtain hlt | ⟨heq, hlt⟩ := hij
  · have hlen : (window v i).length = (window v j).length := by
      rw [length_window (by omega), length_window (by omega)]
    rw [← List.take_append_drop 13 (v.drop i), ← List.take_append_drop 13 (v.drop j)]
    exact append_lt_append hlen hlt
  · exact absurd (h i hi j hj heq) hlt.ne

end Order

/-! ## The transform -/

/-- What stands before each suffix of a stream, in the order of the suffixes; a zero is before the
first one. -/
def bwt (stream : List UInt8) : List UInt8 :=
  (order (stream.length + 1) (stream ++ List.replicate 16 0)).map fun i => (0 :: stream).getD i 0

section Gather

variable {memory : List UInt8} {indices : List UInt64} {n i : Nat} {f : UInt64 → UInt8}

/-- The unrolled loop is the plain one, faults included. -/
theorem gather4_eq (rest blocks : Nat) :
    gather4 memory indices rest blocks i = gather memory indices (4 * blocks + rest) i := by
  induction blocks generalizing i with
  | zero => rw [gather4, Nat.mul_zero, Nat.zero_add]
  | succ blocks ih =>
      have hcount : 4 * (blocks + 1) + rest = 4 * blocks + rest + 1 + 1 + 1 + 1 := by omega
      rw [hcount, gather4]
      simp only [gather, ih, bind_assoc]
      rfl

theorem gather_eq (h : ∀ t ∈ indices, fetch Fault.read memory (15 + position t) = .ok (f t))
    (hn : i + n ≤ indices.length) :
    gather memory indices n i = .ok (((indices.drop i).take n).map f) := by
  induction n generalizing i with
  | zero => simp [gather]
  | succ n ih =>
      have hi : i < indices.length := by omega
      have hbefore : before memory indices i = .ok (f indices[i]) := by
        rw [before, fetch_eq hi]
        exact h _ (List.getElem_mem hi)
      rw [gather, hbefore, ih (by omega), List.drop_eq_getElem_cons hi, List.take_succ_cons,
        List.map_cons]
      rfl

end Gather

theorem stage2Extra_lt (key : List UInt8) : stage2Extra key < 2 ^ 20 := by
  have hmask : (0xfffff : UInt32).toNat = 2 ^ 20 - 1 := by decide
  rw [stage2Extra, UInt32.toNat_and, hmask, Nat.and_two_pow_sub_one_eq_mod]
  exact Nat.mod_lt _ (by norm_num)

section Result

variable [Functions]

/-- The sort and the loop after it are the transform of the stream. -/
theorem stage_eq (key : List UInt8) {size : Nat} {indices tmpIndices : List UInt64}
    (h21 : size + 1 ≤ 2 ^ 21) (hindices : indices.length = size + 1)
    (htmp : tmpIndices.length = size + 1) :
    ∃ ys tmp, sortIndices (size + 1) ((keyStream key size).drop 16) indices tmpIndices =
        .ok (ys, tmp) ∧ ys.length = size + 1 ∧ tmp.length = size + 1 ∧
      gather (keyStream key size) ys (size + 1) 0 = .ok (bwt (Functions.salsa20 key size)) := by
  have hlen := Functions.length_salsa20 key size
  have htext : (keyStream key size).drop 16 = Functions.salsa20 key size ++ List.replicate 16 0 := by
    rw [keyStream, List.append_assoc, List.drop_left' (by simp)]
  rw [htext]
  obtain ⟨ys, tmp, hsort, hys, htmp, hperm, hpair⟩ :=
    sortIndices_sorts (N := size + 1) (v := Functions.salsa20 key size ++ List.replicate 16 0)
      (Nat.succ_pos _) h21 (by simp [hlen]) hindices htmp
  refine ⟨ys, tmp, hsort, hys, htmp, ?_⟩
  have horder := order_spec (size + 1) (Functions.salsa20 key size ++ List.replicate 16 0)
  have hpositions : ys.map position =
      order (size + 1) (Functions.salsa20 key size ++ List.replicate 16 0) :=
    order_unique (hperm.trans horder.1.symm) hpair horder.2
  have hfetch : ∀ t ∈ ys, fetch Fault.read (keyStream key size) (15 + position t) =
      .ok ((0 :: Functions.salsa20 key size).getD (position t) 0) := by
    intro t ht
    have hlt : position t < size + 1 :=
      List.mem_range.mp (hperm.mem_iff.mp (List.mem_map_of_mem ht))
    have hlt' : position t < (0 :: Functions.salsa20 key size).length := by simpa [hlen] using hlt
    have hmemory : keyStream key size =
        List.replicate 15 0 ++ ((0 :: Functions.salsa20 key size) ++ List.replicate 16 0) := by
      rw [keyStream, List.replicate_succ' (n := 15)]
      simp
    rw [hmemory, fetch_eq (by simp only [List.length_append, List.length_replicate]; omega),
      List.getElem_append_right (by simp), List.getD_eq_getElem _ _ hlt']
    simp only [List.length_replicate, Nat.add_sub_cancel_left]
    rw [List.getElem_append_left hlt']
  rw [gather_eq hfetch (by omega), List.drop_zero, ← hys, List.take_length, bwt, hlen, ← hpositions,
    List.map_map]
  rfl

end Result

end AstroBwt

end XLArig
