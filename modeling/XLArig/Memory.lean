import Mathlib

/-!
# XLArig.Memory

Byte memory with little-endian 32-bit words.

A buffer is a function from offsets to bytes, as a pointer into an array sees
it.  Every operation comes with what it reads back and with its frame: the
offsets it leaves alone.
-/

/-- The bytes a pointer reaches. -/
abbrev Memory := Nat → UInt8

namespace Memory

variable {m m' src : Memory} {a b i n : Nat} {v : UInt32}

/-! ## Words -/

/-- The little-endian 32-bit word at offset `a`. -/
def read32 (m : Memory) (a : Nat) : UInt32 :=
  (m a).toUInt32 ||| (m (a + 1)).toUInt32 <<< 8 ||| (m (a + 2)).toUInt32 <<< 16 |||
    (m (a + 3)).toUInt32 <<< 24

/-- Store `v` at offset `a`, the low byte first. -/
def write32 (m : Memory) (a : Nat) (v : UInt32) : Memory := fun i =>
  if i = a then v.toUInt8
  else if i = a + 1 then (v >>> 8).toUInt8
  else if i = a + 2 then (v >>> 16).toUInt8
  else if i = a + 3 then (v >>> 24).toUInt8
  else m i

/-- The bytes of a buffer, over what was there before. -/
def load (m : Memory) (data : List UInt8) : Memory := fun i => (data[i]?).getD (m i)

theorem toNat_byte (v : UInt32) :
    v.toUInt8.toNat = v.toNat % 2 ^ 8 ∧ (v >>> 8).toUInt8.toNat = v.toNat / 2 ^ 8 % 2 ^ 8 ∧
      (v >>> 16).toUInt8.toNat = v.toNat / 2 ^ 16 % 2 ^ 8 ∧
      (v >>> 24).toUInt8.toNat = v.toNat / 2 ^ 24 % 2 ^ 8 := by
  simp [Nat.shiftRight_eq_div_pow]

/-- A word is the base-256 number of its four bytes. -/
theorem toNat_read32 (m : Memory) (a : Nat) :
    (m.read32 a).toNat = (m a).toNat + 2 ^ 8 * ((m (a + 1)).toNat +
      2 ^ 8 * ((m (a + 2)).toNat + 2 ^ 8 * (m (a + 3)).toNat)) := by
  have hb : ∀ i, (m i).toNat < 2 ^ 8 := fun i => (m i).toNat_lt
  have h0 := hb a; have h1 := hb (a + 1); have h2 := hb (a + 2); have h3 := hb (a + 3)
  have hor : ∀ k x y : Nat, y < 2 ^ k → y ||| x * 2 ^ k = y + 2 ^ k * x := by
    intro k x y hy
    rw [Nat.mul_comm, Nat.or_comm, ← Nat.two_pow_add_eq_or_of_lt hy, Nat.add_comm]
  have hshift : ∀ (x : UInt8) (k : UInt32), k.toNat ≤ 24 →
      (x.toUInt32 <<< k).toNat = x.toNat * 2 ^ k.toNat := by
    intro x k hk
    have hx := x.toNat_lt
    have hpow : 2 ^ k.toNat ≤ 2 ^ 24 := Nat.pow_le_pow_right (by decide) hk
    rw [UInt32.toNat_shiftLeft, Nat.shiftLeft_eq, UInt8.toNat_toUInt32,
      Nat.mod_eq_of_lt (by omega : k.toNat < 32)]
    exact Nat.mod_eq_of_lt (by nlinarith)
  simp only [read32, UInt32.toNat_or, UInt8.toNat_toUInt32]
  rw [hshift _ 8 (by decide), hshift _ 16 (by decide), hshift _ 24 (by decide)]
  simp only [UInt32.reduceToNat]
  rw [hor 8 _ _ h0, hor 16 _ _ (by omega), hor 24 _ _ (by omega)]
  omega

@[simp] theorem read32_write32 (m : Memory) (a : Nat) (v : UInt32) :
    (m.write32 a v).read32 a = v := by
  have hv := v.toNat_lt
  have hbytes := toNat_byte v
  have h1 : m.write32 a v (a + 1) = (v >>> 8).toUInt8 := by simp [write32]
  have h2 : m.write32 a v (a + 2) = (v >>> 16).toUInt8 := by simp [write32]
  have h3 : m.write32 a v (a + 3) = (v >>> 24).toUInt8 := by simp [write32]
  have h0 : m.write32 a v a = v.toUInt8 := by simp [write32]
  apply UInt32.toNat_inj.mp
  rw [toNat_read32, h0, h1, h2, h3]
  omega

/-- The little-endian 64-bit word at offset `a`. -/
def read64 (m : Memory) (a : Nat) : UInt64 :=
  (m.read32 a).toUInt64 ||| (m.read32 (a + 4)).toUInt64 <<< 32

theorem toNat_read64 (m : Memory) (a : Nat) :
    (m.read64 a).toNat = (m.read32 a).toNat + 2 ^ 32 * (m.read32 (a + 4)).toNat := by
  have hlo := (m.read32 a).toNat_lt
  have hhi := (m.read32 (a + 4)).toNat_lt
  have hshift : ((m.read32 (a + 4)).toUInt64 <<< 32).toNat = 2 ^ 32 * (m.read32 (a + 4)).toNat := by
    rw [UInt64.toNat_shiftLeft, Nat.shiftLeft_eq, UInt32.toNat_toUInt64, Nat.mul_comm]
    exact Nat.mod_eq_of_lt (by simp only [UInt64.reduceToNat, Nat.reduceMod]; omega)
  rw [read64, UInt64.toNat_or, hshift, UInt32.toNat_toUInt64, Nat.or_comm,
    ← Nat.two_pow_add_eq_or_of_lt hlo, Nat.add_comm]

/-- A store leaves every other offset alone. -/
theorem write32_of_disjoint (h : i < a ∨ a + 4 ≤ i) : m.write32 a v i = m i := by
  simp only [write32]
  rw [if_neg (by omega), if_neg (by omega), if_neg (by omega), if_neg (by omega)]

theorem read32_congr (h : ∀ i, a ≤ i → i < a + 4 → m i = m' i) : m.read32 a = m'.read32 a := by
  simp only [read32]
  rw [h a (by omega) (by omega), h (a + 1) (by omega) (by omega),
    h (a + 2) (by omega) (by omega), h (a + 3) (by omega) (by omega)]

theorem read32_write32_of_disjoint (h : a + 4 ≤ b ∨ b + 4 ≤ a) :
    (m.write32 b v).read32 a = m.read32 a :=
  read32_congr fun _ _ _ => write32_of_disjoint (by omega)

/-! ## Copies and slices -/

/-- `memcpy` of the first `n` bytes of `src` to offset `a`. -/
def copy (m : Memory) (a : Nat) (src : Memory) (n : Nat) : Memory := fun i =>
  if a ≤ i ∧ i < a + n then src (i - a) else m i

/-- A copy lands at its destination. -/
theorem copy_of_mem (h : i < n) : m.copy a src n (a + i) = src i := by
  simp only [copy]
  rw [if_pos (by omega), Nat.add_sub_cancel_left]

/-- A copy leaves every other offset alone. -/
theorem copy_of_disjoint (h : i < a ∨ a + n ≤ i) : m.copy a src n i = m i :=
  if_neg (by omega)

/-- The `n` bytes from offset `a`. -/
def slice (m : Memory) (a n : Nat) : List UInt8 := (List.range n).map fun i => m (a + i)

/-- A buffer is read back. -/
theorem slice_load (m : Memory) (data : List UInt8) : (m.load data).slice 0 data.length = data := by
  apply List.ext_getElem
  · simp [slice]
  · intro i h h'
    simp [slice, load, h']

/-- A byte stored behind a slice makes it longer. -/
theorem slice_update_last {v : UInt8} :
    slice (Function.update m n v) 0 (n + 1) = m.slice 0 n ++ [v] := by
  simp only [slice, List.range_succ, List.map_append, List.map_singleton, Nat.zero_add,
    Function.update_self]
  refine congrArg (· ++ [v]) (List.map_congr_left fun i hi => ?_)
  exact Function.update_of_ne (List.mem_range.mp hi).ne _ _

theorem slice_update_of_le {v : UInt8} (h : n ≤ i) :
    slice (Function.update m i v) 0 n = m.slice 0 n := by
  refine List.map_congr_left fun j hj => ?_
  have := List.mem_range.mp hj
  exact Function.update_of_ne (by omega) _ _

/-- The `n` bytes from offset `a`, as a buffer of their own. -/
def part (m : Memory) (a n : Nat) : Memory := fun i => if i < n then m (a + i) else 0

theorem part_congr (h : ∀ i, i < n → m (a + i) = m' (b + i)) : m.part a n = m'.part b n := by
  funext i
  simp only [part]
  split_ifs with hi
  · exact h i hi
  · rfl

theorem read32_part (h : b + 4 ≤ n) : (m.part a n).read32 b = m.read32 (a + b) := by
  simp only [read32, part, Nat.add_assoc]
  rw [if_pos (by omega), if_pos (by omega), if_pos (by omega), if_pos (by omega)]

/-- A store inside the part. -/
theorem part_write32 (h : b + 4 ≤ n) :
    (m.write32 (a + b) v).part a n = (m.part a n).write32 b v := by
  funext i
  simp only [part, write32, Nat.add_assoc, Nat.add_left_cancel_iff]
  split_ifs <;> first | rfl | omega

theorem part_write32_of_disjoint (h : b + 4 ≤ a ∨ a + n ≤ b) :
    (m.write32 b v).part a n = m.part a n :=
  part_congr fun _ _ => write32_of_disjoint (by omega)

theorem part_copy : (m.copy a src n).part a n = src.part 0 n :=
  part_congr fun i hi => by rw [copy_of_mem hi, Nat.zero_add]

theorem part_copy_of_disjoint {k : Nat} (h : b + k ≤ a ∨ a + n ≤ b) :
    (m.copy b src k).part a n = m.part a n :=
  part_congr fun _ _ => copy_of_disjoint (by omega)

end Memory
