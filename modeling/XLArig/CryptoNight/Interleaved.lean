import XLArig.CnHash
import XLArig.Traced.Moved

/-!
# XLArig.CryptoNight.Interleaved

The heavy algorithms with interleaving.

The lines of 64 bytes of a scratchpad lie `2 ^ k` lines apart, and a byte keeps its place in its
line (`spread`).  A hash does on them what it does on adjacent lines, and touches no other bytes, so
that the scratchpads of `2 ^ k` hashes fit into each other's gaps.
-/

namespace XLArig

open Traced CnAlgo Algorithm

/-! ## Offsets -/

/-- Where a byte of the scratchpad lies. -/
def spread (k o : Nat) : Nat := o / 64 * (64 * 2 ^ k) + o % 64

section

variable {k o o' j : Nat}

theorem spread_zero (o : Nat) : spread 0 o = o := by
  rw [spread]
  omega

theorem spread_add (h : o % 64 + j < 64) : spread k (o + j) = spread k o + j := by
  have hdiv : (o + j) / 64 = o / 64 := by omega
  have hmod : (o + j) % 64 = o % 64 + j := by omega
  rw [spread, spread, hdiv, hmod, Nat.add_assoc]

/-- The line of a byte. -/
theorem spread_div (k o : Nat) : spread k o / 64 = o / 64 * 2 ^ k := by
  have hassoc : o / 64 * (64 * 2 ^ k) = 64 * (o / 64 * 2 ^ k) := by ring
  rw [spread, hassoc]
  omega

theorem spread_mod (k o : Nat) : spread k o % 64 = o % 64 := by
  have hassoc : o / 64 * (64 * 2 ^ k) = 64 * (o / 64 * 2 ^ k) := by ring
  rw [spread, hassoc]
  omega

theorem spread_inj : spread k o = spread k o' ↔ o = o' := by
  constructor
  · intro h
    have hdiv : o / 64 * 2 ^ k = o' / 64 * 2 ^ k := by rw [← spread_div, ← spread_div, h]
    have hmod : o % 64 = o' % 64 := by rw [← spread_mod k o, ← spread_mod k o', h]
    have hline : o / 64 = o' / 64 := Nat.eq_of_mul_eq_mul_right (by positivity) hdiv
    omega
  · rintro rfl
    rfl

theorem spread_lt {size : Nat} (hsize : 64 ∣ size) (ho : o < size) : spread k o < size * 2 ^ k := by
  obtain ⟨n, rfl⟩ := hsize
  have hline : o / 64 + 1 ≤ n := by omega
  have hmul : (o / 64 + 1) * (64 * 2 ^ k) ≤ n * (64 * 2 ^ k) := Nat.mul_le_mul_right _ hline
  have hpos : 0 < 2 ^ k := by positivity
  have hsplit : (o / 64 + 1) * (64 * 2 ^ k) = o / 64 * (64 * 2 ^ k) + 64 * 2 ^ k := by ring
  have htotal : n * (64 * 2 ^ k) = 64 * n * 2 ^ k := by ring
  rw [spread]
  omega

theorem toNat_and_not (i : UInt64) : (i &&& ~~~63).toNat = i.toNat / 64 * 64 := by
  have hi := i.toNat_lt
  have hnot : (~~~63 : UInt64).toNat = (2 ^ 58 - 1) <<< 6 := rfl
  have hdiv : i.toNat / 64 * 64 = (i.toNat >>> 6) <<< 6 := by
    rw [Nat.shiftLeft_eq, Nat.shiftRight_eq_div_pow]
  rw [UInt64.toNat_and, hnot, hdiv]
  apply Nat.eq_of_testBit_eq
  intro j
  rw [Nat.testBit_and, Nat.testBit_shiftLeft, Nat.testBit_shiftLeft, Nat.testBit_two_pow_sub_one,
    Nat.testBit_shiftRight]
  by_cases h6 : 6 ≤ j
  · have hj : 6 + (j - 6) = j := by omega
    rw [hj]
    by_cases h64 : j < 64
    · have hlt : j - 6 < 58 := by omega
      simp [h6, hlt]
    · have hbit : i.toNat.testBit j = false :=
        Nat.testBit_lt_two_pow (hi.trans_le (Nat.pow_le_pow_right (by omega) (by omega)))
      simp [hbit]
  · simp [h6]

/-- `interleaved_index`, where no bits are lost. -/
theorem toNat_interleavedIndex {i : UInt64} (hk : k < 64) (h : i.toNat * 2 ^ k < 2 ^ 64) :
    (interleavedIndex k i).toNat = spread k i.toNat := by
  cases k with
  | zero => rw [interleavedIndex, spread_zero]
  | succ k =>
      have hlow : (i &&& 63).toNat = i.toNat % 64 := by
        rw [UInt64.toNat_and]
        exact Nat.and_two_pow_sub_one_eq_mod i.toNat 6
      have hshift : (UInt64.ofNat (k + 1)).toNat % 64 = k + 1 := by
        rw [UInt64.toNat_ofNat']
        omega
      have hle : i.toNat / 64 * 64 * 2 ^ (k + 1) ≤ i.toNat * 2 ^ (k + 1) :=
        Nat.mul_le_mul_right _ (Nat.div_mul_le_self ..)
      have hline : i.toNat / 64 * 64 * 2 ^ (k + 1) = 2 ^ 6 * (i.toNat / 64 * 2 ^ (k + 1)) := by
        ring
      have hindex : interleavedIndex (k + 1) i =
          ((i &&& ~~~63) <<< UInt64.ofNat (k + 1)) ||| (i &&& 63) := rfl
      rw [hindex, UInt64.toNat_or, UInt64.toNat_shiftLeft, toNat_and_not, hlow, hshift,
        Nat.shiftLeft_eq, Nat.mod_eq_of_lt (hle.trans_lt h), hline,
        ← Nat.two_pow_add_eq_or_of_lt (Nat.mod_lt _ (by decide)), ← hline, spread, Nat.mul_assoc]

theorem stride_eq (k : Nat) : stride k = 64 * 2 ^ k := by
  rw [stride, Nat.shiftLeft_eq]
  omega

end

/-! ## Scratchpads -/

/-- The words of the first `n` bytes of a scratchpad, spread and not. -/
def Spread (k base n : Nat) (m m' : Words) : Prop :=
  ∀ o < n, o % 8 = 0 → m (base + spread k o) = m' (base + o)

/-- The bytes are those of a lane's spread scratchpad of `size` bytes. -/
def Span.OnLines (number base k size : Nat) (t : Span) : Prop :=
  t.number = number ∧ ∀ x, t.pos ≤ x → x < t.pos + t.size →
    base ≤ x ∧ x < base + size * 2 ^ k ∧ (x - base) / 64 % 2 ^ k = 0

section

variable {number base k size n q o j : Nat}

theorem onLines_spread (hsize : 64 ∣ size) (ho : o < size) (hj : o % 64 + j ≤ 64) :
    Span.OnLines number base k size ⟨number, base + spread k o, j⟩ := by
  refine ⟨rfl, fun x hx hlt => ?_⟩
  simp only at hx hlt
  obtain ⟨d, rfl⟩ : ∃ d, x = base + spread k o + d := ⟨x - (base + spread k o), by omega⟩
  have hsum : spread k o + d = spread k (o + d) := (spread_add (by omega)).symm
  have hlast : o + d < size := by omega
  have hbyte := spread_lt (k := k) hsize hlast
  have hoff : base + spread k o + d - base = spread k (o + d) := by omega
  rw [hoff, spread_div]
  exact ⟨by omega, by omega, Nat.mul_mod_left ..⟩

theorem moved_load128 (hsize : 64 ∣ size) (ho : o + 16 ≤ size) (h16 : o % 16 = 0) :
    Moved (Span.OnLines number base k size) (Spread k base size) (Spread k base size)
      (load128 number (base + spread k o)) (load128 number (base + o)) Eq := by
  refine moved_read (onLines_spread hsize (by omega) (by omega)) fun m m' hm => ?_
  have h8 : base + spread k o + 8 = base + spread k (o + 8) := by
    rw [spread_add (by omega), Nat.add_assoc]
  rw [hm o (by omega) (by omega), h8, hm (o + 8) (by omega) (by omega)]
  rfl

theorem moved_load64 (hsize : 64 ∣ size) (ho : o + 8 ≤ size) (h8 : o % 8 = 0) :
    Moved (Span.OnLines number base k size) (Spread k base size) (Spread k base size)
      (load64 number (base + spread k o)) (load64 number (base + o)) Eq :=
  moved_read (onLines_spread hsize (by omega) (by omega)) fun m m' hm => hm o (by omega) h8

theorem moved_load32 (hsize : 64 ∣ size) (ho : o + 8 ≤ size) (h8 : o % 8 = 0) :
    Moved (Span.OnLines number base k size) (Spread k base size) (Spread k base size)
      (load32 number (base + spread k o)) (load32 number (base + o)) Eq :=
  moved_read (onLines_spread hsize (by omega) (by omega)) fun m m' hm => by
    rw [hm o (by omega) h8]

theorem moved_store64 (hsize : 64 ∣ size) (ho : o + 8 ≤ size) (h8 : o % 8 = 0) (v : UInt64) :
    Moved (Span.OnLines number base k size) (Spread k base size) (Spread k base size)
      (store64 number (base + spread k o) v) (store64 number (base + o) v) fun _ _ => True := by
  refine moved_write (onLines_spread hsize (by omega) (by omega)) fun m m' hm o' ho' h8' => ?_
  simp only [Nat.add_left_cancel_iff, spread_inj, hm o' ho' h8']

/-- A vector that is stored is one more vector of the scratchpad, or one of those there. -/
theorem moved_store128 (hsize : 64 ∣ size) (ho : o + 16 ≤ size) (h16 : o % 16 = 0)
    (hn : ∀ o' < q, o' % 8 = 0 → o' < n ∨ o' = o ∨ o' = o + 8) (v : M128i) :
    Moved (Span.OnLines number base k size) (Spread k base n) (Spread k base q)
      (store128 number (base + spread k o) v) (store128 number (base + o) v) fun _ _ => True := by
  refine moved_write (onLines_spread hsize (by omega) (by omega)) fun m m' hm o' ho' h8' => ?_
  have h8 : base + spread k o + 8 = base + spread k (o + 8) := by
    rw [spread_add (by omega), Nat.add_assoc]
  simp only [h8, Nat.add_assoc, Nat.add_left_cancel_iff, spread_inj]
  rcases hn o' ho' h8' with h | rfl | rfl
  · rw [hm o' h h8']
  · simp
  · simp

end

/-! ## Filling and reading back -/

section

variable {a : Algorithm} {number base k size n o : Nat}

theorem moved_storeHalf (number base k : Nat) (hsize : 64 ∣ size) (ho : o + 64 ≤ size)
    (h64 : o % 64 = 0) (v0 v1 v2 v3 : M128i) :
    Moved (Span.OnLines number base k size) (Spread k base o) (Spread k base (o + 64))
      (storeHalf number (base + spread k o) v0 v1 v2 v3) (storeHalf number (base + o) v0 v1 v2 v3)
      fun _ _ => True := by
  have hadd : ∀ j < 64, base + spread k o + j = base + spread k (o + j) := fun j hj => by
    rw [spread_add (by omega), Nat.add_assoc]
  rw [storeHalf, storeHalf, hadd 16 (by omega), hadd 32 (by omega), hadd 48 (by omega),
    Nat.add_assoc, Nat.add_assoc, Nat.add_assoc]
  refine moved_seq (moved_store128 (q := o + 16) hsize (by omega) (by omega) (by omega) v0) ?_
  intro _ _
  refine moved_seq (moved_store128 (q := o + 32) hsize (by omega) (by omega) (by omega) v1) ?_
  intro _ _
  refine moved_seq (moved_store128 (q := o + 48) hsize (by omega) (by omega) (by omega) v2) ?_
  intro _ _
  exact moved_store128 hsize (by omega) (by omega) (by omega) v3

theorem moved_loadHalf (number base k : Nat) (hsize : 64 ∣ size) (ho : o + 64 ≤ size)
    (h64 : o % 64 = 0) :
    Moved (Span.OnLines number base k size) (Spread k base size) (Spread k base size)
      (loadHalf number (base + spread k o)) (loadHalf number (base + o)) Eq := by
  have hadd : ∀ j < 64, base + spread k o + j = base + spread k (o + j) := fun j hj => by
    rw [spread_add (by omega), Nat.add_assoc]
  rw [loadHalf, loadHalf, hadd 16 (by omega), hadd 32 (by omega), hadd 48 (by omega),
    Nat.add_assoc, Nat.add_assoc, Nat.add_assoc]
  refine moved_same (moved_load128 hsize (by omega) (by omega)) fun v0 => ?_
  refine moved_same (moved_load128 hsize (by omega) (by omega)) fun v1 => ?_
  refine moved_same (moved_load128 hsize (by omega) (by omega)) fun v2 => ?_
  refine moved_same (moved_load128 hsize (by omega) (by omega)) fun v3 => ?_
  exact moved_pure rfl

/-- The pointer in the middle of round `i`. -/
theorem pointer_mid (base k i : Nat) :
    base + spread k (i * 128) + stride k = base + spread k (i * 128 + 64) := by
  have hline : (i * 128 + 64) / 64 = i * 128 / 64 + 1 := by omega
  have hmod : (i * 128 + 64) % 64 = i * 128 % 64 := by omega
  rw [stride_eq, spread, spread, hline, hmod]
  ring

theorem pointer_next (base k i : Nat) :
    base + spread k (i * 128 + 64) + stride k = base + spread k ((i + 1) * 128) := by
  have hline : (i + 1) * 128 / 64 = (i * 128 + 64) / 64 + 1 := by omega
  have hmod : (i + 1) * 128 % 64 = (i * 128 + 64) % 64 := by omega
  rw [stride_eq, spread, spread, hline, hmod]
  ring

end

theorem dvd_memory (a : Algorithm) : 64 ∣ memory a := by
  cases a <;> decide

section

variable [CnUnit] {a : Algorithm} {soft : Bool} {k : Nat} {c : CnCtx}

/-- `Moved` on the spread scratchpad of a context. -/
abbrev CnCtx.Moved (a : Algorithm) (k : Nat) (c : CnCtx) {α : Type} (n n' : Nat) (x y : Prog α)
    (Q : α → α → Prop) : Prop :=
  Traced.Moved (Span.OnLines c.number c.memory k (CnAlgo.memory a)) (Spread k c.memory n)
    (Spread k c.memory n') x y Q

/-- Whatever memory held before, it is filled with the same lines. -/
theorem cnExplodeScratchpad_moved (c : CnCtx) :
    c.Moved a k 0 (memory a) (cnExplodeScratchpad a soft k c) (cnExplodeScratchpad a soft 0 c)
      fun _ _ => True := by
  have hrounds := rounds_mul a
  have hsize := dvd_memory a
  have hend : Spread k c.memory (memory a) = Spread k c.memory (rounds a * 128) := by rw [hrounds]
  refine moved_seq ?_ fun _ _ => moved_pure trivial
  rw [hend]
  refine (moved_loop (P := fun i => Spread k c.memory (i * 128))
    (I := fun i s s' => s.2 = s'.2 ∧ s.1 = c.memory + spread k (i * 128) ∧
      s'.1 = c.memory + i * 128) ?_ ?_).mono fun _ _ _ => trivial
  · exact ⟨rfl, by simp [spread], rfl⟩
  · rintro i ⟨output, xin⟩ ⟨output', _⟩ hi ⟨rfl, rfl, rfl⟩
    have hmid : c.memory + i * 128 + stride 0 = c.memory + (i * 128 + 64) := rfl
    refine moved_seq (moved_storeHalf _ _ _ hsize (by omega) (by omega) _ _ _ _) fun _ _ => ?_
    dsimp only
    rw [pointer_mid, hmid]
    have hlast : Spread k c.memory ((i + 1) * 128) = Spread k c.memory (i * 128 + 64 + 64) := by
      congr 1
      omega
    rw [hlast]
    refine moved_seq (moved_storeHalf _ _ _ hsize (by omega) (by omega) _ _ _ _) fun _ _ => ?_
    have hnext : c.memory + (i * 128 + 64) + stride 0 = c.memory + (i + 1) * 128 := by
      rw [stride_eq]
      omega
    exact moved_pure ⟨rfl, pointer_next .., hnext⟩

theorem implodePass_moved (c : CnCtx) (keys : List M128i) (xout : Octet) :
    c.Moved a k (memory a) (memory a) (implodePass a soft k c keys xout)
      (implodePass a soft 0 c keys xout) Eq := by
  have hrounds := rounds_mul a
  have hsize := dvd_memory a
  refine moved_bind (moved_loop (P := fun _ => Spread k c.memory (memory a))
    (I := fun i s s' => s.2 = s'.2 ∧ s.1 = c.memory + spread k (i * 128) ∧
      s'.1 = c.memory + i * 128) ?_ ?_) ?_
  · exact ⟨rfl, by simp [spread], rfl⟩
  · rintro i ⟨input, xout⟩ ⟨input', _⟩ hi ⟨rfl, rfl, rfl⟩
    have hmid : c.memory + i * 128 + stride 0 = c.memory + (i * 128 + 64) := rfl
    refine moved_same (moved_loadHalf _ _ _ hsize (by omega) (by omega)) fun v => ?_
    dsimp only
    rw [pointer_mid, hmid]
    refine moved_same (moved_loadHalf _ _ _ hsize (by omega) (by omega)) fun w => ?_
    have hnext : c.memory + (i * 128 + 64) + stride 0 = c.memory + (i + 1) * 128 := by
      rw [stride_eq]
      omega
    exact moved_pure ⟨rfl, pointer_next .., hnext⟩
  · rintro s s' ⟨hx, -⟩
    exact moved_pure hx

theorem implodePasses_moved (c : CnCtx) (keys : List M128i) (xout : Octet) :
    c.Moved a k (memory a) (memory a) (implodePasses a soft k c keys xout)
      (implodePasses a soft 0 c keys xout) Eq := by
  refine moved_same (implodePass_moved c _ _) fun xout => ?_
  exact moved_ite (fun _ => implodePass_moved c _ _) fun _ => moved_pure rfl

theorem cnImplodeScratchpad_moved (c : CnCtx) :
    c.Moved a k (memory a) (memory a) (cnImplodeScratchpad a soft k c)
      (cnImplodeScratchpad a soft 0 c) Eq := by
  exact moved_same (implodePasses_moved c _ _) fun xout => moved_pure rfl

end

/-! ## The main loop -/

namespace CnLane

section

variable {a : Algorithm} {k number l : Nat} {c c' : CnLane}

/-- Two lanes with the same registers, on the scratchpad at `l`. -/
def Same (number l : Nat) (c c' : CnLane) : Prop := c = c' ∧ c.number = number ∧ c.l = l

/-- `Moved` for lanes. -/
abbrev Onward (a : Algorithm) (k number l : Nat) {α : Type} (x y : Prog α) (Q : α → α → Prop) :
    Prop :=
  Traced.Moved (Span.OnLines number l k (memory a)) (Spread k l (memory a))
    (Spread k l (memory a)) x y Q

/-- The pointer at the index, spread and not. -/
theorem ptr_spread (hk : memory a * 2 ^ k < 2 ^ 64) (c : CnLane) : ∃ o, o % 16 = 0 ∧
    o + 16 ≤ memory a ∧ c.ptr a k = c.l + spread k o ∧ c.ptr a 0 = c.l + o := by
  obtain ⟨b, hb, hm, hle⟩ := mask_spec a
  have hvec := isVector_and (x := c.idx) hb hm
  have hlast := hvec.add_le hb
  have hk64 : k < 64 := by
    by_contra hge
    have hpow : 2 ^ 64 ≤ 2 ^ k := Nat.pow_le_pow_right (by omega) (by omega)
    have hmul : 1 * 2 ^ k ≤ memory a * 2 ^ k := Nat.mul_le_mul_right _ (by omega)
    omega
  have hbits : (c.idx &&& mask a).toNat * 2 ^ k < 2 ^ 64 :=
    (Nat.mul_le_mul_right _ (by omega)).trans_lt hk
  refine ⟨(c.idx &&& mask a).toNat, hvec.1, by omega, ?_, rfl⟩
  rw [ptr, toNat_interleavedIndex hk64 hbits]

/-- Accesses to the vector at the index, or to one of its words. -/
theorem moved_loadPtr (hk : memory a * 2 ^ k < 2 ^ 64) (c : CnLane) :
    Onward a k c.number c.l (load128 c.number (c.ptr a k)) (load128 c.number (c.ptr a 0)) Eq := by
  obtain ⟨o, h16, hle, hptr, hptr'⟩ := ptr_spread hk c
  rw [hptr, hptr']
  exact moved_load128 (dvd_memory a) hle h16

theorem moved_storePtr (hk : memory a * 2 ^ k < 2 ^ 64) (c : CnLane) (v : M128i) :
    Onward a k c.number c.l (store128 c.number (c.ptr a k) v) (store128 c.number (c.ptr a 0) v)
      fun _ _ => True := by
  obtain ⟨o, h16, hle, hptr, hptr'⟩ := ptr_spread hk c
  rw [hptr, hptr']
  exact moved_store128 (dvd_memory a) hle h16 (fun _ h _ => .inl h) v

/-- A word of the vector at the index. -/
theorem word_spread (hk : memory a * 2 ^ k < 2 ^ 64) (c : CnLane) {i : Nat} (hi : i = 0 ∨ i = 8) :
    ∃ o, o % 8 = 0 ∧ o + 8 ≤ memory a ∧ c.ptr a k + i = c.l + spread k o ∧
      c.ptr a 0 + i = c.l + o := by
  obtain ⟨o, h16, hle, hptr, hptr'⟩ := ptr_spread hk c
  refine ⟨o + i, by omega, by omega, ?_, ?_⟩
  · rw [hptr, spread_add (by omega), Nat.add_assoc]
  · rw [hptr', Nat.add_assoc]

theorem moved_loadWord (hk : memory a * 2 ^ k < 2 ^ 64) (c : CnLane) {i : Nat}
    (hi : i = 0 ∨ i = 8) :
    Onward a k c.number c.l (load64 c.number (c.ptr a k + i)) (load64 c.number (c.ptr a 0 + i))
      Eq := by
  obtain ⟨o, h8, hle, hptr, hptr'⟩ := word_spread hk c hi
  rw [hptr, hptr']
  exact moved_load64 (dvd_memory a) hle h8

theorem moved_loadHalfWord (hk : memory a * 2 ^ k < 2 ^ 64) (c : CnLane) {i : Nat}
    (hi : i = 0 ∨ i = 8) :
    Onward a k c.number c.l (load32 c.number (c.ptr a k + i)) (load32 c.number (c.ptr a 0 + i))
      Eq := by
  obtain ⟨o, h8, hle, hptr, hptr'⟩ := word_spread hk c hi
  rw [hptr, hptr']
  exact moved_load32 (dvd_memory a) hle h8

theorem moved_storeWord (hk : memory a * 2 ^ k < 2 ^ 64) (c : CnLane) {i : Nat}
    (hi : i = 0 ∨ i = 8) (v : UInt64) :
    Onward a k c.number c.l (store64 c.number (c.ptr a k + i) v)
      (store64 c.number (c.ptr a 0 + i) v) fun _ _ => True := by
  obtain ⟨o, h8, hle, hptr, hptr'⟩ := word_spread hk c hi
  rw [hptr, hptr']
  exact moved_store64 (dvd_memory a) hle h8 v

/-! ### The phases -/

theorem tweakPhase_moved (hk : memory a * 2 ^ k < 2 ^ 64) (hbase : base a ≠ CN_2)
    (h : Same number l c c') :
    Onward a k number l (c.tweakPhase a k) (c'.tweakPhase a 0) (Same number l) := by
  obtain ⟨rfl, rfl, rfl⟩ := h
  refine moved_ite (fun _ => ?_) fun _ => ?_
  · rw [cryptonightMoneroTweak, cryptonightMoneroTweak, if_neg hbase, if_neg hbase]
    refine moved_seq (moved_storeWord hk c (.inl rfl) _) fun _ _ => ?_
    refine moved_seq (moved_storeWord hk c (.inr rfl) _) fun _ _ => ?_
    exact moved_pure ⟨rfl, rfl, rfl⟩
  · refine moved_seq (moved_storePtr hk c _) fun _ _ => ?_
    exact moved_pure ⟨rfl, rfl, rfl⟩

theorem followPhase_moved (hk : memory a * 2 ^ k < 2 ^ 64) (h : Same number l c c') :
    Onward a k number l (c.followPhase a k) (c'.followPhase a 0) (Same number l) := by
  obtain ⟨rfl, rfl, rfl⟩ := h
  let d : CnLane := { c with idx := c.cx.lo }
  refine moved_same (moved_loadWord hk d (.inl rfl)) fun cl => ?_
  refine moved_same (moved_loadWord hk d (.inr rfl)) fun ch => ?_
  exact moved_pure ⟨rfl, rfl, rfl⟩

theorem storeWords_moved (hk : memory a * 2 ^ k < 2 ^ 64) (h : Same number l c c') :
    Onward a k number l (c.storeWords a k) (c'.storeWords a 0) (Same number l) := by
  obtain ⟨rfl, rfl, rfl⟩ := h
  refine moved_seq (moved_storeWord hk c (.inl rfl) _) fun _ _ => ?_
  refine moved_seq (moved_storeWord hk c (.inr rfl) _) fun _ _ => ?_
  exact moved_pure ⟨rfl, rfl, rfl⟩

theorem heavyPhase_moved (hk : memory a * 2 ^ k < 2 ^ 64) (h : Same number l c c') :
    Onward a k number l (c.heavyPhase a k) (c'.heavyPhase a 0) (Same number l) := by
  obtain ⟨rfl, rfl, rfl⟩ := h
  refine moved_ite (fun _ => ?_) fun _ => moved_pure ⟨rfl, rfl, rfl⟩
  refine moved_same (moved_loadWord hk c (.inl rfl)) fun n => ?_
  refine moved_same (moved_loadHalfWord hk c (.inr rfl)) fun d => ?_
  refine moved_seq (moved_storeWord hk c (.inl rfl) _) fun _ _ => ?_
  exact moved_pure ⟨rfl, rfl, rfl⟩

theorem turnPhase_moved (hk : memory a * 2 ^ k < 2 ^ 64) (h : Same number l c c') :
    Onward a k number l (c.turnPhase a k) (c'.turnPhase a 0) (Same number l) := by
  obtain ⟨rfl, rfl, rfl⟩ := h
  refine moved_bind (heavyPhase_moved hk ⟨rfl, rfl, rfl⟩) ?_
  rintro d _ ⟨rfl, hnumber, hl⟩
  exact moved_pure ⟨rfl, hnumber, hl⟩

end

section

variable [CnUnit] {a : Algorithm} {soft : Bool} {k number l : Nat} {c c' : CnLane}

theorem loadCx_moved (hk : memory a * 2 ^ k < 2 ^ 64) (h : Same number l c c') :
    Onward a k number l (c.loadCx a k) (c'.loadCx a 0) (Same number l) := by
  obtain ⟨rfl, rfl, rfl⟩ := h
  refine moved_same (moved_loadPtr hk c) fun cx => ?_
  exact moved_ite (fun _ => moved_pure ⟨rfl, rfl, rfl⟩) fun _ => moved_pure ⟨rfl, rfl, rfl⟩

theorem loadPhase_moved (hk : memory a * 2 ^ k < 2 ^ 64) (h : Same number l c c') :
    Onward a k number l (c.loadPhase a soft k) (c'.loadPhase a soft 0) (Same number l) :=
  moved_ite (fun _ => loadCx_moved hk h) fun _ => moved_pure h

theorem aesPhase_moved (hk : memory a * 2 ^ k < 2 ^ 64) (h : Same number l c c') :
    Onward a k number l (c.aesPhase a soft k) (c'.aesPhase a soft 0) (Same number l) := by
  have halone := h
  obtain ⟨rfl, hnumber, hl⟩ := h
  refine moved_ite (fun _ => moved_pure ⟨rfl, hnumber, hl⟩) fun _ => ?_
  refine moved_ite (fun _ => ?_) fun _ => moved_pure ⟨rfl, hnumber, hl⟩
  refine moved_bind (loadCx_moved hk halone) ?_
  rintro d _ ⟨rfl, hnumber, hl⟩
  exact moved_pure ⟨rfl, hnumber, hl⟩

theorem mathPhase_moved (height : UInt64) (hbase : base a ≠ CN_2) (h : Same number l c c') :
    Onward a k number l (c.mathPhase a height) (c'.mathPhase a height) (Same number l) := by
  obtain ⟨rfl, hnumber, hl⟩ := h
  rw [mathPhase, if_neg hbase, if_neg hbase]
  exact moved_pure ⟨rfl, hnumber, hl⟩

/-- The phases of a round. -/
theorem wordPhases_moved (height : UInt64) (hk : memory a * 2 ^ k < 2 ^ 64)
    (hbase : base a ≠ CN_2) :
    List.Forall₂ (fun f g => ∀ c c', Same number l c c' →
      Onward a k number l (f c) (g c') (Same number l))
      (wordPhases a soft k height) (wordPhases a soft 0 height) := by
  refine .cons (fun _ _ => loadPhase_moved hk) (.cons (fun _ _ => aesPhase_moved hk)
    (.cons (fun _ _ => tweakPhase_moved hk hbase) (.cons (fun _ _ h => ?_) .nil)))
  refine moved_bind (followPhase_moved hk h) fun _ _ h => ?_
  refine moved_bind (mathPhase_moved height hbase h) fun _ _ h => ?_
  refine moved_bind (storeWords_moved hk h) fun _ _ h => ?_
  exact turnPhase_moved hk h

end

end CnLane

/-! ## The hash -/

theorem isHeavy_iff (a : Algorithm) :
    isHeavy a = true ↔ a = CN_HEAVY_0 ∨ a = CN_HEAVY_TUBE ∨ a = CN_HEAVY_XHV := by
  cases a <;> decide

theorem heavy_base {a : Algorithm} (ha : isHeavy a = true) :
    base a ≠ CN_2 ∧ memory a = 2 ^ 22 := by
  rcases (isHeavy_iff a).mp ha with rfl | rfl | rfl
  · exact ⟨by decide, by decide⟩
  · exact ⟨by decide, by decide⟩
  · exact ⟨by decide, by decide⟩

/-- The byte is one of those that are read or written. -/
def Span.Touches (t : Span) (x : Nat) : Prop := t.pos ≤ x ∧ x < t.pos + t.size

/-- The lines of different offsets. -/
theorem lines_disjoint {n i j start x : Nat} (hi : i < n) (hj : j < n)
    (hx : start + 64 * i ≤ x) (hx' : start + 64 * j ≤ x) (h : (x - (start + 64 * i)) / 64 % n = 0)
    (h' : (x - (start + 64 * j)) / 64 % n = 0) : i = j := by
  have hline : (x - start) / 64 = (x - (start + 64 * i)) / 64 + i := by omega
  have hline' : (x - start) / 64 = (x - (start + 64 * j)) / 64 + j := by omega
  have hrest : (x - start) / 64 % n = i := by
    rw [hline, Nat.add_mod, h, Nat.zero_add, Nat.mod_mod, Nat.mod_eq_of_lt hi]
  have hrest' : (x - start) / 64 % n = j := by
    rw [hline', Nat.add_mod, h', Nat.zero_add, Nat.mod_mod, Nat.mod_eq_of_lt hj]
  rw [← hrest, hrest']

section

variable [CnUnit] {a : Algorithm} {soft : Bool} {k : Nat}

theorem mainLoop_moved (height : UInt64) (hk : memory a * 2 ^ k < 2 ^ 64) (hbase : base a ≠ CN_2)
    (c : CnLane) :
    CnLane.Onward a k c.number c.l (mainLoop a (wordPhases a soft k height) [c])
      (mainLoop a (wordPhases a soft 0 height) [c]) fun _ _ => True := by
  refine (moved_loop (P := fun _ => Spread k c.l (memory a)) (I := fun _ as bs =>
    ∃ d d', as = [d] ∧ bs = [d'] ∧ CnLane.Same c.number c.l d d') ?_ ?_).mono fun _ _ _ => trivial
  · exact ⟨c, c, rfl, rfl, rfl, rfl, rfl⟩
  · rintro i _ _ - ⟨d, d', rfl, rfl, hsame⟩
    exact moved_inTurn_each (CnLane.wordPhases_moved height hk hbase) hsame

theorem finishLane_moved (c : CnCtx) :
    c.Moved a k (memory a) (memory a) (each (finishLane a soft k) [c])
      (each (finishLane a soft 0) [c]) Eq := by
  refine (moved_each (S := Eq) ?_).mono ?_
  · exact moved_same (cnImplodeScratchpad_moved c) fun state => moved_pure rfl
  · rintro _ _ ⟨hash, _, rfl, rfl, rfl⟩
    rfl

theorem cryptonightSingleHash_moved (hbase : base a ≠ CN_2) (hk : memory a * 2 ^ k < 2 ^ 64)
    (input : List UInt8) (size : Nat) (height : UInt64) (c : CnCtx) :
    c.Moved a k 0 0 (cryptonightSingleHash a soft k input size height [c])
      (cryptonightSingleHash a soft 0 input size height [c]) Eq := by
  refine moved_ite (fun _ => moved_pure rfl) fun _ => ?_
  let d := keccakLane input size c
  have hend : d.Moved a k (memory a) 0 (each (finishLane a soft k) [d])
      (each (finishLane a soft 0) [d]) Eq :=
    (finishLane_moved d).leave fun _ _ _ _ h _ => absurd h (Nat.not_lt_zero _)
  refine moved_bind (moved_each (cnExplodeScratchpad_moved d)) fun _ _ _ => ?_
  refine moved_seq (mainLoop_moved height hk hbase (CnLane.init a input size d)) fun _ _ => ?_
  exact hend

/-- A heavy hash whose block of memory fits into the address space of a process. -/
theorem heavyHash_moved (ha : isHeavy a = true) (input : List UInt8) (size : Nat)
    (height : UInt64) (c : CnCtx) (hfits : c.memory + memory a * 2 ^ k < 2 ^ 47) (m m' : Words) :
    (cryptonightSingleHash a soft k input size height [c] m).1 =
        (cryptonightSingleHash a soft 0 input size height [c] m').1 ∧
      ∀ t ∈ (cryptonightSingleHash a soft k input size height [c]).noted m,
        Span.OnLines c.number c.memory k (memory a) t := by
  have hbase := (heavy_base ha).1
  have hnone : Spread k c.memory 0 m m' := fun _ h _ => absurd h (Nat.not_lt_zero _)
  obtain ⟨hval, -, hnoted⟩ :=
    cryptonightSingleHash_moved hbase (by omega) input size height c m m' hnone
  exact ⟨hval, hnoted⟩

/-- The hashes of `2 ^ k` scratchpads whose starts are 64 bytes apart. -/
theorem interleaved_hash (ha : isHeavy a = true) (input : List UInt8) (size : Nat)
    (height : UInt64) (c : CnCtx) (hfits : c.memory + memory a * 2 ^ k < 2 ^ 47) (m m' : Words) :
    (cryptonightSingleHash a soft k input size height [c] m).1 =
        (cryptonightSingleHash a soft 0 input size height [c] m').1 ∧
      (∀ t ∈ (cryptonightSingleHash a soft k input size height [c]).noted m,
        t.number = c.number ∧ ∀ x, t.Touches x → c.memory ≤ x ∧
          x < c.memory + memory a * 2 ^ k ∧ (x - c.memory) / 64 % 2 ^ k = 0) ∧
      ∀ (b : Algorithm) (soft' : Bool) (input' : List UInt8) (size' : Nat) (height' : UInt64)
        (d : CnCtx) (start i j : Nat), isHeavy b = true → i < 2 ^ k → j < 2 ^ k → i ≠ j →
        c.memory = start + 64 * i → d.memory = start + 64 * j →
        d.memory + memory b * 2 ^ k < 2 ^ 47 →
        ∀ t ∈ (cryptonightSingleHash a soft k input size height [c]).noted m,
        ∀ u ∈ (cryptonightSingleHash b soft' k input' size' height' [d]).noted m',
        ∀ x, ¬ (t.Touches x ∧ u.Touches x) := by
  obtain ⟨hval, hnoted⟩ := heavyHash_moved ha input size height c hfits m m'
  refine ⟨hval, fun t ht => ⟨(hnoted t ht).1, fun x hx => (hnoted t ht).2 x hx.1 hx.2⟩, ?_⟩
  rintro b soft' input' size' height' d start i j hb hi hj hne hc hd hfits' t ht u hu x ⟨hx, hx'⟩
  obtain ⟨-, hnoted'⟩ := heavyHash_moved hb input' size' height' d hfits' m' m
  obtain ⟨hle, -, hline⟩ := (hnoted t ht).2 x hx.1 hx.2
  obtain ⟨hle', -, hline'⟩ := (hnoted' u hu).2 x hx'.1 hx'.2
  rw [hc] at hle hline
  rw [hd] at hle' hline'
  exact hne (lines_disjoint hi hj hle hle' hline hline')

end

/-- Two threads of a Zen3, whose scratchpads start one line apart. -/
theorem interleaved_pair :
    (@cryptonightSingleHash CnHash.zeroUnit CN_HEAVY_0 false 3 (List.replicate 76 0) 76 0
        [⟨0, fun _ => 0, 4096⟩] fun _ => 0).1 =
      (@cryptonightSingleHash CnHash.zeroUnit CN_HEAVY_0 false 0 (List.replicate 76 0) 76 0
        [⟨0, fun _ => 0, 4096⟩] fun _ => 0).1 ∧
    ∀ t ∈ (@cryptonightSingleHash CnHash.zeroUnit CN_HEAVY_0 false 3 (List.replicate 76 0) 76 0
        [⟨0, fun _ => 0, 4096⟩]).noted fun _ => 0,
      ∀ u ∈ (@cryptonightSingleHash CnHash.zeroUnit CN_HEAVY_TUBE true 3 (List.replicate 152 0) 76 0
        [⟨1, fun _ => 0, 4160⟩]).noted fun _ => 0, ∀ x, ¬ (t.Touches x ∧ u.Touches x) := by
  have hhash := @interleaved_hash CnHash.zeroUnit CN_HEAVY_0 false 3 rfl (List.replicate 76 0) 76 0
    ⟨0, fun _ => 0, 4096⟩ (by decide) (fun _ => 0) fun _ => 0
  exact ⟨hhash.1, hhash.2.2 CN_HEAVY_TUBE true (List.replicate 152 0) 76 0
    ⟨1, fun _ => 0, 4160⟩ 4096 0 1 rfl (by decide) (by decide) (by decide) rfl rfl (by decide)⟩

end XLArig
