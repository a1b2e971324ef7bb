import XLArig.Nonce

/-!
# XLArig.Nonce.Next

The specification of one call of `Nonce::next`: what it does to the counter and
to the pause flag (`next_reserved`), and what it writes (`writeNonce_lo`,
`toNat_read64_writeNonce`).  Later modules use these and never unfold the loop.
-/

namespace XLArig.Nonce

variable {σ σ' : Nonce} {index : Fin 2} {reserveCount : UInt32} {mask counter : UInt64}
variable {mem : Memory} {nonce k : Nat} {r : Option UInt64}

/-! ## The counter -/

/-- The counter stands at `n`, and `pause(true)` was called if `p`. -/
def advance (σ : Nonce) (index : Fin 2) (n : UInt64) (p : Bool) : Nonce :=
  { σ with paused := σ.paused || p, nonces := Function.update σ.nonces index n }

@[simp] theorem advance_sequence (n : UInt64) (p : Bool) :
    (σ.advance index n p).sequence = σ.sequence := rfl

@[simp] theorem advance_period (n : UInt64) (p : Bool) :
    (σ.advance index n p).period = σ.period := rfl

@[simp] theorem advance_paused (n : UInt64) (p : Bool) :
    (σ.advance index n p).paused = (σ.paused || p) := rfl

@[simp] theorem advance_nonces (n : UInt64) (p : Bool) :
    (σ.advance index n p).nonces index = n := Function.update_self ..

theorem advance_nonces_of_ne {i : Fin 2} (h : i ≠ index) (n : UInt64) (p : Bool) :
    (σ.advance index n p).nonces i = σ.nonces i := Function.update_of_ne h ..

/-- What a call of `next` did to the atomics and which counter it granted. -/
inductive Reserved (σ : Nonce) (index : Fin 2) (reserveCount : UInt32) (mask : UInt64) :
    Nonce → Option UInt64 → Prop
  /-- The window at `c` is granted: it starts at or above the counter the call found. -/
  | granted (c n : UInt64) (p : Bool) :
      (σ.nonces index).toNat ≤ c.toNat →
      n.toNat = c.toNat + reserveCount.toNat →
      n.toNat ≤ (truncMask mask).toNat + 1 →
      (⟨c.toNat, reserveCount.toNat⟩ : Window).Within (2 ^ 32) →
      (p = true → n.toNat = (truncMask mask).toNat + 1) →
      Reserved σ index reserveCount mask (σ.advance index n p) (some c)
  /-- The counter has passed the mask. -/
  | refused (n : UInt64) (p : Bool) :
      (σ.nonces index).toNat + reserveCount.toNat ≤ n.toNat →
      (truncMask mask).toNat + 1 < n.toNat →
      n.toNat ≤ max (σ.nonces index).toNat (truncMask mask).toNat + reserveCount.toNat →
      Reserved σ index reserveCount mask (σ.advance index n p) none
  /-- No window of this size fits the mask; nothing is fetched. -/
  | never :
      reserveCount = 0 ∨ (truncMask mask).toNat + 1 < reserveCount.toNat →
      Reserved σ index reserveCount mask σ none

private theorem pause_eq_advance (p : Bool) (n : UInt64) (hn : σ.nonces index = n) :
    (if p then σ.pause true else σ) = σ.advance index n p := by
  subst hn
  cases p <;> simp [advance, pause]

/-- The loop, by induction on the turns it has left: enough turns bring it to a
decision. -/
theorem reserve_cases (h0 : reserveCount ≠ 0) (hmask : mask.toNat = 2 ^ k - 1) (hk : k ≤ 63)
    (turns : Nat) (hσ : (σ.nonces index).toNat = counter.toNat + reserveCount.toNat)
    (hturns : mask.toNat < counter.toNat + turns * reserveCount.toNat) :
    ∃ n p, (reserve index reserveCount mask turns σ counter).1 = σ.advance index n p ∧
      match (reserve index reserveCount mask turns σ counter).2 with
      | some c => counter.toNat ≤ c.toNat ∧ n.toNat = c.toNat + reserveCount.toNat ∧
          n.toNat ≤ mask.toNat + 1 ∧ (⟨c.toNat, reserveCount.toNat⟩ : Window).Within (2 ^ 32) ∧
          (p = true → n.toNat = mask.toNat + 1)
      | none => counter.toNat + reserveCount.toNat ≤ n.toNat ∧ mask.toNat + 1 < n.toNat ∧
          n.toNat ≤ max counter.toNat mask.toNat + reserveCount.toNat := by
  have hpos : 0 < reserveCount.toNat := Nat.pos_of_ne_zero fun h => h0 (UInt32.toNat_inj.mp h)
  induction turns generalizing σ counter with
  | zero =>
      refine ⟨σ.nonces index, false, pause_eq_advance false _ rfl, ?_⟩
      simp only [reserve]
      omega
  | succ turns ih =>
      simp only [reserve]
      cases ht : turn mask counter reserveCount with
      | refuse p =>
          have hpast := turn_refuse h0 ht
          refine ⟨σ.nonces index, p, pause_eq_advance p _ rfl, ?_⟩
          simp only
          omega
      | grant p =>
          obtain ⟨hle, hwithin, hlast⟩ := turn_grant h0 hmask ht
          refine ⟨σ.nonces index, p, pause_eq_advance p _ rfl, ?_⟩
          simp only
          exact ⟨Nat.le_refl _, hσ, by omega, hwithin, fun hp => by rw [hσ, hlast hp]⟩
      | retry =>
          -- the burnt window ends at or below the mask, so the counter cannot wrap around
          have hle := turn_retry h0 ht
          have hlt : reserveCount.toNat < 2 ^ 32 := reserveCount.toNat_lt
          have hpow : 2 ^ k ≤ 2 ^ 63 := Nat.pow_le_pow_right (by decide) hk
          have hnext : ((σ.fetchAdd index reserveCount).nonces index).toNat =
              (σ.nonces index).toNat + reserveCount.toNat := by
            simp only [fetchAdd, Function.update_self, UInt64.toNat_add, UInt32.toNat_toUInt64]
            exact Nat.mod_eq_of_lt (by omega)
          have henough : mask.toNat < (σ.nonces index).toNat + turns * reserveCount.toNat := by
            rw [Nat.succ_mul] at hturns
            omega
          obtain ⟨n, p, hfst, hsnd⟩ := ih hnext henough
          refine ⟨n, p, ?_, ?_⟩
          · rw [hfst]
            simp only [fetchAdd, advance, Function.update_idem]
          · cases hr : (reserve index reserveCount mask turns
              (σ.fetchAdd index reserveCount) (σ.nonces index)).2 with
            | none => simp only [hr] at hsnd ⊢; omega
            | some c =>
                simp only [hr] at hsnd ⊢
                exact ⟨by omega, hsnd.2⟩

/-- **The specification of `next`**: it grants a window at or above the counter
it found, or refuses because the counter passed the mask. -/
theorem next_reserved (hmask : IsMask mask)
    (hwrap : (σ.nonces index).toNat + reserveCount.toNat < 2 ^ 64) :
    Reserved σ index reserveCount mask (next σ index mem nonce reserveCount mask).1
      (next σ index mem nonce reserveCount mask).2.2 := by
  obtain ⟨k, hk, hm⟩ := hmask.trunc
  simp only [next]
  by_cases hnever : reserveCount = 0 ∨ truncMask mask < (reserveCount - 1).toUInt64
  · rw [if_pos hnever]
    refine .never ?_
    by_cases h0 : reserveCount = 0
    · exact .inl h0
    · have hlt := UInt64.lt_iff_toNat_lt.mp (hnever.resolve_left h0)
      have hone : (1 : UInt32) ≤ reserveCount :=
        UInt32.le_iff_toNat_le.mpr (Nat.pos_of_ne_zero fun h => h0 (UInt32.toNat_inj.mp h))
      rw [UInt32.toNat_toUInt64, UInt32.toNat_sub_of_le _ _ hone] at hlt
      have : (1 : UInt32).toNat = 1 := rfl
      exact .inr (by omega)
  · rw [if_neg hnever]
    obtain ⟨h0, -⟩ := not_or.mp hnever
    have hpos : 0 < reserveCount.toNat :=
      Nat.pos_of_ne_zero fun h => h0 (UInt32.toNat_inj.mp h)
    have hfetch : ((σ.fetchAdd index reserveCount).nonces index).toNat =
        (σ.nonces index).toNat + reserveCount.toNat := by
      simp only [fetchAdd, Function.update_self, UInt64.toNat_add, UInt32.toNat_toUInt64]
      exact Nat.mod_eq_of_lt (by omega)
    have hturns : (truncMask mask).toNat < (σ.nonces index).toNat +
        ((truncMask mask).toNat / reserveCount.toNat + 1) * reserveCount.toNat := by
      have := Nat.lt_mul_div_succ (truncMask mask).toNat hpos
      rw [Nat.mul_comm] at this
      omega
    obtain ⟨n, p, hfst, hsnd⟩ := reserve_cases h0 hm hk _ hfetch hturns
    have hadv : (σ.fetchAdd index reserveCount).advance index n p = σ.advance index n p := by
      simp only [fetchAdd, advance, Function.update_idem]
    rw [hadv] at hfst
    generalize reserve index reserveCount (truncMask mask)
      ((truncMask mask).toNat / reserveCount.toNat + 1) (σ.fetchAdd index reserveCount)
      (σ.nonces index) = x at hfst hsnd ⊢
    obtain ⟨σ₁, _ | c⟩ := x
    · obtain rfl : σ₁ = σ.advance index n p := hfst
      exact .refused n p hsnd.1 hsnd.2.1 hsnd.2.2
    · obtain rfl : σ₁ = σ.advance index n p := hfst
      obtain ⟨hle, hn, hin, hwithin, hlast⟩ := hsnd
      exact .granted c n p hle hn hin hwithin hlast

/-- A refused call writes nothing; a granted one writes the counter. -/
theorem next_mem :
    (next σ index mem nonce reserveCount mask).2.1 =
      match (next σ index mem nonce reserveCount mask).2.2 with
      | some c => writeNonce mem nonce (truncMask mask) c
      | none => mem := by
  simp only [next]
  by_cases hnever : reserveCount = 0 ∨ truncMask mask < (reserveCount - 1).toUInt64
  · rw [if_pos hnever]
  · rw [if_neg hnever]
    generalize reserve index reserveCount (truncMask mask)
      ((truncMask mask).toNat / reserveCount.toNat + 1) (σ.fetchAdd index reserveCount)
      (σ.nonces index) = x
    obtain ⟨σ₁, _ | c⟩ := x <;> rfl

/-! ## The nonce field -/

/-- Clearing the low bits of a word, as arithmetic. -/
theorem and_high_bits {x j n : Nat} (hx : x < 2 ^ n) (hj : j ≤ n) :
    x &&& (2 ^ n - 2 ^ j) = x / 2 ^ j * 2 ^ j := by
  have hsplit : 2 ^ n - 2 ^ j = (2 ^ (n - j) - 1) * 2 ^ j := by
    rw [Nat.sub_mul, Nat.one_mul, ← Nat.pow_add, Nat.sub_add_cancel hj]
  apply Nat.eq_of_testBit_eq
  intro i
  rw [hsplit, Nat.testBit_and, Nat.testBit_mul_two_pow, Nat.testBit_mul_two_pow,
    Nat.testBit_two_pow_sub_one, Nat.testBit_div_two_pow]
  by_cases hi : j ≤ i
  · rw [Nat.sub_add_cancel hi]
    by_cases hn : i < n
    · simp [hi]; omega
    · rw [Nat.testBit_lt_two_pow (hx.trans_le (Nat.pow_le_pow_right (by decide) (by omega)))]
      simp
  · simp [hi]

private theorem toNat_not_mask (hmask : mask.toNat = 2 ^ k - 1) :
    (~~~mask).toNat = 2 ^ 64 - 2 ^ k := by
  have hpos : 0 < 2 ^ k := Nat.two_pow_pos k
  have hlt := mask.toNat_lt
  have hnot : (~~~mask).toNat = 2 ^ 64 - 1 - mask.toNat := by simp
  omega

/-- The bits of a word outside the mask. -/
theorem toNat_and_not_mask (hmask : mask.toNat = 2 ^ k - 1) (hk : k ≤ 64) (x : UInt64) :
    (x &&& ~~~mask).toNat = x.toNat / 2 ^ k * 2 ^ k := by
  rw [UInt64.toNat_and, toNat_not_mask hmask, and_high_bits x.toNat_lt hk]

/-- Putting a counter that fits `j` bits below a multiple of `2 ^ j`. -/
private theorem or_counter {q j c : Nat} (hc : c < 2 ^ j) : q * 2 ^ j ||| c = q * 2 ^ j + c := by
  rw [Nat.mul_comm, Nat.two_pow_add_eq_or_of_lt hc]

/-- A mask of at most 32 bits: one word is written, and its high bits stay. -/
theorem writeNonce_lo (hmask : mask.toNat = 2 ^ k - 1) (hk : k ≤ 32)
    (hc : counter.toNat ≤ mask.toNat) :
    ∃ v : UInt32, writeNonce mem nonce mask counter = mem.write32 nonce v ∧
      v.toNat = (mem.read32 nonce).toNat / 2 ^ k * 2 ^ k + counter.toNat := by
  have hpos : 0 < 2 ^ k := Nat.two_pow_pos k
  have hpow : 2 ^ k ≤ 2 ^ 32 := Nat.pow_le_pow_right (by decide) hk
  have hle : ¬ mask > 0xFFFFFFFF := by
    intro h
    have := UInt64.lt_iff_toNat_lt.mp h
    simp only [UInt64.reduceToNat] at this
    omega
  refine ⟨_, by simp only [writeNonce]; rw [if_neg hle], ?_⟩
  have hlo := (mem.read32 nonce).toNat_lt
  have hfit : (mem.read32 nonce).toNat / 2 ^ k * 2 ^ k + 2 ^ k ≤ 2 ^ 32 := by
    obtain ⟨d, hd⟩ := Nat.pow_dvd_pow 2 hk
    have hq : (mem.read32 nonce).toNat / 2 ^ k < d :=
      (Nat.div_lt_iff_lt_mul hpos).mpr (by rw [Nat.mul_comm, ← hd]; exact hlo)
    calc (mem.read32 nonce).toNat / 2 ^ k * 2 ^ k + 2 ^ k
        = ((mem.read32 nonce).toNat / 2 ^ k + 1) * 2 ^ k := (Nat.succ_mul _ _).symm
      _ ≤ d * 2 ^ k := Nat.mul_le_mul_right _ hq
      _ = 2 ^ 32 := by rw [hd, Nat.mul_comm]
  rw [UInt64.toNat_toUInt32, UInt64.toNat_or, toNat_and_not_mask hmask (by omega),
    UInt32.toNat_toUInt64, or_counter (by omega)]
  exact Nat.mod_eq_of_lt (by omega)

/-- A longer mask: the first word is the low word of the counter, and the second
keeps the bits the mask does not reach. -/
theorem writeNonce_hi (hmask : mask.toNat = 2 ^ k - 1) (hk : 32 < k) (hk' : k ≤ 63)
    (hc : counter.toNat ≤ mask.toNat) :
    ∃ v w : UInt32,
      writeNonce mem nonce mask counter = (mem.write32 nonce v).write32 (nonce + 4) w ∧
      v.toNat = counter.toNat % 2 ^ 32 ∧
      w.toNat = (mem.read32 (nonce + 4)).toNat / 2 ^ (k - 32) * 2 ^ (k - 32) +
        counter.toNat / 2 ^ 32 := by
  have hpos : 0 < 2 ^ k := Nat.two_pow_pos k
  have hsplit : 2 ^ k = 2 ^ 32 * 2 ^ (k - 32) := by
    rw [← Nat.pow_add, Nat.add_sub_cancel' hk.le]
  have hj : 2 ^ (k - 32) ≤ 2 ^ 31 := Nat.pow_le_pow_right (by decide) (by omega)
  have hj2 : 2 ≤ 2 ^ (k - 32) := Nat.le_self_pow (by omega) 2
  have hgt : mask > 0xFFFFFFFF := by
    apply UInt64.lt_iff_toNat_lt.mpr
    simp only [UInt64.reduceToNat]
    omega
  have hpow64 : (~~~mask >>> 32).toNat = 2 ^ 32 - 2 ^ (k - 32) := by
    rw [UInt64.toNat_shiftRight, toNat_not_mask hmask, Nat.shiftRight_eq_div_pow]
    simp only [UInt64.reduceToNat, Nat.reduceMod]
    omega
  refine ⟨_, _, by simp only [writeNonce]; rw [if_pos hgt], ?_, ?_⟩
  · have hlo := (mem.read32 nonce).toNat_lt
    have hq : (mem.read32 nonce).toNat / 2 ^ k = 0 := Nat.div_eq_of_lt (by omega)
    rw [UInt64.toNat_toUInt32, UInt64.toNat_or, toNat_and_not_mask hmask (by omega),
      UInt32.toNat_toUInt64, or_counter (by omega), hq, Nat.zero_mul, Nat.zero_add]
  · rw [Memory.read32_write32_of_disjoint (by omega)]
    have hhi := (mem.read32 (nonce + 4)).toNat_lt
    have hchi : (counter >>> 32).toNat = counter.toNat / 2 ^ 32 := by
      rw [UInt64.toNat_shiftRight, Nat.shiftRight_eq_div_pow]
      rfl
    have hfit : (mem.read32 (nonce + 4)).toNat / 2 ^ (k - 32) * 2 ^ (k - 32) + 2 ^ (k - 32) ≤
        2 ^ 32 := by
      obtain ⟨d, hd⟩ := Nat.pow_dvd_pow 2 (show k - 32 ≤ 32 by omega)
      have hq : (mem.read32 (nonce + 4)).toNat / 2 ^ (k - 32) < d :=
        (Nat.div_lt_iff_lt_mul (by omega)).mpr (by rw [Nat.mul_comm, ← hd]; exact hhi)
      calc (mem.read32 (nonce + 4)).toNat / 2 ^ (k - 32) * 2 ^ (k - 32) + 2 ^ (k - 32)
          = ((mem.read32 (nonce + 4)).toNat / 2 ^ (k - 32) + 1) * 2 ^ (k - 32) :=
            (Nat.succ_mul _ _).symm
        _ ≤ d * 2 ^ (k - 32) := Nat.mul_le_mul_right _ hq
        _ = 2 ^ 32 := by rw [hd, Nat.mul_comm]
    rw [UInt64.toNat_toUInt32, UInt64.toNat_or, UInt64.toNat_and, UInt32.toNat_toUInt64, hpow64,
      and_high_bits hhi (by omega), hchi, or_counter (by omega)]
    exact Nat.mod_eq_of_lt (by omega)

/-- **The granted counter goes below the fixed bits of the nonce field.** -/
theorem toNat_read64_writeNonce (hmask : mask.toNat = 2 ^ k - 1) (hk : k ≤ 63)
    (hc : counter.toNat ≤ mask.toNat) :
    ((writeNonce mem nonce mask counter).read64 nonce).toNat =
      (mem.read64 nonce).toNat / 2 ^ k * 2 ^ k + counter.toNat := by
  rcases Nat.lt_or_ge 32 k with h | h
  · obtain ⟨v, w, hw, hv, hwv⟩ := writeNonce_hi hmask h hk hc
    rw [hw, Memory.toNat_read64, Memory.toNat_read64, Memory.read32_write32,
      Memory.read32_write32_of_disjoint (by omega), Memory.read32_write32, hv, hwv]
    have hlo := (mem.read32 nonce).toNat_lt
    have hsplit : 2 ^ k = 2 ^ 32 * 2 ^ (k - 32) := by
      rw [← Nat.pow_add, Nat.add_sub_cancel' h.le]
    have hdiv : ((mem.read32 nonce).toNat + 2 ^ 32 * (mem.read32 (nonce + 4)).toNat) / 2 ^ k =
        (mem.read32 (nonce + 4)).toNat / 2 ^ (k - 32) := by
      rw [hsplit, ← Nat.div_div_eq_div_mul, Nat.add_mul_div_left _ _ (by decide),
        Nat.div_eq_of_lt hlo, Nat.zero_add]
    rw [hdiv, hsplit]
    have hcdiv := Nat.mod_add_div counter.toNat (2 ^ 32)
    rw [Nat.mul_add, Nat.mul_left_comm]
    omega
  · obtain ⟨v, hw, hv⟩ := writeNonce_lo hmask h hc
    rw [hw, Memory.toNat_read64, Memory.toNat_read64, Memory.read32_write32,
      Memory.read32_write32_of_disjoint (by omega), hv]
    have hsplit : 2 ^ 32 = 2 ^ k * 2 ^ (32 - k) := by
      rw [← Nat.pow_add, Nat.add_sub_cancel' h]
    rw [hsplit, Nat.mul_assoc, Nat.add_mul_div_left _ _ (Nat.two_pow_pos k), Nat.add_mul,
      Nat.mul_comm (2 ^ k)]
    omega

/-- Bytes outside the 4- or 8-byte field are not written. -/
theorem writeNonce_frame {i : Nat} (h : i < nonce ∨ nonce + 8 ≤ i ∨
    (nonce + 4 ≤ i ∧ mask.toNat < 2 ^ 32)) : writeNonce mem nonce mask counter i = mem i := by
  simp only [writeNonce]
  split_ifs with hgt
  · have := UInt64.lt_iff_toNat_lt.mp hgt
    simp only [UInt64.reduceToNat] at this
    rw [Memory.write32_of_disjoint (by omega), Memory.write32_of_disjoint (by omega)]
  · exact Memory.write32_of_disjoint (by omega)

/-- The nonce field under `mask` starts at `b` and ends by `n`. -/
def FieldFits (mask : UInt64) (b n : Nat) : Prop :=
  b + 8 ≤ n ∨ (b + 4 ≤ n ∧ mask.toNat < 2 ^ 32)

/-- The write seen from the buffer that holds the nonce. -/
theorem part_writeNonce {a b n : Nat} (h : FieldFits mask b n) :
    (writeNonce mem (a + b) mask counter).part a n = writeNonce (mem.part a n) b mask counter := by
  have h4 : b + 4 ≤ n := by
    cases h with
    | inl h => omega
    | inr h => exact h.1
  unfold writeNonce
  split
  · next hgt =>
    have hlt := UInt64.lt_iff_toNat_lt.mp hgt
    simp only [UInt64.reduceToNat] at hlt
    have h8 : b + 8 ≤ n := by
      cases h with
      | inl h => exact h
      | inr h => omega
    rw [Nat.add_assoc, Memory.part_write32 (by omega), Memory.part_write32 h4,
      ← Memory.read32_part (n := n) h4, ← Memory.part_write32 h4,
      ← Memory.read32_part (n := n) (by omega)]
  · rw [Memory.part_write32 h4, ← Memory.read32_part (n := n) h4]

/-- The write seen from another buffer. -/
theorem part_writeNonce_of_disjoint {a b n : Nat}
    (h : b + 8 ≤ a ∨ a + n ≤ b ∨ (b + 4 ≤ a ∧ mask.toNat < 2 ^ 32)) :
    (writeNonce mem b mask counter).part a n = mem.part a n :=
  Memory.part_congr fun _ _ => writeNonce_frame (by omega)

/-! ## What a call returns -/

/-- What `next` does to the atomics and what it returns: neither depends on the
blob. -/
def request (σ : Nonce) (index : Fin 2) (reserveCount : UInt32) (mask : UInt64) :
    Nonce × Option UInt64 :=
  let x := σ.next index (fun _ => 0) 0 reserveCount mask
  (x.1, x.2.2)

/-- The counter a call was granted, if any, goes into the blob. -/
def put (mem : Memory) (nonce : Nat) (mask : UInt64) : Option UInt64 → Memory
  | some c => writeNonce mem nonce (truncMask mask) c
  | none => mem

theorem next_eq : next σ index mem nonce reserveCount mask =
    ((σ.request index reserveCount mask).1, put mem nonce mask (σ.request index reserveCount mask).2,
      (σ.request index reserveCount mask).2) := by
  unfold request next
  by_cases hnever : reserveCount = 0 ∨ truncMask mask < (reserveCount - 1).toUInt64
  · simp only [if_pos hnever, put]
  · simp only [if_neg hnever]
    generalize reserve index reserveCount (truncMask mask) _ _ _ = x
    obtain ⟨σ₁, _ | c⟩ := x <;> rfl

end XLArig.Nonce
