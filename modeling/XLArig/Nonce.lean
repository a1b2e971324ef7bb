import XLArig.Memory
import XLArig.Window

/-!
# XLArig.Nonce

The shared atomics of `crypto/common/Nonce`: the pause flag, one sequence
number per backend and one nonce counter per job index.

`Nonce::next` advances the counter before it looks at the window it got, so its
loop is modelled by the decision of one turn (`turn`) on the counter value the
last `fetch_add` returned.  `next` runs the loop with no other worker between
the turns; the interleaved calls of `XLArig.Nonce.Interleaving` take the same
turns one at a time.

Where the source returns `true`, `next` returns the counter it granted.
-/

namespace XLArig

/-- `Nonce::Backend`. -/
inductive Backend
  | CPU
  | OPENCL
  | CUDA
  deriving DecidableEq, Repr

def Backend.toUInt32 : Backend → UInt32
  | CPU => 0
  | OPENCL => 1
  | CUDA => 2

/-- Index 0, of the user's jobs. -/
abbrev userIndex : Fin 2 := 0

/-- Index 1, of the donation jobs. -/
abbrev donateIndex : Fin 2 := 1

/-- The static members of `Nonce`.  `period` is not in the source: it counts the
resets of each counter, so that two windows can be told to come from one counter
period. -/
structure Nonce where
  paused : Bool
  sequence : Backend → UInt64
  nonces : Fin 2 → UInt64
  period : Fin 2 → Nat

namespace Nonce

/-- The initial values of the static members. -/
def init : Nonce := ⟨true, fun _ => 1, fun _ => 0, fun _ => 0⟩

def isOutdated (σ : Nonce) (backend : Backend) (sequence : UInt64) : Bool :=
  σ.sequence backend != sequence

def pause (σ : Nonce) (paused : Bool) : Nonce := { σ with paused }

def reset (σ : Nonce) (index : Fin 2) : Nonce :=
  { σ with
    nonces := Function.update σ.nonces index 0
    period := Function.update σ.period index (σ.period index + 1) }

/-- `Nonce::stop(Backend)`. -/
def stopBackend (σ : Nonce) (backend : Backend) : Nonce :=
  { σ with sequence := Function.update σ.sequence backend 0 }

/-- `Nonce::touch(Backend)`. -/
def touchBackend (σ : Nonce) (backend : Backend) : Nonce :=
  { σ with sequence := Function.update σ.sequence backend (σ.sequence backend + 1) }

/-- `Nonce::stop()`: every backend at once, and the pause flag is cleared first. -/
def stop (σ : Nonce) : Nonce := { σ.pause false with sequence := fun _ => 0 }

/-- `Nonce::touch()`. -/
def touch (σ : Nonce) : Nonce := { σ with sequence := fun b => σ.sequence b + 1 }

/-- `m_nonces[index].fetch_add(reserveCount)`; the value it returns is the old
counter. -/
def fetchAdd (σ : Nonce) (index : Fin 2) (reserveCount : UInt32) : Nonce :=
  { σ with nonces := Function.update σ.nonces index (σ.nonces index + reserveCount.toUInt64) }

/-! ## The loop of `next` -/

/-- What one turn of the loop decides about the window at `counter`: return
`false`, burn the window and fetch the next one, or grant it.  The flag says
whether `pause(true)` was called on the way. -/
inductive Turn
  | refuse (pause : Bool)
  | retry
  | grant (pause : Bool)
  deriving DecidableEq, Repr

/-- One turn of the loop; `mask` has its top bit cleared already. -/
def turn (mask counter : UInt64) (reserveCount : UInt32) : Turn :=
  if mask < counter then .refuse false
  else if mask - counter ≤ (reserveCount - 1).toUInt64 then
    if mask - counter < (reserveCount - 1).toUInt64 then .refuse true else .grant true
  else if 0xFFFFFFFF - counter.toUInt32.toUInt64 < (reserveCount - 1).toUInt64 then .retry
  else .grant false

/-- The granted counter goes into the bits of the mask; the second word is only
touched by masks of more than 32 bits. -/
def writeNonce (mem : Memory) (nonce : Nat) (mask counter : UInt64) : Memory :=
  let mem := mem.write32 nonce (((mem.read32 nonce).toUInt64 &&& ~~~mask) ||| counter).toUInt32
  if mask > 0xFFFFFFFF then
    mem.write32 (nonce + 4)
      (((mem.read32 (nonce + 4)).toUInt64 &&& (~~~mask >>> 32)) ||| (counter >>> 32)).toUInt32
  else mem

/-- `mask &= 0x7FFFFFFFFFFFFFFF`. -/
def truncMask (mask : UInt64) : UInt64 := mask &&& 0x7FFFFFFFFFFFFFFF

/-- The loop from the turn that looks at `counter`, for at most `turns` turns. -/
def reserve (index : Fin 2) (reserveCount : UInt32) (mask : UInt64) :
    (turns : Nat) → Nonce → (counter : UInt64) → Nonce × Option UInt64
  | 0, σ, _ => (σ, none)
  | turns + 1, σ, counter =>
      match turn mask counter reserveCount with
      | .refuse p => (if p then σ.pause true else σ, none)
      | .retry =>
          reserve index reserveCount mask turns (σ.fetchAdd index reserveCount) (σ.nonces index)
      | .grant p => (if p then σ.pause true else σ, some counter)

/-- `Nonce::next` on the nonce at offset `nonce` of `mem`.  A burnt window lies
below the mask, so `mask / reserveCount + 1` turns are enough
(`reserve_cases`). -/
def next (σ : Nonce) (index : Fin 2) (mem : Memory) (nonce : Nat) (reserveCount : UInt32)
    (mask : UInt64) : Nonce × Memory × Option UInt64 :=
  let mask := truncMask mask
  if reserveCount = 0 ∨ mask < (reserveCount - 1).toUInt64 then (σ, mem, none)
  else
    match reserve index reserveCount mask (mask.toNat / reserveCount.toNat + 1)
      (σ.fetchAdd index reserveCount) (σ.nonces index) with
    | (σ, some counter) => (σ, writeNonce mem nonce mask counter, some counter)
    | (σ, none) => (σ, mem, none)

/-! ## Masks -/

/-- The masks `Job::nonceMask` yields: `k` low bits. -/
def IsMask (mask : UInt64) : Prop := ∃ k ≤ 64, mask.toNat = 2 ^ k - 1

/-- A mask of `k` low bits. -/
def lowMask (k : Nat) : UInt64 := UInt64.ofNat (2 ^ k - 1)

theorem toNat_lowMask {k : Nat} (hk : k ≤ 64) : (lowMask k).toNat = 2 ^ k - 1 := by
  have hpow : 2 ^ k ≤ 2 ^ 64 := Nat.pow_le_pow_right (by decide) hk
  have hpos : 0 < 2 ^ k := Nat.two_pow_pos k
  rw [lowMask, UInt64.toNat_ofNat']
  exact Nat.mod_eq_of_lt (by omega)

/-- The mask the loop works with has at most 63 bits. -/
theorem toNat_truncMask {mask : UInt64} {k : Nat} (hk : mask.toNat = 2 ^ k - 1) :
    (truncMask mask).toNat = 2 ^ min k 63 - 1 := by
  rw [truncMask, UInt64.toNat_and, hk]
  have h63 : (0x7FFFFFFFFFFFFFFF : UInt64).toNat = 2 ^ 63 - 1 := by decide
  rw [h63, Nat.and_two_pow_sub_one_eq_mod]
  rcases Nat.le_total k 63 with hle | hle
  · have hpow : 2 ^ k ≤ 2 ^ 63 := Nat.pow_le_pow_right (by decide) hle
    have hpos : 0 < 2 ^ k := Nat.two_pow_pos k
    rw [Nat.min_eq_left hle]
    exact Nat.mod_eq_of_lt (by omega)
  · obtain ⟨d, rfl⟩ := Nat.exists_eq_add_of_le hle
    have hpos : 0 < 2 ^ d := Nat.two_pow_pos d
    rw [Nat.min_eq_right hle, Nat.pow_add]
    have hsplit : 2 ^ 63 * 2 ^ d - 1 = 2 ^ 63 * (2 ^ d - 1) + (2 ^ 63 - 1) := by
      rw [Nat.mul_sub]; omega
    rw [hsplit, Nat.mul_add_mod, Nat.mod_eq_of_lt (by decide)]

/-- Every mask leaves the loop a mask of at most 63 bits. -/
theorem IsMask.trunc {mask : UInt64} (h : IsMask mask) :
    ∃ k ≤ 63, (truncMask mask).toNat = 2 ^ k - 1 :=
  let ⟨k, _, hk⟩ := h
  ⟨min k 63, Nat.min_le_right _ _, toNat_truncMask hk⟩

/-! ## One turn -/

/-- The five ways a turn can go, as facts about natural numbers. -/
theorem turn_cases (mask counter : UInt64) {reserveCount : UInt32} (h0 : reserveCount ≠ 0) :
    (mask.toNat < counter.toNat ∧ turn mask counter reserveCount = .refuse false) ∨
    (counter.toNat ≤ mask.toNat ∧ mask.toNat + 1 < counter.toNat + reserveCount.toNat ∧
      turn mask counter reserveCount = .refuse true) ∨
    (counter.toNat + reserveCount.toNat = mask.toNat + 1 ∧
      turn mask counter reserveCount = .grant true) ∨
    (counter.toNat + reserveCount.toNat ≤ mask.toNat ∧
      2 ^ 32 < counter.toNat % 2 ^ 32 + reserveCount.toNat ∧
      turn mask counter reserveCount = .retry) ∨
    (counter.toNat + reserveCount.toNat ≤ mask.toNat ∧
      counter.toNat % 2 ^ 32 + reserveCount.toNat ≤ 2 ^ 32 ∧
      turn mask counter reserveCount = .grant false) := by
  have hn : 0 < reserveCount.toNat :=
    Nat.pos_of_ne_zero fun h => h0 (UInt32.toNat_inj.mp h)
  have hsub : (reserveCount - 1).toUInt64.toNat = reserveCount.toNat - 1 := by
    have hone : (1 : UInt32) ≤ reserveCount := UInt32.le_iff_toNat_le.mpr hn
    rw [UInt32.toNat_toUInt64, UInt32.toNat_sub_of_le _ _ hone]
    rfl
  have hlow : (0xFFFFFFFF - counter.toUInt32.toUInt64).toNat = 2 ^ 32 - 1 - counter.toNat % 2 ^ 32 := by
    have hlt : counter.toUInt32.toUInt64.toNat = counter.toNat % 2 ^ 32 := by simp
    rw [UInt64.toNat_sub_of_le _ _ (by
      rw [UInt64.le_iff_toNat_le, hlt]
      exact Nat.le_of_lt_succ (Nat.mod_lt _ (by decide))), hlt]
    rfl
  by_cases hc : mask < counter
  · exact .inl ⟨UInt64.lt_iff_toNat_lt.mp hc, if_pos hc⟩
  · have hle : counter.toNat ≤ mask.toNat := by
      rw [UInt64.lt_iff_toNat_lt] at hc; omega
    have hdiff : (mask - counter).toNat = mask.toNat - counter.toNat :=
      UInt64.toNat_sub_of_le _ _ (UInt64.le_iff_toNat_le.mpr hle)
    have hturn : turn mask counter reserveCount =
        if mask.toNat - counter.toNat ≤ reserveCount.toNat - 1 then
          if mask.toNat - counter.toNat < reserveCount.toNat - 1 then .refuse true else .grant true
        else if 2 ^ 32 - 1 - counter.toNat % 2 ^ 32 < reserveCount.toNat - 1 then .retry
        else .grant false := by
      rw [turn, if_neg hc]
      simp only [UInt64.le_iff_toNat_le, UInt64.lt_iff_toNat_lt, hsub, hlow, hdiff]
    refine .inr ?_
    by_cases h1 : mask.toNat - counter.toNat ≤ reserveCount.toNat - 1
    · rw [if_pos h1] at hturn
      by_cases h2 : mask.toNat - counter.toNat < reserveCount.toNat - 1
      · rw [if_pos h2] at hturn
        exact .inl ⟨hle, by omega, hturn⟩
      · rw [if_neg h2] at hturn
        exact .inr (.inl ⟨by omega, hturn⟩)
    · rw [if_neg h1] at hturn
      by_cases h3 : 2 ^ 32 - 1 - counter.toNat % 2 ^ 32 < reserveCount.toNat - 1
      · rw [if_pos h3] at hturn
        exact .inr (.inr (.inl ⟨by omega, by omega, hturn⟩))
      · rw [if_neg h3] at hturn
        exact .inr (.inr (.inr ⟨by omega, by omega, hturn⟩))

/-- **A granted window is inside the mask and crosses no multiple of 2³².** -/
theorem turn_grant {mask counter : UInt64} {reserveCount : UInt32} {p : Bool} {k : Nat}
    (h0 : reserveCount ≠ 0) (hmask : mask.toNat = 2 ^ k - 1)
    (h : turn mask counter reserveCount = .grant p) :
    counter.toNat + reserveCount.toNat ≤ mask.toNat + 1 ∧
      (⟨counter.toNat, reserveCount.toNat⟩ : Window).Within (2 ^ 32) ∧
      (p = true → counter.toNat + reserveCount.toNat = mask.toNat + 1) := by
  have hn : reserveCount.toNat < 2 ^ 32 := reserveCount.toNat_lt
  have hpos : 0 < 2 ^ k := Nat.two_pow_pos k
  simp only [Window.Within]
  rcases turn_cases mask counter h0 with
    ⟨_, ht⟩ | ⟨_, _, ht⟩ | ⟨hlast, _⟩ | ⟨_, _, ht⟩ | ⟨hle, hin, ht⟩
  · rw [ht] at h; contradiction
  · rw [ht] at h; contradiction
  · refine ⟨by omega, ?_, fun _ => hlast⟩
    -- the last window ends at the mask, so the block it ends with ends there too
    have hsum : counter.toNat + reserveCount.toNat = 2 ^ k := by omega
    rcases Nat.le_total k 32 with hk | hk
    · have hpow : 2 ^ k ≤ 2 ^ 32 := Nat.pow_le_pow_right (by decide) hk
      have := Nat.mod_le counter.toNat (2 ^ 32)
      omega
    · obtain ⟨d, rfl⟩ := Nat.exists_eq_add_of_le hk
      rw [Nat.pow_add] at hsum
      omega
  · rw [ht] at h; contradiction
  · rw [ht] at h
    refine ⟨by omega, hin, ?_⟩
    rintro rfl
    contradiction

/-- A retry happens strictly below the mask. -/
theorem turn_retry {mask counter : UInt64} {reserveCount : UInt32}
    (h0 : reserveCount ≠ 0) (h : turn mask counter reserveCount = .retry) :
    counter.toNat + reserveCount.toNat ≤ mask.toNat := by
  rcases turn_cases mask counter h0 with
    ⟨_, ht⟩ | ⟨_, _, ht⟩ | ⟨_, ht⟩ | ⟨hle, _, _⟩ | ⟨_, _, ht⟩
  · rw [ht] at h; contradiction
  · rw [ht] at h; contradiction
  · rw [ht] at h; contradiction
  · exact hle
  · rw [ht] at h; contradiction

/-- A refusal: the window reaches past the mask. -/
theorem turn_refuse {mask counter : UInt64} {reserveCount : UInt32} {p : Bool}
    (h0 : reserveCount ≠ 0) (h : turn mask counter reserveCount = .refuse p) :
    mask.toNat + 1 < counter.toNat + reserveCount.toNat := by
  have hn : 0 < reserveCount.toNat :=
    Nat.pos_of_ne_zero fun h => h0 (UInt32.toNat_inj.mp h)
  rcases turn_cases mask counter h0 with
    ⟨hlt, _⟩ | ⟨_, hlt, _⟩ | ⟨_, ht⟩ | ⟨_, _, ht⟩ | ⟨_, _, ht⟩
  · omega
  · exact hlt
  · rw [ht] at h; contradiction
  · rw [ht] at h; contradiction
  · rw [ht] at h; contradiction

end Nonce

end XLArig
