import XLArig.WorkerJob.Lanes

/-!
# XLArig.WorkerJob.Field

The nonce field of a blob as a number: its low part is the counter that
`Nonce::next` granted, plus the rounds walked since, and its high part belongs to
the pool.
-/

namespace XLArig

namespace Job

open Nonce (truncMask writeNonce)

variable [Features] {job : Job} {blob : Memory} {c : UInt64} {k : Nat}

/-- How many nonces `Nonce::next` can grant for the job. -/
def space (job : Job) : Nat := (truncMask job.nonceMask).toNat + 1

/-- The nonce field of `blob`, as a blob of the job. -/
def field (job : Job) (blob : Memory) : UInt64 :=
  if job.nonceSize = 8 then blob.read64 job.nonceOffset
  else (blob.read32 job.nonceOffset).toUInt64

/-- The part of the nonce that comes from the counter. -/
def count (job : Job) (blob : Memory) : Nat := (job.field blob).toNat % job.space

/-- The part of the nonce that the pool has fixed. -/
def fixed (job : Job) (blob : Memory) : Nat := (job.field blob).toNat / job.space

theorem space_eq (job : Job) :
    ∃ k ≤ 63, job.space = 2 ^ k ∧ (truncMask job.nonceMask).toNat = 2 ^ k - 1 := by
  obtain ⟨k, hk, hm⟩ := job.nonceMask_isMask.trunc
  have hpos : 0 < 2 ^ k := Nat.two_pow_pos k
  refine ⟨k, hk, ?_, hm⟩
  rw [space, hm]
  omega

theorem Like.space {other : Job} (h : job.Like other) : other.space = job.space := by
  obtain ⟨_, _, rfl⟩ := h
  rfl

theorem Like.field {other : Job} (h : job.Like other) : other.field = job.field := by
  obtain ⟨_, _, rfl⟩ := h
  rfl

theorem Like.count {other : Job} (h : job.Like other) : other.count = job.count := by
  obtain ⟨_, _, rfl⟩ := h
  rfl

theorem Like.fixed {other : Job} (h : job.Like other) : other.fixed = job.fixed := by
  obtain ⟨_, _, rfl⟩ := h
  rfl

theorem space_pos (job : Job) : 0 < job.space := Nat.succ_pos _

theorem field_eq (job : Job) (blob : Memory) :
    (job.field blob).toNat = job.fixed blob * job.space + job.count blob :=
  (Nat.div_add_mod' _ _).symm

/-- A 4-byte nonce has at most 2³² values. -/
theorem space_le (h : job.nonceSize ≠ 8) : job.space ≤ 2 ^ 32 := by
  have h4 := job.nonceSize_cases.resolve_right h
  have hle : (truncMask job.nonceMask).toNat ≤ job.nonceMask.toNat := by
    rw [truncMask, UInt64.toNat_and]
    exact Nat.and_le_left
  have := nonceMask_le h4
  unfold space
  omega

/-- The space of nonces divides the 2³² of one word, or is divided by it. -/
theorem space_dvd (job : Job) : job.space ∣ 2 ^ 32 ∨ 2 ^ 32 ∣ job.space := by
  obtain ⟨k, -, hs, -⟩ := job.space_eq
  rw [hs]
  cases Nat.le_total k 32 with
  | inl h => exact .inl (Nat.pow_dvd_pow 2 h)
  | inr h => exact .inr (Nat.pow_dvd_pow 2 h)

/-- A granted counter goes below the fixed part. -/
theorem field_writeNonce (hc : c.toNat < job.space) :
    (job.field (writeNonce blob job.nonceOffset (truncMask job.nonceMask) c)).toNat =
      job.fixed blob * job.space + c.toNat := by
  obtain ⟨k, hk, hs, hm⟩ := job.space_eq
  have hc' : c.toNat ≤ (truncMask job.nonceMask).toNat := Nat.le_of_lt_succ hc
  unfold field fixed
  by_cases h8 : job.nonceSize = 8
  · simp only [field, if_pos h8, hs]
    exact Nonce.toNat_read64_writeNonce hm hk hc'
  · have hle := space_le h8
    have hk32 : k ≤ 32 := by
      rw [hs] at hle
      exact (Nat.pow_le_pow_iff_right (by decide)).mp hle
    obtain ⟨v, hw, hv⟩ : ∃ v : UInt32,
        writeNonce blob job.nonceOffset (truncMask job.nonceMask) c =
          blob.write32 job.nonceOffset v ∧
        v.toNat = (blob.read32 job.nonceOffset).toNat / 2 ^ k * 2 ^ k + c.toNat :=
      Nonce.writeNonce_lo hm hk32 hc'
    simp only [field, if_neg h8, hs, hw, Memory.read32_write32, UInt32.toNat_toUInt64]
    exact hv

theorem count_writeNonce (hc : c.toNat < job.space) :
    job.count (writeNonce blob job.nonceOffset (truncMask job.nonceMask) c) = c.toNat := by
  rw [count, field_writeNonce hc, Nat.mul_comm, Nat.mul_add_mod, Nat.mod_eq_of_lt hc]

/-- One step of the low word that does not carry out of it. -/
private theorem field_step (h : (job.field blob).toNat % 2 ^ 32 + 1 < 2 ^ 32) :
    (job.field (blob.write32 job.nonceOffset (blob.read32 job.nonceOffset + 1))).toNat =
      (job.field blob).toNat + 1 := by
  have hlo := (blob.read32 job.nonceOffset).toNat_lt
  have hone : (1 : UInt32).toNat = 1 := rfl
  unfold field at h ⊢
  by_cases h8 : job.nonceSize = 8
  · simp only [if_pos h8, Memory.toNat_read64, Memory.read32_write32] at h ⊢
    rw [Memory.read32_write32_of_disjoint (by omega), UInt32.toNat_add, hone,
      Nat.mod_eq_of_lt (by omega)]
    omega
  · simp only [if_neg h8, Memory.read32_write32, UInt32.toNat_toUInt64] at h ⊢
    rw [UInt32.toNat_add, hone, Nat.mod_eq_of_lt (by omega)]

/-- A step inside a window does not carry out of the low word. -/
private theorem low_word_lt (h : job.count blob + 1 < job.space)
    (h32 : job.count blob % 2 ^ 32 + 1 < 2 ^ 32) :
    (job.field blob).toNat % 2 ^ 32 + 1 < 2 ^ 32 := by
  have hlt : (job.field blob).toNat % 2 ^ 32 < 2 ^ 32 := Nat.mod_lt _ (by decide)
  unfold count at h h32
  by_contra hge
  have hmax : (job.field blob).toNat % 2 ^ 32 = 2 ^ 32 - 1 := by omega
  cases job.space_dvd with
  | inl hd =>
      obtain ⟨d, hd'⟩ := hd
      have hmod := Nat.mod_mod_of_dvd (job.field blob).toNat ⟨d, hd'⟩
      have hpos := job.space_pos
      have hlast : (2 ^ 32 - 1) % job.space = job.space - 1 := by
        have hdpos : 0 < d := Nat.pos_of_ne_zero fun h0 => by
          rw [h0, Nat.mul_zero] at hd'
          exact absurd hd' (by decide)
        obtain ⟨e, rfl⟩ : ∃ e, d = e + 1 := ⟨d - 1, by omega⟩
        rw [hd', Nat.mul_succ, Nat.add_sub_assoc hpos, Nat.mul_add_mod,
          Nat.mod_eq_of_lt (Nat.sub_lt hpos Nat.one_pos)]
      rw [hmax, hlast] at hmod
      omega
  | inr hd =>
      rw [Nat.mod_mod_of_dvd _ hd] at h32
      omega

/-- One step inside a window moves the count and nothing else. -/
theorem count_step (h : job.count blob + 1 < job.space)
    (h32 : job.count blob % 2 ^ 32 + 1 < 2 ^ 32) :
    job.count (blob.write32 job.nonceOffset (blob.read32 job.nonceOffset + 1)) =
        job.count blob + 1 ∧
      job.fixed (blob.write32 job.nonceOffset (blob.read32 job.nonceOffset + 1)) =
        job.fixed blob := by
  have hstep := field_step (low_word_lt h h32)
  rw [field_eq job blob, Nat.add_assoc] at hstep
  constructor
  · rw [count, hstep, Nat.mul_comm, Nat.mul_add_mod, Nat.mod_eq_of_lt h]
  · rw [fixed, hstep, Nat.mul_comm, Nat.mul_add_div job.space_pos, Nat.div_eq_of_lt h,
      Nat.add_zero]

end Job

namespace WorkerJob

variable {N : Nat}

/-- The nonce that stands in lane `i`. -/
def laneNonce [Features] (w : WorkerJob N) (i : Nat) : UInt64 := w.currentJob.field (w.lane i)

/-- The counter part of the nonce of lane `i`. -/
def laneCount [Features] (w : WorkerJob N) (i : Nat) : Nat := w.currentJob.count (w.lane i)

/-! ## Rounds -/

theorem toNat_reserveCount : reserveCount.toNat = 2 ^ 15 := rfl

theorem reserveCount_dvd : reserveCount.toNat ∣ 2 ^ 32 := by decide

/-! ## Windows drawn -/

section Drawn

variable [Features] {σ : Nonce} {w : WorkerJob N}

open Nonce (Drawn)

/-- `add` asks for a window for each lane, or for none. -/
theorem add_drawn (job : Job) (ha : σ.Aligned job.index reserveCount)
    (hwrap : (σ.nonces job.index).toNat + N * reserveCount.toNat < 2 ^ 64) :
    Drawn job.index reserveCount job.nonceMask N σ (w.add σ job reserveCount .CPU).1
      (w.add σ job reserveCount .CPU).2.2.reduceOption := by
  cases hsaves : w.saves job with
  | false =>
      obtain ⟨hσ, hrs⟩ := add_keeps hsaves σ reserveCount .CPU
      rw [hσ, hrs]
      exact (Drawn.refl ha).mono_le (Nat.zero_le N)
  | true =>
      rw [add_saves hsaves, save_fst, save_results]
      exact Nonce.requests_drawn job.nonceMask reserveCount_dvd ha N hwrap

/-- `nextRound` asks for windows at a boundary only. -/
theorem nextRound_drawn (ha : σ.Aligned w.index reserveCount)
    (hwrap : w.atBoundary reserveCount →
      (σ.nonces w.index).toNat + N * reserveCount.toNat < 2 ^ 64) :
    Drawn w.index reserveCount w.nonceMask N σ (w.nextRound σ reserveCount 1).1
      (w.nextRound σ reserveCount 1).2.2.1 := by
  by_cases hb : w.atBoundary reserveCount
  · obtain ⟨hσ, hcs⟩ := nextRound_requests σ 1 hb
    have hone : reserveCount * 1 = reserveCount := rfl
    rw [hσ, hcs, hone]
    exact Nonce.requestsWhile_drawn w.nonceMask reserveCount_dvd ha N (hwrap hb)
  · obtain ⟨hσ, hcs⟩ := nextRound_walks σ 1 hb
    rw [hσ, hcs]
    exact (Drawn.refl ha).mono_le (Nat.zero_le N)

end Drawn

/-! ## Steps -/

/-- How many numbers of its window a lane has left behind. -/
def step (w : WorkerJob N) : Nat := w.round.toNat % reserveCount.toNat

theorem step_lt (w : WorkerJob N) : w.step < reserveCount.toNat := Nat.mod_lt _ (by decide)

/-- The mask of the round counter picks its remainder. -/
theorem atBoundary_iff (w : WorkerJob N) :
    w.atBoundary reserveCount ↔ (w.round.toNat + 1) % reserveCount.toNat = 0 := by
  have hone : (1 : UInt32).toNat = 1 := rfl
  have hmask : (reserveCount - 1).toNat = 2 ^ 15 - 1 := rfl
  unfold atBoundary
  rw [← UInt32.toNat_inj, UInt32.toNat_and, hmask, Nat.and_two_pow_sub_one_eq_mod,
    UInt32.toNat_add, hone, Nat.mod_mod_of_dvd _ (by decide), toNat_reserveCount]
  rfl

/-- The step after one more round. -/
theorem step_succ {w w' : WorkerJob N} (h : w'.round = w.round + 1) :
    w'.step = (w.round.toNat + 1) % reserveCount.toNat := by
  have hone : (1 : UInt32).toNat = 1 := rfl
  rw [step, h, UInt32.toNat_add, hone, Nat.mod_mod_of_dvd _ reserveCount_dvd]

theorem step_boundary {w w' : WorkerJob N} (h : w'.round = w.round + 1)
    (hb : w.atBoundary reserveCount) : w'.step = 0 :=
  (step_succ h).trans ((atBoundary_iff w).mp hb)

theorem step_inside {w w' : WorkerJob N} (h : w'.round = w.round + 1)
    (hb : ¬ w.atBoundary reserveCount) : w'.step = w.step + 1 := by
  rw [atBoundary_iff] at hb
  rw [step_succ h]
  have hlt := w.step_lt
  unfold step at hlt ⊢
  rw [toNat_reserveCount] at hb hlt ⊢
  omega

end WorkerJob

end XLArig
