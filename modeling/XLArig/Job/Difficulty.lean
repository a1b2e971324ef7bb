import XLArig.CpuWorker
import XLArig.Job.Checked
import XLArig.SelfSelectClient

/-!
# XLArig.Job.Difficulty

Targets and difficulties.

`toDiff` divides `2 ^ 64 - 1`, in both directions.  The division is rounded down each time, so a
hash under the target has at least the difficulty that the target was made from or that was made
from it; and a target of 32 bits, which goes through a 64-bit target, comes back exactly.
-/

namespace XLArig

namespace Job

/-! ## Division -/

/-- Small divisors come back. -/
theorem div_div_eq {n q : Nat} (hq : 0 < q) (h : q * (q + 1) ≤ n) : n / (n / q) = q := by
  have hle : q + 1 ≤ n / q := by
    rw [Nat.le_div_iff_mul_le hq, Nat.mul_comm]
    exact h
  have hpos : 0 < n / q := by omega
  have hlt : n < (q + 1) * (n / q) := by
    calc n < q * (n / q + 1) := Nat.lt_mul_div_succ n hq
      _ = q * (n / q) + q := Nat.mul_succ _ _
      _ ≤ q * (n / q) + n / q := by omega
      _ = (q + 1) * (n / q) := (Nat.succ_mul _ _).symm
  refine Nat.le_antisymm ?_ ?_
  · exact Nat.le_of_lt_succ ((Nat.div_lt_iff_lt_mul hpos).mpr hlt)
  · exact (Nat.le_div_iff_mul_le hpos).mpr (Nat.mul_div_le n q)

theorem toNat_toDiff (target : UInt64) : (toDiff target).toNat = (2 ^ 64 - 1) / target.toNat := by
  unfold toDiff
  split
  case isTrue h => rw [h, UInt64.toNat_zero, Nat.div_zero]
  case isFalse => exact UInt64.toNat_div _ _

theorem toNat_pos {v : UInt64} (h : v ≠ 0) : 0 < v.toNat :=
  Nat.pos_of_ne_zero fun h0 => h (UInt64.toNat_inj.mp h0)

theorem toDiff_le {v target : UInt64} (hv : v ≠ 0) (h : v < target) :
    toDiff target ≤ toDiff v := by
  rw [UInt64.le_iff_toNat_le, toNat_toDiff, toNat_toDiff]
  exact Nat.div_le_div_left (Nat.le_of_lt h) (toNat_pos hv)

/-- What is below the target of a difficulty has that difficulty. -/
theorem le_toDiff {v diff : UInt64} (hv : v ≠ 0) (h : v < toDiff diff) : diff ≤ toDiff v := by
  rw [UInt64.lt_iff_toNat_lt, toNat_toDiff] at h
  rw [UInt64.le_iff_toNat_le, toNat_toDiff, Nat.le_div_iff_mul_le (toNat_pos hv)]
  calc diff.toNat * v.toNat ≤ diff.toNat * ((2 ^ 64 - 1) / diff.toNat) :=
        Nat.mul_le_mul_left _ h.le
    _ ≤ 2 ^ 64 - 1 := Nat.mul_div_le _ _

/-- The difficulty of a 32-bit target survives the 64-bit target. -/
theorem toDiff_div {word : UInt32} (h : word ≠ 0) :
    toDiff (0xFFFFFFFFFFFFFFFF / (0xFFFFFFFF / word.toUInt64)) = 0xFFFFFFFF / word.toUInt64 := by
  have hlt := word.toNat_lt
  have hpos : 0 < word.toNat := Nat.pos_of_ne_zero fun h0 => h (UInt32.toNat_inj.mp h0)
  have hquot : (0xFFFFFFFF / word.toUInt64 : UInt64).toNat = (2 ^ 32 - 1) / word.toNat := by
    rw [UInt64.toNat_div, UInt32.toNat_toUInt64]
    rfl
  have hq : 0 < (2 ^ 32 - 1) / word.toNat := Nat.div_pos (by omega) hpos
  have hle : (2 ^ 32 - 1) / word.toNat ≤ 2 ^ 32 - 1 := Nat.div_le_self _ _
  have hsquare : (2 ^ 32 - 1) / word.toNat * ((2 ^ 32 - 1) / word.toNat + 1) ≤ 2 ^ 64 - 1 :=
    calc _ ≤ (2 ^ 32 - 1) * (2 ^ 32 - 1 + 1) := Nat.mul_le_mul hle (by omega)
      _ ≤ 2 ^ 64 - 1 := by decide
  rw [← UInt64.toNat_inj, toNat_toDiff, UInt64.toNat_div, hquot]
  exact div_div_eq hq hsquare

/-! ## Jobs -/

section

variable [Features] [Hasher]

/-- The target and the difficulty of a job belong together, and no share that a worker finds is
below the difficulty. -/
structure Fair (job : Job) : Prop where
  target : job.target ≠ 0
  diff : job.diff ≠ 0
  consistent : job.diff = toDiff job.target ∨ job.target = toDiff job.diff
  found : ∀ {N : Nat} (w : CpuWorker N) (nonces : Nat → UInt32), ∀ result ∈ w.results job nonces,
    result.result.read64 24 ≠ 0 → job.diff ≤ SelfSelectClient.actualDiff result

/-- A result is a hash under the target. -/
theorem lt_target_of_mem {N : Nat} {w : CpuWorker N} {job : Job} {nonces : Nat → UInt32}
    {result : JobResult} (h : result ∈ w.results job nonces) :
    result.result.read64 24 < job.target := by
  obtain ⟨i, -, hi⟩ := List.mem_filterMap.mp h
  split at hi
  case isFalse => contradiction
  case isTrue hlt =>
    obtain rfl := Option.some.inj hi
    have hpart : (w.hash.part (i * 32) 32).read64 24 = w.hash.read64 (i * 32 + 24) := by
      simp [Memory.read64, Memory.read32_part, Nat.add_assoc]
    exact (congrArg (· < job.target) hpart).mpr hlt

theorem fair_of_toDiff {job : Job} (htarget : job.target ≠ 0)
    (hdiff : job.diff = toDiff job.target) : Fair job where
  target := htarget
  diff := hdiff ▸ mt toDiff_eq_zero.mp htarget
  consistent := .inl hdiff
  found _ _ _ hmem hne := hdiff ▸ toDiff_le hne (lt_target_of_mem hmem)

theorem fair_of_target {job : Job} (hdiff : job.diff ≠ 0) (htarget : job.target = toDiff job.diff) :
    Fair job where
  target := htarget ▸ mt toDiff_eq_zero.mp hdiff
  diff := hdiff
  consistent := .inr htarget
  found _ _ _ hmem hne := le_toDiff hne (htarget ▸ lt_target_of_mem hmem)

/-- The bytes of a target. -/
def targetData (text : List UInt8) : Memory := Memory.load (fun _ => 0) (Cvt.fromHex text)

/-- Whatever a target or a difficulty is set to, the job is fair, and a 32-bit target has the
difficulty that it stands for. -/
theorem fair_of_set (job : Job) :
    (∀ text, (Cvt.fromHex text).length = 4 → (targetData text).read32 0 ≠ 0 →
      ∃ job', job.setTarget (some text) = .ok (some job') ∧ Fair job' ∧
        job'.diff = 0xFFFFFFFF / ((targetData text).read32 0).toUInt64) ∧
    (∀ text, (Cvt.fromHex text).length = 8 → (targetData text).read64 0 ≠ 0 →
      ∃ job', job.setTarget (some text) = .ok (some job') ∧ Fair job' ∧
        job'.target = (targetData text).read64 0) ∧
    ∀ diff, diff ≠ 0 → Fair (DaemonClient.setDiff job diff) := by
  refine ⟨?_, ?_, ?_⟩
  · intro text hlen hword
    have hword' : ((targetData text).read32 0).toUInt64 ≠ 0 := fun h =>
      hword (UInt32.toNat_inj.mp (by rw [← UInt32.toNat_toUInt64, h]; rfl))
    refine ⟨{ job with
      target := 0xFFFFFFFFFFFFFFFF / (0xFFFFFFFF / ((targetData text).read32 0).toUInt64)
      diff := toDiff (0xFFFFFFFFFFFFFFFF / (0xFFFFFFFF / ((targetData text).read32 0).toUInt64)) },
      ?_, fair_of_toDiff (target_ne_zero hword') rfl, toDiff_div hword⟩
    simp only [setTarget, if_pos hlen]
    exact if_neg hword'
  · intro text hlen htarget
    refine ⟨{ job with
      target := (targetData text).read64 0
      diff := toDiff ((targetData text).read64 0) }, ?_, fair_of_toDiff htarget rfl, rfl⟩
    simp only [setTarget, if_pos hlen]
    exact if_neg (by omega)
  · intro diff hdiff
    exact fair_of_target hdiff rfl

end

/-- The smallest target. -/
theorem fair_of_set_one :
    ∃ job', Job.setTarget Job.empty (some (bytes "01000000")) = .ok (some job') ∧
      @Fair defaultFeatures zeroHasher job' ∧ job'.diff = 0xFFFFFFFF := by
  obtain ⟨job', hset, hfair, hdiff⟩ := (@fair_of_set defaultFeatures zeroHasher Job.empty).1
    (bytes "01000000") (by decide +kernel) (by decide +kernel)
  exact ⟨job', hset, hfair, hdiff.trans (by decide +kernel)⟩

end Job

end XLArig
