import XLArig.Job.Read
import XLArig.Pool

/-!
# XLArig.Job.Checked

What a job must have before it is mined, and what the setters leave to be checked.

The blob is taken for the algorithm that the job has by then.  The algorithm that it has in
the end may come from the coin and the first byte of the blob, so it may need a longer one.
-/

namespace XLArig

namespace Job

/-- `Job::kMaxSeedSize`. -/
def maxSeedSize : Nat := 32

/-- The first byte of a blob. -/
def blobVersion (blob : List UInt8) : UInt8 :=
  (((Cvt.fromHexInto maxBlobSize blob).getD [])[0]?).getD 0

variable [Features]

/-- The job can be hashed, and its nonce and seed are where they have to be. -/
structure Sound (job : Job) : Prop where
  algorithm : job.algorithm.isValid = true
  diff : job.diff ≠ 0
  blob : 0 < job.size
  nonce : job.nonceOffset + job.nonceSize ≤ job.size
  seed : job.algorithm.family = .RANDOM_X → job.seed.length = maxSeedSize

/-- The job is sound, and its algorithm one that was accepted. -/
structure Checked (accepted : Algorithm → Prop) (job : Job) : Prop extends Sound job where
  accepted : accepted job.algorithm

/-- A blob that was taken for `algorithm` has the nonce of `final`. -/
def LongEnough (algorithm final : Algorithm) (blob : List UInt8) : Prop :=
  algorithm.family = .KAWPOW → final.family ≠ .KAWPOW → 86 ≤ blob.length

/-- The text of a seed. -/
def SeedText (text : List UInt8) : Prop := text.length = maxSeedSize * 2 ∧ ∀ c ∈ text, Cvt.IsHex c

variable {job job' : Job} {text : List UInt8}

/-! ## What the setters take -/

theorem blob_setBlob (h : job.setBlob (some text) = some job') : job'.blob 0 = blobVersion text := by
  obtain ⟨data, _, hdata, hlen, hsize, rfl⟩ := setBlob_eq h
  have hpos : 0 < data.length := by
    have hoffset : 0 < job.nonceOffset := by
      unfold nonceOffset
      split <;> omega
    have := hsize.1
    omega
  simp [blobVersion, hdata, Memory.load, hpos]

/-- What `setBlob` did not check. -/
theorem nonce_setBlob (h : job.setBlob (some text) = some job') {final : Job}
    (hfinal : final.size = job'.size) :
    final.nonceOffset + final.nonceSize ≤ final.size ↔
      LongEnough job.algorithm final.algorithm text := by
  obtain ⟨hhex, heven, hsize⟩ : job.TakesBlob text := by
    obtain ⟨s, hs, htakes⟩ := setBlob_isSome.mp (Option.isSome_iff_exists.mpr ⟨_, h⟩)
    rwa [Option.some.inj hs]
  obtain ⟨_, _, -, -, -, rfl⟩ := setBlob_eq h
  simp only at hfinal
  have hroom := hsize.1
  rw [hfinal]
  unfold LongEnough
  simp only [nonceOffset, nonceSize] at hroom ⊢
  split at hroom <;> split <;> simp_all <;> omega

theorem size_setBlob (h : job.setBlob (some text) = some job') : 0 < job'.size := by
  obtain ⟨_, _, -, -, hsize, rfl⟩ := setBlob_eq h
  have hoffset : 0 < job.nonceOffset := by
    unfold nonceOffset
    split <;> omega
  have := hsize.1
  simp only
  omega

omit [Features] in
/-- A seed is taken just when it is one, and then it has its length. -/
theorem length_fromHex_seed (hlen : text.length = maxSeedSize * 2) :
    (Cvt.fromHex text).length = maxSeedSize ↔ SeedText text := by
  have hsome : (Cvt.fromHexInto (text.length / 2) text).isSome = true ↔ ∀ c ∈ text, Cvt.IsHex c := by
    have hne : text ≠ [] := by
      rintro rfl
      simp [maxSeedSize] at hlen
    rw [Cvt.fromHexInto_isSome]
    simp only [maxSeedSize] at hlen
    constructor
    · exact fun h => h.2.1
    · exact fun h => ⟨hne, h, by omega, by omega⟩
  unfold SeedText Cvt.fromHex
  cases hout : Cvt.fromHexInto (text.length / 2) text with
  | none => simp_all [maxSeedSize]
  | some out =>
      have := Cvt.length_fromHexInto hout
      simp_all

omit [Features] in
theorem toDiff_eq_zero {target : UInt64} : toDiff target = 0 ↔ target = 0 := by
  unfold toDiff
  split
  · next h => simp [h]
  · next h =>
    have hlt := target.toNat_lt
    have hpos : 0 < target.toNat := by
      rw [Nat.pos_iff_ne_zero, ne_eq, ← UInt64.toNat_zero, UInt64.toNat_inj]
      exact h
    simp only [h, iff_false, ← UInt64.toNat_inj, UInt64.toNat_div]
    have hone : 0 < (0xFFFFFFFFFFFFFFFF : UInt64).toNat / target.toNat := by
      refine Nat.div_pos ?_ hpos
      show target.toNat ≤ 2 ^ 64 - 1
      omega
    exact hone.ne'

omit [Features] in
theorem read64_load_zero {raw : List UInt8} (hlen : raw.length = 8) :
    (Memory.load (fun _ => 0) raw).read64 0 = 0 ↔ raw = List.replicate 8 0 := by
  obtain ⟨a, b, c, d, e, f, g, h, rfl⟩ : ∃ a b c d e f g h, raw = [a, b, c, d, e, f, g, h] := by
    match raw, hlen with
    | [a, b, c, d, e, f, g, h], _ => exact ⟨a, b, c, d, e, f, g, h, rfl⟩
  rw [← UInt64.toNat_inj, Memory.toNat_read64, Memory.toNat_read32, Memory.toNat_read32]
  simp only [Memory.load, List.replicate, List.cons.injEq, ← UInt8.toNat_inj]
  simp
  omega

omit [Features] in
/-- A target of four bytes. -/
theorem target_ne_zero {word : UInt32} (h : word.toUInt64 ≠ 0) :
    (0xFFFFFFFFFFFFFFFF : UInt64) / (0xFFFFFFFF / word.toUInt64) ≠ 0 := by
  have hlt := word.toNat_lt
  have hpos : 0 < word.toNat := by
    rw [Nat.pos_iff_ne_zero, ← UInt32.toNat_toUInt64, ← UInt64.toNat_zero]
    exact fun heq => h (UInt64.toNat_inj.mp heq)
  have hquot : 0 < (2 ^ 32 - 1) / word.toNat := Nat.div_pos (by omega) hpos
  have hle : (2 ^ 32 - 1) / word.toNat ≤ 2 ^ 32 - 1 := Nat.div_le_self _ _
  have hone : 0 < (2 ^ 64 - 1) / ((2 ^ 32 - 1) / word.toNat) := Nat.div_pos (by omega) hquot
  rw [ne_eq, ← UInt64.toNat_inj, UInt64.toNat_div, UInt64.toNat_div, UInt32.toNat_toUInt64]
  exact hone.ne'

omit [Features] in
/-- Only a target of sixteen zeros gives a job without a difficulty. -/
theorem diff_setTarget (h : job.setTarget (some text) = .ok (some job')) :
    job'.diff = 0 ↔ text = List.replicate 16 0x30 := by
  have hzeros : Cvt.fromHex text = List.replicate 8 0 ↔ text = List.replicate 16 0x30 :=
    Cvt.fromHex_zeros (by decide)
  rw [← hzeros]
  simp only [setTarget] at h
  split at h
  · next hlen =>
    split at h
    · contradiction
    next hword =>
      obtain rfl := Option.some.inj (Except.ok.inj h)
      have hne : Cvt.fromHex text ≠ List.replicate 8 0 := by
        intro h8
        rw [h8] at hlen
        contradiction
      simp only [toDiff_eq_zero, hne, iff_false]
      exact target_ne_zero hword
  split at h
  · next hlen =>
    obtain rfl := Option.some.inj (Except.ok.inj h)
    dsimp only
    rw [toDiff_eq_zero, read64_load_zero hlen]
  · have hnone := Except.ok.inj h
    contradiction

omit [Features] in
/-- The target and the difficulty are set together. -/
theorem setTarget_eq (h : job.setTarget (some text) = .ok (some job')) :
    ∃ target diff, job' = { job with
      target
      diff } := by
  simp only [setTarget] at h
  split at h
  · split at h
    · contradiction
    · exact ⟨_, _, (Option.some.inj (Except.ok.inj h)).symm⟩
  split at h
  · exact ⟨_, _, (Option.some.inj (Except.ok.inj h)).symm⟩
  · have hnone := Except.ok.inj h
    contradiction

omit [Features] in
theorem setSeedHash_eq {hash : CString} (h : job.setSeedHash hash = some job') :
    ∃ seed, job' = { job with seed } ∧ seed.length = maxSeedSize := by
  cases hash with
  | none => contradiction
  | some text =>
      simp only [setSeedHash] at h
      split at h
      · contradiction
      next hlen =>
        split at h
        · contradiction
        next hseed =>
          refine ⟨_, (Option.some.inj h).symm, ?_⟩
          unfold Cvt.fromHex at hseed ⊢
          cases hout : Cvt.fromHexInto (text.length / 2) text with
          | none => simp [hout] at hseed
          | some out =>
              have := Cvt.length_fromHexInto hout
              simp only [Option.getD_some, maxSeedSize]
              omega

end Job

end XLArig
