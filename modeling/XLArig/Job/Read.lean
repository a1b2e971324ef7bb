import XLArig.Cvt
import XLArig.Job
import XLArig.Json.Read

/-!
# XLArig.Job.Read

How a `Job` is filled from the strings of a message.  A setter that fails leaves a job
that no caller uses any further, so it returns none.
-/

namespace XLArig

namespace Job

/-- `toDiff`. -/
def toDiff (target : UInt64) : UInt64 :=
  if target = 0 then 0 else 0xFFFFFFFFFFFFFFFF / target

def setId (job : Job) (id : CString) : Option Job :=
  if id.isSome then some { job with id } else none

/-- `setTarget`; four bytes are a 32-bit target. -/
def setTarget (job : Job) (target : CString) : Except Crash (Option Job) :=
  match target with
  | none => .ok none
  | some text =>
      let raw := Cvt.fromHex text
      let data := Memory.load (fun _ => 0) raw
      if raw.length = 4 then
        let word := (data.read32 0).toUInt64
        if word = 0 then .error .divisionByZero
        else
          let target := 0xFFFFFFFFFFFFFFFF / (0xFFFFFFFF / word)
          .ok (some { job with
            target
            diff := toDiff target })
      else if raw.length = 8 then
        .ok (some { job with
          target := data.read64 0
          diff := toDiff (data.read64 0) })
      else .ok none

def setSeedHash (job : Job) (hash : CString) : Option Job :=
  match hash with
  | none => none
  | some text =>
      if text.length ≠ 64 then none
      else
        let seed := Cvt.fromHex text
        if seed.isEmpty then none else some { job with seed }

variable [Features]

/-- `setBlob`; a nonce that is not zero is a pool's. -/
def setBlob (job : Job) (blob : CString) : Option Job :=
  match blob with
  | none => none
  | some text =>
      let size := text.length / 2
      if text.length % 2 ≠ 0 then none
      else if size < job.nonceOffset + job.nonceSize ∨ size ≥ maxBlobSize then none
      else
        match Cvt.fromHexInto maxBlobSize text with
        | none => none
        | some data =>
            let mem := job.blob.load data
            some { job with
              size
              blob := mem
              nicehash := mem.read32 job.nonceOffset ≠ 0 || job.nicehash }

/-! ## What the setters take -/

variable {job : Job} {text : CString}

/-- The length of a blob that has room for the nonce and fits into the job. -/
def TakesSize (job : Job) (size : Nat) : Prop :=
  job.nonceOffset + job.nonceSize ≤ size ∧ size < maxBlobSize

instance (job : Job) (size : Nat) : Decidable (job.TakesSize size) :=
  inferInstanceAs (Decidable (_ ∧ _))

/-- The text is hexadecimal, and as long as a blob may be. -/
def TakesBlob (job : Job) (text : List UInt8) : Prop :=
  (∀ c ∈ text, Cvt.IsHex c) ∧ text.length % 2 = 0 ∧ job.TakesSize (text.length / 2)

instance (job : Job) (text : List UInt8) : Decidable (job.TakesBlob text) :=
  inferInstanceAs (Decidable (_ ∧ _))

theorem setBlob_isSome : (job.setBlob text).isSome = true ↔ ∃ s, text = some s ∧ job.TakesBlob s := by
  cases text with
  | none => simp [setBlob]
  | some s =>
      simp only [Option.some.injEq, exists_eq_left']
      unfold setBlob TakesBlob TakesSize
      have hpos : 0 < job.nonceOffset + job.nonceSize := by
        unfold nonceOffset
        split <;> omega
      have hroom : maxBlobSize = 408 := rfl
      dsimp only
      split
      · simp_all
      · next hodd =>
        split
        · next hsize =>
          simp only [Option.isSome_none, Bool.false_eq_true, false_iff]
          omega
        · next hsize =>
          have hsome : (Cvt.fromHexInto maxBlobSize s).isSome = true ↔ _ := Cvt.fromHexInto_isSome
          have hne : s ≠ [] := by
            rintro rfl
            simp only [List.length_nil] at hsize
            omega
          cases hdata : Cvt.fromHexInto maxBlobSize s with
          | none =>
              simp only [hdata, Option.isSome_none, Bool.false_eq_true, false_iff] at hsome ⊢
              intro h
              exact hsome ⟨hne, h.1, h.2.1, by omega⟩
          | some data =>
              simp only [hdata, Option.isSome_some, true_iff] at hsome ⊢
              exact ⟨hsome.2.1, hsome.2.2.1, by omega⟩

/-- What `setBlob` writes. -/
theorem setBlob_eq {s : List UInt8} {job' : Job} (h : job.setBlob (some s) = some job') :
    ∃ data nicehash, Cvt.fromHexInto maxBlobSize s = some data ∧ data.length = s.length / 2 ∧
      job.TakesSize (s.length / 2) ∧
      job' = { job with
        size := s.length / 2
        blob := job.blob.load data
        nicehash } := by
  unfold TakesSize
  simp only [setBlob] at h
  split at h
  · contradiction
  split at h
  · contradiction
  next hsize =>
    cases hdata : Cvt.fromHexInto maxBlobSize s with
    | none => simp only [hdata] at h; contradiction
    | some data =>
        simp only [hdata] at h
        have hlen := Cvt.length_fromHexInto hdata
        exact ⟨data, _, rfl, by omega, by omega, (Option.some.inj h).symm⟩

/-- The blob of a job is read back. -/
theorem slice_setBlob {s : List UInt8} {job' : Job} (h : job.setBlob (some s) = some job') :
    Cvt.fromHexInto maxBlobSize s = some (job'.blob.slice 0 job'.size) := by
  obtain ⟨data, _, hdata, hlen, -, rfl⟩ := setBlob_eq h
  rw [hdata, ← hlen, Memory.slice_load]

omit [Features] in
theorem read32_load_zero {raw : List UInt8} (hlen : raw.length = 4) :
    (Memory.load (fun _ => 0) raw).read32 0 = 0 ↔ raw = List.replicate 4 0 := by
  obtain ⟨a, b, c, d, rfl⟩ : ∃ a b c d, raw = [a, b, c, d] := by
    match raw, hlen with
    | [a, b, c, d], _ => exact ⟨a, b, c, d, rfl⟩
  rw [← UInt32.toNat_inj, Memory.toNat_read32]
  simp only [Memory.load, List.replicate, List.cons.injEq, ← UInt8.toNat_inj]
  simp

omit [Features] in
/-- The target of zeros is divided by. -/
theorem setTarget_ok : (∃ r, job.setTarget text = .ok r) ↔ text ≠ some (List.replicate 8 0x30) := by
  cases text with
  | none => simp [setTarget]
  | some s =>
      have hzeros : Cvt.fromHex s = List.replicate 4 0 ↔ s = List.replicate 8 0x30 :=
        Cvt.fromHex_zeros (by decide)
      unfold setTarget
      dsimp only
      rw [ne_eq, Option.some.injEq, ← hzeros]
      split
      · next hlen =>
        have hword : ((Memory.load (fun _ => 0) (Cvt.fromHex s)).read32 0).toUInt64 = 0 ↔
            Cvt.fromHex s = List.replicate 4 0 := by
          rw [← read32_load_zero hlen, ← UInt64.toNat_inj, ← UInt32.toNat_inj, UInt32.toNat_toUInt64]
          rfl
        split <;> simp_all
      · next hlen =>
        have hne : Cvt.fromHex s ≠ List.replicate 4 0 := by
          intro h
          rw [h] at hlen
          contradiction
        split <;> simp_all

end Job

end XLArig
