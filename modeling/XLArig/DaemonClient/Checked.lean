import XLArig.DaemonClient
import XLArig.Job.Checked

/-!
# XLArig.DaemonClient.Checked

Which templates of a daemon make a job that is sound.

The blob is looked at when it is taken.  The algorithm, the difficulty and the seed are not,
and the listener is not asked for the algorithm: `sound_parseJob_iff` says what a template
must have instead.
-/

namespace XLArig

namespace DaemonClient

variable [Features] {s t : DaemonClient} {params : Json} {random : Memory} {leaves : Bool}

/-- The client asks its listener for no algorithm. -/
def Accepted (_ : Algorithm) : Prop := False

/-- The algorithm of a template. -/
def finalAlgorithm (pool : Pool) (blob : List UInt8) : Algorithm :=
  if pool.coin.isValid then pool.coin.algorithm (Job.blobVersion blob) else pool.algorithm

/-- The algorithm is one, there is a difficulty, the blob is long enough for the algorithm,
and a seed comes with a RandomX template. -/
structure Suffices (s : DaemonClient) (params : Json) (blob : List UInt8) : Prop where
  algorithm : (finalAlgorithm s.pool blob).isValid = true
  difficulty : params.getUint64 (bytes "difficulty") ≠ 0
  nonce : Job.LongEnough s.pool.algorithm (finalAlgorithm s.pool blob) blob
  seed : (finalAlgorithm s.pool blob).family = .RANDOM_X →
    ∃ text ∈ params.getString (bytes "seed_hash"), Job.SeedText text

omit [Features] in
/-- The seed of a job that had none. -/
theorem seed_getD {job : Job} (h : job.seed = []) (hash : CString) :
    ((job.setSeedHash hash).getD job).seed.length = Job.maxSeedSize ↔
      ∃ text ∈ hash, Job.SeedText text := by
  cases hash with
  | none => simp [Job.setSeedHash, h, Job.maxSeedSize]
  | some text =>
      simp only [Job.setSeedHash, Option.mem_def, Option.some.injEq, exists_eq_left']
      split
      · next hlen => simp [h, Job.maxSeedSize, Job.SeedText, hlen]
      next hlen =>
        rw [← Job.length_fromHex_seed (by simpa [Job.maxSeedSize] using hlen)]
        split
        · next hempty =>
          rw [List.isEmpty_iff.mp hempty]
          simp [h, Job.maxSeedSize]
        · rfl

omit [Features] in
theorem job_setConnected : (s.setConnected leaves).job = s.job := by
  unfold setConnected
  cases leaves with
  | true => simp only [if_true, disconnect_eq]; rfl
  | false => rfl

omit [Features] in
theorem job_takeTemplate (template : CString) (job : Job) :
    (s.takeTemplate params template job leaves).job = s.fillJob params template job := by
  unfold takeTemplate
  dsimp only
  split
  · exact job_setConnected
  · rfl

/-- The job of a template that is taken. -/
theorem job_parseJob (h : s.parseJob params random leaves = (t, true)) :
    ∃ job, s.newJob.setBlob (s.hashingBlob params random) = some job ∧
      t.job = s.fillJob params (params.getString (bytes "blocktemplate_blob")) job := by
  unfold parseJob at h
  dsimp only at h
  generalize hu : ite (s.apiVersion = ApiVersion.DERO) _ _ = u at h
  have hpool : u.pool = s.pool := by
    rw [← hu]
    split <;> rfl
  split at h
  · exact absurd (Prod.mk.inj h).2 nofun
  cases hblob : s.newJob.setBlob (s.hashingBlob params random) with
  | none =>
      simp only [newJob, hpool] at h hblob
      rw [hblob] at h
      exact absurd (Prod.mk.inj h).2 nofun
  | some job =>
      simp only [newJob, hpool] at h hblob
      rw [hblob] at h
      obtain ⟨rfl, -⟩ := Prod.mk.inj h
      refine ⟨job, rfl, ?_⟩
      rw [job_takeTemplate]
      simp only [fillJob, hpool]

/-- The job that is taken is handed to the listener. -/
theorem log_parseJob (h : s.parseJob params random leaves = (t, true)) :
    (t.intent, .onJobReceived t.job) ∈ t.log := by
  unfold parseJob at h
  dsimp only at h
  split at h
  · exact absurd (Prod.mk.inj h).2 nofun
  split at h
  · exact absurd (Prod.mk.inj h).2 nofun
  · obtain ⟨rfl, -⟩ := Prod.mk.inj h
    exact List.mem_cons_self

omit [Features] in
/-- Only the seed is taken. -/
theorem getD_setSeedHash (job : Job) (hash : CString) :
    ∃ seed, (job.setSeedHash hash).getD job = { job with seed } := by
  cases hjob : job.setSeedHash hash with
  | none => exact ⟨job.seed, rfl⟩
  | some job' =>
      obtain ⟨seed, rfl, -⟩ := Job.setSeedHash_eq hjob
      exact ⟨seed, rfl⟩

omit [Features] in
/-- What a template makes of the job. -/
theorem fillJob_eq (template : CString) (job : Job) : ∃ job', s.fillJob params template job = job' ∧
    job'.algorithm = (if s.pool.coin.isValid then s.pool.coin.algorithm (job.blob 0)
      else job.algorithm) ∧
    job'.size = job.size ∧ job'.diff = params.getUint64 (bytes "difficulty") ∧
    job'.seed = ((job.setSeedHash (params.getString (bytes "seed_hash"))).getD job).seed := by
  refine ⟨_, rfl, ?_⟩
  obtain ⟨seed, hseed⟩ := getD_setSeedHash job (params.getString (bytes "seed_hash"))
  unfold fillJob
  rw [hseed]
  dsimp only
  split <;> exact ⟨rfl, rfl, rfl, rfl⟩

/-- **Which jobs of a daemon are sound.** -/
theorem sound_parseJob_iff (h : s.parseJob params random leaves = (t, true)) :
    t.job.Sound ↔ ∃ blob ∈ s.hashingBlob params random, s.Suffices params blob := by
  obtain ⟨job, hblob, hjob⟩ := job_parseJob h
  cases htext : s.hashingBlob params random with
  | none => rw [htext] at hblob; contradiction
  | some text =>
      rw [htext] at hblob
      simp only [Option.mem_def, Option.some.injEq, exists_eq_left']
      obtain ⟨job', heq, halgorithm, hsize, hdiff, hseed⟩ := fillJob_eq (s := s) _ job
      rw [heq] at hjob
      have hkept : job.algorithm = s.pool.algorithm ∧ job.seed = [] := by
        obtain ⟨_, _, -, -, -, rfl⟩ := Job.setBlob_eq hblob
        exact ⟨rfl, rfl⟩
      have hfinal : job'.algorithm = finalAlgorithm s.pool text := by
        rw [halgorithm, Job.blob_setBlob hblob, hkept.1]
        rfl
      have hnonce : job'.nonceOffset + job'.nonceSize ≤ job'.size ↔
          Job.LongEnough s.pool.algorithm job'.algorithm text := Job.nonce_setBlob hblob hsize
      have hlen := seed_getD hkept.2 (params.getString (bytes "seed_hash"))
      rw [← hseed] at hlen
      have hpos := Job.size_setBlob hblob
      rw [hjob]
      constructor
      · intro hsound
        refine ⟨hfinal ▸ hsound.algorithm, hdiff ▸ hsound.diff, hfinal ▸ hnonce.mp hsound.nonce, ?_⟩
        rw [← hfinal]
        exact fun hfamily => hlen.mp (hsound.seed hfamily)
      · rintro ⟨halgo, hne, hlong, hgiven⟩
        rw [← hfinal] at halgo hlong hgiven
        exact ⟨halgo, hdiff ▸ hne, hsize ▸ hpos, hnonce.mpr hlong,
          fun hfamily => hlen.mpr (hgiven hfamily)⟩

end DaemonClient

end XLArig
