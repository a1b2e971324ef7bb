import XLArig.Client.Messages
import XLArig.Job.Checked

/-!
# XLArig.Client.Messages.Checked

Which jobs a client hands to its listener.

The algorithm of a job is verified last, and the seed after it; but the blob is taken for the
algorithm of the pool, and only a login looks at the difficulty.  `checked_parse` says which
jobs have been checked.
-/

namespace XLArig

namespace Client

/-- The line hands a job to the listener. -/
def Line.Delivers : Line → Prop
  | .job => True
  | .login _ handed => handed = true
  | .other | .failed _ | .redirect _ _ _ => False

namespace Messages

/-- The algorithm that a job has in the end. -/
def finalAlgorithm [Features] (pool : Pool) (params : Json) (blob : List UInt8) : Algorithm :=
  let algo := params.getString (bytes "algo")
  if algo.isSome then .parse algo
  else if pool.coin.isValid then pool.coin.algorithm (Job.blobVersion blob)
  else pool.algorithm

/-- The job of a document: that of a login, or that of a notification. -/
def jobOf (doc : Json) : Json :=
  if ((doc.getValue (bytes "id")).int64?).isSome then
    (doc.getValue (bytes "result")).getValue (bytes "job")
  else doc.getValue (bytes "params")

variable [Features]

/-- The pool gives its blobs, the target of a notification is not sixteen zeros, and the
blob is long enough for the algorithm that the job has in the end. -/
structure Pays (s : Messages) (doc : Json) : Prop where
  mode : s.pool.mode ≠ .SELF_SELECT
  target : (doc.getValue (bytes "id")).int64? = none →
    (jobOf doc).getString (bytes "target") ≠ some (List.replicate 16 0x30)
  nonce : ∀ blob ∈ (jobOf doc).getString (bytes "blob"),
    Job.LongEnough s.pool.algorithm (finalAlgorithm s.pool (jobOf doc) blob) blob

variable {s t : Messages} {ctx : Context} {params result : Json} {verify : Algorithm → Bool}
variable {l : Line} {job job' : Job}

/-! ## Jobs -/

omit [Features] in
theorem readTarget_ok (h : readTarget params job = .ok (some job')) :
    ∃ text, params.getString (bytes "target") = some text ∧
      job.setTarget (some text) = .ok (some job') := by
  obtain ⟨text, htext, h⟩ := bind_ok.mp h
  exact ⟨text, Json.asString_ok.mp htext, h⟩

theorem setAlgorithm_eq : s.setAlgorithm params job = { job with
    algorithm :=
      if (params.getString (bytes "algo")).isSome then .parse (params.getString (bytes "algo"))
      else if s.pool.coin.isValid then s.pool.coin.algorithm (job.blob 0)
      else job.algorithm } := by
  unfold setAlgorithm
  dsimp only
  split
  · rfl
  · split <;> rfl

/-- The seed of a RandomX job has its length. -/
theorem readSeed_ok (h : s.readSeed params job = some job') :
    ∃ seed, job' = { job with seed } ∧
      (s.pool.mode ≠ .SELF_SELECT → job.algorithm.family = .RANDOM_X →
        seed.length = Job.maxSeedSize) := by
  unfold readSeed at h
  split at h
  · obtain ⟨seed, heq, hlen⟩ := Job.setSeedHash_eq h
    exact ⟨seed, heq, fun _ _ => hlen⟩
  · next hneeds =>
    refine ⟨job.seed, (Option.some.inj h).symm, fun hmode hfamily => ?_⟩
    exact absurd ⟨hmode, hfamily⟩ hneeds

/-- How a job was read that is taken: from one that has its blob, with its target, the
algorithm that was verified, and its seed. -/
structure ReadFrom (s : Messages) (verify : Algorithm → Bool) (params : Json)
    (raw job : Job) : Prop where
  readBlob : ∃ id, s.readBlob params { s.newJob with id := some id } = .ok (some raw)
  size : job.size = raw.size
  poolWallet : job.poolWallet = raw.poolWallet
  target : ∃ text, params.getString (bytes "target") = some text ∧
    (job.diff = 0 ↔ text = List.replicate 16 0x30)
  algorithm : job.algorithm = (s.setAlgorithm params raw).algorithm
  verified : verifyAlgorithm verify job.algorithm = true
  seed : s.pool.mode ≠ .SELF_SELECT → job.algorithm.family = .RANDOM_X →
    job.seed.length = Job.maxSeedSize

theorem parseJob_taken (h : s.parseJob verify params = .ok (t, none)) :
    ∃ raw, s.ReadFrom verify params raw t.job := by
  unfold parseJob at h
  split at h
  · exact absurd (Except.ok.inj h) nofun
  obtain ⟨id, -, h⟩ := bind_ok.mp h
  simp only [Job.setId, Option.isSome_some, if_true] at h
  obtain ⟨raw, hraw, h⟩ := bind_ok.mp h
  cases raw with
  | none => exact absurd (Except.ok.inj h) nofun
  | some raw =>
      obtain ⟨job, htarget, h⟩ := bind_ok.mp h
      cases job with
      | none => exact absurd (Except.ok.inj h) nofun
      | some job =>
          obtain ⟨text, htext, htarget⟩ := readTarget_ok htarget
          have hdiff := Job.diff_setTarget htarget
          obtain ⟨target, diff, rfl⟩ := Job.setTarget_eq htarget
          have h := Except.ok.inj h
          simp only [finishJob] at h
          split at h
          · exact absurd h nofun
          next hverify =>
            cases hseed : s.readSeed params { s.setAlgorithm params { raw with
                target
                diff } with
              height := params.getUint64 (bytes "height") } with
            | none => simp only [hseed] at h; exact absurd h nofun
            | some job =>
                simp only [hseed, takeJob] at h
                obtain ⟨seed, rfl, hlen⟩ := readSeed_ok hseed
                split at h
                · obtain ⟨rfl, -⟩ := Prod.mk.inj h
                  simp only [setAlgorithm_eq] at hverify hlen ⊢
                  refine ⟨raw, ⟨id, hraw⟩, rfl, rfl, ⟨text, htext, hdiff⟩, ?_, by simpa using hverify, hlen⟩
                  rw [setAlgorithm_eq]
                · split at h <;> exact absurd h nofun

variable {raw : Job}

/-- A self-select job has no blob. -/
theorem ReadFrom.size_eq (h : s.ReadFrom verify params raw job)
    (hmode : s.pool.mode = .SELF_SELECT) : job.size = 0 := by
  obtain ⟨id, hraw⟩ := h.readBlob
  unfold Messages.readBlob at hraw
  rw [if_pos hmode] at hraw
  have hraw := Except.ok.inj hraw
  split at hraw
  · contradiction
  · rw [h.size, ← Option.some.inj hraw]
    rfl

/-- A job that comes with its blob. -/
theorem ReadFrom.checked_iff (h : s.ReadFrom verify params raw job)
    (hmode : s.pool.mode ≠ .SELF_SELECT) :
    job.Checked (fun a => verify a = true) ↔ job.diff ≠ 0 ∧
      ∀ blob ∈ params.getString (bytes "blob"),
        Job.LongEnough s.pool.algorithm (finalAlgorithm s.pool params blob) blob := by
  obtain ⟨id, hraw⟩ := h.readBlob
  unfold Messages.readBlob at hraw
  rw [if_neg hmode] at hraw
  obtain ⟨text, htext, hraw⟩ := bind_ok.mp hraw
  have hraw : Job.setBlob { s.newJob with id := some id } (some text) = some raw := Except.ok.inj hraw
  have hfinal : job.algorithm = finalAlgorithm s.pool params text := by
    have hkept : raw.algorithm = s.pool.algorithm := by
      obtain ⟨_, _, -, -, -, rfl⟩ := Job.setBlob_eq hraw
      rfl
    rw [h.algorithm, setAlgorithm_eq, Job.blob_setBlob hraw, hkept]
    rfl
  have hnonce := Job.nonce_setBlob hraw h.size
  have hverified := h.verified
  simp only [verifyAlgorithm, Bool.and_eq_true] at hverified
  simp only [Json.asString_ok.mp htext, Option.mem_def, Option.some.injEq, forall_eq', ← hfinal]
  constructor
  · exact fun hc => ⟨hc.diff, hnonce.mp hc.nonce⟩
  · rintro ⟨hdiff, hlong⟩
    exact ⟨⟨hverified.1, hdiff, h.size.symm ▸ Job.size_setBlob hraw, hnonce.mpr hlong, h.seed hmode⟩,
      hverified.2⟩

/-- Then it is only valid with a difficulty. -/
theorem ReadFrom.diff_ne_zero (h : s.ReadFrom verify params raw job)
    (hmode : s.pool.mode ≠ .SELF_SELECT) (hvalid : job.isValid = true) : job.diff ≠ 0 := by
  obtain ⟨id, hraw⟩ := h.readBlob
  unfold Messages.readBlob at hraw
  rw [if_neg hmode] at hraw
  obtain ⟨text, -, hraw⟩ := bind_ok.mp hraw
  have hraw : Job.setBlob { s.newJob with id := some id } (some text) = some raw := Except.ok.inj hraw
  have hwallet : raw.poolWallet = none := by
    obtain ⟨_, _, -, -, -, rfl⟩ := Job.setBlob_eq hraw
    rfl
  rintro hzero
  simp [Job.isValid, hzero, h.poolWallet, hwallet, CString.isEmpty, CString.size] at hvalid

/-! ## Lines -/

/-- The job of a line was read from `params`; that of a login is valid. -/
def HandsOver (s : Messages) (verify : Algorithm → Bool) (params : Json) (login : Bool)
    (job : Job) : Prop :=
  (∃ (u : Messages) (raw : Job), u.pool = s.pool ∧ u.ReadFrom verify params raw job) ∧
    (login = true → job.isValid = true)

/-- Which login hands a job over. -/
theorem login_delivers (h : s.login verify result = .ok (t, l)) (hl : l.Delivers) :
    s.HandsOver verify (result.getValue (bytes "job")) true t.job := by
  obtain ⟨⟨u, rejection⟩, hlogin, h⟩ := bind_ok.mp h
  cases rejection with
  | some rejection =>
      have hfailed : ∃ keepAlive, l = .failed keepAlive := by
        split at h
        · exact ⟨_, (Prod.mk.inj (Except.ok.inj h)).2.symm⟩
        · exact ⟨_, (Prod.mk.inj (Except.ok.inj h)).2.symm⟩
        · next heq => exact absurd (Prod.mk.inj heq).2 nofun
      obtain ⟨keepAlive, rfl⟩ := hfailed
      exact hl.elim
  | none =>
      unfold parseLogin at hlogin
      dsimp only at hlogin
      split at hlogin
      · exact absurd (Except.ok.inj hlogin) nofun
      obtain ⟨params, hparams, hlogin⟩ := bind_ok.mp hlogin
      obtain ⟨⟨v, rejection⟩, hparse, hlogin⟩ := bind_ok.mp hlogin
      obtain ⟨rfl, rfl⟩ := Prod.mk.inj (Except.ok.inj hlogin)
      obtain ⟨raw, hread⟩ := parseJob_taken hparse
      rw [(Json.member_ok.mp hparams).2]
      dsimp only at h
      split at h
      · next hvalid =>
        obtain ⟨_, -, h⟩ := bind_ok.mp h
        obtain ⟨rfl, -⟩ := Prod.mk.inj (Except.ok.inj h)
        refine ⟨⟨_, raw, ?_, hread⟩, fun _ => hvalid⟩
        rfl
      · obtain ⟨-, rfl⟩ := Prod.mk.inj (Except.ok.inj h)
        exact absurd hl Bool.false_ne_true

theorem parseResponse_delivers {id : Int} {error : Json}
    (h : s.parseResponse ctx id result error = .ok (t, l)) (hl : l.Delivers) :
    s.HandsOver ctx.verify (result.getValue (bytes "job")) true t.job := by
  unfold parseResponse at h
  split at h
  · obtain ⟨-, rfl⟩ := Prod.mk.inj (Except.ok.inj h)
    exact hl.elim
  split at h
  · obtain ⟨message, -, h⟩ := bind_ok.mp h
    have hline := (Prod.mk.inj (Except.ok.inj h)).2
    split at hline <;> rw [← hline] at hl <;> exact hl.elim
  split at h
  · obtain ⟨-, rfl⟩ := Prod.mk.inj (Except.ok.inj h)
    exact hl.elim
  dsimp only at h
  split at h
  · unfold redirect at h
    split at h
    · contradiction
    · obtain ⟨-, rfl⟩ := Prod.mk.inj (Except.ok.inj h)
      exact hl.elim
  split at h
  · exact login_delivers h hl
  · obtain ⟨-, rfl⟩ := Prod.mk.inj (Except.ok.inj h)
    exact hl.elim

theorem parseNotification_delivers {method : List UInt8}
    (h : s.parseNotification ctx method params = .ok (t, l)) (hl : l.Delivers) :
    s.HandsOver ctx.verify params false t.job := by
  unfold parseNotification at h
  split at h
  · obtain ⟨⟨u, rejection⟩, hparse, h⟩ := bind_ok.mp h
    cases rejection with
    | none =>
        obtain ⟨rfl, -⟩ := Prod.mk.inj (Except.ok.inj h)
        obtain ⟨raw, hread⟩ := parseJob_taken hparse
        exact ⟨⟨s, raw, rfl, hread⟩, nofun⟩
    | some rejection =>
        obtain ⟨-, rfl⟩ := Prod.mk.inj (Except.ok.inj h)
        exact hl.elim
  · obtain ⟨-, rfl⟩ := Prod.mk.inj (Except.ok.inj h)
    exact hl.elim

/-- The document of a line that hands a job over. -/
theorem parse_delivers {line : List UInt8} (h : s.parse ctx line = .ok (t, l)) (hl : l.Delivers) :
    ∃ doc, ctx.document line = some doc ∧
      s.HandsOver ctx.verify (jobOf doc) ((doc.getValue (bytes "id")).int64?).isSome t.job := by
  unfold parse at h
  split at h
  · obtain ⟨-, rfl⟩ := Prod.mk.inj (Except.ok.inj h)
    exact hl.elim
  cases hdoc : ctx.document line with
  | none =>
      simp only [hdoc] at h
      obtain ⟨-, rfl⟩ := Prod.mk.inj (Except.ok.inj h)
      exact hl.elim
  | some doc =>
      refine ⟨doc, rfl, ?_⟩
      simp only [hdoc] at h
      split at h
      · unfold handle at h
        unfold jobOf
        cases hid : (doc.getValue (bytes "id")).int64? with
        | some id =>
            simp only [hid] at h
            exact parseResponse_delivers h hl
        | none =>
            simp only [hid] at h
            cases hmethod : doc.getString (bytes "method") with
            | none =>
                simp only [hmethod] at h
                obtain ⟨-, rfl⟩ := Prod.mk.inj (Except.ok.inj h)
                exact hl.elim
            | some method =>
                simp only [hmethod] at h
                split at h
                · obtain ⟨-, rfl⟩ := Prod.mk.inj (Except.ok.inj h)
                  exact hl.elim
                · exact parseNotification_delivers h hl
      · obtain ⟨-, rfl⟩ := Prod.mk.inj (Except.ok.inj h)
        exact hl.elim

/-- The algorithm of a job that is handed over was verified. -/
theorem verified_parse {line : List UInt8} (h : s.parse ctx line = .ok (t, l)) (hl : l.Delivers) :
    verifyAlgorithm ctx.verify t.job.algorithm = true := by
  obtain ⟨doc, -, ⟨u, raw, -, hread⟩, -⟩ := parse_delivers h hl
  exact hread.verified

/-- **Which jobs of a client were checked.** -/
theorem checked_parse_iff {line : List UInt8} (h : s.parse ctx line = .ok (t, l))
    (hl : l.Delivers) : t.job.Checked (fun a => ctx.verify a = true) ↔
      ∃ doc, ctx.document line = some doc ∧ s.Pays doc := by
  obtain ⟨doc, hdoc, ⟨u, raw, hpool, hread⟩, hvalid⟩ := parse_delivers h hl
  obtain ⟨text, htext, hdiff⟩ := hread.target
  rw [hdoc]
  simp only [Option.some.injEq, exists_eq_left']
  by_cases hmode : s.pool.mode = .SELF_SELECT
  · have hsize : t.job.size = 0 := hread.size_eq (hpool ▸ hmode)
    exact ⟨fun hc => absurd hsize hc.blob.ne', fun hp => absurd hmode hp.mode⟩
  · rw [hread.checked_iff (hpool ▸ hmode), hpool]
    constructor
    · rintro ⟨hne, hlong⟩
      refine ⟨hmode, fun _ => ?_, hlong⟩
      rw [htext, ne_eq, Option.some.injEq, ← hdiff]
      exact hne
    · rintro ⟨-, htarget, hlong⟩
      refine ⟨?_, hlong⟩
      cases hid : (doc.getValue (bytes "id")).int64? with
      | none =>
          have hne := htarget hid
          rwa [htext, ne_eq, Option.some.injEq, ← hdiff] at hne
      | some id =>
          exact hread.diff_ne_zero (hpool ▸ hmode) (hvalid (by rw [hid]; rfl))

end Messages

end Client

end XLArig
