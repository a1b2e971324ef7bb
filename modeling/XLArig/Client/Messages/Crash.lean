import XLArig.Client.Messages

/-!
# XLArig.Client.Messages.Crash

Which messages crash a client.

What a message must have is told from the outside in: a job, a response, a document.
`parse_ok_iff` says that a line is handled to the end exactly if it has all that is read
from it without a check.
-/

namespace XLArig

namespace Client

namespace Messages

variable [Features] {s : Messages} {ctx : Context} {params result error doc : Json} {id : Int}
variable {verify : Algorithm → Bool} {lookup : Bool}

/-! ## What a message must have -/

/-- The job comes with a blob that is taken, or with what a self-select pool gives for
one: its target is read. -/
def HasBlob (s : Messages) (params : Json) : Prop :=
  if s.pool.mode = .SELF_SELECT then
    (params.getString (bytes "extra_nonce")).isSome = true ∧
      (params.getString (bytes "pool_wallet")).isSome = true
  else ∃ text, params.getString (bytes "blob") = some text ∧ s.newJob.TakesBlob text

/-- A job has an id and a blob that are strings, and if that blob is taken, it has a
target that is a string other than eight zeros. -/
structure JobFits (s : Messages) (params : Json) : Prop where
  id : (params.getString (bytes "job_id")).isSome = true
  blob : s.pool.mode ≠ .SELF_SELECT → (params.getString (bytes "blob")).isSome = true
  target : s.HasBlob params → ∃ text, params.getString (bytes "target") = some text ∧
    text ≠ bytes "00000000"

/-- A response that no callback waits for: an error has a message that is a string, a
redirect a host that is one, and a login with an id has a job, that fits if it is an
object. -/
structure ResponseFits (s : Messages) (id : Int) (result error : Json) : Prop where
  message : error.isObject = true → (error.getString (bytes "message")).isSome = true
  host : error.isObject = false → (result.getObject (bytes "redirect")).isObject = true →
    ((result.getObject (bytes "redirect")).getString (bytes "host")).isSome = true
  job : error.isObject = false → (result.getObject (bytes "redirect")).isObject = false → id = 1 →
    (result.getString (bytes "id")).isSome = true →
      result.hasMember (bytes "job") = true ∧
        ((result.getValue (bytes "job")).isObject = true →
          s.JobFits (result.getValue (bytes "job")))

/-- A response fits unless a callback waits for it, and so does a new job that comes
without an error. -/
def Fits (s : Messages) (doc : Json) : Prop :=
  match (doc.getValue (bytes "id")).int64? with
  | some id => id ≠ 1 ∧ s.callbacks id = true ∨
      s.ResponseFits id (doc.getValue (bytes "result")) (doc.getValue (bytes "error"))
  | none => doc.getString (bytes "method") = some (bytes "job") →
      (doc.getValue (bytes "error")).isObject = false →
        (doc.getValue (bytes "params")).isObject = true →
          s.JobFits (doc.getValue (bytes "params"))

/-! ## Jobs -/

omit [Features] in
theorem noCrash_readTarget (job : Job) : NoCrash (readTarget params job) ↔
    ∃ text, params.getString (bytes "target") = some text ∧ text ≠ bytes "00000000" := by
  have hzeros : List.replicate 8 0x30 = bytes "00000000" := by decide
  rw [readTarget, Json.noCrash_asString]
  simp only [NoCrash, Job.setTarget_ok, hzeros, ne_eq, Option.some.injEq]

theorem noCrash_readBlob {job : Job} : NoCrash (s.readBlob params job) ↔
    (s.pool.mode ≠ .SELF_SELECT → (params.getString (bytes "blob")).isSome = true) := by
  unfold readBlob
  split
  · next hmode => simp [hmode]
  · next hmode =>
    rw [Json.noCrash_asString]
    simp [hmode, Option.isSome_iff_exists]

/-- A blob that is taken. -/
theorem readBlob_ok {jobId : CString} :
    (∃ job, s.readBlob params { s.newJob with id := jobId } = .ok (some job)) ↔
      s.HasBlob params := by
  unfold readBlob HasBlob
  split
  · next hmode =>
    simp [← Option.isSome_iff_ne_none, Option.isSome_iff_exists]
  · next hmode =>
    have hblob : ∀ text, (∃ job, Job.setBlob { s.newJob with id := jobId } (some text) = some job) ↔
        s.newJob.TakesBlob text := by
      intro text
      rw [← Option.isSome_iff_exists, Job.setBlob_isSome]
      simp only [Option.some.injEq, exists_eq_left']
      rfl
    simp only [bind_ok, Json.asString_ok, pure, Except.pure, Except.ok.injEq, ← hblob]
    exact ⟨fun ⟨job, text, htext, hjob⟩ => ⟨text, htext, job, hjob⟩,
      fun ⟨text, htext, job, hjob⟩ => ⟨job, text, htext, hjob⟩⟩

theorem noCrash_parseJob (verify : Algorithm → Bool) : NoCrash (s.parseJob verify params) ↔
    (params.isObject = true → s.JobFits params) := by
  unfold parseJob
  split
  · next hobject => simp_all
  · next hobject =>
    simp only [Bool.not_eq_true', Bool.not_eq_false] at hobject
    simp only [hobject, forall_const, Json.asString_ok, Job.setId, Option.isSome_some, if_true,
      noCrash_bind]
    constructor
    · rintro ⟨id, hid, blob, hblob, hnext⟩
      refine ⟨by rw [hid]; rfl, noCrash_readBlob.mp ⟨blob, hblob⟩, fun hhas => ?_⟩
      obtain ⟨job, hjob⟩ := readBlob_ok.mpr hhas
      obtain rfl := Except.ok.inj (hblob.symm.trans hjob)
      obtain ⟨target, htarget, -⟩ := noCrash_bind.mp hnext
      exact (noCrash_readTarget job).mp ⟨target, htarget⟩
    · rintro ⟨hid, hblob, htarget⟩
      obtain ⟨id, hid⟩ := Option.isSome_iff_exists.mp hid
      obtain ⟨blob, hok⟩ := noCrash_readBlob.mpr hblob
      refine ⟨id, hid, blob, hok, ?_⟩
      cases blob with
      | none => exact noCrash_pure.mpr trivial
      | some job =>
          have hhas : s.HasBlob params := readBlob_ok.mp ⟨job, hok⟩
          obtain ⟨target, ht⟩ := (noCrash_readTarget job).mpr (htarget hhas)
          refine noCrash_bind.mpr ⟨target, ht, ?_⟩
          cases target <;> exact noCrash_pure.mpr trivial

/-! ## Logins -/

theorem noCrash_parseLogin (verify : Algorithm → Bool) : NoCrash (s.parseLogin verify result) ↔
    ((result.getString (bytes "id")).isSome = true → result.hasMember (bytes "job") = true ∧
      ((result.getValue (bytes "job")).isObject = true →
        s.JobFits (result.getValue (bytes "job")))) := by
  unfold parseLogin
  dsimp only
  split
  · next hid => simp_all
  · next hid =>
    let t := ({ s with rpcId := result.getString (bytes "id") } : Messages).parseExtensions result
    have hfits : ∀ params, t.JobFits params ↔ s.JobFits params := fun params =>
      ⟨fun h => ⟨h.id, h.blob, h.target⟩, fun h => ⟨h.id, h.blob, h.target⟩⟩
    have hsome : (result.getString (bytes "id")).isSome = true := by
      simpa [Option.isSome_iff_ne_none] using hid
    rw [Json.noCrash_member, hsome]
    simp only [forall_const, ← hfits, ← noCrash_parseJob verify]
    refine and_congr_right fun _ => ?_
    rw [noCrash_bind]
    exact ⟨fun ⟨x, hx, _⟩ => ⟨x, hx⟩, fun ⟨x, hx⟩ => ⟨x, hx, noCrash_pure.mpr trivial⟩⟩

/-- A login that succeeds has read its job. -/
theorem hasMember_of_parseLogin {t : Messages} (h : s.parseLogin verify result = .ok (t, none)) :
    result.hasMember (bytes "job") = true := by
  have hfits := (noCrash_parseLogin verify).mp ⟨_, h⟩
  refine (hfits ?_).1
  by_contra hid
  simp only [parseLogin, Option.not_isSome_iff_eq_none.mp hid] at h
  simp at h

theorem noCrash_login : NoCrash (s.login verify result) ↔
    ((result.getString (bytes "id")).isSome = true → result.hasMember (bytes "job") = true ∧
      ((result.getValue (bytes "job")).isObject = true →
        s.JobFits (result.getValue (bytes "job")))) := by
  rw [← noCrash_parseLogin verify, login, noCrash_bind]
  constructor
  · rintro ⟨x, hx, -⟩
    exact ⟨x, hx⟩
  · rintro ⟨⟨t, rejection⟩, hx⟩
    refine ⟨_, hx, ?_⟩
    split
    · exact noCrash_pure.mpr trivial
    · exact noCrash_pure.mpr trivial
    · next heq =>
      obtain ⟨rfl, rfl⟩ := Prod.mk.inj heq
      split
      · exact Json.noCrash_member.mpr ⟨hasMember_of_parseLogin hx, noCrash_pure.mpr trivial⟩
      · exact noCrash_pure.mpr trivial

/-! ## Responses -/

omit [Features] in
theorem noCrash_failure : NoCrash (s.failure id error) ↔
    (error.getString (bytes "message")).isSome = true := by
  rw [failure, Json.noCrash_asString]
  simp [Option.isSome_iff_exists]

omit [Features] in
theorem noCrash_redirect : NoCrash (s.redirect params lookup) ↔
    (params.getString (bytes "host")).isSome = true := by
  unfold redirect
  cases params.getString (bytes "host") <;> simp

theorem noCrash_parseResponse : NoCrash (s.parseResponse ctx id result error) ↔
    (id ≠ 1 ∧ s.callbacks id = true ∨ s.ResponseFits id result error) := by
  unfold parseResponse
  split
  · next hcallback => simp [hcallback]
  · next hcallback =>
    simp only [hcallback, false_or]
    cases herror : error.isObject with
    | true =>
        have hnot : ¬ error.isObject = false := by simp [herror]
        simp only [if_true, noCrash_failure]
        exact ⟨fun h => ⟨fun _ => h, fun h' => absurd h' hnot, fun h' => absurd h' hnot⟩,
          fun h => h.message herror⟩
    | false =>
        have hnot : ¬ error.isObject = true := by simp [herror]
        simp only [Bool.false_eq_true, if_false]
        cases hresult : result.isObject with
        | false =>
            have hnull := Json.getValue_of_not_object hresult
            simp only [Bool.not_false, if_true, noCrash_ok, true_iff]
            refine ⟨fun h' => absurd h' hnot, ?_, ?_⟩
            · simp [Json.getObject, hnull, Json.isObject]
            · simp [Json.getString, hnull]
        | true =>
            simp only [Bool.not_true, Bool.false_eq_true, if_false]
            cases htarget : (result.getObject (bytes "redirect")).isObject with
            | true =>
                simp only [if_true, noCrash_redirect]
                exact ⟨fun h => ⟨fun h' => absurd h' hnot, fun _ _ => h,
                  fun _ h' => by simp [htarget] at h'⟩, fun h => h.host herror htarget⟩
            | false =>
                simp only [Bool.false_eq_true, if_false]
                split
                · next hid =>
                  rw [noCrash_login]
                  exact ⟨fun h => ⟨fun h' => absurd h' hnot, fun _ h' => by simp [htarget] at h',
                    fun _ _ _ => h⟩, fun h => h.job herror htarget hid⟩
                · next hid =>
                  simp only [noCrash_ok, true_iff]
                  exact ⟨fun h' => absurd h' hnot, fun _ h' => by simp [htarget] at h',
                    fun _ _ h' => absurd h' hid⟩

/-! ## Lines -/

theorem noCrash_parseNotification {method : List UInt8} :
    NoCrash (s.parseNotification ctx method params) ↔
      (method = bytes "job" → params.isObject = true → s.JobFits params) := by
  unfold parseNotification
  split
  · next hmethod =>
    rw [noCrash_bind]
    simp only [hmethod, forall_const, ← noCrash_parseJob ctx.verify]
    constructor
    · exact fun ⟨x, hx, _⟩ => ⟨x, hx⟩
    · rintro ⟨⟨t, rejection⟩, hx⟩
      refine ⟨_, hx, ?_⟩
      cases rejection <;> exact noCrash_pure.mpr trivial
  · next hmethod => simp [hmethod]

theorem noCrash_handle : NoCrash (s.handle ctx doc) ↔ s.Fits doc := by
  unfold handle Fits
  cases (doc.getValue (bytes "id")).int64? with
  | some id => exact noCrash_parseResponse
  | none =>
      cases doc.getString (bytes "method") with
      | none => simp
      | some method =>
          cases herror : (doc.getValue (bytes "error")).isObject with
          | true => simp [herror]
          | false => simp [herror, noCrash_parseNotification]

/-- **Which lines a client survives**: those that are too short or no object, and those
that have all that is read from them without a check. -/
theorem parse_ok_iff (s : Messages) (ctx : Context) (line : List UInt8) :
    (∃ r, s.parse ctx line = .ok r) ↔
      (32 ≤ line.length → line.head? = some 0x7B →
        ∀ doc, ctx.document line = some doc → doc.isObject = true → s.Fits doc) := by
  show NoCrash (s.parse ctx line) ↔ _
  unfold parse
  split
  · next hline =>
    simp only [noCrash_ok, true_iff]
    intro hlen hhead
    exact absurd hline (by simp [hhead]; omega)
  · next hline =>
    simp only [not_or, not_lt, ne_eq, not_not] at hline
    simp only [hline, forall_const]
    cases ctx.document line with
    | none => simp
    | some doc =>
        cases hobject : doc.isObject with
        | false => simp [hobject]
        | true => simp [hobject, noCrash_handle]

end Messages

end Client

end XLArig

namespace XLArig.Client.Messages

/-! ## Lines that crash -/

/-- A client that is logged in at a pool that is only an address. -/
def sample : Messages where
  id := 0
  pool := .ofHost (bytes "a") 3333 none none 0 false false .POOL
  extensions := ⟨false, false, false, false, false⟩
  rpcId := some (bytes "1")
  job := .sample "1"
  jobs := 1
  callbacks := fun _ => false
  results := fun _ => false

/-- The surroundings of a line that is the text of `doc`. -/
def reading (doc : Json) : Context where
  document line := if line = doc.write then some doc else none
  verify _ := true
  lookup := true

/-- The notification of a job, with a blob of zeros and this target. -/
def jobWith (target : String) : Json :=
  .object [(bytes "jsonrpc", .string (bytes "2.0")), (bytes "method", .string (bytes "job")),
    (bytes "params", .object [(bytes "job_id", .string (bytes "2")),
      (bytes "blob", .string (List.replicate 152 0x30)), (bytes "target", .string (bytes target))])]

/-- **Four messages crash a client**: an error without a message, a redirect without a
host, a login without a job, and a job with a target of zeros. -/
theorem parse_crashes :
    let failure := Json.object [(bytes "id", .int 2), (bytes "jsonrpc", .string (bytes "2.0")),
      (bytes "error", .object [])]
    let redirect := Json.object [(bytes "id", .int 2), (bytes "result", .object
      [(bytes "redirect", .object [(bytes "port", .int 3333)])])]
    let login := Json.object [(bytes "id", .int 1), (bytes "jsonrpc", .string (bytes "2.0")),
      (bytes "result", .object [(bytes "id", .string (bytes "1"))])]
    sample.parse (reading failure) failure.write = .error (.missing (bytes "message")) ∧
      sample.parse (reading redirect) redirect.write = .error .nullHost ∧
      sample.parse (reading login) login.write = .error (.missing (bytes "job")) ∧
      sample.parse (reading (jobWith "00000000")) (jobWith "00000000").write =
        .error .divisionByZero := by
  refine ⟨?_, ?_, ?_, ?_⟩ <;> exact eq_error (by decide +kernel)

end XLArig.Client.Messages
