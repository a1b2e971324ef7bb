import XLArig.Job.Checked
import XLArig.SelfSelectClient.Acknowledged

/-!
# XLArig.SelfSelectClient.Checked

Which jobs of a self-select client have been checked when they are handed over.

The inner client has the algorithm of a job accepted before it hands the job on, and that is
the last check: the blob, the algorithm of the coin and the seed come with a template.
`received_checked` says what the templates must have, and when the job may be handed over.
-/

namespace XLArig

open DaemonClient (HttpData)

namespace SelfSelectClient

/-- The algorithm that the listener accepted. -/
def Entry.accepted? : Entry → Option Algorithm
  | .onVerifyAlgorithm algorithm true => some algorithm
  | .onVerifyAlgorithm _ false | .onJobReceived _ | .resumed _ | .onLoginSuccess | .onClose _ => none

/-- The listener was asked for the algorithm, and accepted it. -/
def Accepted (s : SelfSelectClient) (a : Algorithm) : Prop := ∃ e ∈ s.log, a ∈ e.accepted?

instance (s : SelfSelectClient) (a : Algorithm) : Decidable (s.Accepted a) :=
  inferInstanceAs (Decidable (∃ e ∈ s.log, a ∈ e.accepted?))

/-- What the inner client sees to: the algorithm of a job was accepted. -/
def Asks [Features] (s : SelfSelectClient) : Event → Prop
  | .onJobReceived job => job.algorithm.isValid = true ∧ s.Accepted job.algorithm
  | _ => True

/-- The algorithm that the job has once its blob was taken. -/
def finalAlgorithm (s : SelfSelectClient) (blob : List UInt8) : Algorithm :=
  if s.client.base.pool.coin.isValid then s.client.base.pool.coin.algorithm (Job.blobVersion blob)
  else s.job.algorithm

/-- A template has a seed; or none, and the job has one. -/
def HasSeed (job : Job) (result : Json) : Prop :=
  (∃ text ∈ result.getString (bytes "seed_hash"), Job.SeedText text) ∨
    (∀ text ∈ result.getString (bytes "seed_hash"), text.length ≠ Job.maxSeedSize * 2) ∧
      job.seed.length = Job.maxSeedSize

/-- The job has a difficulty, the algorithm of the coin was accepted, the blob is long
enough for it, and a RandomX template has a seed. -/
structure Suffices [Features] (s : SelfSelectClient) (result : Json) (blob : List UInt8) : Prop where
  diff : s.job.diff ≠ 0
  algorithm : s.client.base.pool.coin.isValid = true →
    (s.finalAlgorithm blob).isValid = true ∧ s.Accepted (s.finalAlgorithm blob)
  nonce : Job.LongEnough s.job.algorithm (s.finalAlgorithm blob) blob
  seed : (s.finalAlgorithm blob).family = .RANDOM_X → HasSeed s.job result

/-- Templates have what their job needs, and the job that is handed over is one that a
`block_template` request was made from. -/
def Pays [Features] (s : SelfSelectClient) : Event → Prop
  | .response id response =>
      id ≠ 1 → (s.client.callbacks id).isSome = true → response ≠ .error → s.active = true →
        ∃ sent, ∃ a ∈ s.asked sent, a.version = s.version
  | .reply _ data _ =>
      ∀ result ∈ s.template data, ∀ blob ∈ result.getString (bytes "blockhashing_blob"),
        s.Suffices result blob
  | _ => True

/-- The jobs that the listener received were checked. -/
def ReceivedChecked [Features] (s : SelfSelectClient) : Prop :=
  ∀ job, .onJobReceived job ∈ s.log → job.Checked s.Accepted

variable {s s' t u : SelfSelectClient}

/-! ## Frames -/

/-- `t` is `s` after no job was written or received, and no request made. -/
structure Grows (s t : SelfSelectClient) : Prop where
  job : t.job = s.job
  version : t.version = s.version
  asked : t.asked = s.asked
  log : s.log ⊆ t.log
  received : ∀ job, .onJobReceived job ∈ t.log → .onJobReceived job ∈ s.log

theorem Grows.refl (s : SelfSelectClient) : Grows s s :=
  ⟨rfl, rfl, rfl, List.Subset.refl _, fun _ => id⟩

theorem Grows.trans (h : Grows s t) (h' : Grows t u) : Grows s u where
  job := h'.job.trans h.job
  version := h'.version.trans h.version
  asked := h'.asked.trans h.asked
  log := List.Subset.trans h.log h'.log
  received job hjob := h.received job (h'.received job hjob)

theorem Grows.accepted (h : Grows s t) {a : Algorithm} (ha : s.Accepted a) : t.Accepted a := by
  obtain ⟨e, he, ha⟩ := ha
  exact ⟨e, h.log he, ha⟩

theorem grows_report {e : Entry} (he : ∀ job, e ≠ .onJobReceived job) : Grows s (s.report e) where
  job := rfl
  version := rfl
  asked := rfl
  log := List.subset_cons_self _ _
  received job hjob := by
    obtain rfl | hold := List.mem_cons.mp hjob
    · exact absurd rfl (he job)
    · exact hold

theorem grows_setState (state : State) : Grows s (s.setState state) := by
  unfold setState
  split
  · exact .refl s
  · cases state with
    | IdleState | WaitState => exact ⟨rfl, rfl, rfl, List.Subset.refl _, fun _ => id⟩
    | RetryState =>
        dsimp only
        split
        · have hclose : Grows s (s.report (.onClose s.failures)) := grows_report fun _ => nofun
          refine hclose.trans ?_
          exact ⟨rfl, rfl, rfl, List.Subset.refl _, fun _ => id⟩
        · exact ⟨rfl, rfl, rfl, List.Subset.refl _, fun _ => id⟩

theorem grows_getBlockTemplate : Grows s s.getBlockTemplate := by
  refine (grows_setState .WaitState).trans ?_
  exact ⟨rfl, rfl, rfl, List.Subset.refl _, fun _ => id⟩

/-! ## Before the first job -/

/-- Nothing was asked before the pool gave a job. -/
structure Untouched (s : SelfSelectClient) : Prop where
  requests : s.requests = []
  state : s.state ≠ .RetryState
  blockDiff : s.blockDiff = 0
  callbacks : ∀ id, s.client.callbacks id = none

theorem Untouched.report (h : s.Untouched) (e : Entry) : (s.report e).Untouched :=
  ⟨h.requests, h.state, h.blockDiff, h.callbacks⟩

theorem Untouched.setState (h : s.Untouched) (state : State) (hstate : state ≠ .RetryState) :
    (s.setState state).Untouched := by
  unfold SelfSelectClient.setState
  split
  · exact h
  · cases state with
    | IdleState | WaitState => exact ⟨h.requests, hstate, h.blockDiff, h.callbacks⟩
    | RetryState => contradiction

/-- Only a request with a callback is kept with one. -/
theorem callbacks_request [Features] (c : Client.Requests) (layer : Client.Layer)
    {r : Client.Request} (hr : ∀ method params, r ≠ .call method params) :
    (c.request layer r).1.callbacks = c.callbacks := by
  have htransmit : ∀ (c : Client.Requests) size id owner,
      (c.transmit size id owner layer).1.callbacks = c.callbacks := by
    intro c size id owner
    cases layer <;> rfl
  have hsend : ∀ (c : Client.Requests) text id owner,
      (c.sendText text id owner layer).1.callbacks = c.callbacks := by
    intro c text id owner
    unfold Client.Requests.sendText
    split
    · rfl
    · rw [htransmit]
  cases r with
  | call method params => exact absurd rfl (hr method params)
  | submit result =>
      simp only [Client.Requests.request]
      split
      · rw [hsend]
      · rfl
  | login added =>
      simp only [Client.Requests.request]
      rw [hsend]
  | ping =>
      simp only [Client.Requests.request]
      rw [htransmit]

/-- A response to a request that has no callback. -/
theorem callbacks_parseResponse {c : Client.Requests} {id : Int} (h : c.callbacks id = none)
    (response : Client.Requests.Response) :
    (c.parseResponse id response).callbacks = c.callbacks := by
  have hsubmit : (c.handleSubmitResponse id).callbacks = c.callbacks := by
    unfold Client.Requests.handleSubmitResponse
    split <;> rfl
  unfold Client.Requests.parseResponse
  simp only [h, ite_self]
  cases response with
  | error => exact hsubmit
  | redirect | other => rfl
  | object rpcId algo =>
      dsimp only
      split
      · rfl
      · exact hsubmit

theorem Untouched.send [Features] (h : s.Untouched) (layer : Client.Layer) {r : Client.Request}
    (hr : ∀ method params, r ≠ .call method params) : (s.send layer r).Untouched where
  requests := h.requests
  state := h.state
  blockDiff := h.blockDiff
  callbacks id := by
    show (s.client.request layer r).1.callbacks id = none
    rw [callbacks_request _ _ hr]
    exact h.callbacks id

/-! ## What a template makes of the job -/

section

variable [Features] {result : Json} {job job' : Job} {text : List UInt8}

omit [Features] in
theorem seed_length (h : HasSeed job result) :
    (takeSeed job (result.getString (bytes "seed_hash"))).seed.length = Job.maxSeedSize := by
  unfold takeSeed
  obtain ⟨text, htext, hseed⟩ | ⟨hnone, hlen⟩ := h
  · rw [Option.mem_def] at htext
    simp only [htext]
    rw [if_neg (by simpa [Job.maxSeedSize] using hseed.1)]
    exact (Job.length_fromHex_seed hseed.1).mpr hseed
  · cases htext : result.getString (bytes "seed_hash") with
    | none => exact hlen
    | some text =>
        dsimp only
        rw [if_pos (show text.length ≠ 64 from hnone text htext)]
        exact hlen

omit [Features] in
/-- What is left of the job that had the blob taken. -/
theorem fillJob_eq (pool : Pool) (result : Json) (job : Job) :
    (fillJob pool result job).algorithm =
        (if pool.coin.isValid then pool.coin.algorithm (job.blob 0) else job.algorithm) ∧
      (fillJob pool result job).diff = job.diff ∧
      (HasSeed job result → (fillJob pool result job).seed.length = Job.maxSeedSize) := by
  unfold fillJob
  dsimp only
  generalize hjob : ite (pool.coin.isValid = true) _ _ = filled
  have hkept : filled.algorithm =
      (if pool.coin.isValid then pool.coin.algorithm (job.blob 0) else job.algorithm) ∧
      filled.diff = job.diff ∧ filled.seed = job.seed := by
    rw [← hjob]
    split <;> exact ⟨rfl, rfl, rfl⟩
  have hseed : HasSeed job result →
      HasSeed { filled with height := result.getUint64 (bytes "height") } result := by
    unfold HasSeed
    rw [hkept.2.2]
    exact id
  obtain ⟨seed, htaken⟩ : ∃ seed, takeSeed { filled with
      height := result.getUint64 (bytes "height") } (result.getString (bytes "seed_hash")) =
      { filled with height := result.getUint64 (bytes "height"), seed } := takeSeed_eq _
  refine ⟨?_, ?_, fun h => seed_length (hseed h)⟩
  · rw [htaken]
    exact hkept.1
  · rw [htaken]
    exact hkept.2.1

/-- The job that a sufficient template makes was checked. -/
theorem checked_fillJob (hblob : s.job.setBlob (some text) = some job')
    (hbase : s.job.algorithm.isValid = true ∧ s.Accepted s.job.algorithm)
    (h : s.Suffices result text) :
    (fillJob s.client.base.pool result job').Checked s.Accepted := by
  obtain ⟨halgorithm, hdiff, hseed⟩ := fillJob_eq s.client.base.pool result job'
  have hsize : (fillJob s.client.base.pool result job').size = job'.size := blob_fillJob.1
  have hkept : job'.algorithm = s.job.algorithm ∧ job'.diff = s.job.diff ∧
      job'.seed = s.job.seed := by
    obtain ⟨_, _, -, -, -, rfl⟩ := Job.setBlob_eq hblob
    exact ⟨rfl, rfl, rfl⟩
  have hfinal : (fillJob s.client.base.pool result job').algorithm = s.finalAlgorithm text := by
    rw [halgorithm, Job.blob_setBlob hblob, hkept.1]
    rfl
  have haccepted : (s.finalAlgorithm text).isValid = true ∧ s.Accepted (s.finalAlgorithm text) := by
    by_cases hcoin : s.client.base.pool.coin.isValid = true
    · exact h.algorithm hcoin
    · unfold finalAlgorithm
      rw [if_neg hcoin]
      exact hbase
  have hgiven : HasSeed s.job result → HasSeed job' result := by
    unfold HasSeed
    rw [hkept.2.2]
    exact id
  refine ⟨⟨hfinal ▸ haccepted.1, ?_, ?_, ?_, ?_⟩, hfinal ▸ haccepted.2⟩
  · rw [hdiff, hkept.2.1]
    exact h.diff
  · rw [hsize]
    exact Job.size_setBlob hblob
  · rw [Job.nonce_setBlob hblob hsize, hfinal]
    exact h.nonce
  · rw [hfinal]
    exact fun hfamily => hseed (hgiven (h.seed hfamily))

end

/-! ## The invariant -/

/-- A job of the pool was accepted, and one that a request was made from was checked. -/
structure Sure [Features] (s : SelfSelectClient) : Prop where
  received : s.ReceivedChecked
  untouched : s.version = 0 → s.Untouched
  base : s.version ≠ 0 → s.job.algorithm.isValid = true ∧ s.Accepted s.job.algorithm
  asked : ∀ id, ∀ a ∈ s.asked id,
    a.version ≤ s.version ∧ (a.version = s.version → s.job.Checked s.Accepted)

section

variable [Features] {data : HttpData} {layer : Client.Layer}

theorem Sure.grows (h : s.Sure) (hg : Grows s t) (ht : s.version = 0 → t.Untouched) : t.Sure where
  received job hjob := by
    have hc := h.received job (hg.received job hjob)
    exact ⟨hc.toSound, hg.accepted hc.accepted⟩
  untouched hzero := ht (hg.version ▸ hzero)
  base hne := by
    rw [hg.job]
    obtain ⟨hvalid, haccepted⟩ := h.base (hg.version ▸ hne)
    exact ⟨hvalid, hg.accepted haccepted⟩
  asked id a ha := by
    rw [hg.version, hg.job]
    obtain ⟨hle, hchecked⟩ := h.asked id a (hg.asked ▸ ha)
    exact ⟨hle, fun heq => ⟨(hchecked heq).toSound, hg.accepted (hchecked heq).accepted⟩⟩

/-- The job is written to; its algorithm is one that was accepted. -/
theorem Sure.write (h : s.Sure) {job : Job}
    (hjob : job.algorithm.isValid = true ∧ s.Accepted job.algorithm) : (s.write job).Sure where
  received := h.received
  untouched hzero := absurd hzero (Nat.succ_ne_zero _)
  base _ := hjob
  asked id a ha := by
    obtain ⟨hle, -⟩ := h.asked id a ha
    have hlt : a.version < (s.write job).version := Nat.lt_succ_of_le hle
    exact ⟨hlt.le, fun heq => absurd heq hlt.ne⟩

/-- The job is handed over if a request was made from it. -/
theorem Sure.hand (h : s.Sure) (hasked : ∃ id, ∃ a ∈ s.asked id, a.version = s.version) :
    (s.report (.onJobReceived s.job)).Sure := by
  have haccepted : ∀ a, s.Accepted a → (s.report (.onJobReceived s.job)).Accepted a := by
    rintro a ⟨e, he, ha⟩
    exact ⟨e, List.mem_cons_of_mem _ he, ha⟩
  have hkept : ∀ job : Job, job.Checked s.Accepted →
      job.Checked (s.report (.onJobReceived s.job)).Accepted :=
    fun job hc => ⟨hc.toSound, haccepted _ hc.accepted⟩
  refine ⟨fun job hjob => ?_, ?_, fun hne => ?_, fun id a ha => ?_⟩
  · obtain heq | hold := List.mem_cons.mp hjob
    · obtain rfl := Entry.onJobReceived.inj heq
      obtain ⟨id, a, ha, hversion⟩ := hasked
      exact hkept _ ((h.asked id a ha).2 hversion)
    · exact hkept _ (h.received job hold)
  · intro hzero
    obtain ⟨hrequests, hstate, hdiff, hcallbacks⟩ := h.untouched hzero
    exact ⟨hrequests, hstate, hdiff, hcallbacks⟩
  · obtain ⟨hvalid, hacc⟩ := h.base hne
    exact ⟨hvalid, haccepted _ hacc⟩
  · obtain ⟨hle, hchecked⟩ := h.asked id a ha
    exact ⟨hle, fun heq => hkept _ (hchecked heq)⟩

/-- The request is made from the job as it is. -/
theorem Sure.submitBlockTemplate (h : s.Sure) (hne : s.version ≠ 0)
    (hjob : s.job.Checked s.Accepted) (result : Json) :
    (s.submitBlockTemplate result layer).Sure where
  received := h.received
  untouched hzero := absurd hzero hne
  base := h.base
  asked id a ha := by
    simp only [SelfSelectClient.submitBlockTemplate] at ha
    split at ha
    · exact h.asked id a ha
    · rw [Function.update_apply] at ha
      split at ha
      · obtain rfl := Option.some.inj ha
        exact ⟨le_rfl, fun _ => hjob⟩
      · exact h.asked id a ha

/-! ## Replies and responses -/

/-- A `setBlob` that fails leaves the algorithm. -/
theorem algorithm_spoil (job : Job) (blob : List UInt8) :
    (spoil job blob).algorithm = job.algorithm := by
  unfold spoil
  dsimp only
  split
  · rfl
  · split <;> rfl

theorem Sure.parseResponse (h : s.Sure) (hne : s.version ≠ 0) {id : Int} {result error : Json}
    {done : Bool}
    (hguard : id ≠ -1 → error.isObject = false → requiredFields.all result.hasMember = true →
      ∀ blob ∈ result.getString (bytes "blockhashing_blob"), s.Suffices result blob)
    (hparse : s.parseResponse id result error layer = .ok (s', done)) :
    s'.Sure ∧ s'.version ≠ 0 := by
  simp only [SelfSelectClient.parseResponse] at hparse
  split at hparse
  · obtain ⟨rfl, -⟩ := Prod.mk.inj (Except.ok.inj hparse)
    exact ⟨h, hne⟩
  split at hparse
  · obtain ⟨rfl, -⟩ := Prod.mk.inj (Except.ok.inj hparse)
    exact ⟨h, hne⟩
  split at hparse
  · obtain ⟨rfl, -⟩ := Prod.mk.inj (Except.ok.inj hparse)
    exact ⟨h, hne⟩
  split at hparse
  · obtain ⟨rfl, -⟩ := Prod.mk.inj (Except.ok.inj hparse)
    exact ⟨h, hne⟩
  next hid herror hresult hfields =>
    obtain ⟨text, htext, hparse⟩ := bind_ok.mp hparse
    cases hblob : s.job.setBlob (some text) with
    | none =>
        simp only [hblob] at hparse
        obtain ⟨rfl, -⟩ := Prod.mk.inj (Except.ok.inj hparse)
        refine ⟨h.write ?_, Nat.succ_ne_zero _⟩
        rw [algorithm_spoil]
        exact h.base hne
    | some job =>
        simp only [hblob] at hparse
        obtain ⟨rfl, -⟩ := Prod.mk.inj (Except.ok.inj hparse)
        have hchecked := checked_fillJob hblob (h.base hne)
          (hguard hid (Bool.not_eq_true _ ▸ herror) (by simpa using hfields) text
            (Json.asString_ok.mp htext))
        have hwrite := h.write ⟨hchecked.algorithm, hchecked.accepted⟩
        exact ⟨hwrite.submitBlockTemplate (Nat.succ_ne_zero _) hchecked result, Nat.succ_ne_zero _⟩

omit [Features] in
theorem grows_failed (request : Request) : Grows s (s.answer request .failure).retry := by
  have hanswer : Grows s (s.answer request .failure) :=
    ⟨rfl, rfl, rfl, List.Subset.refl _, fun _ => id⟩
  exact hanswer.trans (grows_setState .RetryState)

theorem Sure.onHttpData (h : s.Sure) (hne : s.version ≠ 0) {request : Request}
    (hguard : ∀ result ∈ s.template data,
      ∀ blob ∈ result.getString (bytes "blockhashing_blob"), s.Suffices result blob)
    (hreply : s.onHttpData request data layer = .ok s') : s'.Sure := by
  have hanswer : ∀ (t : SelfSelectClient) (a : Answer), Grows t (t.answer request a) :=
    fun t a => ⟨rfl, rfl, rfl, List.Subset.refl _, fun _ => id⟩
  have hkept : ∀ {t u : SelfSelectClient}, t.Sure → t.version ≠ 0 → Grows t u → u.Sure :=
    fun ht htne hg => ht.grows hg fun hzero => absurd hzero htne
  unfold template at hguard
  simp only [SelfSelectClient.onHttpData] at hreply
  split at hreply
  · obtain rfl := Except.ok.inj hreply
    exact hkept h hne (grows_failed request)
  next hstatus =>
    cases hdoc : data.document with
    | none =>
        simp only [hdoc] at hreply
        obtain rfl := Except.ok.inj hreply
        exact hkept h hne (grows_failed request)
    | some doc =>
        simp only [hdoc] at hreply hguard
        split at hreply
        · obtain rfl := Except.ok.inj hreply
          exact hkept h hne (hanswer s .ignored)
        split at hreply
        · contradiction
        next hcurrent hobject =>
          obtain ⟨⟨t, done⟩, hparse, hreply⟩ := bind_ok.mp hreply
          obtain rfl := Except.ok.inj hreply
          have ht : t.Sure ∧ t.version ≠ 0 := by
            refine h.parseResponse hne (fun hid herror hfields => ?_) hparse
            exact hguard _ (if_pos ⟨not_not.mp hstatus, hcurrent, hid, herror, hfields⟩)
          dsimp only
          split
          · exact hkept ht.1 ht.2 (hanswer t .template)
          · exact hkept ht.1 ht.2 (grows_failed request)

theorem Sure.onBlockTemplate (h : s.Sure) (hne : s.version ≠ 0) {success : Bool}
    (hasked : success = true → s.active = true → ∃ id, ∃ a ∈ s.asked id, a.version = s.version) :
    (s.onBlockTemplate success).Sure := by
  have hkept : ∀ {t : SelfSelectClient}, Grows s t → t.Sure :=
    fun hg => h.grows hg fun hzero => absurd hzero hne
  simp only [SelfSelectClient.onBlockTemplate]
  split
  · exact hkept (grows_setState .RetryState)
  next hsuccess =>
    split
    · exact h
    next hactive =>
      have hlogged : Grows s (if s.failures > s.retries then s.report .onLoginSuccess else s) := by
        split
        · exact grows_report fun job heq => by cases heq
        · exact .refl s
      have hidle := hlogged.trans (grows_setState .IdleState)
      refine (hkept hidle).hand ?_
      rw [hidle.asked, hidle.version]
      exact hasked (by simpa using hsuccess) (by simpa using hactive)

theorem Sure.respond (h : s.Sure) {id : Int} {response : Client.Requests.Response}
    (hguard : s.Pays (.response id response)) : (s.respond id response).Sure := by
  simp only [SelfSelectClient.respond]
  generalize ite ((decide (response ≠ .error)) = true) _ _ = more
  have hkept : ({ s with
      client := s.client.parseResponse id response
      acknowledged := more ++ s.acknowledged } : SelfSelectClient).Sure := by
    refine ⟨h.received, fun hzero => ?_, h.base, h.asked⟩
    obtain ⟨hrequests, hstate, hdiff, hnone⟩ := h.untouched hzero
    refine ⟨hrequests, hstate, hdiff, fun id' => ?_⟩
    show (s.client.parseResponse id response).callbacks id' = none
    rw [callbacks_parseResponse (hnone id)]
    exact hnone id'
  split
  · next hcalled =>
    have hne : s.version ≠ 0 := by
      intro hzero
      rw [(h.untouched hzero).callbacks] at hcalled
      exact Bool.false_ne_true hcalled.2
    refine hkept.onBlockTemplate hne fun hsuccess hactive => ?_
    exact hguard hcalled.1 hcalled.2 (of_decide_eq_true hsuccess) hactive
  · exact hkept

/-! ## Runs -/

omit [Features] in
theorem grows_submitOriginDaemon (result : JobResult) : Grows s (s.submitOriginDaemon result) := by
  unfold submitOriginDaemon
  split
  · refine Grows.trans ?_ grows_getBlockTemplate
    exact ⟨rfl, rfl, rfl, List.Subset.refl _, fun _ => id⟩
  · exact .refl s

omit [Features] in
theorem grows_tick (ms : Nat) : Grows s (s.tick ms) := by
  simp only [tick]
  split
  · refine Grows.trans ?_ grows_getBlockTemplate
    exact ⟨rfl, rfl, rfl, List.Subset.refl _, fun _ => id⟩
  · exact ⟨rfl, rfl, rfl, List.Subset.refl _, fun _ => id⟩

omit [Features] in
theorem Untouched.tick (h : s.Untouched) (ms : Nat) : (s.tick ms).Untouched := by
  simp only [SelfSelectClient.tick]
  rw [if_neg fun hretry => h.state hretry.1]
  exact ⟨h.requests, h.state, h.blockDiff, h.callbacks⟩

omit [Features] in
theorem Untouched.submitOriginDaemon (h : s.Untouched) (result : JobResult) :
    (s.submitOriginDaemon result).Untouched := by
  unfold SelfSelectClient.submitOriginDaemon
  rwa [if_neg fun hsubmits : s.Submits result => hsubmits.2.2.1 h.blockDiff]

/-- The inner client sends a request of its own. -/
theorem Sure.send (h : s.Sure) {r : Client.Request} (hr : ∀ method params, r ≠ .call method params) :
    (s.send layer r).Sure := by
  refine h.grows ?_ fun hzero => (h.untouched hzero).send layer hr
  exact ⟨rfl, rfl, rfl, List.Subset.refl _, fun _ => id⟩

theorem sure_step {e : Event} (h : s.Sure) (hasks : s.Asks e) (hguard : s.Pays e)
    (hstep : machine.step s e = some s') : s'.Sure := by
  obtain ⟨hready, hafter⟩ := Option.ite_none_right_eq_some.mp hstep
  cases e with
  | onVerifyAlgorithm algorithm ok =>
      obtain rfl := Option.some.inj hafter
      exact h.grows (grows_report fun job heq => by cases heq) fun hzero =>
        (h.untouched hzero).report _
  | onJobReceived job =>
      obtain rfl := Option.some.inj hafter
      exact (h.write hasks).grows grows_getBlockTemplate fun hzero => absurd hzero (Nat.succ_ne_zero _)
  | onLoginSuccess =>
      obtain rfl := Option.some.inj hafter
      have hreport : Grows s (s.report .onLoginSuccess) := grows_report fun job heq => by cases heq
      have hidle := hreport.trans (grows_setState .IdleState)
      refine h.grows (hidle.trans ⟨rfl, rfl, rfl, List.Subset.refl _, fun _ => id⟩) fun hzero => ?_
      have ht := ((h.untouched hzero).report .onLoginSuccess).setState State.IdleState (by decide)
      exact ⟨ht.requests, ht.state, ht.blockDiff, ht.callbacks⟩
  | onClose failures =>
      obtain rfl := Option.some.inj hafter
      have hreport : Grows s (s.report (.onClose failures)) :=
        grows_report fun job heq => by cases heq
      have hidle := hreport.trans (grows_setState .IdleState)
      refine h.grows (hidle.trans ⟨rfl, rfl, rfl, List.Subset.refl _, fun _ => id⟩) fun hzero => ?_
      have ht := ((h.untouched hzero).report (.onClose failures)).setState State.IdleState
        (by decide)
      exact ⟨ht.requests, ht.state, ht.blockDiff, ht.callbacks⟩
  | login _ _ =>
      obtain rfl := Option.some.inj hafter
      exact h.send fun method params heq => by cases heq
  | ping _ =>
      obtain rfl := Option.some.inj hafter
      exact h.send fun method params heq => by cases heq
  | connected _ | elsewhere =>
      obtain rfl := Option.some.inj hafter
      refine h.grows ?_ fun hzero => ?_
      · exact ⟨rfl, rfl, rfl, List.Subset.refl _, fun _ => id⟩
      · obtain ⟨hrequests, hstate, hdiff, hcallbacks⟩ := h.untouched hzero
        exact ⟨hrequests, hstate, hdiff, hcallbacks⟩
  | response id response =>
      obtain rfl := Option.some.inj hafter
      exact h.respond hguard
  | submit result layer =>
      obtain rfl := Option.some.inj hafter
      have hsubmit : (s.submitOriginDaemon result).Sure :=
        h.grows (grows_submitOriginDaemon result) fun hzero =>
          (h.untouched hzero).submitOriginDaemon result
      exact hsubmit.send fun method params heq => by cases heq
  | reply request data layer =>
      rw [after, toOption_eq_some] at hafter
      have hne : s.version ≠ 0 := by
        intro hzero
        change request ∈ s.requests at hready
        rw [(h.untouched hzero).requests] at hready
        exact absurd hready List.not_mem_nil
      have hsent : ({ s with requests := s.requests.erase request } : SelfSelectClient).Sure := by
        refine h.grows ?_ fun hzero => absurd hzero hne
        exact ⟨rfl, rfl, rfl, List.Subset.refl _, fun _ => id⟩
      refine hsent.onHttpData hne (fun result hresult blob hblob => ?_) hafter
      obtain ⟨hdiff, halgorithm, hnonce, hseed⟩ := hguard result hresult blob hblob
      exact ⟨hdiff, halgorithm, hnonce, hseed⟩
  | tick ms =>
      obtain rfl := Option.some.inj hafter
      exact h.grows (grows_tick ms) fun hzero => (h.untouched hzero).tick ms
  | resume =>
      obtain rfl := Option.some.inj hafter
      exact h.grows (grows_report fun job heq => by cases heq) fun hzero =>
        (h.untouched hzero).report _

theorem sure_init (submitToOrigin : Bool) (base : BaseClient) (agent brand : List UInt8)
    (sequence : Nat) (retries : Int) (retryPause now : Nat) :
    (init submitToOrigin (.init base agent brand sequence) retries retryPause now).Sure where
  received _ hjob := absurd hjob List.not_mem_nil
  untouched _ := ⟨rfl, nofun, rfl, fun _ => rfl⟩
  base hne := absurd rfl hne
  asked _ _ ha := absurd ha (Option.not_mem_none _)

/-- **What a self-select client hands over has been checked**, in a run whose templates
have what their jobs need. -/
theorem received_checked (h : machine.ReachableIf (fun s e => s.Asks e ∧ s.Pays e) s) :
    s.ReceivedChecked := by
  refine (h.invariant (fun s hs => ?_) fun _ _ _ hs hg => sure_step hs hg.1 hg.2).received
  obtain ⟨_, _, _, _, _, _, _, _, rfl⟩ := hs
  exact sure_init _ _ _ _ _ _ _ _

end

end SelfSelectClient

end XLArig
