import XLArig.SelfSelectClient

/-!
# XLArig.SelfSelectClient.Acknowledged

Which jobs a self-select client hands over.

The acknowledgement of a `block_template` request hands over the job as it is by then, and
so does `job` whenever the strategy resumes.  The job is that of an acknowledged request in
the runs in which it was not written to since that request was made: `handed_acknowledged`.
-/

namespace XLArig

open DaemonClient (HttpData)

namespace SelfSelectClient

/-- The seed that a template gives. -/
def sentSeed (result : Json) : List UInt8 :=
  match result.getString (bytes "seed_hash") with
  | some text => Cvt.fromHex text
  | none => []

/-- The job is the one that a request tells of. -/
structure Matches (job : Job) (a : Asked) : Prop where
  id : job.id = a.jobId
  height : job.height = a.height
  seed : job.seed = sentSeed a.result
  size : 0 < job.size
  blob : ∃ text ∈ a.result.getString (bytes "blockhashing_blob"),
    Cvt.fromHexInto Job.maxBlobSize text = some (job.blob.slice 0 job.size)

/-- The jobs that were handed over. -/
def Entry.job? : Entry → Option Job
  | .onJobReceived job | .resumed job => some job
  | .onVerifyAlgorithm _ _ | .onLoginSuccess | .onClose _ => none

/-- The template that a reply brings. -/
def template (s : SelfSelectClient) (data : HttpData) : Option Json :=
  match data.document with
  | none => none
  | some doc =>
      let id := ((doc.getValue (bytes "id")).int64?).getD (-1)
      let result := doc.getValue (bytes "result")
      if data.status = 200 ∧ ¬ (id > 0 ∧ s.sequence - id ≠ 1) ∧ id ≠ -1 ∧
          (doc.getObject (bytes "error")).isObject = false ∧
          requiredFields.all result.hasMember = true then
        some result
      else none

/-- The seed of a template has the length of a seed, or it is the one that the job has. -/
def SeedTaken (job : Job) (result : Json) : Prop :=
  (∃ text ∈ result.getString (bytes "seed_hash"), text.length = 64) ∨ job.seed = sentSeed result

/-- The job is not written to between a `block_template` request and its acknowledgement;
the strategy resumes while the job is an acknowledged one; and a template has a seed. -/
def Unmixed (s : SelfSelectClient) : Event → Prop
  | .response id response =>
      id ≠ 1 → (s.client.callbacks id).isSome = true → response ≠ .error → s.active = true →
        ∃ a ∈ s.asked id, a.version = s.version
  | .reply _ data _ => ∀ result ∈ s.template data, SeedTaken s.job result
  | .resume => ∃ a ∈ s.acknowledged, a.version = s.version
  | _ => True

/-! ## What a template makes of the job -/

section

variable [Features] {pool : Pool} {result : Json} {job job' : Job} {text : List UInt8}

omit [Features] in
theorem seed_takeSeed (h : SeedTaken job result) :
    (takeSeed job (result.getString (bytes "seed_hash"))).seed = sentSeed result := by
  unfold takeSeed sentSeed
  obtain ⟨text, htext, hlen⟩ | hseed := h
  · rw [Option.mem_def] at htext
    simp [htext, hlen]
  · unfold sentSeed at hseed
    cases htext : result.getString (bytes "seed_hash") with
    | none => simpa [htext] using hseed
    | some text =>
        simp only [htext] at hseed ⊢
        split
        · exact hseed
        · rfl

omit [Features] in
/-- Only the seed is taken. -/
theorem takeSeed_eq (hash : CString) : ∃ seed, takeSeed job hash = { job with seed } := by
  unfold takeSeed
  split
  · exact ⟨job.seed, rfl⟩
  · split
    · exact ⟨job.seed, rfl⟩
    · exact ⟨_, rfl⟩

omit [Features] in
/-- The blob is left as it is. -/
theorem blob_fillJob : (fillJob pool result job).size = job.size ∧
    (fillJob pool result job).blob = job.blob := by
  unfold fillJob
  dsimp only
  generalize hjob : ite (pool.coin.isValid = true) _ _ = filled
  have hkept : filled.size = job.size ∧ filled.blob = job.blob := by
    rw [← hjob]
    split <;> exact ⟨rfl, rfl⟩
  obtain ⟨seed, hseed⟩ := takeSeed_eq (result.getString (bytes "seed_hash"))
  rw [hseed]
  exact hkept

/-- A job that was filled from a template matches the request that is made then. -/
theorem matches_fillJob (hblob : job.setBlob (some text) = some job')
    (htext : result.getString (bytes "blockhashing_blob") = some text)
    (hseed : SeedTaken job result) (version : Nat) :
    Matches (fillJob pool result job')
      ⟨version, (fillJob pool result job').id, (fillJob pool result job').height, result⟩ := by
  obtain ⟨hsize, hkept⟩ : (fillJob pool result job').size = _ ∧ (fillJob pool result job').blob = _ :=
    blob_fillJob
  have hslice := Job.slice_setBlob hblob
  obtain ⟨_, _, -, -, htaken, hfilled⟩ := Job.setBlob_eq hblob
  refine ⟨rfl, rfl, ?_, ?_, text, htext, ?_⟩
  · unfold fillJob
    apply seed_takeSeed
    subst hfilled
    split <;> exact hseed
  · have hroom : 0 < job.nonceOffset := by
      unfold Job.nonceOffset
      split <;> omega
    rw [hsize, hfilled]
    exact Nat.lt_of_lt_of_le (Nat.add_pos_left hroom _) htaken.1
  · rw [hsize, hkept]
    exact hslice

end

/-! ## The invariant -/

section

variable {s t u : SelfSelectClient} {a : Asked}

/-- A request that was made, or acknowledged. -/
def Known (s : SelfSelectClient) (a : Asked) : Prop :=
  (∃ id, s.asked id = some a) ∨ a ∈ s.acknowledged

/-- A job that is handed over is one of an acknowledged request. -/
def Handed (s : SelfSelectClient) : Prop :=
  ∀ e ∈ s.log, ∀ job ∈ e.job?, ∃ a ∈ s.acknowledged, Matches job a

/-- Requests are made from what the job was before, or from what it is. -/
structure Kept (s : SelfSelectClient) : Prop where
  handed : s.Handed
  known : ∀ a, s.Known a → a.version < s.version ∨ (a.version = s.version ∧ Matches s.job a)

/-- `t` is `s` after no job was written or handed over, and no request made or
acknowledged. -/
structure Frame (s t : SelfSelectClient) : Prop where
  job : t.job = s.job
  version : t.version = s.version
  asked : t.asked = s.asked
  acknowledged : t.acknowledged = s.acknowledged
  log : ∀ e ∈ t.log, e ∈ s.log ∨ e.job? = none

theorem Frame.refl (s : SelfSelectClient) : Frame s s := ⟨rfl, rfl, rfl, rfl, fun _ => .inl⟩

theorem Frame.trans (h : Frame s t) (h' : Frame t u) : Frame s u where
  job := h'.job.trans h.job
  version := h'.version.trans h.version
  asked := h'.asked.trans h.asked
  acknowledged := h'.acknowledged.trans h.acknowledged
  log e he := by
    obtain ht | hnone := h'.log e he
    · exact h.log e ht
    · exact .inr hnone

theorem Kept.frame (h : s.Kept) (hf : Frame s t) : t.Kept where
  handed e he job hjob := by
    rw [hf.acknowledged]
    obtain hs | hnone := hf.log e he
    · exact h.handed e hs job hjob
    · rw [hnone] at hjob
      contradiction
  known a ha := by
    rw [hf.version, hf.job]
    refine h.known a ?_
    unfold Known at ha ⊢
    rwa [← hf.asked, ← hf.acknowledged]

theorem frame_report {e : Entry} (he : e.job? = none) : Frame s (s.report e) where
  job := rfl
  version := rfl
  asked := rfl
  acknowledged := rfl
  log e' he' := by
    obtain rfl | hs := List.mem_cons.mp he'
    · exact .inr he
    · exact .inl hs

theorem frame_setState (state : State) : Frame s (s.setState state) := by
  unfold setState
  split
  · exact .refl s
  · cases state with
    | IdleState | WaitState => exact ⟨rfl, rfl, rfl, rfl, fun _ => .inl⟩
    | RetryState =>
        dsimp only
        split
        · exact (frame_report rfl).trans ⟨rfl, rfl, rfl, rfl, fun _ => .inl⟩
        · exact ⟨rfl, rfl, rfl, rfl, fun _ => .inl⟩

theorem frame_getBlockTemplate : Frame s s.getBlockTemplate :=
  (frame_setState .WaitState).trans ⟨rfl, rfl, rfl, rfl, fun _ => .inl⟩

/-- All that was known is of an older job. -/
theorem Kept.write (h : s.Kept) (job : Job) : (s.write job).Kept where
  handed := h.handed
  known a ha := by
    left
    show a.version < s.version + 1
    obtain hlt | ⟨heq, -⟩ := h.known a ha <;> omega

/-- The job is handed over if it is an acknowledged one. -/
theorem Kept.hand (h : s.Kept) {e : Entry} (he : e.job? = some s.job)
    (hack : ∃ a ∈ s.acknowledged, a.version = s.version) : (s.report e).Kept where
  known := h.known
  handed e' he' job hjob := by
    obtain rfl | hs := List.mem_cons.mp he'
    · obtain ⟨a, ha, hversion⟩ := hack
      obtain hlt | ⟨-, hmatches⟩ := h.known a (.inr ha)
      · omega
      · rw [he] at hjob
        obtain rfl := Option.some.inj hjob
        exact ⟨a, ha, hmatches⟩
    · exact h.handed e' hs job hjob

end

/-! ## Replies and responses -/

section

variable [Features] {s s' : SelfSelectClient} {data : HttpData} {layer : Client.Layer}

/-- The request that is made matches the job. -/
theorem Kept.submitBlockTemplate (h : s.Kept) {result : Json}
    (hjob : Matches s.job ⟨s.version, s.job.id, s.job.height, result⟩) :
    (s.submitBlockTemplate result layer).Kept where
  handed := h.handed
  known a ha := by
    obtain ⟨id, hid⟩ | hack := ha
    · simp only [SelfSelectClient.submitBlockTemplate] at hid
      split at hid
      · exact h.known a (.inl ⟨id, hid⟩)
      · rw [Function.update_apply] at hid
        split at hid
        · obtain rfl := Option.some.inj hid
          exact .inr ⟨rfl, hjob⟩
        · exact h.known a (.inl ⟨id, hid⟩)
    · exact h.known a (.inr hack)

theorem Kept.parseResponse (h : s.Kept) {id : Int} {result error : Json} {done : Bool}
    (hseed : id ≠ -1 → error.isObject = false → requiredFields.all result.hasMember = true →
      SeedTaken s.job result)
    (hparse : s.parseResponse id result error layer = .ok (s', done)) : s'.Kept := by
  simp only [SelfSelectClient.parseResponse] at hparse
  split at hparse
  · obtain ⟨rfl, -⟩ := Prod.mk.inj (Except.ok.inj hparse)
    exact h
  split at hparse
  · obtain ⟨rfl, -⟩ := Prod.mk.inj (Except.ok.inj hparse)
    exact h
  split at hparse
  · obtain ⟨rfl, -⟩ := Prod.mk.inj (Except.ok.inj hparse)
    exact h
  split at hparse
  · obtain ⟨rfl, -⟩ := Prod.mk.inj (Except.ok.inj hparse)
    exact h
  next hid herror hresult hfields =>
    obtain ⟨text, htext, hparse⟩ := bind_ok.mp hparse
    cases hblob : s.job.setBlob (some text) with
    | none =>
        simp only [hblob] at hparse
        obtain ⟨rfl, -⟩ := Prod.mk.inj (Except.ok.inj hparse)
        exact h.write _
    | some job =>
        simp only [hblob] at hparse
        obtain ⟨rfl, -⟩ := Prod.mk.inj (Except.ok.inj hparse)
        refine (h.write _).submitBlockTemplate ?_
        exact matches_fillJob hblob (Json.asString_ok.mp htext)
          (hseed hid (Bool.not_eq_true _ ▸ herror) (by simpa using hfields)) _

theorem Kept.onHttpData (h : s.Kept) {request : Request}
    (hguard : ∀ result ∈ s.template data, SeedTaken s.job result)
    (hreply : s.onHttpData request data layer = .ok s') : s'.Kept := by
  have hanswer : ∀ (t : SelfSelectClient) (a : Answer), Frame t (t.answer request a) :=
    fun t a => ⟨rfl, rfl, rfl, rfl, fun _ => .inl⟩
  have hfailed : ∀ t : SelfSelectClient, t.Kept → ((t.answer request .failure).retry).Kept :=
    fun t ht => ht.frame ((hanswer t .failure).trans (frame_setState .RetryState))
  unfold template at hguard
  simp only [SelfSelectClient.onHttpData] at hreply
  split at hreply
  · obtain rfl := Except.ok.inj hreply
    exact hfailed s h
  next hstatus =>
    cases hdoc : data.document with
    | none =>
        simp only [hdoc] at hreply
        obtain rfl := Except.ok.inj hreply
        exact hfailed s h
    | some doc =>
        simp only [hdoc] at hreply hguard
        split at hreply
        · obtain rfl := Except.ok.inj hreply
          exact h.frame (hanswer s .ignored)
        split at hreply
        · contradiction
        next hcurrent hobject =>
          obtain ⟨⟨t, done⟩, hparse, hreply⟩ := bind_ok.mp hreply
          obtain rfl := Except.ok.inj hreply
          have ht : t.Kept := by
            refine h.parseResponse (fun hid herror hfields => ?_) hparse
            exact hguard _ (if_pos ⟨not_not.mp hstatus, hcurrent, hid, herror, hfields⟩)
          dsimp only
          split
          · exact ht.frame (hanswer t .template)
          · exact hfailed t ht

omit [Features] in
theorem Kept.onBlockTemplate (h : s.Kept) {success : Bool}
    (hack : success = true → s.active = true → ∃ a ∈ s.acknowledged, a.version = s.version) :
    (s.onBlockTemplate success).Kept := by
  simp only [SelfSelectClient.onBlockTemplate]
  split
  · exact h.frame (frame_setState .RetryState)
  next hsuccess =>
    split
    · exact h
    next hactive =>
      have hlogged : Frame s (if s.failures > s.retries then s.report .onLoginSuccess else s) := by
        split
        · exact frame_report rfl
        · exact .refl s
      have hidle : Frame s ((if s.failures > s.retries then s.report .onLoginSuccess
          else s).setState .IdleState) :=
        hlogged.trans (frame_setState .IdleState)
      refine (h.frame hidle).hand rfl ?_
      rw [hidle.acknowledged, hidle.version]
      exact hack (by simpa using hsuccess) (by simpa using hactive)

omit [Features] in
theorem Kept.respond (h : s.Kept) {id : Int} {response : Client.Requests.Response}
    (hguard : s.Unmixed (.response id response)) : (s.respond id response).Kept := by
  simp only [SelfSelectClient.respond]
  generalize hmore : ite ((decide (response ≠ .error)) = true) _ _ = more
  have hasked : ∀ a ∈ more, s.asked id = some a := by
    intro a ha
    rw [← hmore] at ha
    split at ha
    · exact Option.mem_toList.mp ha
    · contradiction
  have hkept : ({ s with
      client := s.client.parseResponse id response
      acknowledged := more ++ s.acknowledged } : SelfSelectClient).Kept := by
    refine ⟨fun e he job hjob => ?_, fun a ha => ?_⟩
    · obtain ⟨a, ha, hmatches⟩ := h.handed e he job hjob
      exact ⟨a, List.mem_append_right _ ha, hmatches⟩
    · refine h.known a ?_
      obtain hid | hack := ha
      · exact .inl hid
      · obtain hnew | hold := List.mem_append.mp hack
        · exact .inl ⟨id, hasked a hnew⟩
        · exact .inr hold
  split
  · next hcalled =>
    refine hkept.onBlockTemplate fun hsuccess hactive => ?_
    obtain ⟨a, ha, hversion⟩ := hguard hcalled.1 hcalled.2 (of_decide_eq_true hsuccess) hactive
    refine ⟨a, List.mem_append_left _ ?_, hversion⟩
    rw [← hmore, if_pos hsuccess]
    exact Option.mem_toList.mpr ha
  · exact hkept

/-! ## Runs -/

omit [Features] in
theorem kept_init (submitToOrigin : Bool) (client : Client.Requests) (retries : Int)
    (retryPause now : Nat) : (init submitToOrigin client retries retryPause now).Kept where
  handed _ he := absurd he List.not_mem_nil
  known _ ha := by
    obtain ⟨_, hid⟩ | hack := ha
    · contradiction
    · exact absurd hack List.not_mem_nil

omit [Features] in
theorem frame_submitOriginDaemon (result : JobResult) : Frame s (s.submitOriginDaemon result) := by
  unfold submitOriginDaemon
  split
  · refine Frame.trans ?_ frame_getBlockTemplate
    exact ⟨rfl, rfl, rfl, rfl, fun _ => .inl⟩
  · exact .refl s

omit [Features] in
theorem frame_tick (ms : Nat) : Frame s (s.tick ms) := by
  simp only [tick]
  split
  · refine Frame.trans ?_ frame_getBlockTemplate
    exact ⟨rfl, rfl, rfl, rfl, fun _ => .inl⟩
  · exact ⟨rfl, rfl, rfl, rfl, fun _ => .inl⟩

theorem kept_step {e : Event} (h : s.Kept) (hguard : s.Unmixed e)
    (hstep : machine.step s e = some s') : s'.Kept := by
  have hafter : s.after e = some s' := (Option.ite_none_right_eq_some.mp hstep).2
  have hclient : ∀ client, Frame s { s with client } := fun _ => ⟨rfl, rfl, rfl, rfl, fun _ => .inl⟩
  cases e with
  | onVerifyAlgorithm algorithm ok =>
      obtain rfl := Option.some.inj hafter
      exact h.frame (frame_report rfl)
  | onJobReceived job =>
      obtain rfl := Option.some.inj hafter
      exact (h.write job).frame frame_getBlockTemplate
  | onLoginSuccess =>
      obtain rfl := Option.some.inj hafter
      have hidle : Frame s ((s.report .onLoginSuccess).setState .IdleState) :=
        (frame_report rfl).trans (frame_setState .IdleState)
      exact h.frame (hidle.trans ⟨rfl, rfl, rfl, rfl, fun _ => .inl⟩)
  | onClose failures =>
      obtain rfl := Option.some.inj hafter
      have hidle : Frame s ((s.report (.onClose failures)).setState .IdleState) :=
        (frame_report rfl).trans (frame_setState .IdleState)
      exact h.frame (hidle.trans ⟨rfl, rfl, rfl, rfl, fun _ => .inl⟩)
  | login _ _ | ping _ | connected _ | elsewhere =>
      obtain rfl := Option.some.inj hafter
      exact h.frame (hclient _)
  | response id response =>
      obtain rfl := Option.some.inj hafter
      exact h.respond hguard
  | submit result layer =>
      obtain rfl := Option.some.inj hafter
      exact h.frame ((frame_submitOriginDaemon result).trans ⟨rfl, rfl, rfl, rfl, fun _ => .inl⟩)
  | reply request data layer =>
      rw [after, toOption_eq_some] at hafter
      have hsent : ({ s with requests := s.requests.erase request } : SelfSelectClient).Kept :=
        h.frame ⟨rfl, rfl, rfl, rfl, fun _ => .inl⟩
      exact hsent.onHttpData hguard hafter
  | tick ms =>
      obtain rfl := Option.some.inj hafter
      exact h.frame (frame_tick ms)
  | resume =>
      obtain rfl := Option.some.inj hafter
      exact h.hand rfl hguard

/-- **What is mined was acknowledged.**  In a run that does not mix templates, every job
that is handed over has a blob, and its id, blob, height and seed are those of one
`block_template` request that the pool acknowledged. -/
theorem handed_acknowledged (h : machine.ReachableIf Unmixed s) : s.Handed := by
  refine (h.invariant (fun s hs => ?_) fun _ _ _ => kept_step).handed
  obtain ⟨_, _, _, _, _, _, _, _, rfl⟩ := hs
  exact kept_init _ _ _ _ _

end

end SelfSelectClient

end XLArig

namespace XLArig.SelfSelectClient

open DaemonClient (HttpData)

/-! ## Two runs -/

/-- A client of a self-select pool, logged in by its first request. -/
def sample : SelfSelectClient :=
  init false (.init ⟨.ofHost (bytes "a") 3333 none none 0 false false .SELF_SELECT, none, none, none⟩
    [] [] 1) 5 5000 0

/-- A job of the pool. -/
def poolJob (id : String) : Job :=
  { Job.empty with
    algorithm := .RX_0
    id := some (bytes id)
    extraNonce := some (bytes "00")
    poolWallet := some (bytes "w")
    diff := 1 }

/-- A template of the daemon. -/
def templateReply : HttpData where
  status := 200
  document := some (.object [(bytes "id", .int 1), (bytes "result", .object
    [(bytes "blocktemplate_blob", .string (List.replicate 160 0x30)),
      (bytes "blockhashing_blob", .string (List.replicate 152 0x30)), (bytes "height", .int 7),
      (bytes "difficulty", .int 9), (bytes "prev_hash", .string []),
      (bytes "seed_hash", .string (List.replicate 64 0x30))])])

instance (job : Job) (result : Json) : Decidable (SeedTaken job result) :=
  inferInstanceAs (Decidable (_ ∨ _))

instance (s : SelfSelectClient) : (e : Event) → Decidable (s.Unmixed e)
  | .response .. => inferInstanceAs (Decidable (_ → _))
  | .reply .. => inferInstanceAs (Decidable (∀ result ∈ _, _))
  | .resume => inferInstanceAs (Decidable (∃ a ∈ _, _))
  | .onVerifyAlgorithm .. | .onLoginSuccess | .onClose _ | .login .. | .ping _ | .connected _ |
      .elsewhere | .onJobReceived _ | .submit .. | .tick _ => inferInstanceAs (Decidable True)

/-- One job, one template and its acknowledgement. -/
theorem handed_one : ∃ s, machine.ReachableIf Unmixed s ∧ s.Handed ∧
    (s.log.any fun e => e.job?.isSome) = true := by
  have hrun : (machine.run sample
      [.connected true, .onLoginSuccess, .onJobReceived (poolJob "1"),
        .reply (.getblocktemplate 1) templateReply .accepted, .response 2 .other, .resume]).any
      (fun s => s.log.any fun e => e.job?.isSome) = true := by
    decide +kernel
  obtain ⟨s, hs, hlog⟩ : ∃ s, machine.ReachableIf Unmixed s ∧ _ :=
    Machine.ReachableIf.exists_of_run ⟨_, _, _, _, _, _, _, _, rfl⟩ (by decide +kernel) hrun
  exact ⟨s, hs, handed_acknowledged hs, hlog⟩

/-- **A job of the pool that comes before the acknowledgement** is handed over in the place
of the one that was acknowledged, and has no blob. -/
theorem hands_blobless : ∃ s, machine.run sample
    [.connected true, .onLoginSuccess, .onJobReceived (poolJob "1"),
      .reply (.getblocktemplate 1) templateReply .accepted, .onJobReceived (poolJob "2"),
      .response 2 .other] = some s ∧
    ¬ s.Handed := by
  have hrun : (machine.run sample
      [.connected true, .onLoginSuccess, .onJobReceived (poolJob "1"),
        .reply (.getblocktemplate 1) templateReply .accepted, .onJobReceived (poolJob "2"),
        .response 2 .other]).any
      (fun s => s.log.any fun e => e.job?.any fun job => job.size = 0) = true := by
    decide +kernel
  obtain ⟨s, hs, hlog⟩ := (Option.any_eq_true _ _).mp hrun
  refine ⟨s, hs, fun hhanded => ?_⟩
  obtain ⟨e, he, hjob⟩ := List.any_eq_true.mp hlog
  obtain ⟨job, hjob, hsize⟩ := (Option.any_eq_true _ _).mp hjob
  obtain ⟨a, -, hmatches⟩ := hhanded e he job hjob
  exact hmatches.size.ne' (of_decide_eq_true hsize)

end XLArig.SelfSelectClient
