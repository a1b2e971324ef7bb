import XLArig.DaemonClient.Inside

/-!
# XLArig.DaemonClient.Final

What comes of the replies to a client that was disconnected.

They are handled as before.  An idle one has no effect that the listener hears of but the
result of a submit; of all others either a job is made or `retry` is called, which counts a
failure on top of -1 and so takes the client for one that is still in use.  `final` says
that `disconnect` is final in the runs in which only idle replies follow it, and in which no
listener disconnects the client in the middle of a login.
-/

namespace XLArig

namespace DaemonClient

/-- What a disconnected client may tell its listener. -/
def Entry.Quiet : Entry → Prop
  | .onClose failures => failures = -1
  | .onResultAccepted _ => True
  | .onJobReceived _ | .onLoginSuccess | .start _ => False

instance (e : Entry) : Decidable e.Quiet := by
  cases e <;> unfold Entry.Quiet <;> infer_instance

/-- A disconnected client is unconnected, and its listener hears nothing more. -/
structure Disconnected (s : DaemonClient) : Prop where
  state : s.intent = .disconnect → s.state = .UnconnectedState
  quiet : ∀ e, (.disconnect, e) ∈ s.log → e.Quiet

/-- `t` is `s` after what its listener does not hear of, results of submits apart. -/
structure Calm (s t : DaemonClient) : Prop where
  state : t.state = s.state
  intent : t.intent = s.intent
  log : ∀ x ∈ t.log, x ∈ s.log ∨ ∃ id, x = (s.intent, .onResultAccepted id)

section

variable {s t u : DaemonClient}

theorem Calm.refl (s : DaemonClient) : Calm s s := ⟨rfl, rfl, fun _ => .inl⟩

theorem Calm.of_eq (hstate : t.state = s.state) (hintent : t.intent = s.intent)
    (hlog : t.log = s.log) : Calm s t :=
  ⟨hstate, hintent, fun _ h => .inl (hlog ▸ h)⟩

theorem Calm.trans (h : Calm s t) (h' : Calm t u) : Calm s u where
  state := h'.state.trans h.state
  intent := h'.intent.trans h.intent
  log x hx := by
    obtain hx | ⟨id, rfl⟩ := h'.log x hx
    · exact h.log x hx
    · exact .inr ⟨id, by rw [h.intent]⟩

theorem calm_getNewer (height : UInt64) (hash : CString) : Calm s (s.getNewer height hash) := by
  unfold getNewer
  split <;> exact .of_eq rfl rfl rfl

theorem calm_handleSubmitResponse (id : Int) : Calm s (s.handleSubmitResponse id).1 := by
  unfold handleSubmitResponse
  split
  · refine ⟨rfl, rfl, fun x hx => ?_⟩
    obtain rfl | hx := List.mem_cons.mp hx
    · exact .inr ⟨id, rfl⟩
    · exact .inl hx
  · exact .refl s

theorem handleSubmitResponse_snd (id : Int) : (s.handleSubmitResponse id).2 = s.results id := by
  unfold handleSubmitResponse
  split
  · next h => exact h.symm
  · next h => exact (Bool.not_eq_true _ ▸ h).symm

theorem calm_onGet {path : Path} {doc : Json} (h : s.onGet path doc = .ok t) : Calm s t := by
  cases path with
  | getHeight =>
      simp only [onGet] at h
      split at h
      · contradiction
      · split at h <;> obtain rfl := Except.ok.inj h
        · exact .of_eq rfl rfl rfl
        · exact calm_getNewer _ _
  | getInfo =>
      obtain rfl := Except.ok.inj h
      exact calm_getNewer _ _

theorem calm_onTimer : Calm s s.onTimer := by
  simp only [onTimer]
  split <;> split <;> (try split) <;> exact .of_eq rfl rfl rfl

theorem calm_submit (result : JobResult) : Calm s (s.submit result) := by
  simp only [submit]
  split
  · exact .of_eq rfl rfl rfl
  · split <;> exact .of_eq rfl rfl rfl

/-! ## Replies -/

variable [Features] {request : Request} {data : HttpData} {params : Json} {random : Memory}
variable {leaves : Bool}

/-- A template that becomes a job. -/
def Accepts (s : DaemonClient) (params : Json) (random : Memory) : Prop :=
  (params.getString (bytes "blocktemplate_blob")).isSome = true ∧
    ∃ blob ∈ s.hashingBlob params random, s.newJob.TakesBlob blob

/-- A response of which no job is made, and which is no failure either. -/
def IdleResponse (s : DaemonClient) (id : Int) (result error : Json) (random : Memory) : Prop :=
  id ≠ -1 ∧ error.isObject = false ∧ result.isObject = true ∧
    (result.hasMember (bytes "top_block_hash") = true ∨
      (¬ (result.hasMember (bytes "blocktemplate_blob") = true ∧ s.Accepts result random) ∧
        s.results id = true))

/-- A reply that has no effect of its own. -/
def Idle (s : DaemonClient) (request : Request) (data : HttpData) (random : Memory) : Prop :=
  data.status = 200 ∧ ∃ doc ∈ data.document,
    match request with
    | .get _ => True
    | .post _ => s.IdleResponse (idOf doc) (doc.getObject (bytes "result"))
        (doc.getObject (bytes "error")) random

theorem parseJob_cases : ∃ t, Calm s t ∧ t.results = s.results ∧
    ((¬ s.Accepts params random ∧ s.parseJob params random leaves = (t, false)) ∨
      (s.Accepts params random ∧ ∃ text job,
        s.parseJob params random leaves = (t.takeTemplate params text job leaves, true))) := by
  unfold Accepts parseJob
  dsimp only
  generalize ht : ite (s.apiVersion = ApiVersion.DERO) _ _ = t
  have hcalm : Calm s t ∧ t.results = s.results ∧ t.newJob = s.newJob := by
    rw [← ht]
    split <;> exact ⟨.of_eq rfl rfl rfl, rfl, rfl⟩
  refine ⟨t, hcalm.1, hcalm.2.1, ?_⟩
  have htakes : (∃ blob ∈ s.hashingBlob params random, s.newJob.TakesBlob blob) ↔ _ :=
    Job.setBlob_isSome.symm
  rw [hcalm.2.2, htakes]
  cases htemplate : params.getString (bytes "blocktemplate_blob") with
  | none => simp
  | some text =>
      cases hblob : s.newJob.setBlob (s.hashingBlob params random) with
      | none => simp
      | some job => exact .inr ⟨⟨rfl, rfl⟩, some text, job, rfl⟩

theorem parseResponse_cases {id : Int} {result error : Json} {s' : DaemonClient} {done : Bool}
    (h : s.parseResponse id result error random leaves = .ok (s', done)) :
    (done = true ∧ Calm s s') ∨
      (done = false ∧ Calm s s' ∧ ¬ s.IdleResponse id result error random) ∨
      (done = true ∧ Brings id result error ∧ s.Accepts result random ∧
        ∃ t text job, Calm s t ∧ s' = t.takeTemplate result text job leaves) := by
  unfold IdleResponse Brings
  simp only [parseResponse] at h
  split at h
  · next hid =>
    obtain ⟨rfl, rfl⟩ := Prod.mk.inj (Except.ok.inj h)
    exact .inr (.inl ⟨rfl, .refl s, fun hidle => hidle.1 hid⟩)
  split at h
  · next hid herror =>
    obtain ⟨_, -, h⟩ := bind_ok.mp h
    obtain ⟨rfl, rfl⟩ := Prod.mk.inj (Except.ok.inj h)
    exact .inr (.inl ⟨rfl, calm_handleSubmitResponse id, by simp [herror]⟩)
  split at h
  · next hid herror hresult =>
    obtain ⟨rfl, rfl⟩ := Prod.mk.inj (Except.ok.inj h)
    exact .inr (.inl ⟨rfl, .refl s, by simp_all⟩)
  split at h
  · next hid herror hresult hhash =>
    obtain ⟨rfl, rfl⟩ := Prod.mk.inj (Except.ok.inj h)
    refine .inl ⟨rfl, ?_⟩
    split
    · exact .of_eq rfl rfl rfl
    · exact .refl s
  next hid herror hresult hhash =>
    generalize hparsed : ite (result.hasMember (bytes "blocktemplate_blob") = true) _ _ = parsed at h
    obtain ⟨t, hcalm, hresults, hcases⟩ :
        ∃ t, Calm s t ∧ t.results = s.results ∧
          ((parsed = (t, false) ∧ ¬ (result.hasMember (bytes "blocktemplate_blob") = true ∧
              s.Accepts result random)) ∨
            (result.hasMember (bytes "blocktemplate_blob") = true ∧ s.Accepts result random ∧
              ∃ text job, parsed = (t.takeTemplate result text job leaves, true))) := by
      rw [← hparsed]
      split
      · next htemplate =>
        obtain ⟨t, hcalm, hresults, hcases⟩ := parseJob_cases (s := s)
        refine ⟨t, hcalm, hresults, ?_⟩
        obtain ⟨hnot, heq⟩ | ⟨haccepts, htaken⟩ := hcases
        · exact .inl ⟨heq, fun hboth => hnot hboth.2⟩
        · exact .inr ⟨htemplate, haccepts, htaken⟩
      · next htemplate => exact ⟨s, .refl s, rfl, .inl ⟨rfl, fun hboth => htemplate hboth.1⟩⟩
    obtain ⟨rfl, hnot⟩ | ⟨htemplate, haccepts, text, job, rfl⟩ := hcases
    · have hsubmit := calm_handleSubmitResponse (s := t) id
      have hhandled : (t.handleSubmitResponse id).2 = s.results id := by
        rw [handleSubmitResponse_snd, hresults]
      simp only [Bool.false_eq_true, if_false] at h
      generalize t.handleSubmitResponse id = submitted at h hsubmit hhandled
      obtain ⟨u, handled⟩ := submitted
      cases handled with
      | true =>
          obtain ⟨rfl, rfl⟩ := Prod.mk.inj (Except.ok.inj h)
          exact .inl ⟨rfl, (hcalm.trans hsubmit).trans (.of_eq rfl rfl rfl)⟩
      | false =>
          obtain ⟨rfl, rfl⟩ := Prod.mk.inj (Except.ok.inj h)
          refine .inr (.inl ⟨rfl, hcalm.trans hsubmit, ?_⟩)
          rintro ⟨-, -, -, hhas | hidle⟩
          · exact hhash hhas
          · rw [← hhandled] at hidle
            exact Bool.false_ne_true hidle.2
    · obtain ⟨rfl, rfl⟩ := Prod.mk.inj (Except.ok.inj h)
      refine .inr (.inr ⟨rfl, ⟨hid, ?_, ?_, ?_, htemplate⟩, haccepts, t, text, job, hcalm, rfl⟩) <;>
        simp_all

/-- What becomes of a reply: nothing that is heard of, a failure, or a job. -/
theorem onHttpData_cases {s' : DaemonClient}
    (h : s.onHttpData request data random leaves = .ok s') :
    Calm s s' ∨
      (¬ s.Idle request data random ∧ ∃ t, Calm s t ∧ s' = t.retry leaves) ∨
      (¬ s.Idle request data random ∧ ∃ params, template request data = some params ∧
        s.Accepts params random ∧
        ∃ t text job, Calm s t ∧ s' = t.takeTemplate params text job leaves) := by
  unfold Idle template
  simp only [onHttpData] at h
  split at h
  · next hstatus =>
    obtain rfl := Except.ok.inj h
    exact .inr (.inl ⟨fun hidle => hstatus hidle.1, s, .refl s, rfl⟩)
  · next hstatus =>
    cases hdoc : data.document with
    | none =>
        simp only [hdoc] at h
        obtain rfl := Except.ok.inj h
        exact .inr (.inl ⟨by simp, s, .refl s, rfl⟩)
    | some doc =>
        cases request with
        | get path =>
            simp only [hdoc] at h
            exact .inl (calm_onGet h)
        | post id =>
            simp only [hdoc] at h
            obtain ⟨⟨t, done⟩, hparse, h⟩ := bind_ok.mp h
            obtain rfl := Except.ok.inj h
            obtain ⟨rfl, hcalm⟩ | ⟨rfl, hcalm, hidle⟩ | ⟨rfl, hbrings, haccepts, htaken⟩ :=
              parseResponse_cases hparse
            · exact .inl hcalm
            · exact .inr (.inl ⟨by simpa [idOf] using fun _ => hidle, t, hcalm, rfl⟩)
            · refine .inr (.inr ⟨?_, _, if_pos ⟨not_not.mp hstatus, hbrings⟩, haccepts, htaken⟩)
              rintro ⟨-, d, hd, hidle⟩
              obtain rfl := Option.some.inj hd
              simp_all [IdleResponse, Brings, idOf]

end

section

/-! ## The invariant -/

/-- A client that is in use is not unconnected, and one that was never used has nothing in
flight. -/
structure Settled (s : DaemonClient) : Prop extends Disconnected s where
  connected : s.intent = .connect → s.state ≠ .UnconnectedState
  fresh : s.intent = .none → s.requests = [] ∧ s.blocktemplate = none ∧ s.timer = none

variable {s t : DaemonClient}

theorem Settled.report (h : s.Settled) (hin : s.intent = .connect) (e : Entry) :
    (s.report e).Settled where
  state := h.state
  connected := h.connected
  fresh := h.fresh
  quiet e' he' := by
    obtain heq | hlog := List.mem_cons.mp he'
    · rw [hin] at heq
      exact absurd (congrArg Prod.fst heq) nofun
    · exact h.quiet e' hlog

theorem Settled.start (h : s.Settled) (hin : s.intent = .connect) (timer : Timer) :
    (s.start timer).Settled where
  state := h.state
  connected := h.connected
  fresh hnone := absurd (hin.symm.trans hnone) (by decide)
  quiet := (h.report hin (.start timer)).quiet

theorem Settled.disconnect (h : s.Settled) : s.disconnect.Settled := by
  rw [disconnect_eq]
  exact ⟨⟨fun _ => rfl, h.quiet⟩, nofun, nofun⟩

/-- The client goes on in another state. -/
theorem Settled.inUse (h : s.Settled) (hin : s.intent = .connect) (hintent : t.intent = s.intent)
    (hlog : t.log = s.log) (hstate : t.state ≠ .UnconnectedState) : t.Settled where
  state hout := absurd ((hintent.trans hin).symm.trans hout) (by decide)
  connected _ := hstate
  fresh hnone := absurd ((hintent.trans hin).symm.trans hnone) (by decide)
  quiet e he := h.quiet e (hlog ▸ he)

theorem Settled.calm (h : s.Settled) (hcalm : Calm s t) (hused : s.intent ≠ .none) :
    t.Settled where
  state hout := hcalm.state.trans (h.state (hcalm.intent.symm.trans hout))
  connected hin := by
    rw [hcalm.state]
    exact h.connected (hcalm.intent.symm.trans hin)
  fresh hnone := absurd (hcalm.intent.symm.trans hnone) hused
  quiet e he := by
    obtain hlog | ⟨id, heq⟩ := hcalm.log _ he
    · exact h.quiet e hlog
    · rw [(Prod.mk.inj heq).2]
      trivial

theorem Settled.retry (h : s.Settled) (hin : s.intent = .connect) (leaves : Bool) :
    (s.retry leaves).Settled := by
  have hclosed : ({ s with failures := s.failures + 1 }.report (.onClose (s.failures + 1))).Settled := by
    apply Settled.report
    · exact h.inUse hin rfl rfl (h.connected hin)
    · exact hin
  simp only [DaemonClient.retry]
  cases leaves with
  | true =>
      have hleft : ({ s with failures := s.failures + 1 }.report
          (.onClose (s.failures + 1))).disconnect.failures = -1 := by
        rw [disconnect_eq]
        exact if_neg (h.connected hin)
      rw [if_pos rfl, if_pos hleft]
      exact hclosed.disconnect
  | false =>
      rw [if_neg Bool.false_ne_true]
      split
      · exact hclosed
      · split
        · apply Settled.start
          · exact hclosed.inUse hin rfl rfl fun hstate => by cases hstate
          · exact hin
        · exact hclosed.start hin _

theorem Settled.takeTemplate [Features] {params : Json} {template : CString} {job : Job}
    {leaves : Bool} (h : s.Settled) (hin : s.intent = .connect)
    (hstays : leaves = true → s.state ≠ .ConnectingState) :
    (s.takeTemplate params template job leaves).Settled := by
  simp only [DaemonClient.takeTemplate]
  split
  · next hconnecting =>
    have hleaves : leaves = false := by
      cases leaves with
      | true => exact absurd hconnecting (hstays rfl)
      | false => rfl
    simp only [setConnected, hleaves, Bool.false_eq_true, if_false]
    apply Settled.report
    · apply Settled.start
      · apply Settled.report
        · exact h.inUse hin rfl rfl fun hstate => by cases hstate
        · exact hin
      · exact hin
    · exact hin
  · apply Settled.report
    · exact h.inUse hin rfl rfl (h.connected hin)
    · exact hin

end

/-! ## Runs -/

section

variable [Features] {s s' : DaemonClient}

/-- Only idle replies follow a `disconnect`, and no listener disconnects the client when it
hears of a login. -/
def Undisturbed (s : DaemonClient) : Event → Prop
  | .reply request data random leaves =>
      (s.intent = .disconnect → s.Idle request data random) ∧
        (leaves = true → s.state = .ConnectingState →
          ∀ params ∈ template request data, ¬ s.Accepts params random)
  | .connect | .disconnect | .submit _ | .timer | .elsewhere => True

omit [Features] in
theorem settled_init (pool : Pool) (sequence : Int) : (init pool sequence).Settled :=
  ⟨⟨nofun, fun _ he => absurd he List.not_mem_nil⟩, nofun, fun _ => ⟨rfl, rfl, rfl⟩⟩

omit [Features] in
theorem Settled.connect (h : s.Settled) : s.connect.Settled := by
  simp only [DaemonClient.connect]
  split
  all_goals
    refine ⟨⟨fun hout => ?_, h.quiet⟩, fun _ hout => ?_, fun hnone => ?_⟩
    · contradiction
    · contradiction
    · contradiction

theorem Settled.reply {request : Request} {data : HttpData} {random : Memory} {leaves : Bool}
    (h : s.Settled) (hused : s.intent ≠ .none)
    (hguard : s.Undisturbed (.reply request data random leaves))
    (hreply : s.onHttpData request data random leaves = .ok s') : s'.Settled := by
  have hbusy : ¬ s.Idle request data random → s.intent = .connect := by
    intro hidle
    cases hintent : s.intent with
    | none => exact absurd hintent hused
    | connect => rfl
    | disconnect => exact absurd (hguard.1 hintent) hidle
  obtain hcalm | ⟨hidle, t, hcalm, rfl⟩ |
    ⟨hidle, params, hparams, haccepts, t, text, job, hcalm, rfl⟩ := onHttpData_cases hreply
  · exact h.calm hcalm hused
  · exact (h.calm hcalm hused).retry (hcalm.intent.trans (hbusy hidle)) leaves
  · refine (h.calm hcalm hused).takeTemplate (hcalm.intent.trans (hbusy hidle)) ?_
    intro hleaves hstate
    exact hguard.2 hleaves (hcalm.state.symm.trans hstate) params hparams haccepts

theorem settled_step {e : Event} (h : s.Settled) (hguard : s.Undisturbed e)
    (hstep : machine.step s e = some s') : s'.Settled := by
  obtain ⟨hready, hafter⟩ := Option.ite_none_right_eq_some.mp hstep
  cases e with
  | connect =>
      obtain rfl := Option.some.inj hafter
      exact h.connect
  | disconnect =>
      obtain rfl := Option.some.inj hafter
      exact h.disconnect
  | submit result =>
      obtain rfl := Option.some.inj hafter
      by_cases hused : s.intent = .none
      · have hnone : (s.use (idAccess s.blocktemplate)).blocktemplate.isNone = true :=
          Option.isNone_iff_eq_none.mpr (h.fresh hused).2.1
        simp only [submit]
        rw [if_pos (.inl hnone)]
        exact ⟨⟨h.state, h.quiet⟩, h.connected, h.fresh⟩
      · exact h.calm (calm_submit result) hused
  | reply request data random leaves =>
      have hused : s.intent ≠ .none := by
        intro hnone
        rw [Ready, (h.fresh hnone).1] at hready
        exact List.not_mem_nil hready
      rw [after, toOption_eq_some] at hafter
      have hsent : ({ s with requests := s.requests.erase request } : DaemonClient).Settled :=
        h.calm (.of_eq rfl rfl rfl) hused
      exact hsent.reply hused hguard hafter
  | timer =>
      have hused : s.intent ≠ .none := by
        intro hnone
        rw [Ready, (h.fresh hnone).2.2] at hready
        exact Bool.false_ne_true hready
      obtain rfl := Option.some.inj hafter
      exact h.calm calm_onTimer hused
  | elsewhere =>
      obtain rfl := Option.some.inj hafter
      exact ⟨⟨h.state, h.quiet⟩, h.connected, h.fresh⟩

/-- **`disconnect` is final** in the runs that nothing disturbs: until the next `connect`
the client is unconnected, makes no job and no login, reports no failure and starts no
timer. -/
theorem final (h : machine.ReachableIf Undisturbed s) : s.Disconnected := by
  refine Settled.toDisconnected (h.invariant ?_ fun _ _ _ => settled_step)
  rintro _ ⟨pool, sequence, rfl⟩
  exact settled_init pool sequence

end

end DaemonClient

end XLArig

namespace XLArig.DaemonClient

/-! ## Replies after a disconnect -/

instance (s : DaemonClient) (params : Json) (random : Memory) :
    Decidable (s.Accepts params random) :=
  inferInstanceAs (Decidable (_ ∧ _))

instance (s : DaemonClient) (id : Int) (result error : Json) (random : Memory) :
    Decidable (s.IdleResponse id result error random) :=
  inferInstanceAs (Decidable (_ ∧ _))

instance (s : DaemonClient) (request : Request) (data : HttpData) (random : Memory) :
    Decidable (s.Idle request data random) := by
  cases request <;> unfold Idle <;> infer_instance

instance (s : DaemonClient) : (e : Event) → Decidable (s.Undisturbed e)
  | .reply .. => inferInstanceAs (Decidable (_ ∧ _))
  | .connect | .disconnect | .submit _ | .timer | .elsewhere => inferInstanceAs (Decidable True)

/-- A height that is told after a disconnect. -/
theorem final_getheight : ∃ s, machine.ReachableIf Undisturbed s ∧ s.intent = .disconnect ∧
    s.state = .UnconnectedState := by
  have hrun : (machine.run (init samplePool 1)
      [.connect, .reply (.post 1) (templateReply (List.replicate 118 0x30)) (fun _ => 0) false,
        .timer, .disconnect, .reply (.get .getHeight)
          ⟨200, some (.object [(bytes "hash", .string (bytes "aa"))])⟩ (fun _ => 0) false]).any
      (fun s => s.intent = .disconnect) = true := by
    decide +kernel
  obtain ⟨s, hs, hout⟩ : ∃ s, machine.ReachableIf Undisturbed s ∧ _ :=
    Machine.ReachableIf.exists_of_run ⟨_, _, rfl⟩ (by decide +kernel) hrun
  exact ⟨s, hs, of_decide_eq_true hout, (final hs).state (of_decide_eq_true hout)⟩

/-- **A reply that comes after the disconnect** reports a failure, which is counted from -1,
and starts the timer; or it is made a job. -/
theorem heard_after_disconnect :
    ((machine.run (init samplePool 1)
        [.connect, .disconnect, .reply (.post 1) ⟨500, none⟩ (fun _ => 0) false]).any fun s =>
      s.intent = .disconnect ∧ s.timer = some .retry ∧
        (s.log.any fun x => x.1 = .disconnect ∧ ¬ x.2.Quiet) = true) = true ∧
    ((machine.run (init samplePool 1)
        [.connect, .disconnect,
          .reply (.post 1) (templateReply (List.replicate 118 0x30)) (fun _ => 0) false]).any fun s =>
      s.intent = .disconnect ∧
        (s.log.any fun x => x.1 = .disconnect ∧ ¬ x.2.Quiet) = true) = true := by
  decide +kernel

end XLArig.DaemonClient
