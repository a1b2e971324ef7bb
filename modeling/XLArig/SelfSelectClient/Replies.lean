import XLArig.SelfSelectClient

/-!
# XLArig.SelfSelectClient.Replies

Which request a reply of the daemon is taken for.

A reply is told by the id in its document, and only by that: one that has none, or that is
no document at all, is taken for a failure of the newest request for a template.  The id of
a `submitblock` request is given to the next request as well.  `attributed` is about the
runs in which no block is submitted to the daemon and outdated replies come with an id.
-/

namespace XLArig

open DaemonClient (HttpData)

namespace SelfSelectClient

/-- No two requests in flight have the same id, and only the newest request for a template
is answered by a template or by a failure. -/
structure Attributed (s : SelfSelectClient) : Prop where
  distinct : (s.requests.map Request.id).Nodup
  answers : ∀ x ∈ s.answers, x.answer ≠ .ignored → x.request = .getblocktemplate x.newest

/-- A document with the id of its request, or another one that is not the newest. -/
def Tells (s : SelfSelectClient) (request : Request) (data : HttpData) : Prop :=
  data.status = 200 ∧ ∃ doc ∈ data.document,
    let id := ((doc.getValue (bytes "id")).int64?).getD (-1)
    id = request.id ∨ (0 < id ∧ id ≠ s.sequence - 1)

/-- No result goes to the daemon, and a reply to an outdated request tells its id. -/
def Ordered (s : SelfSelectClient) : Event → Prop
  | .submit result _ => ¬ s.Submits result
  | .reply request data _ => request ≠ .getblocktemplate (s.sequence - 1) → s.Tells request data
  | _ => True

/-! ## The invariant -/

/-- Every request in flight asks for a template, under an id of its own that was given. -/
structure Sent (s : SelfSelectClient) : Prop extends Attributed s where
  first : 0 < s.sequence
  requests : ∀ r ∈ s.requests, ∃ id, r = .getblocktemplate id ∧ 0 < id ∧ id < s.sequence

/-- `t` is `s` after nothing was sent to the daemon, or answered by it. -/
structure Still (s t : SelfSelectClient) : Prop where
  requests : t.requests = s.requests
  sequence : t.sequence = s.sequence
  answers : t.answers = s.answers

section

variable {s t u : SelfSelectClient}

theorem Still.trans (h : Still s t) (h' : Still t u) : Still s u :=
  ⟨h'.requests.trans h.requests, h'.sequence.trans h.sequence, h'.answers.trans h.answers⟩

theorem Sent.still (h : s.Sent) (hs : Still s t) : t.Sent := by
  refine ⟨⟨?_, ?_⟩, ?_, ?_⟩
  · rw [hs.requests]
    exact h.distinct
  · rw [hs.answers]
    exact h.answers
  · rw [hs.sequence]
    exact h.first
  · rw [hs.requests, hs.sequence]
    exact h.requests

theorem still_setState (state : State) : Still s (s.setState state) := by
  unfold setState
  split
  · exact ⟨rfl, rfl, rfl⟩
  · cases state with
    | IdleState | WaitState => exact ⟨rfl, rfl, rfl⟩
    | RetryState =>
        dsimp only
        split <;> exact ⟨rfl, rfl, rfl⟩

theorem Still.setState (h : Still s t) (state : State) : Still s (t.setState state) :=
  h.trans (still_setState state)

/-- A new request has a new id. -/
theorem Sent.getBlockTemplate (h : s.Sent) : s.getBlockTemplate.Sent := by
  have hw := h.still (still_setState .WaitState)
  have hnew : ∀ r ∈ (s.setState .WaitState).requests, r.id < (s.setState .WaitState).sequence := by
    intro r hr
    obtain ⟨id, rfl, -, hlt⟩ := hw.requests r hr
    exact hlt
  refine ⟨⟨?_, hw.answers⟩, ?_, ?_⟩
  · refine List.nodup_cons.mpr ⟨fun hmem => ?_, hw.distinct⟩
    obtain ⟨r, hr, heq⟩ := List.mem_map.mp hmem
    exact (hnew r hr).ne heq
  · have := hw.first
    show 0 < _ + 1
    omega
  · intro r hr
    obtain rfl | hold := List.mem_cons.mp hr
    · exact ⟨_, rfl, hw.first, lt_add_one _⟩
    · obtain ⟨id, rfl, hpos, hlt⟩ := hw.requests r hold
      exact ⟨id, rfl, hpos, hlt.trans (lt_add_one _)⟩

/-- A request in flight that is not the newest has an id of its own. -/
theorem Sent.outdated (h : s.Sent) {request : Request} {data : HttpData} (hr : request ∈ s.requests)
    (hold : request ≠ .getblocktemplate (s.sequence - 1)) (htells : s.Tells request data) :
    data.status = 200 ∧ ∃ doc ∈ data.document,
      ((doc.getValue (bytes "id")).int64?).getD (-1) > 0 ∧
        s.sequence - ((doc.getValue (bytes "id")).int64?).getD (-1) ≠ 1 := by
  obtain ⟨hstatus, doc, hdoc, hid⟩ := htells
  refine ⟨hstatus, doc, hdoc, ?_⟩
  obtain heq | ⟨hpos, hne⟩ := hid
  · obtain ⟨id, rfl, hpos, hlt⟩ := h.requests request hr
    rw [heq]
    have hne : id ≠ s.sequence - 1 := fun hnew => hold (congrArg Request.getblocktemplate hnew)
    simp only [Request.id]
    omega
  · omega

/-! ## Steps -/

theorem Sent.answer (h : s.Sent) {request : Request} {a : Answer}
    (ha : a ≠ .ignored → request = .getblocktemplate (s.sequence - 1)) :
    (s.answer request a).Sent where
  distinct := h.distinct
  first := h.first
  requests := h.requests
  answers x hx hne := by
    obtain rfl | hold := List.mem_cons.mp hx
    · exact ha hne
    · exact h.answers x hold hne

theorem still_respond (id : Int) (response : Client.Requests.Response) :
    Still s (s.respond id response) := by
  simp only [respond, onBlockTemplate]
  split
  · split
    · refine Still.setState ?_ .RetryState
      exact ⟨rfl, rfl, rfl⟩
    split
    · exact ⟨rfl, rfl, rfl⟩
    · refine .trans (Still.setState ?_ .IdleState) ⟨rfl, rfl, rfl⟩
      split <;> exact ⟨rfl, rfl, rfl⟩
  · exact ⟨rfl, rfl, rfl⟩

variable [Features] {s' : SelfSelectClient} {data : HttpData} {layer : Client.Layer}

theorem still_parseResponse {id : Int} {result error : Json} {done : Bool}
    (h : s.parseResponse id result error layer = .ok (s', done)) : Still s s' := by
  simp only [parseResponse] at h
  split at h
  · obtain ⟨rfl, -⟩ := Prod.mk.inj (Except.ok.inj h)
    exact ⟨rfl, rfl, rfl⟩
  split at h
  · obtain ⟨rfl, -⟩ := Prod.mk.inj (Except.ok.inj h)
    exact ⟨rfl, rfl, rfl⟩
  split at h
  · obtain ⟨rfl, -⟩ := Prod.mk.inj (Except.ok.inj h)
    exact ⟨rfl, rfl, rfl⟩
  split at h
  · obtain ⟨rfl, -⟩ := Prod.mk.inj (Except.ok.inj h)
    exact ⟨rfl, rfl, rfl⟩
  obtain ⟨text, -, h⟩ := bind_ok.mp h
  cases hblob : s.job.setBlob (some text) with
  | none | some job =>
      simp only [hblob] at h
      obtain ⟨rfl, -⟩ := Prod.mk.inj (Except.ok.inj h)
      exact ⟨rfl, rfl, rfl⟩

theorem Sent.onHttpData (h : s.Sent) {request : Request}
    (hguard : request ≠ .getblocktemplate (s.sequence - 1) →
      data.status = 200 ∧ ∃ doc ∈ data.document,
        ((doc.getValue (bytes "id")).int64?).getD (-1) > 0 ∧
          s.sequence - ((doc.getValue (bytes "id")).int64?).getD (-1) ≠ 1)
    (hreply : s.onHttpData request data layer = .ok s') : s'.Sent := by
  have hfailed : ∀ t : SelfSelectClient, t.Sent → request = .getblocktemplate (t.sequence - 1) →
      ((t.answer request .failure).retry).Sent :=
    fun t ht hnewest => (ht.answer fun _ => hnewest).still (still_setState .RetryState)
  simp only [SelfSelectClient.onHttpData] at hreply
  split at hreply
  · next hstatus =>
    obtain rfl := Except.ok.inj hreply
    exact hfailed s h (by_contra fun hold => hstatus (hguard hold).1)
  cases hdoc : data.document with
  | none =>
      simp only [hdoc] at hreply hguard
      obtain rfl := Except.ok.inj hreply
      refine hfailed s h (by_contra fun hold => ?_)
      obtain ⟨-, doc, hnone, -⟩ := hguard hold
      contradiction
  | some doc =>
      simp only [hdoc] at hreply hguard
      split at hreply
      · obtain rfl := Except.ok.inj hreply
        exact h.answer fun hne => absurd rfl hne
      next hcurrent =>
        have hnewest : request = .getblocktemplate (s.sequence - 1) := by
          by_contra hold
          obtain ⟨-, d, hd, hid⟩ := hguard hold
          obtain rfl := Option.some.inj hd
          exact hcurrent hid
        split at hreply
        · contradiction
        obtain ⟨⟨t, done⟩, hparse, hreply⟩ := bind_ok.mp hreply
        obtain rfl := Except.ok.inj hreply
        have hstill := still_parseResponse hparse
        have ht : request = .getblocktemplate (t.sequence - 1) := by
          rw [hstill.sequence]
          exact hnewest
        dsimp only
        split
        · exact (h.still hstill).answer fun _ => ht
        · exact hfailed t (h.still hstill) ht

theorem sent_step {e : Event} (h : s.Sent) (hguard : s.Ordered e)
    (hstep : machine.step s e = some s') : s'.Sent := by
  obtain ⟨hready, hafter⟩ := Option.ite_none_right_eq_some.mp hstep
  cases e with
  | onJobReceived job =>
      obtain rfl := Option.some.inj hafter
      exact (h.still (t := s.write job) ⟨rfl, rfl, rfl⟩).getBlockTemplate
  | onLoginSuccess =>
      obtain rfl := Option.some.inj hafter
      have hidle : Still s ((s.report .onLoginSuccess).setState .IdleState) := by
        refine Still.setState ?_ .IdleState
        exact ⟨rfl, rfl, rfl⟩
      exact h.still (hidle.trans ⟨rfl, rfl, rfl⟩)
  | onClose failures =>
      obtain rfl := Option.some.inj hafter
      have hidle : Still s ((s.report (.onClose failures)).setState .IdleState) := by
        refine Still.setState ?_ .IdleState
        exact ⟨rfl, rfl, rfl⟩
      exact h.still (hidle.trans ⟨rfl, rfl, rfl⟩)
  | onVerifyAlgorithm _ _ | login _ _ | ping _ | connected _ | elsewhere | resume =>
      obtain rfl := Option.some.inj hafter
      exact h.still ⟨rfl, rfl, rfl⟩
  | response id response =>
      obtain rfl := Option.some.inj hafter
      exact h.still (still_respond id response)
  | submit result layer =>
      obtain rfl := Option.some.inj hafter
      rw [submitOriginDaemon, if_neg hguard]
      exact h.still ⟨rfl, rfl, rfl⟩
  | reply request data layer =>
      rw [after, toOption_eq_some] at hafter
      have hsent : ({ s with requests := s.requests.erase request } : SelfSelectClient).Sent := by
        refine ⟨⟨h.distinct.sublist (List.erase_sublist.map _), h.answers⟩, h.first, fun r hr => ?_⟩
        exact h.requests r (List.mem_of_mem_erase hr)
      refine hsent.onHttpData (fun hold => ?_) hafter
      exact h.outdated hready hold (hguard hold)
  | tick ms =>
      obtain rfl := Option.some.inj hafter
      have hlater : ({ s with now := s.now + ms } : SelfSelectClient).Sent :=
        h.still ⟨rfl, rfl, rfl⟩
      simp only [tick]
      split
      · exact hlater.getBlockTemplate
      · exact hlater

/-- **Replies are taken for what they answer** in the runs in which no block is submitted to
the daemon and an outdated reply tells its id. -/
theorem attributed (h : machine.ReachableIf Ordered s) : s.Attributed := by
  refine Sent.toAttributed (h.invariant (fun s hs => ?_) fun _ _ _ => sent_step)
  obtain ⟨_, _, _, _, _, _, _, _, rfl⟩ := hs
  exact ⟨⟨List.nodup_nil, fun _ hx => absurd hx List.not_mem_nil⟩, one_pos,
    fun _ hr => absurd hr List.not_mem_nil⟩

end

end SelfSelectClient

end XLArig

namespace XLArig.SelfSelectClient

open DaemonClient (HttpData)

/-! ## Replies out of order -/

/-- A client that submits to its daemon as well. -/
def submitter : SelfSelectClient :=
  init true (.init ⟨.ofHost (bytes "a") 3333 none none 0 false false .SELF_SELECT, none, none, none⟩
    [] [] 1) 5 5000 0

instance (s : SelfSelectClient) (request : Request) (data : HttpData) :
    Decidable (s.Tells request data) :=
  inferInstanceAs (Decidable (_ ∧ _))

instance (s : SelfSelectClient) : (e : Event) → Decidable (s.Ordered e)
  | .submit .. => inferInstanceAs (Decidable (¬ _))
  | .reply .. => inferInstanceAs (Decidable (_ → _))
  | .onVerifyAlgorithm .. | .onLoginSuccess | .onClose _ | .login .. | .ping _ | .connected _ |
      .elsewhere | .onJobReceived _ | .response .. | .tick _ | .resume =>
      inferInstanceAs (Decidable True)

/-- Two jobs, and a late reply for the first of them. -/
theorem attributed_late : ∃ s, machine.ReachableIf Ordered s ∧ s.Attributed ∧
    s.answers = [⟨.getblocktemplate 1, 2, .ignored⟩] := by
  have hrun : (machine.run submitter
      [.onJobReceived .empty, .onJobReceived .empty,
        .reply (.getblocktemplate 1) ⟨200, some (.object [(bytes "id", .int 1)])⟩ .accepted]).any
      (fun s => s.answers = [⟨.getblocktemplate 1, 2, .ignored⟩]) = true := by
    decide +kernel
  obtain ⟨s, hs, hanswers⟩ : ∃ s, machine.ReachableIf Ordered s ∧ _ :=
    Machine.ReachableIf.exists_of_run ⟨_, _, _, _, _, _, _, _, rfl⟩ (by decide +kernel) hrun
  exact ⟨s, hs, attributed hs, of_decide_eq_true hanswers⟩

/-- A template for blocks of difficulty 1. -/
def easyTemplate : HttpData where
  status := 200
  document := some (.object [(bytes "id", .int 1), (bytes "result", .object
    [(bytes "blocktemplate_blob", .string (List.replicate 160 0x30)),
      (bytes "blockhashing_blob", .string (List.replicate 152 0x30)), (bytes "height", .int 7),
      (bytes "difficulty", .int 1), (bytes "prev_hash", .string [])])])

/-- A result of the highest difficulty. -/
def easyResult : JobResult :=
  { JobResult.ofJob { Job.empty with diff := 1 } 0 (fun _ => 0) with
    result := Memory.load (fun _ => 0) (List.replicate 24 0 ++ [1]) }

/-- **A submitted block has the id of the request that follows it**, and what the daemon
says of it is taken for a failure to get a template. -/
theorem confuses_submitblock :
    ((machine.run submitter
        [.onJobReceived .empty, .reply (.getblocktemplate 1) easyTemplate .accepted,
          .submit easyResult .accepted]).any fun s =>
      s.requests = [.getblocktemplate 2, .submitblock 2]) = true ∧
    ((machine.run submitter
        [.onJobReceived .empty, .reply (.getblocktemplate 1) easyTemplate .accepted,
          .submit easyResult .accepted,
          .reply (.submitblock 2) ⟨200, some (.object [(bytes "id", .int 2), (bytes "result",
            .object [(bytes "status", .string (bytes "OK"))])])⟩ .accepted]).any fun s =>
      s.state = .RetryState ∧ s.answers.head? = some ⟨.submitblock 2, 2, .failure⟩) = true := by
  decide +kernel

end XLArig.SelfSelectClient
