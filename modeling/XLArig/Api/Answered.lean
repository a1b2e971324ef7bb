import XLArig.Api

/-!
# XLArig.Api.Answered

How often a request is answered.

Every request that is no JSON-RPC is answered once, whatever its listeners do.  For JSON-RPC,
`done` ends a response that `setRpcError` or `setRpcResult` has already ended: what a listener
finishes with one of those two is answered once, but what the constructor refuses, and what no
listener finishes, is answered twice (`finished_once_iff`).
-/

namespace XLArig

namespace Api

open Http

/-! ## Documents -/

section

variable {doc : Json}

theorem hasMember_eq_false (h : doc.isObject = false) (key : Bytes) :
    doc.hasMember key = false := by
  cases doc with
  | object members => contradiction
  | _ => rfl

@[simp] theorem isObject_addMember (doc : Json) (key : String) (value : Json) :
    (addMember doc key value).isObject = doc.isObject := by
  cases doc <;> rfl

theorem hasMember_addMember (doc : Json) (key : String) (value : Json) (name : Bytes) :
    (addMember doc key value).hasMember name =
      (doc.hasMember name || (doc.isObject && bytes key == name)) := by
  cases doc with
  | object members =>
      simp only [addMember, Json.hasMember, Json.findMember, Json.isObject, Bool.true_and,
        List.find?_append, Option.isSome_map, Option.isSome_or]
      cases h : bytes key == name <;> simp [h]
  | _ => rfl

theorem hasMember_of_memberCount (h : memberCount doc = 0) (key : Bytes) :
    doc.hasMember key = false := by
  cases doc with
  | object members =>
      rw [memberCount, List.length_eq_zero_iff] at h
      subst h
      rfl
  | _ => rfl

end

/-! ## Responses -/

/-- The body has the member. -/
def Sent.has (w : Sent) (key : String) : Bool := w.body.any fun doc => doc.hasMember (bytes key)

namespace HttpApiResponse

variable {res : HttpApiResponse}

@[simp] theorem writable_setHeader (key value : String) :
    (res.setHeader key value).writable = res.writable := rfl

@[simp] theorem sent_setHeader (key value : String) :
    (res.setHeader key value).sent = res.sent := rfl

@[simp] theorem doc_setHeader (key value : String) : (res.setHeader key value).doc = res.doc := rfl

@[simp] theorem statusCode_setHeader (key value : String) :
    (res.setHeader key value).statusCode = res.statusCode := rfl

@[simp] theorem writable_endWith (body : Option Json) :
    (res.endWith body).writable = res.writable := by
  unfold endWith
  split <;> rfl

theorem sent_endWith (h : res.writable = true) (body : Option Json) :
    ∃ w, (res.endWith body).sent = res.sent ++ [w] ∧ w.body = body := by
  rw [endWith, h]
  exact ⟨_, rfl, rfl⟩

theorem prefix_endWith (body : Option Json) : res.sent <+: (res.endWith body).sent := by
  unfold endWith
  split
  · exact List.prefix_rfl
  · exact List.prefix_append _ _

/-- The headers apart, `end` passes the document on unless it has no member. -/
theorem endReply_eq (res : HttpApiResponse) :
    ∃ res' : HttpApiResponse, res'.writable = res.writable ∧ res'.sent = res.sent ∧
      res.endReply = res'.endWith
        (if memberCount (describe res.statusCode res.doc) = 0 then none
        else some (describe res.statusCode res.doc)) := by
  by_cases h : memberCount (describe res.statusCode res.doc) = 0
  · rw [if_pos h]
    refine ⟨_, ?_, ?_, if_pos h⟩
    · rfl
    · rfl
  · rw [if_neg h]
    refine ⟨_, ?_, ?_, if_neg h⟩
    · rfl
    · rfl

@[simp] theorem writable_endReply : res.endReply.writable = res.writable := by
  obtain ⟨res', hwritable, -, heq⟩ := endReply_eq res
  rw [heq, writable_endWith, hwritable]

theorem prefix_endReply (res : HttpApiResponse) : res.sent <+: res.endReply.sent := by
  obtain ⟨res', -, hsent, heq⟩ := endReply_eq res
  rw [heq, ← hsent]
  exact prefix_endWith _

theorem describe_eq {status : Int} (h : status < 400) (doc : Json) : describe status doc = doc :=
  if_neg (by omega)

/-- One response, and unless the status is an error its body is the document. -/
theorem sent_endReply (res : HttpApiResponse) (h : res.writable = true) :
    ∃ w, res.endReply.sent = res.sent ++ [w] ∧
      (res.statusCode < 400 → ∀ key, w.has key = res.doc.hasMember (bytes key)) := by
  obtain ⟨res', hwritable, hsent, heq⟩ := endReply_eq res
  obtain ⟨w, hw, hbody⟩ := sent_endWith (hwritable.trans h) _
  refine ⟨w, by rw [heq, hw, hsent], ?_⟩
  intro hstatus key
  rw [Sent.has, hbody, describe_eq hstatus]
  split
  case isTrue hcount => rw [hasMember_of_memberCount hcount]; rfl
  case isFalse => rfl

end HttpApiResponse

/-! ## Requests -/

namespace HttpApiRequest

variable {q : HttpApiRequest}

section

variable [BodyParser]

theorem accept_cases (q : HttpApiRequest) :
    q.accept = { q with state := .STATE_ACCEPTED } ∨
      (∃ body, q.accept = { q with state := .STATE_ACCEPTED, parsed := 1, body }) ∨
      ∃ f : Json → Json, q.accept =
        { q with state := .STATE_ACCEPTED, parsed := 2, body := .null, res.doc := f q.reply } := by
  dsimp only [accept]
  split
  case isFalse => exact .inl rfl
  case isTrue =>
    split
    case h_1 body _ => exact .inr (.inl ⟨body, rfl⟩)
    case h_2 text _ =>
      split
      · exact .inr (.inr ⟨fun doc => doc, rfl⟩)
      · exact .inr (.inr ⟨fun doc => addMember doc "error" (.string text), rfl⟩)

theorem accept_req (q : HttpApiRequest) :
    q.accept.req = q.req ∧ q.accept.restricted = q.restricted := by
  obtain h | ⟨body, h⟩ | ⟨f, h⟩ := accept_cases q
  · rw [h]
    exact ⟨rfl, rfl⟩
  · rw [h]
    exact ⟨rfl, rfl⟩
  · rw [h]
    exact ⟨rfl, rfl⟩

/-- `accept` leaves the response alone, except for the text of a parse error. -/
theorem accept_eq (q : HttpApiRequest) :
    q.accept.type = q.type ∧ q.accept.isDone = false ∧ q.accept.res.writable = q.res.writable ∧
      q.accept.res.sent = q.res.sent := by
  obtain h | ⟨body, h⟩ | ⟨f, h⟩ := accept_cases q
  · rw [h]
    exact ⟨rfl, rfl, rfl, rfl⟩
  · rw [h]
    exact ⟨rfl, rfl, rfl, rfl⟩
  · rw [h]
    exact ⟨rfl, rfl, rfl, rfl⟩

end

@[simp] theorem type_rpcDone (key : String) (value : Json) :
    (q.rpcDone key value).type = q.type := rfl

@[simp] theorem writable_rpcDone (key : String) (value : Json) :
    (q.rpcDone key value).res.writable = q.res.writable := HttpApiResponse.writable_endReply

/-- A reply of JSON-RPC: the members that are there already, and three more. -/
theorem sent_rpcDone (h : q.res.writable = true) (key : String) (value : Json) :
    ∃ w, (q.rpcDone key value).res.sent = q.res.sent ++ [w] ∧
      ∀ name, w.has name = (q.reply.hasMember (bytes name) || (q.reply.isObject &&
        (bytes key == bytes name || bytes "jsonrpc" == bytes name ||
          bytes "id" == bytes name))) := by
  obtain ⟨w, hsent, hbody⟩ : ∃ w, (q.rpcDone key value).res.sent = q.res.sent ++ [w] ∧ _ :=
    HttpApiResponse.sent_endReply _ h
  refine ⟨w, hsent, fun name => ?_⟩
  rw [hbody (show (200 : Int) < 400 by decide)]
  simp only [write, reply, hasMember_addMember, isObject_addMember]
  cases q.res.doc.isObject <;> simp [Bool.or_assoc]

@[simp] theorem type_done (status : Int) : (q.done status).type = q.type := by
  dsimp only [done]
  split
  · split
    · rfl
    · split <;> rfl
  · rfl

@[simp] theorem isDone_done (status : Int) : (q.done status).isDone = true := by
  dsimp only [done]
  split
  · split
    · rfl
    · split <;> rfl
  · rfl

/-- A request that is no JSON-RPC is answered once. -/
theorem sent_done (h : q.res.writable = true) (hrpc : q.type ≠ .REQ_JSON_RPC) (status : Int) :
    ∃ w, (q.done status).res.sent = q.res.sent ++ [w] := by
  dsimp only [done]
  rw [if_neg hrpc]
  obtain ⟨w, hsent, -⟩ := HttpApiResponse.sent_endReply { q.res with statusCode := status } h
  exact ⟨w, hsent⟩

/-- The reply has a result: it is the answer. -/
theorem sent_done_result (h : q.res.writable = true) (hrpc : q.type = .REQ_JSON_RPC)
    (hresult : q.reply.hasMember (bytes "result") = true) :
    ∃ w, (q.done 200).res.sent = q.res.sent ++ [w] ∧
      ∀ name, w.has name = q.reply.hasMember (bytes name) := by
  have hdone : (q.done 200).res = { q.res with statusCode := 200 }.endReply := by
    dsimp only [done, reply] at hresult ⊢
    rw [if_pos hrpc, if_neg (by decide)]
    simp only [hresult, ↓reduceIte]
  obtain ⟨w, hsent, hbody⟩ :=
    HttpApiResponse.sent_endReply { q.res with statusCode := 200 } h
  exact ⟨w, by rw [hdone, hsent], hbody (show (200 : Int) < 400 by decide)⟩

/-- The response that `rpcDone` has ended is ended again. -/
theorem sent_endReply_rpcDone (h : q.res.writable = true) (key : String) (value : Json) :
    ∃ w w', (q.rpcDone key value).res.endReply.sent = q.res.sent ++ [w, w'] := by
  obtain ⟨w, hw, -⟩ := sent_rpcDone h key value
  obtain ⟨w', hw', -⟩ :=
    HttpApiResponse.sent_endReply (q.rpcDone key value).res (by rw [writable_rpcDone, h])
  exact ⟨w, w', by rw [hw', hw, List.append_assoc, List.singleton_append]⟩

/-- Any other end of a JSON-RPC is answered twice. -/
theorem sent_done_twice (h : q.res.writable = true) (hrpc : q.type = .REQ_JSON_RPC) {status : Int}
    (hstatus : ¬ (status = 200 ∧ q.reply.hasMember (bytes "result") = true)) :
    ∃ w w', (q.done status).res.sent = q.res.sent ++ [w, w'] := by
  dsimp only [done, reply] at hstatus ⊢
  rw [if_pos hrpc]
  by_cases hs : status = 200
  · have hresult : ¬ q.res.doc.hasMember (bytes "result") = true := fun h => hstatus ⟨hs, h⟩
    rw [if_neg (not_not.mpr hs)]
    simp only [hresult]
    exact sent_endReply_rpcDone
      (q := { q with state := .STATE_DONE, res.statusCode := 200 }) h _ _
  · rw [if_pos hs]
    exact sent_endReply_rpcDone
      (q := { q with state := .STATE_DONE, res.statusCode := 200 }) h _ _

/-! ## Turns -/

@[simp] theorem type_finish (how : Finish) : (q.finish how).type = q.type := by
  cases how with
  | done status => exact type_done status
  | setRpcError code message => rfl
  | setRpcResult result => rfl

@[simp] theorem isDone_finish (how : Finish) : (q.finish how).isDone = true := by
  cases how with
  | done status => exact isDone_done status
  | setRpcError code message => rfl
  | setRpcResult result => rfl

end HttpApiRequest

/-- One answer, with one of `result` and `error` where the request is a JSON-RPC. -/
def HttpApiRequest.Once (q : HttpApiRequest) : Prop :=
  ∃ w, q.res.sent = [w] ∧ (q.type = .REQ_JSON_RPC → (w.has "result" ^^ w.has "error") = true)

/-- What the reply must be for `how` to answer a JSON-RPC once. -/
def Finish.Settles (doc : Json) : Finish → Prop
  | .done status =>
      status = 200 ∧ doc.hasMember (bytes "result") = true ∧ doc.hasMember (bytes "error") = false
  | .setRpcError _ _ => doc.isObject = true ∧ doc.hasMember (bytes "result") = false
  | .setRpcResult _ => doc.isObject = true ∧ doc.hasMember (bytes "error") = false

namespace HttpApiRequest

variable {q : HttpApiRequest}

theorem once_iff {w : Sent} (hsent : q.res.sent = [w]) :
    q.Once ↔ (q.type = .REQ_JSON_RPC → (w.has "result" ^^ w.has "error") = true) := by
  constructor
  · rintro ⟨w', hw', h⟩
    obtain rfl : w = w' := List.singleton_inj.mp (hsent.symm.trans hw')
    exact h
  · exact fun h => ⟨w, hsent, h⟩

theorem not_once (h : 2 ≤ q.res.sent.length) : ¬ q.Once := by
  rintro ⟨w, hw, -⟩
  rw [hw] at h
  contradiction

/-- A result or an error is right if the reply does not have the other one. -/
theorem once_rpcDone (h : q.res.writable = true) (hsent : q.res.sent = [])
    (hrpc : q.type = .REQ_JSON_RPC) {key other : String}
    (hkey : key = "result" ∧ other = "error" ∨ key = "error" ∧ other = "result") (value : Json) :
    (q.rpcDone key value).Once ↔
      q.reply.isObject = true ∧ q.reply.hasMember (bytes other) = false := by
  obtain ⟨w, hw, hbody⟩ := sent_rpcDone h key value
  rw [hsent, List.nil_append] at hw
  have hxor : (w.has "result" ^^ w.has "error") = (w.has key ^^ w.has other) := by
    obtain ⟨rfl, rfl⟩ | ⟨rfl, rfl⟩ := hkey
    · rfl
    · exact Bool.xor_comm _ _
  have hother : (bytes key == bytes other || bytes "jsonrpc" == bytes other ||
      bytes "id" == bytes other) = false := by
    obtain ⟨rfl, rfl⟩ | ⟨rfl, rfl⟩ := hkey
    · decide
    · decide
  rw [once_iff hw, type_rpcDone, forall_prop_of_true hrpc, hxor, hbody, hbody, hother,
    beq_self_eq_true]
  cases hdoc : q.reply.isObject with
  | false => simp [hasMember_eq_false hdoc]
  | true => simp

/-- A first answer to a JSON-RPC is right if and only if the reply is as `how` needs it. -/
theorem once_finish_rpc (h : q.res.writable = true) (hsent : q.res.sent = [])
    (hrpc : q.type = .REQ_JSON_RPC) (how : Finish) :
    (q.finish how).Once ↔ how.Settles q.reply := by
  cases how with
  | done status =>
      rw [finish, Finish.Settles]
      by_cases hs : status = 200 ∧ q.reply.hasMember (bytes "result") = true
      · obtain ⟨rfl, hresult⟩ := hs
        obtain ⟨w, hw, hbody⟩ := sent_done_result h hrpc hresult
        rw [hsent, List.nil_append] at hw
        rw [once_iff hw, type_done, forall_prop_of_true hrpc, hbody, hbody, hresult, Bool.true_xor]
        simp
      · obtain ⟨w, w', hw⟩ := sent_done_twice h hrpc hs
        refine iff_of_false (not_once ?_) fun hc => hs ⟨hc.1, hc.2.1⟩
        rw [hw, List.length_append]
        exact Nat.le_add_left 2 _
  | setRpcError code message => exact once_rpcDone h hsent hrpc (.inr ⟨rfl, rfl⟩) _
  | setRpcResult result => exact once_rpcDone h hsent hrpc (.inl ⟨rfl, rfl⟩) result

theorem once_finish (h : q.res.writable = true) (hsent : q.res.sent = []) (how : Finish) :
    (q.finish how).Once ↔ (q.type = .REQ_JSON_RPC → how.Settles q.reply) := by
  by_cases hrpc : q.type = .REQ_JSON_RPC
  case pos => rw [once_finish_rpc h hsent hrpc, forall_prop_of_true hrpc]
  case neg =>
    obtain ⟨w, hw⟩ : ∃ w, (q.finish how).res.sent = q.res.sent ++ [w] := by
      cases how with
      | done status => exact sent_done h hrpc status
      | setRpcError code message =>
          obtain ⟨w, hw, -⟩ := sent_rpcDone h "error" _
          exact ⟨w, hw⟩
      | setRpcResult result =>
          obtain ⟨w, hw, -⟩ := sent_rpcDone h "result" result
          exact ⟨w, hw⟩
    rw [hsent, List.nil_append] at hw
    rw [once_iff hw, type_finish]
    exact iff_of_true (fun hc => absurd hc hrpc) fun hc => absurd hc hrpc

/-- Nothing was answered yet. -/
structure Open (q : HttpApiRequest) : Prop where
  isDone : q.isDone = false
  writable : q.res.writable = true
  sent : q.res.sent = []

theorem Open.write (h : q.Open) (f : Json → Json) : (q.write f).Open :=
  ⟨h.isDone, h.writable, h.sent⟩

theorem Open.accept [BodyParser] (h : q.Open) : q.accept.Open := by
  obtain ⟨-, hdone, hwritable, hsent⟩ := accept_eq q
  exact ⟨hdone, hwritable.trans h.writable, hsent.trans h.sent⟩

/-! ## What is sent stays sent -/

theorem prefix_rpcDone (key : String) (value : Json) :
    q.res.sent <+: (q.rpcDone key value).res.sent := by
  let doc := addMember (addMember q.res.doc key value) "jsonrpc" (.string (bytes "2.0"))
  exact HttpApiResponse.prefix_endReply
    { q.res with doc := addMember doc "id" (q.body.getValue (bytes "id")), statusCode := 200 }

theorem prefix_done (status : Int) : q.res.sent <+: (q.done status).res.sent := by
  dsimp only [done]
  refine List.IsPrefix.trans ?_ (HttpApiResponse.prefix_endReply _)
  split
  case isFalse => exact List.prefix_rfl
  case isTrue =>
    split
    · exact prefix_rpcDone (q := { q with state := .STATE_DONE, res.statusCode := 200 }) _ _
    · split
      · exact List.prefix_rfl
      · exact prefix_rpcDone (q := { q with state := .STATE_DONE, res.statusCode := 200 }) _ _

theorem prefix_finish (how : Finish) : q.res.sent <+: (q.finish how).res.sent := by
  cases how with
  | done status => exact prefix_done status
  | setRpcError code message => exact prefix_rpcDone "error" _
  | setRpcResult result => exact prefix_rpcDone "result" result

theorem prefix_after [BodyParser] (turn : Turn) : q.res.sent <+: (q.after turn).res.sent := by
  obtain ⟨-, -, -, haccept⟩ := accept_eq q
  cases turn with
  | ignore => exact List.prefix_rfl
  | accept f => exact haccept.symm ▸ List.prefix_rfl
  | finish accepted f how =>
      refine List.IsPrefix.trans ?_ (prefix_finish how)
      cases accepted with
      | false => exact List.prefix_rfl
      | true => exact haccept.symm ▸ List.prefix_rfl

end HttpApiRequest

/-! ## Listeners -/

section

variable [BodyParser] {σ : Type}

/-- Whoever finishes a JSON-RPC first answers it once; if nobody does, somebody accepted it and
wrote a result. -/
def Settled : List (Listener σ) → HttpApiRequest → σ → Prop
  | [], q, _ => q.isNew = false ∧ (Finish.done 200).Settles q.reply
  | l :: ls, q, s =>
      match l q s with
      | (.ignore, s) => Settled ls q s
      | (.accept f, s) => Settled ls (q.accept.write f) s
      | (.finish accepted f how, _) => how.Settles (f (if accepted then q.accept else q).reply)

theorem once_notify (ls : List (Listener σ)) {q : HttpApiRequest} (h : q.Open) (s : σ) :
    (notify ls q s).request.Once ↔ (q.type = .REQ_JSON_RPC → Settled ls q s) := by
  induction ls generalizing q s with
  | nil =>
      have hfinish := HttpApiRequest.once_finish h.writable h.sent
        (.done (if q.isNew then 404 else 200))
      refine hfinish.trans (imp_congr_right fun _ => ?_)
      rw [Settled]
      cases q.isNew with
      | true => simp [Finish.Settles]
      | false => simp
  | cons l ls ih =>
      cases hl : l q s with
      | mk turn s' =>
          simp only [notify, Settled, hl]
          cases turn with
          | ignore =>
              rw [if_neg (by simp [HttpApiRequest.after, h.isDone])]
              exact ih h s'
          | accept f =>
              have hopen := h.accept.write f
              rw [if_neg (by simp [HttpApiRequest.after, hopen.isDone])]
              rw [← (HttpApiRequest.accept_eq q).1]
              exact ih hopen s'
          | finish accepted f how =>
              have hopen : ((if accepted then q.accept else q).write f).Open := by
                cases accepted with
                | false => exact h.write f
                | true => exact h.accept.write f
              have htype : (if accepted then q.accept else q).type = q.type := by
                cases accepted with
                | false => rfl
                | true => exact (HttpApiRequest.accept_eq q).1
              rw [HttpApiRequest.after, if_pos (HttpApiRequest.isDone_finish how), ← htype]
              exact HttpApiRequest.once_finish hopen.writable hopen.sent how

/-- No listener is shown a request that another one has finished. -/
theorem shown_notify (ls : List (Listener σ)) {q : HttpApiRequest} (h : q.isDone = false) (s : σ) :
    ∀ q' ∈ (notify ls q s).shown, q'.isDone = false := by
  induction ls generalizing q s with
  | nil => exact fun q' hmem => absurd hmem List.not_mem_nil
  | cons l ls ih =>
      simp only [notify]
      split
      case isTrue => simpa using h
      case isFalse hdone =>
        simp only [List.mem_cons, forall_eq_or_imp]
        exact ⟨h, ih (Bool.eq_false_of_not_eq_true hdone) _⟩

theorem prefix_notify (ls : List (Listener σ)) (q : HttpApiRequest) (s : σ) :
    q.res.sent <+: (notify ls q s).request.res.sent := by
  induction ls generalizing q s with
  | nil => exact HttpApiRequest.prefix_done _
  | cons l ls ih =>
      simp only [notify]
      split
      case isTrue => exact HttpApiRequest.prefix_after _
      case isFalse => exact (HttpApiRequest.prefix_after _).trans (ih _ _)

end

/-! ## Requests from the start -/

section

variable [BodyParser] {σ : Type}

/-- The request is for JSON-RPC. -/
def IsRpc (req : HttpData) : Prop :=
  req.method = METHOD_POST ∧ Json.cstr req.url = bytes "/json_rpc"

/-- The body names a method. -/
def WellFormed (req : HttpData) : Prop :=
  req.body ≠ [] ∧ ∃ doc, BodyParser.parse (Json.cstr req.body) = .ok doc ∧
    (doc.getString (bytes "method")).isEmpty = false

/-- The request was answered once, and no listener saw it after the one that finished it. -/
structure AnsweredOnce (ran : Ran σ) : Prop where
  once : ran.request.Once
  alone : ∀ q ∈ ran.shown.tail, q.isDone = false

namespace HttpApiRequest

theorem new_of_not_rpc {req : HttpData} (h : ¬ IsRpc req) (restricted : Bool) :
    (new true req restricted).Open ∧ (new true req restricted).type ≠ .REQ_JSON_RPC := by
  unfold new
  dsimp only
  split
  case isTrue hsummary =>
    split
    case isTrue hrpc => exact absurd hrpc h
    case isFalse =>
      split
      · exact ⟨⟨rfl, rfl, rfl⟩, nofun⟩
      · exact ⟨⟨rfl, rfl, rfl⟩, nofun⟩
  case isFalse =>
    split
    case isTrue hrpc => exact absurd hrpc h
    case isFalse =>
      split
      · exact ⟨⟨rfl, rfl, rfl⟩, nofun⟩
      · exact ⟨⟨rfl, rfl, rfl⟩, nofun⟩

/-- A JSON-RPC before the constructor parses the body. -/
def opened (req : HttpData) (restricted : Bool) : HttpApiRequest :=
  ⟨req, restricted, 1, .REQ_JSON_RPC, .STATE_NEW, none, 0, .null, .new true 200⟩

omit [BodyParser] in
theorem open_opened (req : HttpData) (restricted : Bool) : (opened req restricted).Open :=
  ⟨rfl, rfl, rfl⟩

theorem new_of_rpc {req : HttpData} (h : IsRpc req) (restricted : Bool) :
    new true req restricted =
      if (opened req restricted).accept.hasParseError then
        (opened req restricted).accept.done RPC_PARSE_ERROR
      else
        let q := { (opened req restricted).accept with
          rpcMethod := (opened req restricted).accept.body.getString (bytes "method") }
        if q.rpcMethod.isEmpty then q.done RPC_INVALID_REQUEST
        else { q with state := .STATE_NEW } := by
  have hget : ¬ req.method = METHOD_GET := by
    rw [h.1]
    decide
  unfold new
  simp only [hget, false_and, if_false]
  exact if_pos h

theorem wellFormed_iff {req : HttpData} (restricted : Bool) :
    WellFormed req ↔ (opened req restricted).accept.hasParseError = false ∧
      ((opened req restricted).accept.body.getString (bytes "method")).isEmpty = false := by
  by_cases hbody : req.body = []
  case pos =>
    have haccept : (opened req restricted).accept =
        { opened req restricted with state := .STATE_ACCEPTED } := if_neg fun h => h.2 hbody
    rw [haccept]
    exact iff_of_false (fun h => h.1 hbody) fun h =>
      absurd (show true = false from h.2) (by decide)
  case neg =>
    cases hparse : BodyParser.parse (Json.cstr req.body) with
    | ok doc =>
        have haccept : (opened req restricted).accept =
            { opened req restricted with state := .STATE_ACCEPTED, parsed := 1, body := doc } := by
          simp [accept, opened, hbody, hparse]
        rw [haccept]
        constructor
        · rintro ⟨-, doc', hdoc, hmethod⟩
          obtain rfl : doc = doc' := Except.ok.inj (hparse.symm.trans hdoc)
          exact ⟨rfl, hmethod⟩
        · exact fun h => ⟨hbody, doc, hparse, h.2⟩
    | error text =>
        have haccept : (opened req restricted).accept =
            { opened req restricted with state := .STATE_ACCEPTED, parsed := 2 } := by
          simp [accept, opened, hbody, hparse]
        rw [haccept]
        refine iff_of_false ?_ fun h => absurd (show true = false from h.1) (by decide)
        rintro ⟨-, doc, hdoc, -⟩
        rw [hparse] at hdoc
        contradiction

theorem new_of_wellFormed {req : HttpData} (h : IsRpc req) (hwell : WellFormed req)
    (restricted : Bool) :
    (new true req restricted).Open ∧ (new true req restricted).type = .REQ_JSON_RPC := by
  obtain ⟨hparse, hmethod⟩ := (wellFormed_iff restricted).mp hwell
  have hopen := (open_opened req restricted).accept
  rw [new_of_rpc h]
  simp only [hparse, hmethod, Bool.false_eq_true, if_false]
  exact ⟨⟨rfl, hopen.writable, hopen.sent⟩, (accept_eq _).1⟩

theorem type_new_of_rpc {req : HttpData} (h : IsRpc req) (restricted : Bool) :
    (new true req restricted).type = .REQ_JSON_RPC := by
  have htype : (opened req restricted).accept.type = .REQ_JSON_RPC := (accept_eq _).1
  rw [new_of_rpc h]
  dsimp only
  split
  case isTrue => rw [type_done, htype]
  case isFalse =>
    split
    · rw [type_done, htype]
    · exact htype

/-- What the constructor refuses is answered twice already. -/
theorem new_of_not_wellFormed {req : HttpData} (h : IsRpc req) (hwell : ¬ WellFormed req)
    (restricted : Bool) : 2 ≤ (new true req restricted).res.sent.length := by
  have hopen := (open_opened req restricted).accept
  have htype : (opened req restricted).accept.type = .REQ_JSON_RPC := (accept_eq _).1
  have htwice : ∀ {q : HttpApiRequest} {status : Int}, q.res.writable = true →
      q.type = .REQ_JSON_RPC → status ≠ 200 → 2 ≤ (q.done status).res.sent.length := by
    intro q status hwritable hrpc hstatus
    obtain ⟨w, w', hsent⟩ := sent_done_twice hwritable hrpc fun hc => hstatus hc.1
    rw [hsent, List.length_append]
    exact Nat.le_add_left 2 _
  rw [new_of_rpc h]
  dsimp only
  split
  case isTrue => exact htwice hopen.writable htype (by decide)
  case isFalse hparse =>
    split
    case isTrue => exact htwice hopen.writable htype (by decide)
    case isFalse hmethod =>
      refine absurd ((wellFormed_iff restricted).mpr ⟨?_, ?_⟩) hwell
      · exact Bool.eq_false_of_not_eq_true hparse
      · exact Bool.eq_false_of_not_eq_true hmethod

end HttpApiRequest

/-- Past the constructor, only the answer matters: nobody is shown a finished request. -/
theorem answered_exec (api : Api σ) {q : HttpApiRequest} (h : q.Open) (s : σ) :
    AnsweredOnce (api.exec q s) ↔ (q.type = .REQ_JSON_RPC → Settled api.listeners q s) := by
  have halone : ∀ {q : HttpApiRequest}, q.Open →
      ∀ q' ∈ (notify api.listeners q s).shown.tail, q'.isDone = false := fun hopen q' hmem =>
    shown_notify api.listeners hopen.isDone s q' (List.mem_of_mem_tail hmem)
  unfold exec
  dsimp only
  split
  case isTrue hsummary =>
    have hopen := h.accept.write (api.summary q.restricted)
    have htype : (q.accept.write (api.summary q.restricted)).type ≠ .REQ_JSON_RPC := by
      rw [show (q.accept.write _).type = q.type from (HttpApiRequest.accept_eq q).1, hsummary]
      decide
    refine iff_of_true ⟨?_, halone hopen⟩ fun hc => ?_
    · exact (once_notify api.listeners hopen s).mpr fun hc => absurd hc htype
    · rw [hsummary] at hc
      contradiction
  case isFalse =>
    rw [← once_notify api.listeners h s]
    exact ⟨AnsweredOnce.once, fun honce => ⟨honce, halone h⟩⟩

/-- A request for JSON-RPC is answered once if and only if it names a method and whoever
finishes it does so by a result or an error; any other request is. -/
theorem finished_once_iff (api : Api σ) (req : HttpData) (restricted : Bool) (s : σ) :
    AnsweredOnce (api.request true req restricted s) ↔
      (IsRpc req → WellFormed req ∧ Settled api.listeners (.new true req restricted) s) := by
  unfold request
  by_cases hrpc : IsRpc req
  case neg =>
    obtain ⟨hopen, htype⟩ := HttpApiRequest.new_of_not_rpc hrpc restricted
    rw [answered_exec api hopen s]
    exact iff_of_true (fun hc => absurd hc htype) fun hc => absurd hc hrpc
  case pos =>
    rw [forall_prop_of_true hrpc]
    by_cases hwell : WellFormed req
    case pos =>
      obtain ⟨hopen, htype⟩ := HttpApiRequest.new_of_wellFormed hrpc hwell restricted
      rw [answered_exec api hopen s, forall_prop_of_true htype, and_iff_right hwell]
    case neg =>
      have htwice := HttpApiRequest.new_of_not_wellFormed hrpc hwell restricted
      refine iff_of_false (fun hc => HttpApiRequest.not_once ?_ hc.once) fun hc => hwell hc.1
      refine htwice.trans (List.IsPrefix.length_le ?_)
      unfold exec
      dsimp only
      split
      case isTrue hsummary =>
        have hrpc := HttpApiRequest.type_new_of_rpc hrpc restricted
        rw [hsummary] at hrpc
        contradiction
      case isFalse => exact prefix_notify api.listeners _ s

end

/-! ## Answered twice -/

/-- The body is `{"method":"pause"}`. -/
abbrev pauseBody : BodyParser where
  parse _ := .ok (.object [(bytes "method", .string (bytes "pause"))])

/-- What a listener like the miner does: it accepts the request and leaves the reply alone. -/
theorem accepted_twice :
    ¬ @AnsweredOnce Unit (@request pauseBody Unit
      ⟨[], none, 0, .null, [fun _ s => (.accept fun doc => doc, s)]⟩ true
      ⟨METHOD_POST, 0, [], bytes "\x7b\"method\":\"pause\"\x7d", bytes "/json_rpc"⟩ false ()) := by
  rintro ⟨honce, -⟩
  exact HttpApiRequest.not_once (by decide +kernel) honce

end Api

end XLArig
