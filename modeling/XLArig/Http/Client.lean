import XLArig.Http.Reads
import XLArig.Machine

/-!
# XLArig.Http.Client

`base/net/http/HttpClient`, `base/net/https/HttpsClient` and `Dns` as far as they serve `fetch`:
a machine whose events are what libuv and OpenSSL report.

A client is answered once its listener got the data or an error.  It is forgotten when there is
neither a request nor a connection nor a timer left that could still answer it: without a
timeout, that is what a failure before the connection is made leads to.  And with TLS, a message
that ends after a chunk which closed the connection is handed over a second time
(`answered_iff`).
-/

namespace XLArig

namespace Http

/-- `HttpClient`, with its connection. -/
structure HttpClient where
  conn : Connection
  /-- The client is a `HttpsClient`. -/
  tls : Bool
  /-- `connect` was called. -/
  started : Bool
  /-- `m_timer` runs. -/
  timer : Bool
  /-- The request of `m_dns` is in flight. -/
  dns : Bool
  /-- The connect request is in flight. -/
  connecting : Bool
  /-- `uv_read_start` was called. -/
  reading : Bool
  /-- With TLS, the handshake is done; without, `true`. -/
  ready : Bool
  /-- The handle is closed and the client deleted. -/
  deleted : Bool
  deriving DecidableEq

namespace HttpClient

/-- What happens to a client.  `resolved` has the status and the number of the addresses that
`uv_getaddrinfo` reports, and what `uv_tcp_connect` returns; a `read` with TLS may end with the
end of the stream. -/
inductive Event
  | connect (ok : Bool)
  | resolved (status : Int) (addresses : Nat) (rc : Int)
  | onConnect (status : Int)
  | tlsHandshake (verified : Bool)
  | read (chunks : List Chunk) (eof : Bool)
  | readError (nread : Int)
  | onTimer
  | closed
  deriving DecidableEq

def UV_EAI_NONAME : Int := -3008

/-- `fetch` before `connect`: `method` and `url` are those of the request. -/
def fetch (tls timeout : Bool) (method : Int) (url : Bytes) (headers : List (Bytes × Bytes))
    (body : Bytes) : HttpClient where
  conn :=
    { ctx := ⟨.HTTP_RESPONSE, ⟨method, 0, headers, body, url⟩, false, [], [], true, []⟩
      registered := true
      closing := false }
  tls := tls
  started := false
  timer := timeout
  dns := false
  connecting := false
  reading := false
  ready := false
  deleted := false

def close (s : HttpClient) (status : Int) : HttpClient := { s with conn := s.conn.close status }

/-- `Dns::onResolved`: no address is an error too. -/
def dnsStatus (status : Int) (addresses : Nat) : Int :=
  if status < 0 then status else if addresses = 0 then UV_EAI_NONAME else status

/-- `HttpClient::onResolved`; the addresses are those of this request. -/
def onResolved (s : HttpClient) (status : Int) (addresses : Nat) (rc : Int) : HttpClient :=
  let isEmpty := status < 0 ∨ addresses = 0
  let status := dnsStatus status addresses
  let s := { s with dns := false, conn.ctx.data.status := status }
  if status < 0 ∧ isEmpty then s else { s with connecting := rc = 0 }

/-- `HttpClient::handshake`: the request is written, and its headers and body are moved away. -/
def handshake (s : HttpClient) : HttpClient :=
  { s with conn.ctx.data.headers := [], conn.ctx.data.body := [] }

/-- `HttpClient::onConnect`; `HttpsClient::handshake` waits for the other side. -/
def onConnect (s : HttpClient) (status : Int) : HttpClient :=
  let s := { s with connecting := false }
  if status < 0 then s.close (if status = UV_ECANCELED then UV_ETIMEDOUT else status)
  else if s.tls then { s with reading := true }
  else { s with reading := true, ready := true }.handshake

/-- `HttpsClient::read` up to the end of the handshake. -/
def tlsHandshake (s : HttpClient) (verified : Bool) : HttpClient :=
  if verified then { s with ready := true }.handshake else s.close UV_EPROTO

/-- A read, with `close(UV_EOF)` behind the last chunk where TLS reports the end. -/
def read (s : HttpClient) (chunks : List Chunk) (eof : Bool) : HttpClient :=
  let s := { s with conn := s.conn.onRead chunks }
  if eof then s.close UV_EOF else s

/-- Bytes may arrive. -/
def isOpen (s : HttpClient) : Bool := s.reading && !s.conn.closing

/-- libuv cancels the connect request of a closing handle, and calls back for a closed handle
last; a deleted client gets no events. -/
def step (s : HttpClient) (e : Event) : Option HttpClient :=
  if s.deleted then none
  else
    match e with
    | .connect ok => if s.started then none else some { s with started := true, dns := ok }
    | .resolved status addresses rc =>
        if s.dns then some (s.onResolved status addresses rc) else none
    | .onConnect status =>
        if s.connecting ∧ (s.conn.closing → status = UV_ECANCELED) then some (s.onConnect status)
        else none
    | .tlsHandshake verified =>
        if s.isOpen ∧ s.tls ∧ s.ready = false then some (s.tlsHandshake verified) else none
    | .read chunks eof =>
        if s.isOpen ∧ s.ready ∧ (s.tls = false → chunks.length = 1 ∧ eof = false) then
          some (s.read chunks eof)
        else none
    | .readError nread => if s.isOpen ∧ nread < 0 then some (s.close nread) else none
    | .onTimer =>
        if s.started ∧ s.timer then some ({ s with timer := false }.close UV_ETIMEDOUT) else none
    | .closed =>
        if s.conn.closing ∧ s.connecting = false then
          some { s with deleted := true, timer := false, dns := false }
        else none

/-- Every client that `fetch` makes. -/
def machine : Machine HttpClient Event where
  init s := ∃ tls timeout method url headers body, s = fetch tls timeout method url headers body
  step := step

/-- Nothing is left that could answer. -/
def Quiescent (s : HttpClient) : Prop :=
  s.started = true ∧ s.dns = false ∧ s.connecting = false ∧ s.isOpen = false ∧ s.timer = false

/-- The listener was called at most once, and exactly once when nothing is left. -/
def Answered (s : HttpClient) : Prop :=
  s.conn.ctx.received.length ≤ 1 ∧
    (s.Quiescent → s.conn.ctx.received.length = 1 ∧ s.conn.registered = false)

/-- A message ends in a chunk behind one that closed the connection. -/
def Late : List Chunk → Prop
  | [] => False
  | c :: cs =>
      if c.data = [] then Late cs
      else if .messageComplete ∈ c.events then False
      else if c.errno < c.data.length then ∃ d ∈ cs, d.data ≠ [] ∧ .messageComplete ∈ d.events
      else Late cs

/-- A failure before there is a connection finds a timer that runs, unless the client is
answered; and no message ends late while the listener waits. -/
def Guard (s : HttpClient) : Event → Prop
  | .connect ok => ok = true ∨ s.timer = true
  | .resolved status addresses rc =>
      (0 ≤ dnsStatus status addresses ∧ rc = 0) ∨ s.timer = true ∨ s.conn.registered = false
  | .read chunks _ => s.conn.ctx.listener = true → ¬ Late chunks
  | _ => True

/-! ## The connection of a client -/

/-- An open context waits for its message or has handed it over, a closed one has answered. -/
structure Settled (c : Connection) : Prop where
  type : c.ctx.type = .HTTP_RESPONSE
  consistent : c.Consistent
  waiting : c.registered = true →
    (c.ctx.listener = true ∧ c.ctx.received = []) ∨
      (c.ctx.listener = false ∧ c.ctx.received.length = 1)
  closed : c.registered = false → c.ctx.received.length = 1

section

variable {c : Connection} {d : Chunk} {chunks : List Chunk}

theorem Settled.close (h : Settled c) {status : Int} (hstatus : status < 0) :
    Settled (c.close status) ∧ (c.close status).registered = false := by
  by_cases hreg : c.registered = true
  · have hclosed : (c.close status).registered = false := by simp [Connection.close, hreg]
    refine ⟨⟨?_, Connection.close_consistent h.consistent status, ?_, fun _ => ?_⟩, hclosed⟩
    · unfold Connection.close
      split_ifs <;> exact h.type
    · intro hopen
      rw [hclosed] at hopen
      cases hopen
    · rcases h.waiting hreg with ⟨hlistener, hreceived⟩ | ⟨hlistener, hreceived⟩
      · simp [Connection.close, hreg, hstatus, hlistener, HttpContext.onHttpData, hreceived]
      · simp [Connection.close, hreg, hlistener, hreceived]
  · have hsame : c.close status = c := by simp [Connection.close, hreg]
    rw [hsame]
    exact ⟨h, by simpa using hreg⟩

theorem type_onRead (h : c.ctx.type = .HTTP_RESPONSE) (chunks : List Chunk) :
    (c.onRead chunks).ctx.type = .HTTP_RESPONSE := by
  induction chunks generalizing c with
  | nil => exact h
  | cons d chunks ih =>
      refine ih ?_
      by_cases hd : d.data = []
      · rwa [Connection.read_empty hd]
      · rw [Connection.read_filled c hd]
        have htype := (HttpContext.callbacks_type (s := c.ctx) d.events).trans h
        split_ifs
        · unfold Connection.close
          split_ifs <;> exact htype
        · exact htype

theorem consistent_onRead (h : c.Consistent) (chunks : List Chunk) :
    (c.onRead chunks).Consistent := by
  induction chunks generalizing c with
  | nil => exact h
  | cons d chunks ih => exact ih (Connection.consistent_read h d)

/-- A context that has handed its message over reads what it likes. -/
theorem settled_onRead_gone (htype : c.ctx.type = .HTTP_RESPONSE) (hconsistent : c.Consistent)
    (hlistener : c.ctx.listener = false) (hreceived : c.ctx.received.length = 1)
    (chunks : List Chunk) : Settled (c.onRead chunks) := by
  obtain ⟨hgone, hsame⟩ := (Connection.grows_onRead c chunks).2 hlistener
  have hlength : (c.onRead chunks).ctx.received.length = 1 := by rw [hsame, hreceived]
  exact ⟨type_onRead htype chunks, consistent_onRead hconsistent chunks,
    fun _ => .inr ⟨hgone, hlength⟩, fun _ => hlength⟩

/-- A chunk that ends the message hands it over. -/
theorem received_complete (hlistener : c.ctx.listener = true) (hreceived : c.ctx.received = [])
    (hd : d.data ≠ []) (hcomplete : .messageComplete ∈ d.events) :
    (c.read d).ctx.listener = false ∧ (c.read d).ctx.received.length = 1 := by
  obtain ⟨es, later, hevents, hes⟩ := List.eq_append_cons_of_mem hcomplete
  have hcallbacks := HttpContext.callbacks_complete hlistener hes later
  rw [hreceived, ← hevents] at hcallbacks
  rw [Connection.read_filled c hd]
  split_ifs
  · have hclose := (Connection.grows_close { c with ctx := c.ctx.callbacks d.events }
      (Connection.failure c.ctx.type)).2 hcallbacks.1
    refine ⟨hclose.1, ?_⟩
    rw [hclose.2, hcallbacks.2]
    rfl
  · exact ⟨hcallbacks.1, by rw [hcallbacks.2]; rfl⟩

/-- A chunk that closes the connection before the message ends is an error to the listener. -/
theorem received_closed (htype : c.ctx.type = .HTTP_RESPONSE) (hreg : c.registered = true)
    (hlistener : c.ctx.listener = true) (hreceived : c.ctx.received = []) (hd : d.data ≠ [])
    (hcomplete : .messageComplete ∉ d.events) (herrno : d.errno < d.data.length) :
    (c.read d).registered = false ∧ (c.read d).ctx.listener = true ∧
      (c.read d).ctx.received.length = 1 := by
  obtain ⟨hsame, hnone⟩ := HttpContext.callbacks_listener (s := c.ctx) hcomplete
  rw [Connection.read_filled c hd, if_pos herrno, htype]
  simp [Connection.close, Connection.failure, UV_EPROTO, hreg, hsame, hnone, hlistener, hreceived,
    HttpContext.onHttpData]

/-- What a closed context makes of further chunks. -/
theorem read_unregistered (hreg : c.registered = false) (hd : d.data ≠ []) :
    c.read d = { c with ctx := c.ctx.callbacks d.events } := by
  rw [Connection.read_filled c hd]
  split_ifs
  · simp [Connection.close, hreg]
  · rfl

theorem received_quiet (hreg : c.registered = false)
    (hquiet : ¬ ∃ d ∈ chunks, d.data ≠ [] ∧ .messageComplete ∈ d.events) :
    (c.onRead chunks).registered = false ∧
      (c.onRead chunks).ctx.received = c.ctx.received := by
  induction chunks generalizing c with
  | nil => exact ⟨hreg, rfl⟩
  | cons d chunks ih =>
      have hmore : ¬ ∃ d ∈ chunks, d.data ≠ [] ∧ .messageComplete ∈ d.events :=
        fun ⟨d', hd', h⟩ => hquiet ⟨d', List.mem_cons_of_mem _ hd', h⟩
      show ((c.read d).onRead chunks).registered = false ∧
        ((c.read d).onRead chunks).ctx.received = c.ctx.received
      by_cases hd : d.data = []
      · rw [Connection.read_empty hd]
        exact ih hreg hmore
      · have hcomplete : .messageComplete ∉ d.events := fun h =>
          hquiet ⟨d, List.mem_cons_self, hd, h⟩
        rw [read_unregistered hreg hd]
        have hrest := ih (c := { c with ctx := c.ctx.callbacks d.events }) hreg hmore
        exact ⟨hrest.1, hrest.2.trans (HttpContext.callbacks_listener hcomplete).2⟩

theorem received_late (hreg : c.registered = false) (hlistener : c.ctx.listener = true)
    (hreceived : c.ctx.received.length = 1)
    (hlate : ∃ d ∈ chunks, d.data ≠ [] ∧ .messageComplete ∈ d.events) :
    2 ≤ (c.onRead chunks).ctx.received.length := by
  induction chunks generalizing c with
  | nil => simp at hlate
  | cons d chunks ih =>
      show 2 ≤ ((c.read d).onRead chunks).ctx.received.length
      have hmore : d.data = [] ∨ .messageComplete ∉ d.events →
          ∃ d ∈ chunks, d.data ≠ [] ∧ .messageComplete ∈ d.events := by
        intro hnone
        obtain ⟨d', hd', hdata, hcomplete⟩ := hlate
        rcases List.mem_cons.mp hd' with rfl | hd'
        · rcases hnone with h | h
          · exact absurd h hdata
          · exact absurd hcomplete h
        · exact ⟨d', hd', hdata, hcomplete⟩
      by_cases hd : d.data = []
      · rw [Connection.read_empty hd]
        exact ih hreg hlistener hreceived (hmore (.inl hd))
      · rw [read_unregistered hreg hd]
        by_cases hcomplete : .messageComplete ∈ d.events
        · obtain ⟨es, later, hevents, hes⟩ := List.eq_append_cons_of_mem hcomplete
          have hcallbacks := (HttpContext.callbacks_complete hlistener hes later).2
          rw [← hevents] at hcallbacks
          have hgrows := (Connection.grows_onRead
            { c with ctx := c.ctx.callbacks d.events } chunks).1.length_le
          have htwo : (c.ctx.callbacks d.events).received.length = 2 := by
            rw [hcallbacks, List.length_append, hreceived]
            rfl
          exact htwo ▸ hgrows
        · obtain ⟨hsame, hnone⟩ := HttpContext.callbacks_listener (s := c.ctx) hcomplete
          refine ih (c := { c with ctx := c.ctx.callbacks d.events }) hreg
            (hsame.trans hlistener) ?_ (hmore (.inr hcomplete))
          rw [← hreceived, ← hnone]

/-- An open context that waits stays settled just when no message ends late. -/
theorem settled_onRead_waiting (hsettled : Settled c) (hreg : c.registered = true)
    (hlistener : c.ctx.listener = true) :
    (¬ Late chunks → Settled (c.onRead chunks)) ∧
      (Late chunks → 2 ≤ (c.onRead chunks).ctx.received.length) := by
  induction chunks generalizing c with
  | nil => exact ⟨fun _ => hsettled, fun h => h.elim⟩
  | cons d chunks ih =>
      have hreceived : c.ctx.received = [] := by
        rcases hsettled.waiting hreg with h | h
        · exact h.2
        · rw [hlistener] at h
          cases h.1
      have htype : (c.read d).ctx.type = .HTTP_RESPONSE := type_onRead hsettled.type [d]
      have hconsistent := Connection.consistent_read hsettled.consistent d
      show (¬ Late (d :: chunks) → Settled ((c.read d).onRead chunks)) ∧
        (Late (d :: chunks) → 2 ≤ ((c.read d).onRead chunks).ctx.received.length)
      rw [Late]
      by_cases hd : d.data = []
      · rw [if_pos hd, Connection.read_empty hd]
        exact ih hsettled hreg hlistener
      rw [if_neg hd]
      by_cases hcomplete : .messageComplete ∈ d.events
      · rw [if_pos hcomplete]
        obtain ⟨hgone, hone⟩ := received_complete hlistener hreceived hd hcomplete
        exact ⟨fun _ => settled_onRead_gone htype hconsistent hgone hone chunks, fun h => h.elim⟩
      rw [if_neg hcomplete]
      by_cases herrno : d.errno < d.data.length
      · rw [if_pos herrno]
        obtain ⟨hclosed, hkept, hone⟩ :=
          received_closed hsettled.type hreg hlistener hreceived hd hcomplete herrno
        refine ⟨fun hquiet => ?_, received_late hclosed hkept hone⟩
        obtain ⟨hstill, hsame⟩ := received_quiet hclosed hquiet
        refine ⟨type_onRead htype chunks, consistent_onRead hconsistent chunks, fun hopen => ?_,
          fun _ => by rw [hsame, hone]⟩
        rw [hstill] at hopen
        cases hopen
      · rw [if_neg herrno]
        have hread : c.read d = { c with ctx := c.ctx.callbacks d.events } := by
          rw [Connection.read_filled c hd, if_neg herrno]
        obtain ⟨hsame, hnone⟩ := HttpContext.callbacks_listener (s := c.ctx) hcomplete
        have hwaits : (c.read d).ctx.listener = true := by rw [hread]; exact hsame.trans hlistener
        have hopen : (c.read d).registered = true := by rw [hread]; exact hreg
        refine ih ⟨htype, hconsistent, fun _ => .inl ⟨hwaits, ?_⟩, fun hclosed => ?_⟩ hopen hwaits
        · rw [hread]
          exact hnone.trans hreceived
        · rw [hopen] at hclosed
          cases hclosed

/-- The same, whether or not the listener still waits. -/
theorem settled_onRead (hsettled : Settled c) (hreg : c.registered = true) :
    ((c.ctx.listener = true → ¬ Late chunks) → Settled (c.onRead chunks)) ∧
      (¬ (c.ctx.listener = true → ¬ Late chunks) →
        2 ≤ (c.onRead chunks).ctx.received.length) := by
  by_cases hlistener : c.ctx.listener = true
  · obtain ⟨hkeep, hlate⟩ : (¬ Late chunks → Settled (c.onRead chunks)) ∧
        (Late chunks → 2 ≤ (c.onRead chunks).ctx.received.length) :=
      settled_onRead_waiting hsettled hreg hlistener
    exact ⟨fun h => hkeep (h hlistener), fun h => hlate (by tauto)⟩
  · have hone : c.ctx.received.length = 1 := by
      rcases hsettled.waiting hreg with h | h
      · exact absurd h.1 hlistener
      · exact h.2
    exact ⟨fun _ => settled_onRead_gone hsettled.type hsettled.consistent (by simpa using hlistener)
      hone chunks, fun h => absurd (fun hl => absurd hl hlistener) h⟩

end

/-! ## Runs -/

/-- As long as a client is open, something is left that will answer. -/
structure Inv (s : HttpClient) : Prop where
  settled : Settled s.conn
  early : s.started = false → s.conn.registered = true ∧ s.dns = false ∧ s.connecting = false ∧
    s.reading = false
  left : s.started = true → s.conn.registered = true →
    s.dns = true ∨ s.connecting = true ∨ s.reading = true ∨ s.timer = true
  dns : s.dns = true → s.connecting = false ∧ s.reading = false
  connecting : s.connecting = true → s.reading = false

section

variable {s s' : HttpClient}

theorem Inv.toAnswered (h : s.Inv) : s.Answered := by
  have hone : s.conn.ctx.received.length ≤ 1 := by
    cases hreg : s.conn.registered with
    | true =>
        rcases h.settled.waiting hreg with ⟨-, hreceived⟩ | ⟨-, hreceived⟩
        · simp [hreceived]
        · omega
    | false => exact (h.settled.closed hreg).le
  refine ⟨hone, fun ⟨hstarted, hdns, hconnecting, hopen, htimer⟩ => ?_⟩
  have hreg : s.conn.registered = false := by
    cases hreg : s.conn.registered with
    | false => rfl
    | true =>
        have hclosing : s.conn.closing = false := by
          have := h.settled.consistent
          simpa [Connection.Consistent, hreg] using this
        rcases h.left hstarted hreg with hleft | hleft | hleft | hleft
        · simp [hdns] at hleft
        · simp [hconnecting] at hleft
        · simp [isOpen, hleft, hclosing] at hopen
        · simp [htimer] at hleft
  exact ⟨h.settled.closed hreg, hreg⟩

/-- A closed client with nothing but a timer and a connect request left. -/
theorem Inv.of_closed (hsettled : Settled s.conn) (hreg : s.conn.registered = false)
    (hstarted : s.started = true) (hdns : s.dns = true → s.connecting = false ∧ s.reading = false)
    (hconnecting : s.connecting = true → s.reading = false) : s.Inv where
  settled := hsettled
  early h := by
    rw [hstarted] at h
    cases h
  left _ h := by
    rw [hreg] at h
    cases h
  dns := hdns
  connecting := hconnecting

theorem Inv.started_of (h : s.Inv) (hbusy : s.dns = true ∨ s.connecting = true ∨ s.reading = true) :
    s.started = true := by
  cases hstarted : s.started with
  | true => rfl
  | false =>
      obtain ⟨-, hdns, hconnecting, hreading⟩ := h.early hstarted
      simp [hdns, hconnecting, hreading] at hbusy

theorem Inv.close (h : s.Inv) (hstarted : s.started = true) {status : Int} (hstatus : status < 0) :
    (s.close status).Inv := by
  obtain ⟨hsettled, hreg⟩ := h.settled.close hstatus
  exact Inv.of_closed hsettled hreg hstarted h.dns h.connecting

theorem inv_fetch (tls timeout : Bool) (method : Int) (url : Bytes)
    (headers : List (Bytes × Bytes)) (body : Bytes) :
    (fetch tls timeout method url headers body).Inv where
  settled := ⟨rfl, rfl, fun _ => .inl ⟨rfl, rfl⟩, nofun⟩
  early _ := ⟨rfl, rfl, rfl, rfl⟩
  left := nofun
  dns := nofun
  connecting := nofun

theorem dnsStatus_neg_iff (status : Int) (addresses : Nat) :
    dnsStatus status addresses < 0 ↔ status < 0 ∨ addresses = 0 := by
  unfold dnsStatus
  split_ifs with hstatus haddresses
  · simp [hstatus]
  · simp [haddresses, UV_EAI_NONAME]
  · simp [hstatus, haddresses]

/-- A client that is open when nothing is left is not answered. -/
theorem not_answered (hreg : s.conn.registered = true) (hquiescent : s.Quiescent) :
    ¬ s.Answered := fun h => by
  have hclosed := (h.2 hquiescent).2
  rw [hreg] at hclosed
  cases hclosed

/-- After a guarded step the client is answered, after another it is not. -/
def Exact (s s' : HttpClient) (e : Event) : Prop :=
  (s'.Answered ↔ s.Guard e) ∧ (s.Guard e → s'.Inv)

theorem Exact.of {e : Event} (hkeep : s.Guard e → s'.Inv) (hbreak : ¬ s.Guard e → ¬ s'.Answered) :
    Exact s s' e :=
  ⟨⟨fun h => by_contra fun hguard => hbreak hguard h, fun h => (hkeep h).toAnswered⟩, hkeep⟩

/-- The events that no guard forbids. -/
theorem Exact.of_inv {e : Event} (hguard : s.Guard e) (h : s'.Inv) : Exact s s' e :=
  Exact.of (fun _ => h) fun hnot => absurd hguard hnot

theorem exact_connect (h : s.Inv) (hstarted : s.started = false) (ok : Bool) :
    Exact s { s with started := true, dns := ok } (.connect ok) := by
  obtain ⟨hreg, hdns, hconnecting, hreading⟩ := h.early hstarted
  refine Exact.of (fun hguard => ?_) fun hguard => not_answered hreg ?_
  · refine ⟨h.settled, nofun, fun _ _ => ?_, fun _ => ⟨hconnecting, hreading⟩, h.connecting⟩
    rcases hguard with hok | htimer
    · exact .inl hok
    · exact .inr (.inr (.inr htimer))
  · simp only [Guard, not_or, Bool.not_eq_true] at hguard
    exact ⟨rfl, hguard.1, hconnecting, by simp [isOpen, hreading], hguard.2⟩

theorem exact_resolved (h : s.Inv) (hdns : s.dns = true) (status : Int) (addresses : Nat)
    (rc : Int) : Exact s (s.onResolved status addresses rc) (.resolved status addresses rc) := by
  obtain ⟨hconnecting, hreading⟩ := h.dns hdns
  have hstarted := h.started_of (.inl hdns)
  have hempty := dnsStatus_neg_iff status addresses
  -- Either branch leaves no request of `m_dns`, and the second may leave a connect request.
  obtain ⟨connecting, hiff, hafter⟩ : ∃ connecting : Bool,
      (connecting = true ↔ 0 ≤ dnsStatus status addresses ∧ rc = 0) ∧
      s.onResolved status addresses rc =
        { s with dns := false, conn.ctx.data.status := dnsStatus status addresses,
                 connecting := connecting } := by
    by_cases hfailed : dnsStatus status addresses < 0
    · refine ⟨false, by simp; omega, ?_⟩
      simp [onResolved, hfailed, hempty.mp hfailed, ← hconnecting]
    · refine ⟨decide (rc = 0), by simp; omega, ?_⟩
      simp [onResolved, hfailed]
  rw [hafter]
  have hsettled : Settled { s.conn with ctx.data.status := dnsStatus status addresses } :=
    ⟨h.settled.type, h.settled.consistent, h.settled.waiting, h.settled.closed⟩
  refine Exact.of (fun hguard => ?_) fun hguard => ?_
  · refine ⟨hsettled, fun hnot => ?_, fun _ hreg => ?_, nofun, fun _ => hreading⟩
    · rw [show s.started = false from hnot] at hstarted
      cases hstarted
    · rcases hguard with hok | htimer | hclosed
      · exact .inr (.inl (hiff.mpr hok))
      · exact .inr (.inr (.inr htimer))
      · rw [show s.conn.registered = true from hreg] at hclosed
        cases hclosed
  · simp only [Guard, not_or, Bool.not_eq_true, Bool.not_eq_false] at hguard
    obtain ⟨hfailed, htimer, hreg⟩ := hguard
    have hnone : connecting = false := by
      simpa using fun hconnecting => hfailed (hiff.mp hconnecting)
    exact not_answered hreg ⟨hstarted, rfl, hnone, by simp [isOpen, hreading], htimer⟩

theorem inv_onConnect (h : s.Inv) (hconnecting : s.connecting = true) (status : Int) :
    (s.onConnect status).Inv := by
  have hreading := h.connecting hconnecting
  have hstarted := h.started_of (.inr (.inl hconnecting))
  have hdns : s.dns = false := by
    by_contra hdns
    simp [h.dns (by simpa using hdns)] at hconnecting
  have hnot : ∀ {P : Prop}, s.started = false → P := fun hfalse => by simp [hstarted] at hfalse
  by_cases hstatus : status < 0
  · have hneg : (if status = UV_ECANCELED then UV_ETIMEDOUT else status) < 0 := by
      split_ifs
      · decide
      · exact hstatus
    have hafter : s.onConnect status = { s with
        connecting := false
        conn := s.conn.close (if status = UV_ECANCELED then UV_ETIMEDOUT else status) } := by
      rw [onConnect, if_pos hstatus]
      rfl
    obtain ⟨hsettled, hreg⟩ := h.settled.close hneg
    rw [hafter]
    exact Inv.of_closed hsettled hreg hstarted (fun hbusy => by simp [hdns] at hbusy) nofun
  · have hafter : s.onConnect status =
        if s.tls then { s with connecting := false, reading := true }
        else { s with connecting := false, reading := true, ready := true }.handshake := by
      rw [onConnect, if_neg hstatus]
    rw [hafter]
    split_ifs
    · exact ⟨h.settled, hnot, fun _ _ => .inr (.inr (.inl rfl)),
        fun hbusy => by simp [hdns] at hbusy, nofun⟩
    · exact ⟨⟨h.settled.type, h.settled.consistent, h.settled.waiting, h.settled.closed⟩, hnot,
        fun _ _ => .inr (.inr (.inl rfl)), fun hbusy => by simp [handshake, hdns] at hbusy, nofun⟩

theorem inv_tlsHandshake (h : s.Inv) (hopen : s.isOpen = true) (verified : Bool) :
    (s.tlsHandshake verified).Inv := by
  have hreading : s.reading = true := by
    simp only [isOpen, Bool.and_eq_true] at hopen
    exact hopen.1
  have hstarted := h.started_of (.inr (.inr hreading))
  unfold tlsHandshake
  split_ifs
  · exact ⟨⟨h.settled.type, h.settled.consistent, h.settled.waiting, h.settled.closed⟩, h.early,
      h.left, h.dns, h.connecting⟩
  · exact h.close hstarted (by decide)

theorem exact_read (h : s.Inv) (hopen : s.isOpen = true) (chunks : List Chunk) (eof : Bool) :
    Exact s (s.read chunks eof) (.read chunks eof) := by
  obtain ⟨hreading, hclosing⟩ : s.reading = true ∧ s.conn.closing = false := by
    simpa [isOpen] using hopen
  have hstarted := h.started_of (.inr (.inr hreading))
  have hreg : s.conn.registered = true := by
    have := h.settled.consistent
    simpa [Connection.Consistent, hclosing] using this
  obtain ⟨hkeep, hlate⟩ : ((s.conn.ctx.listener = true → ¬ Late chunks) →
      Settled (s.conn.onRead chunks)) ∧ (¬ (s.conn.ctx.listener = true → ¬ Late chunks) →
        2 ≤ (s.conn.onRead chunks).ctx.received.length) := settled_onRead h.settled hreg
  refine Exact.of (fun hguard => ?_) fun hguard => ?_
  · have hread : Inv { s with conn := s.conn.onRead chunks } :=
      ⟨hkeep hguard, fun hnot => by simp [hstarted] at hnot,
        fun _ _ => .inr (.inr (.inl hreading)), h.dns, h.connecting⟩
    unfold read
    split_ifs
    · exact hread.close hstarted (by decide)
    · exact hread
  · have htwo := hlate hguard
    have hgrows : (s.conn.onRead chunks).ctx.received.length ≤
        (s.read chunks eof).conn.ctx.received.length := by
      unfold read
      split_ifs
      · exact (Connection.grows_close (s.conn.onRead chunks) UV_EOF).1.length_le
      · exact le_rfl
    intro hanswered
    have := hanswered.1
    omega

theorem inv_onTimer (h : s.Inv) (hstarted : s.started = true) :
    ({ s with timer := false }.close UV_ETIMEDOUT).Inv := by
  obtain ⟨hsettled, hreg⟩ := h.settled.close (show UV_ETIMEDOUT < 0 by decide)
  exact Inv.of_closed hsettled hreg hstarted h.dns h.connecting

theorem inv_closed (h : s.Inv) (hclosing : s.conn.closing = true) :
    Inv { s with deleted := true, timer := false, dns := false } := by
  have hreg : s.conn.registered = false := by
    have := h.settled.consistent
    simpa [Connection.Consistent, hclosing] using this
  have hdns : false = true → s.connecting = false ∧ s.reading = false := by
    intro hdns
    contradiction
  refine Inv.of_closed h.settled hreg ?_ hdns h.connecting
  by_contra hstarted
  have hearly := (h.early (by simpa using hstarted)).1
  rw [hreg] at hearly
  cases hearly

/-- A step of an invariant state, by its events. -/
theorem exact_step {e : Event} (h : s.Inv) (hstep : s.step e = some s') : Exact s s' e := by
  have hdeleted : s.deleted = false := by
    by_contra hdeleted
    simp [step, hdeleted] at hstep
  unfold step at hstep
  rw [if_neg (by simp [hdeleted])] at hstep
  cases e with
  | connect ok =>
      dsimp only at hstep
      split_ifs at hstep with hstarted
      obtain rfl := Option.some.inj hstep
      exact exact_connect h (by simpa using hstarted) ok
  | resolved status addresses rc =>
      dsimp only at hstep
      split_ifs at hstep with hdns
      obtain rfl := Option.some.inj hstep
      exact exact_resolved h hdns status addresses rc
  | onConnect status =>
      dsimp only at hstep
      split_ifs at hstep with hconnecting
      obtain rfl := Option.some.inj hstep
      exact Exact.of_inv trivial (inv_onConnect h hconnecting.1 status)
  | tlsHandshake verified =>
      dsimp only at hstep
      split_ifs at hstep with hopen
      obtain rfl := Option.some.inj hstep
      exact Exact.of_inv trivial (inv_tlsHandshake h hopen.1 verified)
  | read chunks eof =>
      dsimp only at hstep
      split_ifs at hstep with hopen
      obtain rfl := Option.some.inj hstep
      exact exact_read h hopen.1 chunks eof
  | readError nread =>
      dsimp only at hstep
      split_ifs at hstep with hopen
      obtain rfl := Option.some.inj hstep
      have hreading : s.reading = true := by
        have := hopen.1
        simp only [isOpen, Bool.and_eq_true] at this
        exact this.1
      exact Exact.of_inv trivial (h.close (h.started_of (.inr (.inr hreading))) hopen.2)
  | onTimer =>
      dsimp only at hstep
      split_ifs at hstep with htimer
      obtain rfl := Option.some.inj hstep
      exact Exact.of_inv trivial (inv_onTimer h htimer.1)
  | closed =>
      dsimp only at hstep
      split_ifs at hstep with hclosing
      obtain rfl := Option.some.inj hstep
      exact Exact.of_inv trivial (inv_closed h hclosing.1)

end

/-- In a run of a client, every state is one in which it is answered if and only if every step
is taken under the guard. -/
theorem answered_iff {s s' : HttpClient} {es : List Event} (hs : machine.init s)
    (hr : machine.run s es = some s') :
    machine.Always Answered s es ↔ machine.Meets Guard s es := by
  obtain ⟨tls, timeout, method, url, headers, body, rfl⟩ := hs
  exact Machine.always_iff_of_invariant (fun _ h => h.toAnswered)
    (fun _ _ _ h hstep => exact_step h hstep) hr (inv_fetch _ _ _ _ _ _)

/-- The daemon's height, without a timeout. -/
def heightRequest (timeout : Bool) : HttpClient :=
  fetch false timeout 1 (bytes "/getheight") [] []

/-- What answers it in one read. -/
def heightReply : Chunk where
  data := bytes "HTTP/1.1 200 Ok\r\nContent-Length: 2\r\n\r\n{}"
  events := [.headerField (bytes "Content-Length"), .headerValue (bytes "2"),
    .headersComplete 0 200, .body (bytes "{}"), .messageComplete]
  errno := 0

def answeredRun : List Event :=
  [.connect true, .resolved 0 1 0, .onConnect 0, .read [heightReply] false, .closed]

theorem answered_iff_reply :
    machine.Always Answered (heightRequest false) answeredRun ↔
      machine.Meets Guard (heightRequest false) answeredRun :=
  answered_iff ⟨_, _, _, _, _, _, rfl⟩
    (Option.some_get (show (machine.run (heightRequest false) answeredRun).isSome = true by
      decide +kernel)).symm

/-- Without a timeout, a name that is not known leaves nothing that could answer. -/
theorem forgotten :
    ∃ s, machine.run (heightRequest false) [.connect true, .resolved UV_EAI_NONAME 0 0] = some s ∧
      s.Quiescent ∧ s.conn.ctx.received = [] ∧ s.conn.registered = true ∧ ¬ s.Answered := by
  refine ⟨_, rfl, ⟨rfl, rfl, rfl, rfl, rfl⟩, rfl, rfl, fun h => ?_⟩
  have hone := (h.2 ⟨rfl, rfl, rfl, rfl, rfl⟩).2
  cases hone

end HttpClient

end Http

end XLArig
