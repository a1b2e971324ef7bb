import XLArig.Client.Connection

/-!
# XLArig.Client.Connection.Effect

What the handlers of a `Client` do, one effect after the other.

A DNS completion creates a socket, and a close callback deletes one.  Any other event
is a sequence of effects that keep the socket and the handles that are open or closing
(`step_cases`), so a property that these preserve holds along every run (`invariant`).
The effects that are calls of `connect` and `disconnect` come with what is known of the
calls of the run.  `Wired` is what holds of the socket, the handles and the state in
all runs.
-/

namespace XLArig

namespace Client

namespace Handle

variable {x : Handle}

@[simp] theorem live_close : x.close.Live ↔ x.Live := by
  unfold close Live
  split <;> simp_all

@[simp] theorem state_readStart : x.readStart.state = x.state := by
  unfold readStart
  split <;> rfl

@[simp] theorem live_readStart : x.readStart.Live ↔ x.Live := by simp [Live]

/-- After `uv_close` a handle is not open. -/
theorem state_close_ne : x.close.state ≠ .opened := by
  unfold close
  split
  · nofun
  · assumption

theorem Live.close (h : x.Live) : x.close.state = .closing := by
  unfold Handle.close
  split
  · rfl
  · next hne => exact h.resolve_left hne

end Handle

namespace Connection

/-- A call of the functions that start and end a connection; `connect` with the pool it
finds. -/
inductive Call
  | connect (pool : Pool) (ok : Bool)
  | disconnect

/-- The pool after a redirect. -/
def redirected (pool : Pool) (host : List UInt8) (port : Int) : Pool :=
  if (pool.redirect host port).isValid then pool.redirect host port else pool

/-- The call an event makes: `tick` and a redirect connect as well. -/
def call (s : Connection) : Event → Option Call
  | .connect ok => some (.connect s.pool ok)
  | .disconnect => some .disconnect
  | .tick ok _ => if s.Retries then some (.connect s.pool ok) else none
  | .proceed =>
      match s.todo with
      | .line (.redirect host port ok) :: _ => some (.connect (redirected s.pool host port) ok)
      | _ => none
  | _ => none

/-- The call of an event is made as `P` says. -/
def Calls (P : Connection → Call → Prop) (s : Connection) (e : Event) : Prop :=
  ∀ call ∈ s.call e, P s call

instance (P : Connection → Call → Prop) [∀ s c, Decidable (P s c)] (s : Connection) (e : Event) :
    Decidable (Calls P s e) :=
  inferInstanceAs (Decidable (∀ call ∈ s.call e, P s call))

/-- A handle is open or closing. -/
def Live (s : Connection) (h : Nat) : Prop := (s.handles h).Live

/-- A handle is open. -/
def Open (s : Connection) (h : Nat) : Prop := (s.handles h).state = .opened

instance (s : Connection) (h : Nat) : Decidable (s.Live h) :=
  inferInstanceAs (Decidable (s.handles h).Live)

instance (s : Connection) (h : Nat) : Decidable (s.Open h) :=
  inferInstanceAs (Decidable (_ = _))

variable {P : Connection → Call → Prop} {s s' : Connection} {h k : Nat} {ok : Bool} {w : Write}

/-! ## Effects -/

/-- One thing a handler does. -/
inductive Effect (P : Connection → Call → Prop) : Connection → Connection → Prop
  | pool {s : Connection} {pool : Pool} (htls : pool.isTLS = s.pool.isTLS) :
      Effect P s { s with pool }
  | elapse {s : Connection} (ms : Nat) : Effect P s { s with now := s.now + ms }
  | keepAlive {s : Connection} (ms : Nat) : Effect P s { s with keepAlive := ms }
  | close {s : Connection} : Effect P s s.close
  | disconnect {s : Connection} (hp : P s .disconnect) : Effect P s s.disconnect
  | connect {s : Connection} {ok : Bool} (hp : P s (.connect s.pool ok)) :
      Effect P s (s.connect ok)
  | called {s : Connection} (h : Nat) :
      Effect P s { s with
        handles := Function.update s.handles h { s.handles h with connecting := false } }
  | connected {s : Connection} {h k : Nat} (ho : s.Open h) (hk : s.socket = some k) :
      Effect P s ({ s with
        state := .ConnectedState
        handles := Function.update s.handles k (s.handles k).readStart }.report .connected)
  | sent {s : Connection} (hc : s.state = .ConnectedState ∨ ∃ h, s.Open h) :
      Effect P s { s with expire := s.now + kResponseTimeout }
  | login {s : Connection} (hc : s.state = .ConnectedState) (h5 : s.socks5 = none)
      (hs : s.isTLS = true → s.secure = true) :
      Effect P s
        ({ s with expire := s.now + kResponseTimeout }.report (.login s.pool.isTLS s.secure))
  | socks5 {s : Connection} {h : Nat} (ho : s.Open h) (h5 : s.socks5 ≠ none) (p : Socks5) :
      Effect P s { s with socks5 := some p }
  | socks5Ready {s : Connection} {h : Nat} (ho : s.Open h) :
      Effect P s { s with
        socks5 := none
        tls := if s.pool.isTLS && s.tls.isNone then some s.newTls else s.tls }
  | tls {s : Connection} {h : Nat} {t t' : Tls} (ho : s.Open h) (ht : s.tls = some t)
      (howner : t'.owner = t.owner) : Effect P s { s with tls := some t' }
  | received {s : Connection} {h : Nat} (ho : s.Open h) (lines : List Line) :
      Effect P s (s.readLines lines)
  | line {s : Connection} {line : Line} {todo : List Task} (ht : s.todo = .line line :: todo)
      (hl : line = .other ∨ ∃ keepAlive, line = .failed keepAlive) (ms : Nat) (extension : Bool) :
      Effect P s { s with todo, expire := 0, keepAlive := ms, extension }
  | job {s : Connection} {todo : List Task} (ht : s.todo = .line .job :: todo) (ms : Nat) :
      Effect P s ({ s with todo, expire := 0, keepAlive := ms }.report .onJobReceived)
  | loginJob {s : Connection} {todo : List Task} (ht : s.todo = .job :: todo) :
      Effect P s ({ s with todo }.report .onJobReceived)
  | loginSuccess {s : Connection} {keepAlive job : Bool} {todo : List Task}
      (ht : s.todo = .line (.login keepAlive job) :: todo) (ms : Nat) (extension : Bool) :
      Effect P s ({ s with
        todo := if job then .job :: todo else todo
        expire := 0
        keepAlive := ms
        extension
        failures := 0 }.report .onLoginSuccess)
  | redirect {s : Connection} {host : List UInt8} {port : Int} {ok : Bool} {todo : List Task}
      {pool : Pool} (ht : s.todo = .line (.redirect host port ok) :: todo) (ms : Nat)
      (hp : P s (.connect pool ok)) (htls : pool.isTLS = s.pool.isTLS) :
      Effect P s
        ({ { s with todo, expire := 0, keepAlive := ms }.disconnect with pool }.connect ok)

/-- A sequence of effects. -/
abbrev Effects (P : Connection → Call → Prop) : Connection → Connection → Prop :=
  Relation.ReflTransGen (Effect P)

theorem Effect.effects (e : Effect P s s') : Effects P s s' := .single e

/-! ## What the functions leave -/

theorem setState_eq (state : SocketState) :
    ∃ expire, s.setState state = { s with state, expire } := by
  unfold setState
  split
  · next h =>
    subst h
    exact ⟨s.expire, rfl⟩
  · cases state with
    | HostLookupState | ConnectingState | ReconnectingState => exact ⟨_, rfl⟩
    | UnconnectedState | ConnectedState | ClosingState => exact ⟨s.expire, rfl⟩

/-- States without a timeout of their own. -/
theorem setState_plain {state : SocketState} (h1 : state ≠ .HostLookupState)
    (h2 : state ≠ .ConnectingState) (h3 : state ≠ .ReconnectingState) :
    s.setState state = { s with state } := by
  unfold setState
  split
  · next h =>
    subst h
    rfl
  · cases state with
    | HostLookupState | ConnectingState | ReconnectingState => contradiction
    | UnconnectedState | ConnectedState | ClosingState => rfl

/-- `close` does nothing, or the socket is closing then. -/
theorem close_cases : s.close = s ∧
      (s.state = .ClosingState ∨ s.state = .UnconnectedState ∨ s.socket = none) ∨
    ∃ h, s.socket = some h ∧ s.close = { s with
      state := .ClosingState
      handles := Function.update s.handles h (s.handles h).close } := by
  unfold close
  split
  · next h => exact .inl ⟨rfl, h.imp_right .inl⟩
  · split
    · next h => exact .inl ⟨rfl, .inr (.inr h)⟩
    · next h hsocket =>
      rw [setState_plain (by decide) (by decide) (by decide)]
      exact .inr ⟨h, hsocket, rfl⟩

theorem disconnect_cases : ∃ state handles,
    s.disconnect = { s with
      keepAlive := 0
      expire := 0
      failures := -1
      intent := .disconnect
      state
      handles } ∧
    (state = s.state ∧ handles = s.handles ∧
        (s.state = .ClosingState ∨ s.state = .UnconnectedState ∨ s.socket = none) ∨
      ∃ h, s.socket = some h ∧ state = .ClosingState ∧
        handles = Function.update s.handles h (s.handles h).close) := by
  let t : Connection :=
    { s with keepAlive := 0, expire := 0, failures := -1, intent := .disconnect }
  rcases close_cases (s := t) with ⟨heq, hcase⟩ | ⟨h, hs, heq⟩
  · exact ⟨_, _, heq, .inl ⟨rfl, rfl, hcase⟩⟩
  · exact ⟨_, _, heq, .inr ⟨h, hs, rfl, rfl⟩⟩

@[simp] theorem live_close : s.close.Live h ↔ s.Live h := by
  rcases close_cases (s := s) with ⟨heq, -⟩ | ⟨k, -, heq⟩
  · rw [heq]
  · rw [heq]
    by_cases hk : h = k
    · subst hk
      simp [Live]
    · simp [Live, hk]

/-- `reconnect` calls the listener, after `disconnect` with the sentinel. -/
theorem reconnect_cases : s.failures = -1 ∧ s.reconnect = { s with
      keepAlive := 0
      log := (s.intent, .onClose (-1)) :: s.log } ∨
    s.failures ≠ -1 ∧ ∃ expire,
      (expire = s.now + s.retryPause ∨ s.state = .ReconnectingState ∧ expire = s.expire) ∧
      s.reconnect = { s with
        keepAlive := 0
        state := .ReconnectingState
        expire
        failures := s.failures + 1
        log := (s.intent, .onClose (s.failures + 1)) :: s.log } := by
  unfold reconnect
  by_cases hf : s.failures = -1
  · exact .inl ⟨hf, if_pos hf⟩
  · refine .inr ⟨hf, ?_⟩
    by_cases hs : s.state = .ReconnectingState
    · refine ⟨s.expire, .inr ⟨hs, rfl⟩, ?_⟩
      simp only [hf, if_false, setState, hs, if_true, report]
    · refine ⟨s.now + s.retryPause, .inl rfl, ?_⟩
      simp only [hf, if_false, setState, hs, report]

theorem reconnect_eq : ∃ state expire failures f, s.reconnect = { s with
    keepAlive := 0
    state
    expire
    failures
    log := (s.intent, .onClose f) :: s.log } := by
  rcases reconnect_cases (s := s) with ⟨-, heq⟩ | ⟨-, expire, -, heq⟩
  · exact ⟨_, _, _, _, heq⟩
  · exact ⟨_, _, _, _, heq⟩

theorem onResolved_cases (records : Option Bool) (started : Bool) :
    ∃ records', s.onResolved records started =
        { s with lookups := s.lookups - 1, records := records' }.connectTo started ∨
      s.onResolved records started =
        { s with lookups := s.lookups - 1, records := records' }.reconnect := by
  refine ⟨records.getD s.records, ?_⟩
  unfold onResolved
  by_cases h : records.getD s.records = true
  · exact .inl (if_pos h)
  · exact .inr (if_neg h)

/-- What the close callback of a handle does to another: nothing, or it deletes it. -/
def Deleted (s : Connection) (h : Nat) (handles : Nat → Handle) : Prop :=
  ∀ k, k ≠ h ∧ s.socket ≠ some k ∧ handles k = s.handles k ∨
    (k = h ∨ s.socket = some k) ∧ ¬ (handles k).Live

theorem onClose_eq (h : Nat) : ∃ handles, s.Deleted h handles ∧ s.onClose h = { s with
    handles
    socket := none
    state := .UnconnectedState
    tls := none }.reconnect := by
  unfold onClose
  rw [setState_plain (by decide) (by decide) (by decide)]
  have hdead : ∀ (x : Handle) state, state = .closed ∨ state = .freed →
      ¬ ({ x with state } : Handle).Live := by
    rintro x state (rfl | rfl) <;> simp [Handle.Live]
  cases hs : s.socket with
  | none =>
      refine ⟨_, ?_, by simp only [deleteSocket, hs]; rfl⟩
      intro k
      by_cases hk : k = h
      · subst hk
        exact .inr ⟨.inl rfl, by simpa using hdead (s.handles k) _ (.inl rfl)⟩
      · exact .inl ⟨hk, by simp [hs], by simp [hk]⟩
  | some j =>
      refine ⟨(s.deleteSocket h).handles, ?_, by simp only [deleteSocket, hs]⟩
      intro k
      simp only [deleteSocket, hs]
      by_cases hj : j = h
      · subst hj
        rw [if_pos rfl]
        by_cases hk : k = j
        · subst hk
          exact .inr ⟨.inl rfl, by simpa using hdead (s.handles k) _ (.inl rfl)⟩
        · exact .inl ⟨hk, by simpa using Ne.symm hk, by simp [hk]⟩
      · rw [if_neg hj]
        by_cases hk : k = j
        · subst hk
          exact .inr ⟨.inr rfl, by simpa using hdead (s.handles k) _ (.inr rfl)⟩
        · by_cases hk' : k = h
          · subst hk'
            exact .inr ⟨.inl rfl, by simpa [hk] using hdead (s.handles k) _ (.inl rfl)⟩
          · exact .inl ⟨hk', by simpa using Ne.symm hk, by simp [hk, hk']⟩

/-- What `connect` creates: a `Socks5` for a proxy, a `Tls` without one. -/
def Prepared (s : Connection) (socks5 : Option Socks5) (tls : Option Tls) : Prop :=
  s.pool.proxy.isValid = true ∧ socks5 = some .Created ∧ tls = s.tls ∨
    s.pool.proxy.isValid = false ∧ s.pool.isTLS = true ∧ socks5 = s.socks5 ∧
      tls = some ⟨false, false, false, s.next⟩ ∨
    s.pool.isTLS = false ∧ socks5 = s.socks5 ∧ tls = s.tls

theorem connect_eq (ok : Bool) : ∃ expire host records socks5 tls, s.Prepared socks5 tls ∧
    s.connect ok = { s with
      intent := .connect
      state := .HostLookupState
      expire
      failures := if s.failures = -1 then 0 else s.failures
      host
      records
      lookups := if ok then s.lookups + 1 else s.lookups
      socks5
      tls } := by
  have hresolve : ∀ (t : Connection) host, ∃ expire records, t.resolve host ok = { t with
      state := .HostLookupState
      expire
      failures := if t.failures = -1 then 0 else t.failures
      host
      records
      lookups := if ok then t.lookups + 1 else t.lookups } := by
    intro t host
    obtain ⟨expire, heq⟩ := setState_eq (s := t) .HostLookupState
    refine ⟨expire, t.records && t.host = host, ?_⟩
    rw [resolve, heq]
  unfold connect Prepared
  cases hproxy : s.pool.proxy.isValid with
  | true =>
      obtain ⟨expire, records, heq⟩ :=
        hresolve { s with intent := .connect, socks5 := some .Created } s.pool.proxy.host
      exact ⟨expire, _, records, _, _, .inl ⟨rfl, rfl, rfl⟩, (if_pos hproxy).trans heq⟩
  | false =>
      cases htls : s.pool.isTLS with
      | true =>
          obtain ⟨expire, records, heq⟩ := hresolve
            { s with intent := .connect, tls := some ⟨false, false, false, s.next⟩ } s.pool.url.host
          exact ⟨expire, _, records, _, _, .inr (.inl ⟨rfl, rfl, rfl, rfl⟩),
            (if_neg (ne_true_of_eq_false hproxy)).trans ((if_pos htls).trans heq)⟩
      | false =>
          obtain ⟨expire, records, heq⟩ := hresolve { s with intent := .connect } s.pool.url.host
          exact ⟨expire, _, records, _, _, .inr (.inr ⟨rfl, rfl, rfl⟩),
            (if_neg (ne_true_of_eq_false hproxy)).trans
              ((if_neg (ne_true_of_eq_false htls)).trans heq)⟩

theorem connectTo_eq (started : Bool) : ∃ expire, s.connectTo started = { s with
    state := .ConnectingState
    expire
    socket := some s.next
    handles := Function.update s.handles s.next ⟨.opened, started, false, 0⟩
    next := s.next + 1 } := by
  obtain ⟨expire, heq⟩ := setState_eq (s := s) .ConnectingState
  exact ⟨expire, by rw [connectTo, heq]⟩

/-! ## Events -/

theorem write_cases (w : Write) : s.write w = (s, true) ∧ s.state = .ConnectedState ∨
    s.write w = (s, false) ∨ s.write w = (s.close, false) := by
  unfold write
  by_cases hs : s.state = .ConnectedState
  · cases w with
    | refused => exact .inr (.inl (if_neg (not_not_intro hs)))
    | failed => exact .inr (.inr (if_neg (not_not_intro hs)))
    | accepted => exact .inl ⟨if_neg (not_not_intro hs), hs⟩
  · exact .inr (.inl (if_pos hs))

theorem effects_write (w : Write) : Effects P s (s.write w).1 := by
  rcases write_cases (s := s) w with ⟨heq, -⟩ | heq | heq <;> rw [heq]
  exact Effect.close.effects

theorem effects_send (w : Write) : Effects P s (s.send w) := by
  unfold send
  rcases write_cases (s := s) w with ⟨heq, hs⟩ | heq | heq <;> rw [heq]
  · exact (Effect.sent (.inl hs)).effects
  · exact Effect.close.effects

theorem effects_login (w : Write) (h5 : s.socks5 = none) (hs : s.isTLS = true → s.secure = true) :
    Effects P s (s.login w) := by
  unfold login
  rcases write_cases (s := s) w with ⟨heq, hc⟩ | heq | heq <;> rw [heq]
  · exact (Effect.login hc h5 hs).effects
  · exact Effect.close.effects

theorem effects_writeSocks5 (w : Write) : Effects P s (s.writeSocks5 w) := by
  cases w with
  | accepted => exact .refl
  | refused | failed => exact Effect.close.effects

theorem effects_handshake (w : Write) (ho : s.Open h) : Effects P s (s.handshake w) := by
  unfold handshake
  split
  · next h5 =>
    exact .head (.socks5 ho (by simp [h5]) .SentInitialHandshake) (effects_writeSocks5 w)
  · next t h5 ht =>
    split
    · have hsent : Effect P s { s with expire := s.now + kResponseTimeout } := .sent (.inr ⟨h, ho⟩)
      have htls : Effect P { s with expire := s.now + kResponseTimeout } { s with
          expire := s.now + kResponseTimeout
          tls := some { t with started := true, finished := false } } := .tls ho ht rfl
      exact .head hsent (.head htls (effects_write w))
    · next htls => exact effects_login w h5 (by simp [isTLS, htls])
  · next h5 ht => exact effects_login w h5 (by simp [isTLS, ht])

theorem effects_onConnect {success : Bool} (ho : success = true → s.Open h)
    (heq : s.onConnect h success w = some s') : Effects P s s' := by
  let t : Connection := { s with
    handles := Function.update s.handles h { s.handles h with connecting := false } }
  have hcalled : Effect P s t := .called h
  unfold onConnect at heq
  split at heq
  · next hfail =>
    obtain rfl := Option.some.inj heq
    refine .head hcalled ?_
    split
    · exact Effect.close.effects
    · exact .refl
  · next hsuccess =>
    have hopen : t.Open h := by
      simp only [Open, t, Function.update_self]
      exact ho (by simpa using hsuccess)
    dsimp only at heq
    split at heq
    · obtain rfl := Option.some.inj heq
      exact hcalled.effects
    · split at heq
      · contradiction
      · next k hk =>
        obtain rfl := Option.some.inj heq
        have hconnected : Effect P t ({ t with
            state := .ConnectedState
            handles := Function.update t.handles k (t.handles k).readStart }.report .connected) :=
          .connected hopen hk
        refine .head hcalled (.head hconnected ?_)
        rw [setState_plain (by decide) (by decide) (by decide)]
        refine effects_handshake (h := h) w ?_
        by_cases hkh : h = k
        · subst hkh
          simpa [Open, report] using hopen
        · simpa [Open, report, hkh] using hopen

theorem effects_readTls {t : Tls} (chunk : Chunk) (w : Write) (ho : s.Open h) (h5 : s.socks5 = none)
    (htls : s.pool.isTLS = true) (ht : s.tls = some t) : Effects P s (s.readTls t chunk w) := by
  unfold readTls
  split
  · exact (Effect.received ho chunk.lines).effects
  · split
    · exact .refl
    · split
      · exact effects_write w
      · exact .refl
      · have hverified : Effect P s { s with
            tls := some { t with finished := true, ready := true } } := .tls ho ht rfl
        have hrefused : Effect P s { s with tls := some { t with finished := true } } :=
          .tls ho ht rfl
        split
        · exact .head hverified (effects_login w h5 fun _ => by simp [secure, htls])
        · exact .head hrefused Effect.close.effects

theorem effects_readSocks5 {p : Socks5} (reply : Reply) (w : Write) (ho : s.Open h)
    (h5 : s.socks5 = some p) : Effects P s (s.readSocks5 p reply w) := by
  unfold readSocks5
  split
  · exact .refl
  · exact Effect.close.effects
  · exact .head (.socks5 ho (by simp [h5]) .SentFinalHandshake) (effects_writeSocks5 w)
  · exact .head (.socks5Ready ho) (effects_handshake w ho)

theorem effects_read (chunk : Chunk) (w : Write) (ho : s.Open h) :
    Effects P s (s.read chunk w) := by
  unfold read
  split
  · next h5 => exact effects_readSocks5 chunk.reply w ho h5
  · next h5 ht =>
    split
    · next htls => exact effects_readTls chunk w ho h5 htls ht
    · exact (Effect.received ho chunk.lines).effects
  · exact (Effect.received ho chunk.lines).effects

theorem effects_tick (ok : Bool) (w : Write) (hp : s.Retries → P s (.connect s.pool ok)) :
    Effects P s (s.tick ok w) := by
  unfold tick
  split
  · split
    · exact Effect.close.effects
    · split
      · exact .tail (effects_send w) (.keepAlive 0)
      · exact .refl
  · split
    · next hr => exact (Effect.connect (hp hr)).effects
    · split
      · exact Effect.close.effects
      · exact .refl

/-- A pool keeps its scheme when it is redirected. -/
theorem isTLS_redirect (pool : Pool) (host : List UInt8) (port : Int) :
    (pool.redirect host port).isTLS = pool.isTLS := by
  simp [Pool.redirect, Pool.ofHost, Url.ofHost, Pool.isTLS]

theorem parseExtensions_eq (keepAlive : Bool) : ∃ ms,
    s.startTimeout.parseExtensions keepAlive = { s with
      expire := 0
      keepAlive := ms
      extension := keepAlive } := by
  unfold parseExtensions
  cases keepAlive with
  | false => exact ⟨_, rfl⟩
  | true => exact ⟨_, rfl⟩

theorem pool_disconnect : s.disconnect.pool = s.pool := by
  obtain ⟨state, handles, heq, -⟩ := disconnect_cases (s := s)
  rw [heq]

theorem isTLS_redirected (host : List UInt8) (port : Int) :
    (redirected s.pool host port).isTLS = s.pool.isTLS := by
  unfold redirected
  split
  · exact isTLS_redirect s.pool host port
  · rfl

theorem redirect_eq (host : List UInt8) (port : Int) (ok : Bool) :
    s.redirect host port ok =
      { s.disconnect with pool := redirected s.pool host port }.connect ok := by
  unfold redirect redirected setPool
  split
  · rfl
  · rw [← pool_disconnect]

theorem effects_parse {line : Line} {todo : List Task} (ht : s.todo = .line line :: todo)
    (hp : ∀ host port ok, line = .redirect host port ok →
      P s (.connect (redirected s.pool host port) ok)) :
    Effects P s ({ s with todo }.parse line) := by
  let t : Connection := { s with todo }
  obtain ⟨ms, htimeout⟩ : ∃ ms, t.startTimeout = { t with expire := 0, keepAlive := ms } := ⟨_, rfl⟩
  have hline : line = .other ∨ (∃ keepAlive, line = .failed keepAlive) →
      Effect P s t.startTimeout := by
    intro hl
    rw [htimeout]
    exact .line ht hl ms s.extension
  cases line with
  | other => exact (hline (.inl rfl)).effects
  | failed keepAlive =>
      cases keepAlive with
      | none => exact .head (hline (.inr ⟨_, rfl⟩)) Effect.close.effects
      | some keepAlive =>
          obtain ⟨ms', heq⟩ := parseExtensions_eq (s := t) keepAlive
          have hfailed : Effect P s (t.startTimeout.parseExtensions keepAlive) := by
            rw [heq]
            exact .line ht (.inr ⟨_, rfl⟩) ms' keepAlive
          exact .head hfailed Effect.close.effects
  | job =>
      have hjob : t.parse .job =
          ({ s with todo, expire := 0, keepAlive := ms }.report .onJobReceived) := by
        rw [parse, htimeout]
      rw [hjob]
      exact (Effect.job ht ms).effects
  | login keepAlive job =>
      obtain ⟨ms', heq⟩ := parseExtensions_eq (s := t) keepAlive
      have hlogin : t.parse (.login keepAlive job) = ({ s with
          todo := if job then .job :: todo else todo
          expire := 0
          keepAlive := ms'
          extension := keepAlive
          failures := 0 }.report .onLoginSuccess) := by
        simp only [parse, heq]
        cases job <;> rfl
      rw [hlogin]
      exact (Effect.loginSuccess ht ms' keepAlive).effects
  | redirect host port ok =>
      have hredirect : t.parse (.redirect host port ok) =
          { { s with todo, expire := 0, keepAlive := ms }.disconnect with
            pool := redirected s.pool host port }.connect ok :=
        calc
          t.parse (.redirect host port ok) = t.startTimeout.redirect host port ok := rfl
          _ = { t.startTimeout.disconnect with pool := redirected s.pool host port }.connect ok :=
            redirect_eq host port ok
          _ = { { s with todo, expire := 0, keepAlive := ms }.disconnect with
              pool := redirected s.pool host port }.connect ok := by rw [htimeout]
      rw [hredirect]
      exact (Effect.redirect ht ms (hp host port ok rfl) (isTLS_redirected host port)).effects

/-- What an event does: a socket is created or deleted by the two callbacks for it, all
else are effects. -/
theorem step_cases {e : Event} (hp : Calls P s e) (hs : machine.step s e = some s') :
    Effects P s s' ∨
      (∃ records started, 0 < s.lookups ∧ s.todo = [] ∧ s' = s.onResolved records started) ∨
      ∃ h, e = .closed h ∧ (s.handles h).state = .closing ∧ s.todo = [] ∧ s' = s.onClose h := by
  obtain ⟨hready, hs⟩ := Option.ite_none_right_eq_some.mp hs
  cases e with
  | connect ok =>
      obtain rfl := Option.some.inj hs
      exact .inl (Effect.connect (hp _ rfl)).effects
  | disconnect =>
      obtain rfl := Option.some.inj hs
      exact .inl (Effect.disconnect (hp _ rfl)).effects
  | close =>
      obtain rfl := Option.some.inj hs
      exact .inl Effect.close.effects
  | setProxy proxy =>
      obtain rfl := Option.some.inj hs
      have hpool : Effect P s { s with pool := { s.pool with proxy } } := .pool rfl
      exact .inl hpool.effects
  | send w =>
      obtain rfl := Option.some.inj hs
      exact .inl (effects_send w)
  | elapse ms =>
      obtain rfl := Option.some.inj hs
      exact .inl (Effect.elapse ms).effects
  | tick ok w =>
      obtain rfl := Option.some.inj hs
      exact .inl (effects_tick ok w fun hr => hp _ (by simp [call, hr]))
  | resolved records started =>
      obtain rfl := Option.some.inj hs
      exact .inr (.inl ⟨records, started, hready.2, hready.1, rfl⟩)
  | connected h success w =>
      refine .inl (effects_onConnect ?_ hs)
      intro hsuccess
      exact hready.2.2.resolve_right fun hfail => by simp [hsuccess] at hfail
  | closed h =>
      obtain rfl := Option.some.inj hs
      exact .inr (.inr ⟨h, rfl, hready.2.1, hready.1, rfl⟩)
  | received h chunk w =>
      cases chunk with
      | none =>
          obtain rfl := Option.some.inj hs
          exact .inl Effect.close.effects
      | some chunk =>
          obtain rfl := Option.some.inj hs
          exact .inl (effects_read chunk w hready.2.1)
  | proceed =>
      simp only [after] at hs
      split at hs
      · contradiction
      · next task todo ht =>
        obtain rfl := Option.some.inj hs
        cases task with
        | job => exact .inl (Effect.loginJob ht).effects
        | line line =>
            refine .inl (effects_parse ht ?_)
            rintro host port ok rfl
            exact hp _ (by simp [call, ht])

/-! ## What always holds -/

/-- The socket is a handle that is open or closing, and where the state says that there
is one there is. -/
structure Wired (s : Connection) : Prop where
  socket : ∀ h, s.socket = some h → s.Live h
  closing : s.state = .ClosingState → ∃ h, s.socket = some h ∧ (s.handles h).state = .closing
  unconnected : s.state = .UnconnectedState → s.socket = none
  connected : s.state = .ConnectingState ∨ s.state = .ConnectedState → s.socket ≠ none
  todo : s.todo ≠ [] → ∃ h, s.Live h
  absent : ∀ h, s.next ≤ h → (s.handles h).state = .absent
  retryPause : 0 < s.retryPause

theorem wired_init (pool : Pool) {retryPause now : Nat} (h0 : 0 < retryPause) :
    (init pool retryPause now).Wired where
  socket := nofun
  closing := nofun
  unconnected := fun _ => rfl
  connected := by simp [init]
  todo := fun h => absurd rfl h
  absent := fun _ _ => rfl
  retryPause := h0

/-- A handle that is live was created. -/
theorem Wired.lt_next (hw : s.Wired) (h : Nat) (hl : s.Live h) : h < s.next := by
  by_contra hge
  have habsent := hw.absent h (Nat.le_of_not_lt hge)
  simp [Live, Handle.Live, habsent] at hl

/-- Handles that change without being opened, closed or deleted. -/
theorem Wired.handles (hw : s.Wired) {handles : Nat → Handle}
    (hstate : ∀ h, (handles h).state = (s.handles h).state) : { s with handles }.Wired := by
  have hlive : ∀ h, (handles h).Live ↔ s.Live h := by
    intro h
    simp only [Live, Handle.Live, hstate]
  exact
    { socket := fun h hs => (hlive h).mpr (hw.socket h hs)
      closing := fun hc => by simpa only [hstate] using hw.closing hc
      unconnected := hw.unconnected
      connected := hw.connected
      todo := fun ht => (hw.todo ht).imp fun h => (hlive h).mpr
      absent := fun h hn => (hstate h).trans (hw.absent h hn)
      retryPause := hw.retryPause }

theorem Wired.close (hw : s.Wired) : s.close.Wired := by
  rcases close_cases (s := s) with ⟨heq, -⟩ | ⟨k, hk, heq⟩
  · rw [heq]
    exact hw
  · have hlive : ∀ h, s.close.Live h ↔ s.Live h := fun h => live_close
    rw [heq] at hlive ⊢
    exact
      { socket := fun h hs => (hlive h).mpr (hw.socket h hs)
        closing := fun _ => ⟨k, hk, by simpa using (hw.socket k hk).close⟩
        unconnected := nofun
        connected := nofun
        todo := fun ht => (hw.todo ht).imp fun h => (hlive h).mpr
        absent := by
          intro h hn
          have hne : h ≠ k := by
            have := hw.lt_next k (hw.socket k hk)
            dsimp only at hn
            omega
          simpa [hne] using hw.absent h hn
        retryPause := hw.retryPause }

theorem Wired.disconnect (hw : s.Wired) : s.disconnect.Wired :=
  Wired.close (s := { s with keepAlive := 0, expire := 0, failures := -1, intent := .disconnect })
    { hw with }

theorem Wired.connect (hw : s.Wired) (ok : Bool) : (s.connect ok).Wired := by
  obtain ⟨expire, host, records, socks5, tls, -, heq⟩ := connect_eq (s := s) ok
  rw [heq]
  exact { hw with closing := nofun, unconnected := nofun, connected := nofun }

theorem Wired.connectTo (hw : s.Wired) (started : Bool) : (s.connectTo started).Wired := by
  obtain ⟨expire, heq⟩ := connectTo_eq (s := s) started
  have hnew : (s.connectTo started).Live s.next := by
    rw [heq]
    simp [Live, Handle.Live]
  rw [heq] at hnew ⊢
  exact
    { socket := by
        rintro h ⟨⟩
        exact hnew
      closing := nofun
      unconnected := nofun
      connected := nofun
      todo := fun _ => ⟨s.next, hnew⟩
      absent := by
        intro h hn
        dsimp only at hn ⊢
        rw [Function.update_of_ne (by omega)]
        exact hw.absent h (by omega)
      retryPause := hw.retryPause }

theorem Wired.reconnect (hw : s.Wired) : s.reconnect.Wired := by
  rcases reconnect_cases (s := s) with ⟨-, heq⟩ | ⟨-, expire, -, heq⟩
  · rw [heq]
    exact { hw with }
  · rw [heq]
    exact { hw with closing := nofun, unconnected := nofun, connected := nofun }

theorem Wired.onResolved (hw : s.Wired) (records : Option Bool) (started : Bool) :
    (s.onResolved records started).Wired := by
  obtain ⟨records', heq | heq⟩ := onResolved_cases (s := s) records started
  · have hlookup : ({ s with lookups := s.lookups - 1, records := records' } : Connection).Wired :=
      { hw with }
    rw [heq]
    exact hlookup.connectTo started
  · have hlookup : ({ s with lookups := s.lookups - 1, records := records' } : Connection).Wired :=
      { hw with }
    rw [heq]
    exact hlookup.reconnect

theorem Wired.onClose (hw : s.Wired) (ht : s.todo = []) (hl : s.Live h) : (s.onClose h).Wired := by
  obtain ⟨handles, hdeleted, heq⟩ := onClose_eq (s := s) h
  have hclosed : ({ s with
      handles
      socket := none
      state := .UnconnectedState
      tls := none } : Connection).Wired :=
    { socket := nofun
      closing := nofun
      unconnected := fun _ => rfl
      connected := nofun
      todo := fun hne => absurd ht hne
      absent := by
        intro k hk
        have hne : k ≠ h := (Nat.lt_of_lt_of_le (hw.lt_next h hl) hk).ne'
        have hne' : s.socket ≠ some k :=
          fun hs => Nat.lt_irrefl k (Nat.lt_of_lt_of_le (hw.lt_next k (hw.socket k hs)) hk)
        rcases hdeleted k with ⟨-, -, hsame⟩ | ⟨hself | hself, -⟩
        · exact (congrArg Handle.state hsame).trans (hw.absent k hk)
        · exact absurd hself hne
        · exact absurd hself hne'
      retryPause := hw.retryPause }
  rw [heq]
  exact hclosed.reconnect

theorem Wired.effect (hw : s.Wired) (he : Effect P s s') : s'.Wired := by
  cases he with
  | pool | elapse ms | keepAlive ms | sent hc | login hc h5 hs | socks5 ho h5 p | socks5Ready ho
  | tls ho ht howner => exact { hw with }
  | close => exact hw.close
  | disconnect hp => exact hw.disconnect
  | connect hp => exact hw.connect _
  | called h =>
      refine hw.handles ?_
      intro k
      by_cases hk : k = h
      · subst hk
        simp
      · simp [hk]
  | connected ho hk =>
      have hstart : ∀ k, { s with
          handles := Function.update s.handles k (s.handles k).readStart }.Wired := by
        intro k
        refine hw.handles ?_
        intro j
        by_cases hj : j = k
        · subst hj
          simp
        · simp [hj]
      exact { hstart _ with
        closing := nofun
        unconnected := nofun
        connected := fun _ => Option.ne_none_iff_exists'.mpr ⟨_, hk⟩ }
  | received ho lines =>
      exact { hw with todo := fun _ => ⟨_, .inl ho⟩ }
  | line ht =>
      exact { hw with todo := fun _ => hw.todo (by simp [ht]) }
  | job ht => exact { hw with todo := fun _ => hw.todo (by simp [ht]) }
  | loginJob ht => exact { hw with todo := fun _ => hw.todo (by simp [ht]) }
  | loginSuccess ht =>
      exact { hw with todo := fun _ => hw.todo (by simp [ht]) }
  | @redirect _ _ _ todo pool ht ms hp htls =>
      have htask : ({ s with todo, expire := 0, keepAlive := ms } : Connection).Wired :=
        { hw with todo := fun _ => hw.todo (by simp [ht]) }
      have hpool : ({ { s with todo, expire := 0, keepAlive := ms }.disconnect with
          pool } : Connection).Wired := { htask.disconnect with }
      exact hpool.connect _

/-- An update of a handle that does not end it. -/
theorem live_update {x : Handle} (hx : x.Live ↔ s.Live h) :
    ({ s with handles := Function.update s.handles h x } : Connection).Live k ↔ s.Live k := by
  by_cases hk : k = h
  · subst hk
    simpa [Live] using hx
  · simp [Live, hk]

/-- The socket is kept, and so are the handles that are open or closing. -/
structure Frame (s s' : Connection) : Prop where
  socket : s'.socket = s.socket
  next : s'.next = s.next
  live : ∀ h, s'.Live h ↔ s.Live h

theorem Frame.trans {t : Connection} (h : Frame s t) (h' : Frame t s') : Frame s s' :=
  ⟨h'.socket.trans h.socket, h'.next.trans h.next, fun k => (h'.live k).trans (h.live k)⟩

theorem frame_close : Frame s s.close := by
  refine ⟨?_, ?_, fun h => live_close⟩ <;>
    rcases close_cases (s := s) with ⟨heq, -⟩ | ⟨k, -, heq⟩ <;> rw [heq]

theorem frame_disconnect : Frame s s.disconnect := by
  let t : Connection :=
    { s with keepAlive := 0, expire := 0, failures := -1, intent := .disconnect }
  have hfields : Frame s t := ⟨rfl, rfl, fun _ => .rfl⟩
  exact hfields.trans frame_close

theorem frame_connect (ok : Bool) : Frame s (s.connect ok) := by
  obtain ⟨expire, host, records, socks5, tls, -, heq⟩ := connect_eq (s := s) ok
  rw [heq]
  exact ⟨rfl, rfl, fun _ => .rfl⟩

theorem frame_reconnect : Frame s s.reconnect := by
  obtain ⟨state, expire, failures, f, heq⟩ := reconnect_eq (s := s)
  rw [heq]
  exact ⟨rfl, rfl, fun _ => .rfl⟩

theorem Effect.frame (he : Effect P s s') : Frame s s' := by
  cases he with
  | pool | elapse | keepAlive | sent | login | socks5 | socks5Ready | tls | received | line | job
  | loginJob | loginSuccess => exact ⟨rfl, rfl, fun _ => .rfl⟩
  | close => exact frame_close
  | disconnect => exact frame_disconnect
  | connect => exact frame_connect _
  | called => exact ⟨rfl, rfl, fun h => live_update .rfl⟩
  | connected => exact ⟨rfl, rfl, fun h => live_update Handle.live_readStart⟩
  | @redirect _ _ _ todo pool ht ms hp htls =>
      have htask : Frame s { s with todo, expire := 0, keepAlive := ms } :=
        ⟨rfl, rfl, fun _ => .rfl⟩
      have hpool : Frame s { { s with todo, expire := 0, keepAlive := ms }.disconnect with pool } :=
        (htask.trans frame_disconnect).trans ⟨rfl, rfl, fun _ => .rfl⟩
      exact hpool.trans (frame_connect _)

theorem Effects.frame (he : Effects P s s') : Frame s s' := by
  induction he with
  | refl => exact ⟨rfl, rfl, fun _ => .rfl⟩
  | tail _ he ih => exact ih.trans he.frame

/-- The invariant rule, one effect at a time. -/
theorem invariant {Inv : Connection → Prop} (h : machine.ReachableIf (Calls P) s)
    (hinit : ∀ pool retryPause now, 0 < retryPause → Inv (init pool retryPause now))
    (heffect : ∀ s s', s.Wired → Inv s → Effect P s s' → Inv s')
    (hresolved : ∀ s records started, s.Wired → Inv s → 0 < s.lookups →
      Inv (s.onResolved records started))
    (hclosed : ∀ s h, s.Wired → Inv s → (s.handles h).state = .closing → Inv (s.onClose h)) :
    s.Wired ∧ Inv s := by
  induction h with
  | init h0 =>
      obtain ⟨pool, retryPause, now, h0, rfl⟩ := h0
      exact ⟨wired_init pool h0, hinit pool retryPause now h0⟩
  | step _ hp hs ih =>
      obtain ⟨hw, hinv⟩ := ih
      rcases step_cases hp hs with he | ⟨records, started, hl, -, rfl⟩ | ⟨k, -, hc, ht, rfl⟩
      · clear hp hs
        induction he with
        | refl => exact ⟨hw, hinv⟩
        | tail _ he ih => exact ⟨ih.1.effect he, heffect _ _ ih.1 ih.2 he⟩
      · exact ⟨hw.onResolved records started, hresolved _ records started hw hinv hl⟩
      · exact ⟨hw.onClose ht (.inr hc), hclosed _ k hw hinv hc⟩

end Connection

end Client

end XLArig
