import XLArig.Machine
import XLArig.Pool

/-!
# XLArig.Client.Connection

The socket state machine of a `Client`.

A connection is made in stages: the host is looked up, a socket is connected, a
SOCKS5 proxy and a TLS layer are passed where the pool has them, and the login is
sent.  Each stage ends in a callback of the event loop, and closing a socket ends in
one as well, so a callback may find that the client has moved on since it was asked
for.  The callbacks may come in any order the event loop allows.

The lines of one read are handled one after the other; `todo` holds those that are
left, and no callback runs before it is empty.  The listener may call `connect` and
`disconnect` in between.

Handles are numbered as they are created.  `intent` is which of `connect` and
`disconnect` was called last, and `log` keeps what the client did under which intent.
-/

namespace XLArig

namespace Client

/-- `BaseClient::SocketState`. -/
inductive SocketState
  | UnconnectedState
  | HostLookupState
  | ConnectingState
  | ConnectedState
  | ClosingState
  | ReconnectingState
  deriving DecidableEq, Repr

/-- The states of a `Socks5`; one that is ready is deleted at once. -/
inductive Socks5
  | Created
  | SentInitialHandshake
  | SentFinalHandshake
  deriving DecidableEq, Repr

/-- A `Tls`: whether `m_ssl` was created and its handshake is finished, `m_ready`, and
the number of the handle it belongs to. -/
structure Tls where
  started : Bool
  finished : Bool
  ready : Bool
  owner : Nat
  deriving DecidableEq, Repr

/-- What has become of a `uv_tcp_t`: not created, open, closing, closed and deleted,
or deleted before it was closed. -/
inductive HandleState
  | absent
  | opened
  | closing
  | closed
  | freed
  deriving DecidableEq, Repr

/-- A handle: whether a connect request or a read is pending on it, and how often
`uv_close` was called for it. -/
structure Handle where
  state : HandleState
  connecting : Bool
  reading : Bool
  closes : Nat
  deriving DecidableEq, Repr

namespace Handle

/-- Open or closing. -/
def Live (x : Handle) : Prop := x.state = .opened ∨ x.state = .closing

instance (x : Handle) : Decidable x.Live := inferInstanceAs (Decidable (_ ∨ _))

/-- `uv_close`, unless the handle is closing already. -/
def close (x : Handle) : Handle :=
  if x.state = .opened then { x with state := .closing, closes := x.closes + 1 } else x

/-- `uv_read_start`. -/
def readStart (x : Handle) : Handle := if x.state = .opened then { x with reading := true } else x

end Handle

/-- The call made last. -/
inductive Intent
  | none
  | connect
  | disconnect
  deriving DecidableEq, Repr

/-- What the client did: it got connected; it sent the login, with whether
`m_pool.isTLS()` held and whether it went through a `Tls` that had finished and was
verified; or it called its listener. -/
inductive Entry
  | connected
  | login (tls secure : Bool)
  | onLoginSuccess
  | onJobReceived
  | onClose (failures : Int)
  deriving DecidableEq, Repr

/-- What a line asks for: nothing; that the connection is closed, after a list of
extensions was read or not; a new job; a login, with whether `keepalive` is among the
extensions and whether its job is valid; or a redirect, with whether its host can be
looked up. -/
inductive Line
  | other
  | failed (keepAlive : Option Bool)
  | job
  | login (keepAlive job : Bool)
  | redirect (host : List UInt8) (port : Int) (ok : Bool)
  deriving DecidableEq, Repr

/-- What is left of a read: a line, or the job of a login. -/
inductive Task
  | line (line : Line)
  | job
  deriving DecidableEq, Repr

/-- What becomes of a write: the socket is not writable, the write fails, or it does
not. -/
inductive Write
  | refused
  | failed
  | accepted
  deriving DecidableEq, Repr

/-- What the bytes of a read are to a `Socks5`. -/
inductive Reply
  | short
  | denied
  | granted
  deriving DecidableEq, Repr

/-- What they are to a `Tls` that has not finished: more is needed, the handshake
fails, or it finishes and the certificate passes or not. -/
inductive Session
  | wantRead
  | failed
  | finished (verified : Bool)
  deriving DecidableEq, Repr

/-- The bytes of a read, for each of the layers that may read them. -/
structure Chunk where
  reply : Reply
  session : Session
  lines : List Line
  deriving DecidableEq, Repr

/-- The part of a `Client` that connects.  `host` and `records` are `m_host` of its
`Dns` and whether any records are kept for it; `lookups` counts the requests that are
pending. -/
structure Connection where
  pool : Pool
  retryPause : Nat
  now : Nat
  state : SocketState
  failures : Int
  expire : Nat
  keepAlive : Nat
  extension : Bool
  host : CString
  records : Bool
  lookups : Nat
  socks5 : Option Socks5
  tls : Option Tls
  socket : Option Nat
  handles : Nat → Handle
  next : Nat
  todo : List Task
  intent : Intent
  log : List (Intent × Entry)

namespace Connection

def kConnectTimeout : Nat := 20 * 1000

def kResponseTimeout : Nat := 20 * 1000

/-- `Pool::kKeepAliveTimeout`. -/
def kKeepAliveTimeout : Int := 60

/-! ## Timers and states -/

def report (s : Connection) (e : Entry) : Connection := { s with log := (s.intent, e) :: s.log }

def setState (s : Connection) (state : SocketState) : Connection :=
  if s.state = state then s
  else
    match state with
    | .HostLookupState => { s with state, expire := 0 }
    | .ConnectingState => { s with state, expire := s.now + kConnectTimeout }
    | .ReconnectingState => { s with state, expire := s.now + s.retryPause }
    | _ => { s with state }

/-- `has<EXT_KEEPALIVE>`. -/
def hasKeepAlive (s : Connection) : Bool := s.extension || s.pool.keepAlive > 0

def startTimeout (s : Connection) : Connection :=
  let ms := (if s.pool.keepAlive > 0 then s.pool.keepAlive else kKeepAliveTimeout).toNat * 1000
  { s with expire := 0, keepAlive := if s.hasKeepAlive then s.now + ms else s.keepAlive }

/-- `Client::isTLS`. -/
def isTLS (s : Connection) : Bool := s.pool.isTLS && s.tls.isSome

def close (s : Connection) : Connection :=
  if s.state = .ClosingState ∨ s.state = .UnconnectedState then s
  else
    match s.socket with
    | none => s
    | some h =>
        { s.setState .ClosingState with handles := Function.update s.handles h (s.handles h).close }

def disconnect (s : Connection) : Connection :=
  { s with keepAlive := 0, expire := 0, failures := -1, intent := .disconnect }.close

def reconnect (s : Connection) : Connection :=
  let s := { s with keepAlive := 0 }
  if s.failures = -1 then s.report (.onClose (-1))
  else
    let s := s.setState .ReconnectingState
    { s with failures := s.failures + 1 }.report (.onClose (s.failures + 1))

/-! ## Connecting -/

/-- `Client::resolve`; `ok` is whether `uv_getaddrinfo` takes the request. -/
def resolve (s : Connection) (host : CString) (ok : Bool) : Connection :=
  let s := s.setState .HostLookupState
  { s with
    failures := if s.failures = -1 then 0 else s.failures
    host
    records := s.records && s.host = host
    lookups := if ok then s.lookups + 1 else s.lookups }

/-- A new `Tls` belongs to the current socket, or to the one created next. -/
def newTls (s : Connection) : Tls := ⟨false, false, false, s.socket.getD s.next⟩

def connect (s : Connection) (ok : Bool) : Connection :=
  let s := { s with intent := .connect }
  if s.pool.proxy.isValid then { s with socks5 := some .Created }.resolve s.pool.proxy.host ok
  else if s.pool.isTLS then
    { s with tls := some ⟨false, false, false, s.next⟩ }.resolve s.pool.url.host ok
  else s.resolve s.pool.url.host ok

/-- `BaseClient::setPool`. -/
def setPool (s : Connection) (pool : Pool) : Connection :=
  if pool.isValid then { s with pool } else s

/-- The redirect branch of `Client::parseResponse`. -/
def redirect (s : Connection) (host : List UInt8) (port : Int) (ok : Bool) : Connection :=
  (s.disconnect.setPool (s.pool.redirect host port)).connect ok

/-- `Client::connect(sockaddr)`; `started` is whether `uv_tcp_connect` takes the
request. -/
def connectTo (s : Connection) (started : Bool) : Connection :=
  let s := s.setState .ConnectingState
  { s with
    socket := some s.next
    handles := Function.update s.handles s.next ⟨.opened, started, false, 0⟩
    next := s.next + 1 }

/-- `Dns::onResolved` and `Client::onResolved`; `records` is whether there are any, for
a request that did not fail. -/
def onResolved (s : Connection) (records : Option Bool) (started : Bool) : Connection :=
  let s := { s with lookups := s.lookups - 1, records := records.getD s.records }
  if s.records then s.connectTo started else s.reconnect

/-! ## Sending -/

/-- `Client::send(BIO)`, or the write of `Client::send(size_t)`; whether it was done. -/
def write (s : Connection) (w : Write) : Connection × Bool :=
  if s.state ≠ .ConnectedState then (s, false)
  else
    match w with
    | .refused => (s, false)
    | .failed => (s.close, false)
    | .accepted => (s, true)

/-- `Client::send`. -/
def send (s : Connection) (w : Write) : Connection :=
  match s.write w with
  | (s, true) => { s with expire := s.now + kResponseTimeout }
  | (s, false) => s

/-- Whether what is sent is encrypted for a peer whose certificate was checked. -/
def secure (s : Connection) : Bool := s.pool.isTLS && s.tls.any fun t => t.finished && t.ready

def login (s : Connection) (w : Write) : Connection :=
  match s.write w with
  | (s, true) => { s with expire := s.now + kResponseTimeout }.report (.login s.pool.isTLS s.secure)
  | (s, false) => s

/-- `Client::write` for a `Socks5`, which does not look at the state. -/
def writeSocks5 (s : Connection) : Write → Connection
  | .accepted => s
  | .refused | .failed => s.close

def handshake (s : Connection) (w : Write) : Connection :=
  match s.socks5, s.tls with
  | some _, _ => { s with socks5 := some .SentInitialHandshake }.writeSocks5 w
  | none, some t =>
      if s.pool.isTLS then
        ({ s with
          expire := s.now + kResponseTimeout
          tls := some { t with started := true, finished := false } }.write w).1
      else s.login w
  | none, none => s.login w

/-! ## Callbacks -/

/-- `Client::onConnect`; without a socket the null stream is used. -/
def onConnect (s : Connection) (h : Nat) (success : Bool) (w : Write) : Option Connection :=
  let s := { s with handles := Function.update s.handles h { s.handles h with connecting := false } }
  if !success then some (if s.state = .ConnectingState then s.close else s)
  else if s.state = .ConnectedState then some s
  else
    match s.socket with
    | none => none
    | some k =>
        let s := (s.setState .ConnectedState).report .connected
        some ({ s with
          handles := Function.update s.handles k (s.handles k).readStart }.handshake w)

/-- `delete m_socket`, in the close callback of a handle. -/
def deleteSocket (s : Connection) (h : Nat) : Connection :=
  let handles := Function.update s.handles h { s.handles h with state := .closed }
  match s.socket with
  | none => { s with handles }
  | some k =>
      { s with
        handles :=
          if k = h then handles else Function.update handles k { s.handles k with state := .freed }
        socket := none }

/-- `Client::onClose`, called for a handle. -/
def onClose (s : Connection) (h : Nat) : Connection :=
  { (s.deleteSocket h).setState .UnconnectedState with tls := none }.reconnect

def readSocks5 (s : Connection) (p : Socks5) (reply : Reply) (w : Write) : Connection :=
  match reply, p with
  | .short, _ => s
  | .denied, _ => s.close
  | .granted, .SentInitialHandshake =>
      { s with socks5 := some .SentFinalHandshake }.writeSocks5 w
  | .granted, _ =>
      { s with
        socks5 := none
        tls := if s.pool.isTLS && s.tls.isNone then some s.newTls else s.tls }.handshake w

def readLines (s : Connection) (lines : List Line) : Connection :=
  { s with todo := lines.map .line }

/-- `Tls::read`; OpenSSL does not get anywhere without an `m_ssl`. -/
def readTls (s : Connection) (t : Tls) (chunk : Chunk) (w : Write) : Connection :=
  if t.finished then s.readLines chunk.lines
  else if !t.started then s
  else
    match chunk.session with
    | .wantRead => (s.write w).1
    | .failed => s
    | .finished verified =>
        if verified then { s with tls := some { t with finished := true, ready := true } }.login w
        else { s with tls := some { t with finished := true } }.close

/-- `Client::read` without an error. -/
def read (s : Connection) (chunk : Chunk) (w : Write) : Connection :=
  match s.socks5, s.tls with
  | some p, _ => s.readSocks5 p chunk.reply w
  | none, some t => if s.pool.isTLS then s.readTls t chunk w else s.readLines chunk.lines
  | none, none => s.readLines chunk.lines

/-- `Client::tick` connects again. -/
def Retries (s : Connection) : Prop :=
  s.state = .ReconnectingState ∧ s.expire ≠ 0 ∧ s.expire < s.now

instance (s : Connection) : Decidable s.Retries := inferInstanceAs (Decidable (_ ∧ _))

/-- `Client::tick`; a keepalive is written like any request. -/
def tick (s : Connection) (ok : Bool) (w : Write) : Connection :=
  if s.state = .ConnectedState then
    if s.expire ≠ 0 ∧ s.expire < s.now then s.close
    else if s.keepAlive ≠ 0 ∧ s.keepAlive < s.now then { s.send w with keepAlive := 0 }
    else s
  else if s.Retries then s.connect ok
  else if s.state = .ConnectingState ∧ s.expire ≠ 0 ∧ s.expire < s.now then s.close
  else s

/-! ## Lines -/

/-- `Client::parseExtensions`. -/
def parseExtensions (s : Connection) (keepAlive : Bool) : Connection :=
  let s := { s with extension := keepAlive }
  if keepAlive then s.startTimeout else s

/-- `Client::parse`. -/
def parse (s : Connection) (line : Line) : Connection :=
  let s := s.startTimeout
  match line with
  | .other => s
  | .failed none => s.close
  | .failed (some keepAlive) => (s.parseExtensions keepAlive).close
  | .job => s.report .onJobReceived
  | .login keepAlive job =>
      let s := { s.parseExtensions keepAlive with failures := 0 }.report .onLoginSuccess
      if job then { s with todo := .job :: s.todo } else s
  | .redirect host port ok => s.redirect host port ok

/-- The next task of a read. -/
def proceed (s : Connection) : Task → Connection
  | .line line => s.parse line
  | .job => s.report .onJobReceived

end Connection

/-! ## The machine -/

/-- Calls of the client: `close` is the one of a request that is too long or has no
difficulty, `send` is any request but the login and the keepalive.  Time passes, the
callbacks of the event loop run, and the tasks of a read are taken in turn; `received`
without a chunk is a read error. -/
inductive Connection.Event
  | connect (ok : Bool)
  | disconnect
  | close
  | setProxy (proxy : ProxyUrl)
  | send (w : Write)
  | elapse (ms : Nat)
  | tick (ok : Bool) (w : Write)
  | resolved (records : Option Bool) (started : Bool)
  | connected (h : Nat) (success : Bool) (w : Write)
  | closed (h : Nat)
  | received (h : Nat) (chunk : Option Chunk) (w : Write)
  | proceed

namespace Connection

/-- A callback can run: nothing is left of the last read, and what it is for is
pending.  A close callback comes after the connect callback of its handle. -/
def Ready (s : Connection) : Event → Prop
  | .tick _ _ => s.todo = []
  | .resolved _ _ => s.todo = [] ∧ 0 < s.lookups
  | .connected h success _ => s.todo = [] ∧ (s.handles h).connecting = true ∧
      ((s.handles h).state = .opened ∨ success = false ∧ (s.handles h).state = .closing)
  | .closed h => s.todo = [] ∧ (s.handles h).state = .closing ∧ (s.handles h).connecting = false
  | .received h _ _ => s.todo = [] ∧ (s.handles h).state = .opened ∧ (s.handles h).reading = true
  | _ => True

instance (s : Connection) : (e : Event) → Decidable (s.Ready e)
  | .tick _ _ => inferInstanceAs (Decidable (_ = _))
  | .resolved _ _ | .connected _ _ _ | .closed _ | .received _ _ _ =>
      inferInstanceAs (Decidable (_ ∧ _))
  | .connect _ | .disconnect | .close | .setProxy _ | .send _ | .elapse _ | .proceed =>
      inferInstanceAs (Decidable True)

/-- What an event does. -/
def after (s : Connection) : Event → Option Connection
  | .connect ok => some (s.connect ok)
  | .disconnect => some s.disconnect
  | .close => some s.close
  | .setProxy proxy => some { s with pool := { s.pool with proxy } }
  | .send w => some (s.send w)
  | .elapse ms => some { s with now := s.now + ms }
  | .tick ok w => some (s.tick ok w)
  | .resolved records started => some (s.onResolved records started)
  | .connected h success w => s.onConnect h success w
  | .closed h => some (s.onClose h)
  | .received _ none _ => some s.close
  | .received _ (some chunk) w => some (s.read chunk w)
  | .proceed =>
      match s.todo with
      | [] => none
      | task :: todo => some ({ s with todo }.proceed task)

/-- A new client with a pool; `Pools::setRetryPause` takes no pause of zero. -/
def init (pool : Pool) (retryPause now : Nat) : Connection where
  pool := pool
  retryPause := retryPause
  now := now
  state := .UnconnectedState
  failures := 0
  expire := 0
  keepAlive := 0
  extension := false
  host := none
  records := false
  lookups := 0
  socks5 := none
  tls := none
  socket := none
  handles := fun _ => ⟨.absent, false, false, 0⟩
  next := 0
  todo := []
  intent := .none
  log := []

def machine : Machine Connection Event where
  init s := ∃ pool retryPause now, 0 < retryPause ∧ s = init pool retryPause now
  step s e := if s.Ready e then s.after e else none

/-- A new client for a pool that is only an address. -/
def sample (tls : Bool) : Connection :=
  init (.ofHost (bytes "a") 3333 none none 0 false tls .POOL) 5000 0

theorem init_sample (tls : Bool) : machine.init (sample tls) := ⟨_, _, _, by decide, rfl⟩

end Connection

end Client

end XLArig
