import XLArig.Client.Connection
import XLArig.Client.Requests
import XLArig.Job.Read

/-!
# XLArig.DaemonClient

`DaemonClient`: a pool that is a daemon, asked over HTTP.

Every request is answered on its own, in any order, also after the client was
disconnected; `requests` are those in flight.  The listener may call `disconnect` when it
hears of a login or of a close.

The client writes into the strings of the last template.  What it reads and writes there is
kept in `accesses`: a reply may make it reach outside of them, and then nothing is known of
what follows.
-/

namespace XLArig

open Client (SocketState Intent toHex)
open Client.Requests (nonceBytes)

namespace DaemonClient

/-- `m_apiVersion`. -/
inductive ApiVersion
  | CRYPTONOTE_DEFAULT
  | MONERO
  | DERO
  deriving DecidableEq, Repr

/-- `kGetHeight` and `kGetInfo`. -/
inductive Path
  | getHeight
  | getInfo
  deriving DecidableEq, Repr

/-- A request in flight: a GET, or a POST with the id of its document. -/
inductive Request
  | get (path : Path)
  | post (id : Int)
  deriving DecidableEq, Repr

/-- What a request is answered with: the status, and what `Parse` makes of the body. -/
structure HttpData where
  status : Int
  document : Option Json

/-- The timer waits for a retry, or it polls. -/
inductive Timer
  | retry
  | poll
  deriving DecidableEq, Repr

/-- What the client did: it called its listener, or it started its timer. -/
inductive Entry
  | onJobReceived (job : Job)
  | onLoginSuccess
  | onClose (failures : Int)
  | onResultAccepted (id : Int)
  | start (timer : Timer)

/-- The bytes from `start` up to `stop` of a string of `size` bytes are used. -/
structure Access where
  size : Nat
  start : Int
  stop : Int
  deriving DecidableEq, Repr

def Access.Inside (a : Access) : Prop := 0 ≤ a.start ∧ a.stop ≤ a.size

instance (a : Access) : Decidable a.Inside := inferInstanceAs (Decidable (_ ∧ _))

/-- `kBlobReserveSize`. -/
def kBlobReserveSize : Nat := 8

end DaemonClient

open DaemonClient in
/-- `DaemonClient`; `results` are the ids under which a submit is kept. -/
structure DaemonClient where
  pool : Pool
  state : SocketState
  failures : Int
  apiVersion : ApiVersion
  job : Job
  blocktemplate : CString
  blockhashingblob : CString
  prevHash : CString
  requestHeight : UInt64
  requestHash : CString
  results : Int → Bool
  sequence : Int
  timer : Option Timer
  requests : List Request
  intent : Intent
  log : List (Intent × Entry)
  accesses : List Access

namespace DaemonClient

def report (s : DaemonClient) (e : Entry) : DaemonClient := { s with log := (s.intent, e) :: s.log }

def use (s : DaemonClient) (a : Access) : DaemonClient := { s with accesses := a :: s.accesses }

def start (s : DaemonClient) (timer : Timer) : DaemonClient :=
  { s with timer := some timer }.report (.start timer)

@[simp] theorem accesses_report (s : DaemonClient) (e : Entry) :
    (s.report e).accesses = s.accesses := rfl

@[simp] theorem accesses_start (s : DaemonClient) (timer : Timer) :
    (s.start timer).accesses = s.accesses := rfl

/-! ## Requests -/

/-- `rpcSend`. -/
def rpcSend (s : DaemonClient) : DaemonClient :=
  { s with
    requests := .post s.sequence :: s.requests
    sequence := s.sequence + 1 }

/-- `getBlockTemplate`. -/
def getBlockTemplate (s : DaemonClient) : DaemonClient := s.rpcSend

def send (s : DaemonClient) (path : Path) : DaemonClient :=
  { s with requests := .get path :: s.requests }

@[simp] theorem accesses_rpcSend (s : DaemonClient) : s.rpcSend.accesses = s.accesses := rfl

@[simp] theorem accesses_getBlockTemplate (s : DaemonClient) :
    s.getBlockTemplate.accesses = s.accesses := rfl

@[simp] theorem accesses_send (s : DaemonClient) (path : Path) :
    (s.send path).accesses = s.accesses := rfl

/-! ## States -/

/-- `disconnect` and what `setState` does for it. -/
def disconnect (s : DaemonClient) : DaemonClient :=
  let s := { s with intent := .disconnect }
  if s.state = .UnconnectedState then s
  else
    { s with
      state := .UnconnectedState
      failures := -1
      timer := none }

/-- `setState(ConnectedState)`; `leaves` is whether the listener disconnects the client
when it hears of the login. -/
def setConnected (s : DaemonClient) (leaves : Bool) : DaemonClient :=
  let s := { s with
    state := .ConnectedState
    failures := 0 }.report .onLoginSuccess
  let s := if leaves then s.disconnect else s
  s.start .poll

def connect (s : DaemonClient) : DaemonClient :=
  let s := { s with intent := .connect }
  let s := if s.pool.algorithm = .ASTROBWT_DERO ∨ s.pool.coin = .DERO then
      { s with apiVersion := .DERO }
    else s
  { s with state := .ConnectingState }.getBlockTemplate

/-- `retry`; `leaves` is whether the listener disconnects the client when it hears of the
close. -/
def retry (s : DaemonClient) (leaves : Bool) : DaemonClient :=
  let s := { s with failures := s.failures + 1 }
  let s := s.report (.onClose s.failures)
  let s := if leaves then s.disconnect else s
  if s.failures = -1 then s
  else
    let s := if s.state = .ConnectedState then { s with state := .ConnectingState } else s
    s.start .retry

theorem disconnect_eq (s : DaemonClient) : s.disconnect =
    { s with
      state := .UnconnectedState
      failures := if s.state = .UnconnectedState then s.failures else -1
      timer := if s.state = .UnconnectedState then s.timer else none
      intent := .disconnect } := by
  unfold disconnect
  dsimp only
  split
  · next h => rw [← h]
  · rfl

@[simp] theorem accesses_disconnect (s : DaemonClient) : s.disconnect.accesses = s.accesses := by
  rw [disconnect_eq]

@[simp] theorem accesses_setConnected (s : DaemonClient) (leaves : Bool) :
    (s.setConnected leaves).accesses = s.accesses := by
  cases leaves <;> simp [setConnected]

@[simp] theorem accesses_connect (s : DaemonClient) : s.connect.accesses = s.accesses := by
  simp only [connect, accesses_getBlockTemplate]
  split <;> rfl

@[simp] theorem accesses_retry (s : DaemonClient) (leaves : Bool) :
    (s.retry leaves).accesses = s.accesses := by
  simp only [retry]
  split_ifs <;> simp

/-! ## Templates -/

/-- `text` is put over the bytes from `start`, if they are there. -/
def overwrite (s : CString) (start : Nat) (text : List UInt8) : CString :=
  s.map fun data =>
    if start + text.length ≤ data.length then
      data.take start ++ text ++ data.drop (start + text.length)
    else data

/-- `reserved_offset * 2`, in 64 bits. -/
def reserved (params : Json) : Nat := (params.getUint64 (bytes "reserved_offset") * 2).toNat

/-- The hashing blob of a template; with DERO `random` goes into the reserved bytes. -/
def hashingBlob (s : DaemonClient) (params : Json) (random : Memory) : CString :=
  let blob := params.getString (bytes "blockhashing_blob")
  if s.apiVersion = .DERO then
    overwrite blob (reserved params) (toHex (random.slice 0 kBlobReserveSize))
  else blob

/-- The last 32 characters of a template. -/
def templateId (template : CString) : CString := template.map fun t => t.drop (t.length - 32)

/-- From 32 characters before the end. -/
def idAccess (template : CString) : Access := ⟨template.size, template.size - 32, template.size⟩

/-- The access to the reserved bytes. -/
def reservedAccess (params : Json) : Access :=
  let offset := reserved params
  ⟨(params.getString (bytes "blockhashing_blob")).size, offset, offset + kBlobReserveSize * 2⟩

/-- The hash of the block before; with DERO it is cut to 32 bytes, as a newer one is told. -/
def readPrevHash (s : DaemonClient) (params : Json) : CString :=
  let prevHash := params.getString (bytes "prev_hash")
  if s.apiVersion = .DERO then prevHash.map fun hash => hash.take 64 else prevHash

/-- `setDiff`. -/
def setDiff (job : Job) (diff : UInt64) : Job :=
  { job with
    diff
    target := Job.toDiff diff }

/-- The job that a template is read into. -/
def newJob (s : DaemonClient) : Job := { Job.empty with algorithm := s.pool.algorithm }

section

variable [Features]

/-- The job of a template whose blob was taken; a seed that is not taken is left out. -/
def fillJob (s : DaemonClient) (params : Json) (template : CString) (job : Job) : Job :=
  let job := (job.setSeedHash (params.getString (bytes "seed_hash"))).getD job
  let job := { job with height := params.getUint64 (bytes "height") }
  let job := setDiff job (params.getUint64 (bytes "difficulty"))
  let job := { job with id := templateId template }
  if s.pool.coin.isValid then { job with algorithm := s.pool.coin.algorithm (job.blob 0) } else job

/-- The template becomes the current one, and its job that of the client. -/
def takeTemplate (s : DaemonClient) (params : Json) (template : CString) (job : Job)
    (leaves : Bool) : DaemonClient :=
  let s := s.use (idAccess template)
  let s := { s with
    job := s.fillJob params template job
    blocktemplate := template
    prevHash := s.readPrevHash params }
  let s := if s.state = .ConnectingState then s.setConnected leaves else s
  s.report (.onJobReceived s.job)

/-- `parseJob`, and whether the job is taken. -/
def parseJob (s : DaemonClient) (params : Json) (random : Memory) (leaves : Bool) :
    DaemonClient × Bool :=
  let template := params.getString (bytes "blocktemplate_blob")
  let blob := s.hashingBlob params random
  let s := { s with blockhashingblob := blob }
  let s := if s.apiVersion = .DERO then s.use (reservedAccess params) else s
  if template.isNone then (s, false)
  else
    match s.newJob.setBlob blob with
    | none => (s, false)
    | some job => (s.takeTemplate params template job leaves, true)

/-! ## Replies -/

/-- The template that a reply tells of is asked for, unless it was already. -/
def getNewer (s : DaemonClient) (height : UInt64) (hash : CString) : DaemonClient :=
  if (s.job.height ≠ height ∨ s.prevHash ≠ hash) ∧
      (height ≠ s.requestHeight ∨ hash ≠ s.requestHash) then
    { s with
      requestHeight := height
      requestHash := hash }.getBlockTemplate
  else s

/-- `handleSubmitResponse`. -/
def handleSubmitResponse (s : DaemonClient) (id : Int) : DaemonClient × Bool :=
  if s.results id then
    ({ s with results := Function.update s.results id false }.report (.onResultAccepted id), true)
  else (s, false)

/-- The answer to a GET; the members of the first one are looked up without a check. -/
def onGet (s : DaemonClient) (path : Path) (doc : Json) : Except Crash DaemonClient :=
  match path with
  | .getHeight =>
      if !doc.isObject then .error .notObject
      else if !doc.hasMember (bytes "hash") then
        .ok ({ s with apiVersion := .CRYPTONOTE_DEFAULT }.send .getInfo)
      else .ok (s.getNewer (doc.getUint64 (bytes "height")) (doc.getString (bytes "hash")))
  | .getInfo =>
      .ok (s.getNewer (doc.getUint64 (bytes "height")) (doc.getString (bytes "top_block_hash")))

/-- `parseResponse`, and what it returns. -/
def parseResponse (s : DaemonClient) (id : Int) (result error : Json) (random : Memory)
    (leaves : Bool) : Except Crash (DaemonClient × Bool) :=
  if id = -1 then .ok (s, false)
  else if error.isObject then do
    let _ ← (error.member (bytes "message")).bind Json.asString
    return ((s.handleSubmitResponse id).1, false)
  else if !result.isObject then .ok (s, false)
  else if result.hasMember (bytes "top_block_hash") then
    .ok (if s.prevHash ≠ result.getString (bytes "top_block_hash") then s.getBlockTemplate else s, true)
  else
    let (s, taken) :=
      if result.hasMember (bytes "blocktemplate_blob") then s.parseJob result random leaves
      else (s, false)
    if taken then .ok (s, true)
    else
      match s.handleSubmitResponse id with
      | (s, true) => .ok (s.getBlockTemplate, true)
      | (s, false) => .ok (s, false)

/-- `onHttpData`, for the request that is answered. -/
def onHttpData (s : DaemonClient) (request : Request) (data : HttpData) (random : Memory)
    (leaves : Bool) : Except Crash DaemonClient :=
  if data.status ≠ 200 then .ok (s.retry leaves)
  else
    match data.document, request with
    | none, _ => .ok (s.retry leaves)
    | some doc, .get path => s.onGet path doc
    | some doc, .post _ => do
        let id := ((doc.getValue (bytes "id")).int64?).getD (-1)
        let (s, done) ← s.parseResponse id (doc.getObject (bytes "result"))
          (doc.getObject (bytes "error")) random leaves
        return if done then s else s.retry leaves

end

/-! ## Submits and the timer -/

/-- The string that the nonce is written into. -/
def mined (s : DaemonClient) : CString :=
  if s.apiVersion = .DERO then s.blockhashingblob else s.blocktemplate

/-- Where the nonce is in that string. -/
def kNonceOffset : Nat := 78

def nonceAccess (s : DaemonClient) : Access :=
  ⟨s.mined.size, kNonceOffset, kNonceOffset + 8⟩

/-- `submit`. -/
def submit (s : DaemonClient) (result : JobResult) : DaemonClient :=
  let s := s.use (idAccess s.blocktemplate)
  if s.blocktemplate.isNone ∨ result.jobId ≠ templateId s.blocktemplate then s
  else
    let s := s.use s.nonceAccess
    let data := overwrite s.mined kNonceOffset (toHex (nonceBytes result))
    let s := if s.apiVersion = .DERO then { s with blockhashingblob := data }
      else { s with blocktemplate := data }
    { s with results := Function.update s.results s.sequence true }.rpcSend

/-- `onTimer`; the timer of a retry runs once. -/
def onTimer (s : DaemonClient) : DaemonClient :=
  let s := if s.timer = some .retry then { s with timer := none } else s
  match s.state with
  | .ConnectingState => s.getBlockTemplate
  | .ConnectedState =>
      match s.apiVersion with
      | .DERO => s.rpcSend
      | .MONERO => s.send .getHeight
      | .CRYPTONOTE_DEFAULT => s.send .getInfo
  | _ => s

@[simp] theorem accesses_onTimer (s : DaemonClient) : s.onTimer.accesses = s.accesses := by
  simp only [onTimer]
  split <;> split <;> (try split) <;> simp

/-! ## The machine -/

/-- Calls of the client, the replies to its requests in any order, and its timer; the
other clients take numbers of the same sequence. -/
inductive Event
  | connect
  | disconnect
  | submit (result : JobResult)
  | reply (request : Request) (data : HttpData) (random : Memory) (leaves : Bool)
  | timer
  | elsewhere

/-- The events that a state allows. -/
def Ready (s : DaemonClient) : Event → Prop
  | .reply request _ _ _ => request ∈ s.requests
  | .timer => s.timer.isSome = true
  | .connect | .disconnect | .submit _ | .elsewhere => True

instance (s : DaemonClient) (e : Event) : Decidable (s.Ready e) := by
  cases e <;> unfold Ready <;> infer_instance

/-- A client for a pool. -/
def init (pool : Pool) (sequence : Int) : DaemonClient where
  pool := pool
  state := .UnconnectedState
  failures := 0
  apiVersion := .MONERO
  job := .empty
  blocktemplate := none
  blockhashingblob := none
  prevHash := none
  requestHeight := 0
  requestHash := none
  results := fun _ => false
  sequence := sequence
  timer := none
  requests := []
  intent := .none
  log := []
  accesses := []

variable [Features]

/-- An event that is allowed; a crash ends the run. -/
def after (s : DaemonClient) : Event → Option DaemonClient
  | .connect => some s.connect
  | .disconnect => some s.disconnect
  | .submit result => some (s.submit result)
  | .reply request data random leaves =>
      ({ s with requests := s.requests.erase request }.onHttpData request data random leaves).toOption
  | .timer => some s.onTimer
  | .elsewhere => some { s with sequence := s.sequence + 1 }

/-- The client of any pool. -/
def machine : Machine DaemonClient Event where
  init s := ∃ pool sequence, s = init pool sequence
  step s e := if s.Ready e then s.after e else none

end DaemonClient

end XLArig
