import XLArig.Client.Requests
import XLArig.DaemonClient

/-!
# XLArig.SelfSelectClient

`SelfSelectClient`: a pool that leaves it to a daemon to make the blocks.

A job of the pool has no blob.  The client asks its daemon for a template, fills the job
from it, sends the template to the pool in a `block_template` request, and hands the job
over once the pool has acknowledged that.  The pool is reached through an inner `Client`,
the daemon over HTTP; both answer in any order.

The job is one mutable object.  `version` counts the times it was written, `asked` keeps
under the id of a `block_template` request what that was made from, and `answers` how the
replies of the daemon were taken.
-/

namespace XLArig

open Client (toHex)
open Client.Requests (nonceBytes)
open DaemonClient (HttpData kNonceOffset)

namespace SelfSelectClient

/-- `SelfSelectClient::State`. -/
inductive State
  | IdleState
  | WaitState
  | RetryState
  deriving DecidableEq, Repr

/-- A request to the daemon, under its id. -/
inductive Request
  | getblocktemplate (id : Int)
  | submitblock (id : Int)
  deriving DecidableEq, Repr

def Request.id : Request → Int
  | getblocktemplate id | submitblock id => id

/-- How a reply of the daemon is taken: it is left, it is a template, or a failure to get
one. -/
inductive Answer
  | ignored
  | template
  | failure
  deriving DecidableEq, Repr

/-- A reply that was handled, with the id of the newest request by then. -/
structure Answered where
  request : Request
  newest : Int
  answer : Answer
  deriving DecidableEq, Repr

/-- What a `block_template` request was made from: the id and the height of the job, and
the reply of the daemon. -/
structure Asked where
  version : Nat
  jobId : CString
  height : UInt64
  result : Json

/-- The listener is called, and maybe answers; or it gets the job when its strategy
resumes. -/
inductive Entry
  | onVerifyAlgorithm (algorithm : Algorithm) (ok : Bool)
  | onJobReceived (job : Job)
  | resumed (job : Job)
  | onLoginSuccess
  | onClose (failures : Int)

end SelfSelectClient

open SelfSelectClient in
/-- `SelfSelectClient`; `client` is the part of the inner client that sends requests. -/
structure SelfSelectClient where
  submitToOrigin : Bool
  client : Client.Requests
  active : Bool
  retries : Int
  failures : Int
  sequence : Int
  job : Job
  state : State
  blocktemplate : CString
  blockDiff : UInt64
  retryPause : Nat
  timestamp : Nat
  now : Nat
  requests : List Request
  version : Nat
  asked : Int → Option Asked
  acknowledged : List Asked
  answers : List Answered
  log : List Entry

namespace SelfSelectClient

def report (s : SelfSelectClient) (e : Entry) : SelfSelectClient := { s with log := e :: s.log }

/-- The job is written to. -/
def write (s : SelfSelectClient) (job : Job) : SelfSelectClient :=
  { s with
    job
    version := s.version + 1 }

/-! ## States -/

/-- `setState`. -/
def setState (s : SelfSelectClient) (state : State) : SelfSelectClient :=
  if s.state = state then s
  else
    match state with
    | .IdleState =>
        { s with
          timestamp := 0
          failures := 0
          state }
    | .WaitState =>
        { s with
          timestamp := s.now
          state }
    | .RetryState =>
        let t := if s.failures > s.retries then s.report (.onClose s.failures) else s
        { t with
          timestamp := s.now
          failures := s.failures + 1
          state }

def retry (s : SelfSelectClient) : SelfSelectClient := s.setState .RetryState

/-- `getBlockTemplate`. -/
def getBlockTemplate (s : SelfSelectClient) : SelfSelectClient :=
  let s := s.setState .WaitState
  { s with
    requests := .getblocktemplate s.sequence :: s.requests
    sequence := s.sequence + 1 }

/-! ## Templates -/

/-- `required_fields`. -/
def requiredFields : List (List UInt8) :=
  [bytes "blocktemplate_blob", bytes "blockhashing_blob", bytes "height", bytes "difficulty",
    bytes "prev_hash"]

/-- The bytes that are decoded before the first character that is no digit. -/
def hexPrefix : List UInt8 → List UInt8
  | a :: b :: hex =>
      match Cvt.hexValue a, Cvt.hexValue b with
      | some high, some low => (high * 16 ||| low) :: hexPrefix hex
      | _, _ => []
  | _ => []

section

variable [Features]

/-- The job that a `setBlob` leaves which fails. -/
def spoil (job : Job) (blob : List UInt8) : Job :=
  let size := blob.length / 2
  if blob.length % 2 ≠ 0 then { job with size := blob.length }
  else if size < job.nonceOffset + job.nonceSize ∨ size ≥ Job.maxBlobSize then { job with size }
  else
    { job with
      size
      blob := job.blob.load (hexPrefix blob) }

/-- What `setSeedHash` makes of the job, whether it fails or not. -/
def takeSeed (job : Job) (hash : CString) : Job :=
  match hash with
  | none => job
  | some text => if text.length ≠ 64 then job else { job with seed := Cvt.fromHex text }

/-- The job once its blob was taken. -/
def fillJob (pool : Pool) (result : Json) (job : Job) : Job :=
  let job := if pool.coin.isValid then { job with algorithm := pool.coin.algorithm (job.blob 0) }
    else job
  let job := { job with height := result.getUint64 (bytes "height") }
  takeSeed job (result.getString (bytes "seed_hash"))

/-- The parameters of a `block_template` request. -/
def templateParams (rpcId : CString) (job : Job) (result : Json) : Json :=
  .object [(bytes "id", .ofCString rpcId), (bytes "job_id", .ofCString job.id),
    (bytes "blob", result.getValue (bytes "blocktemplate_blob")),
    (bytes "height", .int job.height.toNat),
    (bytes "difficulty", result.getValue (bytes "difficulty")),
    (bytes "prev_hash", result.getValue (bytes "prev_hash")),
    (bytes "seed_hash", result.getValue (bytes "seed_hash")),
    (bytes "next_seed_hash", result.getValue (bytes "next_seed_hash"))]

/-- `submitBlockTemplate`; a request that is transmitted uses up its id. -/
def submitBlockTemplate (s : SelfSelectClient) (result : Json) (layer : Client.Layer) :
    SelfSelectClient :=
  let id := s.client.sequence
  let params := templateParams s.job.clientId s.job result
  let client := (s.client.request layer (.call (bytes "block_template") params)).1
  { s with
    blocktemplate := result.getString (bytes "blocktemplate_blob")
    blockDiff := result.getUint64 (bytes "difficulty")
    client
    asked := if client.sequence = id then s.asked
      else Function.update s.asked id (some ⟨s.version, s.job.id, s.job.height, result⟩) }

/-- `parseResponse`, and what it returns; members that are not there are null. -/
def parseResponse (s : SelfSelectClient) (id : Int) (result error : Json) (layer : Client.Layer) :
    Except Crash (SelfSelectClient × Bool) :=
  if id = -1 then .ok (s, false)
  else if error.isObject then .ok (s, false)
  else if !result.isObject then .ok (s, false)
  else if !requiredFields.all result.hasMember then .ok (s, false)
  else do
    let blob ← (result.member (bytes "blockhashing_blob")).bind Json.asString
    match s.job.setBlob (some blob) with
    | none => return (s.write (spoil s.job blob), false)
    | some job =>
        let s := s.write (fillJob s.client.base.pool result job)
        return (s.submitBlockTemplate result layer, true)

def answer (s : SelfSelectClient) (request : Request) (a : Answer) : SelfSelectClient :=
  { s with answers := ⟨request, s.sequence - 1, a⟩ :: s.answers }

/-- `onHttpData`, for the request that is answered. -/
def onHttpData (s : SelfSelectClient) (request : Request) (data : HttpData)
    (layer : Client.Layer) : Except Crash SelfSelectClient :=
  if data.status ≠ 200 then .ok (s.answer request .failure).retry
  else
    match data.document with
    | none => .ok (s.answer request .failure).retry
    | some doc =>
        let id := ((doc.getValue (bytes "id")).int64?).getD (-1)
        if id > 0 ∧ s.sequence - id ≠ 1 then .ok (s.answer request .ignored)
        else if !doc.isObject then .error .notObject
        else do
          let (s, done) ← s.parseResponse id (doc.getValue (bytes "result"))
            (doc.getObject (bytes "error")) layer
          return if done then s.answer request .template else (s.answer request .failure).retry

end

/-! ## The pool -/

/-- `onJobReceived` of the inner client. -/
def onJobReceived (s : SelfSelectClient) (job : Job) : SelfSelectClient :=
  (s.write job).getBlockTemplate

/-- `onLoginSuccess` of the inner client. -/
def onLoginSuccess (s : SelfSelectClient) : SelfSelectClient :=
  { (s.report .onLoginSuccess).setState .IdleState with active := true }

/-- `onClose` of the inner client. -/
def onClose (s : SelfSelectClient) (failures : Int) : SelfSelectClient :=
  { (s.report (.onClose failures)).setState .IdleState with active := false }

/-- The callback of a `block_template` request. -/
def onBlockTemplate (s : SelfSelectClient) (success : Bool) : SelfSelectClient :=
  if !success then s.retry
  else if !s.active then s
  else
    let s := if s.failures > s.retries then s.report .onLoginSuccess else s
    let s := s.setState .IdleState
    s.report (.onJobReceived s.job)

/-- A response of the pool; one without an error acknowledges its request. -/
def respond (s : SelfSelectClient) (id : Int) (response : Client.Requests.Response) :
    SelfSelectClient :=
  let called := id ≠ 1 ∧ (s.client.callbacks id).isSome = true
  let success : Bool := response ≠ .error
  let s := { s with
    client := s.client.parseResponse id response
    acknowledged := (if success then (s.asked id).toList else []) ++ s.acknowledged }
  if called then s.onBlockTemplate success else s

/-! ## Submits and time -/

/-- `JobResult::actualDiff`. -/
def actualDiff (result : JobResult) : UInt64 := Job.toDiff (result.result.read64 24)

/-- A result goes to the daemon as well. -/
def Submits (s : SelfSelectClient) (result : JobResult) : Prop :=
  s.submitToOrigin = true ∧ result.diff ≠ 0 ∧ s.blockDiff ≠ 0 ∧ s.blockDiff ≤ actualDiff result

instance (s : SelfSelectClient) (result : JobResult) : Decidable (s.Submits result) :=
  inferInstanceAs (Decidable (_ ∧ _))

/-- `submitOriginDaemon`; the id of the request is not used up. -/
def submitOriginDaemon (s : SelfSelectClient) (result : JobResult) : SelfSelectClient :=
  if s.Submits result then
    { s with
      blocktemplate := DaemonClient.overwrite s.blocktemplate kNonceOffset (toHex (nonceBytes result))
      requests := .submitblock s.sequence :: s.requests }.getBlockTemplate
  else s

/-- `tick`, after `ms` milliseconds. -/
def tick (s : SelfSelectClient) (ms : Nat) : SelfSelectClient :=
  let s := { s with now := s.now + ms }
  if s.state = .RetryState ∧ s.retryPause ≤ s.now - s.timestamp then s.getBlockTemplate else s

/-! ## The machine -/

/-- What the inner client tells, sends by itself or is answered; a result to submit, the
replies of the daemon, time, and the strategy that resumes.  `layer` is what becomes of a
request to the pool. -/
inductive Event
  | onVerifyAlgorithm (algorithm : Algorithm) (ok : Bool)
  | onJobReceived (job : Job)
  | onLoginSuccess
  | onClose (failures : Int)
  | login (layer : Client.Layer) (added : List (List UInt8 × Json))
  | ping (layer : Client.Layer)
  | response (id : Int) (response : Client.Requests.Response)
  | connected (connected : Bool)
  | elsewhere
  | submit (result : JobResult) (layer : Client.Layer)
  | reply (request : Request) (data : HttpData) (layer : Client.Layer)
  | tick (ms : Nat)
  | resume

/-- Only a request in flight is answered. -/
def Ready (s : SelfSelectClient) : Event → Prop
  | .reply request _ _ => request ∈ s.requests
  | _ => True

instance (s : SelfSelectClient) (e : Event) : Decidable (s.Ready e) := by
  cases e <;> unfold Ready <;> infer_instance

/-- The inner client sends a request of its own. -/
def send [Features] (s : SelfSelectClient) (layer : Client.Layer) (r : Client.Request) :
    SelfSelectClient :=
  { s with client := (s.client.request layer r).1 }

/-- An event that is allowed; a crash ends the run. -/
def after [Features] (s : SelfSelectClient) : Event → Option SelfSelectClient
  | .onVerifyAlgorithm algorithm ok => some (s.report (.onVerifyAlgorithm algorithm ok))
  | .onJobReceived job => some (s.onJobReceived job)
  | .onLoginSuccess => some s.onLoginSuccess
  | .onClose failures => some (s.onClose failures)
  | .login layer added => some (s.send layer (.login added))
  | .ping layer => some (s.send layer .ping)
  | .response id response => some (s.respond id response)
  | .connected connected => some { s with client := { s.client with connected } }
  | .elsewhere => some { s with client := { s.client with sequence := s.client.sequence + 1 } }
  | .submit result layer => some ((s.submitOriginDaemon result).send layer (.submit result))
  | .reply request data layer =>
      ({ s with requests := s.requests.erase request }.onHttpData request data layer).toOption
  | .tick ms => some (s.tick ms)
  | .resume => some (s.report (.resumed s.job))

/-- A client of a pool, before it is connected. -/
def init (submitToOrigin : Bool) (client : Client.Requests) (retries : Int) (retryPause : Nat)
    (now : Nat) : SelfSelectClient where
  submitToOrigin := submitToOrigin
  client := client
  active := false
  retries := retries
  failures := 0
  sequence := 1
  job := .empty
  state := .IdleState
  blocktemplate := none
  blockDiff := 0
  retryPause := retryPause
  timestamp := 0
  now := now
  requests := []
  version := 0
  asked := fun _ => none
  acknowledged := []
  answers := []
  log := []

/-- The client of any pool. -/
def machine [Features] : Machine SelfSelectClient Event where
  init s := ∃ submitToOrigin base agent brand sequence retries retryPause now,
    s = init submitToOrigin (.init base agent brand sequence) retries retryPause now
  step s e := if s.Ready e then s.after e else none

end SelfSelectClient

end XLArig
