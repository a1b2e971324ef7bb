import XLArig.Client.Connection
import XLArig.Job.Read

/-!
# XLArig.Client.Messages

How a `Client` handles the lines a pool sends it, whatever they say.

`parse` makes of a line what it asks of the connection, a `Line`, or crashes: a message
of an error, the job of a login, the id, the blob and the target of a job are read without
a check, the host of a redirect may be null, and a target may be divided by.
-/

namespace XLArig

namespace Client

/-- `IClient::Extension`. -/
structure Extensions where
  algo : Bool
  nicehash : Bool
  connect : Bool
  tls : Bool
  keepAlive : Bool
  deriving DecidableEq, Repr

/-- Why a job is not taken: an error code, or it is the job that the client has, the
first one after a login or a later one. -/
inductive Rejection
  | code (n : Nat)
  | same
  | duplicate
  deriving DecidableEq, Repr

/-- What surrounds the handling of a line: what `ParseInsitu` makes of it, what
`onVerifyAlgorithm` answers, and whether the host of a redirect can be looked up. -/
structure Context where
  document : List UInt8 → Option Json
  verify : Algorithm → Bool
  lookup : Bool

/-- The part of a `Client` that handles messages; `callbacks` and `results` are the ids
under which something is kept. -/
structure Messages where
  id : Int
  pool : Pool
  extensions : Extensions
  rpcId : CString
  job : Job
  jobs : UInt64
  callbacks : Int → Bool
  results : Int → Bool

namespace Messages

/-! ## Jobs -/

/-- `has<EXT_NICEHASH>`. -/
def hasNicehash (s : Messages) : Bool := s.extensions.nicehash || s.pool.nicehash

/-- The job that a message is read into. -/
def newJob (s : Messages) : Job :=
  { Job.empty with
    nicehash := s.hasNicehash
    algorithm := s.pool.algorithm
    clientId := s.rpcId }

section

variable [Features]

/-- The blob of a job, or what the daemon of a self-select pool needs for one. -/
def readBlob (s : Messages) (params : Json) (job : Job) : Except Crash (Option Job) :=
  if s.pool.mode = .SELF_SELECT then
    let job := { job with
      extraNonce := params.getString (bytes "extra_nonce")
      poolWallet := params.getString (bytes "pool_wallet") }
    .ok (if job.extraNonce.isNone || job.poolWallet.isNone then none else some job)
  else do
    let blob ← (params.member (bytes "blob")).bind Json.asString
    return job.setBlob (some blob)

/-- The target of a job. -/
def readTarget (params : Json) (job : Job) : Except Crash (Option Job) := do
  let target ← (params.member (bytes "target")).bind Json.asString
  job.setTarget (some target)

/-- The algorithm of a job: that of the message, of the coin or of the pool. -/
def setAlgorithm (s : Messages) (params : Json) (job : Job) : Job :=
  let algo := params.getString (bytes "algo")
  if algo.isSome then { job with algorithm := .parse algo }
  else if s.pool.coin.isValid then { job with algorithm := s.pool.coin.algorithm (job.blob 0) }
  else job

/-- `verifyAlgorithm`. -/
def verifyAlgorithm (verify : Algorithm → Bool) (algorithm : Algorithm) : Bool :=
  algorithm.isValid && verify algorithm

/-- Only a RandomX job that comes with its blob needs a seed. -/
def readSeed (s : Messages) (params : Json) (job : Job) : Option Job :=
  if s.pool.mode ≠ .SELF_SELECT ∧ job.algorithm.family = .RANDOM_X then
    job.setSeedHash (params.getString (bytes "seed_hash"))
  else some job

/-- The job becomes that of the client, unless it is already. -/
def takeJob (s : Messages) (job : Job) : Messages × Option Rejection :=
  let s := { s with job := { s.job with clientId := s.rpcId } }
  if !s.job.isEqual job then
    ({ s with
        jobs := s.jobs + 1
        job }, none)
  else if s.jobs = 0 then (s, some .same)
  else (s, some .duplicate)

/-- `parseJob` after the target was read. -/
def finishJob (s : Messages) (verify : Algorithm → Bool) (params : Json) (job : Job) :
    Messages × Option Rejection :=
  let job := { s.setAlgorithm params job with height := params.getUint64 (bytes "height") }
  if !verifyAlgorithm verify job.algorithm then (s, some (.code 6))
  else
    match s.readSeed params job with
    | none => (s, some (.code 7))
    | some job => s.takeJob job

/-- `parseJob`; none is a new job. -/
def parseJob (s : Messages) (verify : Algorithm → Bool) (params : Json) :
    Except Crash (Messages × Option Rejection) :=
  if !params.isObject then .ok (s, some (.code 2))
  else do
    let id ← (params.member (bytes "job_id")).bind Json.asString
    match s.newJob.setId (some id) with
    | none => return (s, some (.code 3))
    | some job =>
        match ← s.readBlob params job with
        | none => return (s, some (.code 4))
        | some job =>
            match ← readTarget params job with
            | none => return (s, some (.code 5))
            | some job => return s.finishJob verify params job

/-! ## Logins -/

/-- `parseExtensions`. -/
def parseExtensions (s : Messages) (result : Json) : Messages :=
  let names : List (List UInt8) :=
    match result.getValue (bytes "extensions") with
    | .array elements => elements.filterMap fun
        | .string name => some (Json.cstr name)
        | _ => none
    | _ => []
  { s with
    extensions :=
      { algo := names.contains (bytes "algo")
        nicehash := names.contains (bytes "nicehash")
        connect := names.contains (bytes "connect")
        tls := names.contains (bytes "tls")
        keepAlive := names.contains (bytes "keepalive") } }

/-- `parseLogin`. -/
def parseLogin (s : Messages) (verify : Algorithm → Bool) (result : Json) :
    Except Crash (Messages × Option Rejection) :=
  let s := { s with rpcId := result.getString (bytes "id") }
  if s.rpcId.isNone then .ok (s, some (.code 1))
  else do
    let s := s.parseExtensions result
    let params ← result.member (bytes "job")
    let (s, rejection) ← s.parseJob verify params
    return ({ s with jobs := 0 }, rejection)

/-- What the login of a response with id 1 leads to. -/
def login (s : Messages) (verify : Algorithm → Bool) (result : Json) :
    Except Crash (Messages × Line) := do
  match ← s.parseLogin verify result with
  | (s, some (.code 1)) => return (s, .failed none)
  | (s, some _) => return (s, .failed (some s.extensions.keepAlive))
  | (s, none) =>
      if s.job.isValid then
        -- the job is handed to the listener together with the message
        let _ ← result.member (bytes "job")
        return (s, .login s.extensions.keepAlive true)
      else return (s, .login s.extensions.keepAlive false)

end

/-! ## Responses -/

/-- `handleSubmitResponse`. -/
def handleSubmitResponse (s : Messages) (id : Int) : Messages :=
  { s with results := Function.update s.results id false }

/-- `strncasecmp`, for the length of `b`. -/
def startsWith (a b : List UInt8) : Bool := CString.sameIgnoringCase (a.take b.length) b

def isCriticalError (message : List UInt8) : Bool :=
  startsWith message (bytes "Unauthenticated") || startsWith message (bytes "your IP is banned") ||
    startsWith message (bytes "IP Address currently banned") ||
    startsWith message (bytes "Invalid job id")

/-- A response with an error. -/
def failure (s : Messages) (id : Int) (error : Json) : Except Crash (Messages × Line) := do
  let message ← (error.member (bytes "message")).bind Json.asString
  let closes := s.id = 1 ∨ isCriticalError message = true
  return (s.handleSubmitResponse id, if closes then .failed none else .other)

/-- The redirect branch; `Pool` takes no null host. -/
def redirect (s : Messages) (target : Json) (lookup : Bool) : Except Crash (Messages × Line) :=
  match target.getString (bytes "host") with
  | none => .error .nullHost
  | some host =>
      let port := target.getInt64 (bytes "port")
      let pool := s.pool.redirect host port
      .ok ({ s with pool := if pool.isValid then pool else s.pool }, .redirect host port lookup)

variable [Features]

def parseResponse (s : Messages) (ctx : Context) (id : Int) (result error : Json) :
    Except Crash (Messages × Line) :=
  if id ≠ 1 ∧ s.callbacks id = true then
    .ok ({ s with callbacks := Function.update s.callbacks id false }, .other)
  else if error.isObject then s.failure id error
  else if !result.isObject then .ok (s, .other)
  else
    let target := result.getObject (bytes "redirect")
    if target.isObject then s.redirect target ctx.lookup
    else if id = 1 then s.login ctx.verify result
    else .ok (s.handleSubmitResponse id, .other)

/-! ## Lines -/

def parseNotification (s : Messages) (ctx : Context) (method : List UInt8) (params : Json) :
    Except Crash (Messages × Line) :=
  if method = bytes "job" then do
    match ← s.parseJob ctx.verify params with
    | (s, none) => return (s, .job)
    | (s, some _) => return (s, .failed none)
  else .ok (s, .other)

/-- `parse` on a document. -/
def handle (s : Messages) (ctx : Context) (doc : Json) : Except Crash (Messages × Line) :=
  let error := doc.getValue (bytes "error")
  match (doc.getValue (bytes "id")).int64? with
  | some id => s.parseResponse ctx id (doc.getValue (bytes "result")) error
  | none =>
      match doc.getString (bytes "method") with
      | none => .ok (s, .other)
      | some method =>
          if error.isObject then .ok (s, .other)
          else s.parseNotification ctx method (doc.getValue (bytes "params"))

/-- `parse`. -/
def parse (s : Messages) (ctx : Context) (line : List UInt8) : Except Crash (Messages × Line) :=
  if line.length < 32 ∨ line.head? ≠ some 0x7B then .ok (s, .other)
  else
    match ctx.document line with
    | none => .ok (s, .other)
    | some doc => if doc.isObject then s.handle ctx doc else .ok (s, .other)

end Messages

end Client

end XLArig
